import Pafs.Ledger

/-! Every callback of `PageAlignFS` keeps to the accounts: it touches an inode only while
something keeps it alive, takes and drops its references in pairs, closes what it opened,
and replies once. -/
namespace Pafs
open Resumption
open Routine (Follows)

variable {σ α : Type} {P : Platform} {fs : PageAlignFS} {l : Ledger} {s : σ}

theorem steady_getFileVersionFromPathFD (fd : Fd) :
    Steady l (getFileVersionFromPathFD fd : Io σ (Except VersionError Nat)) := by
  intro s
  unfold getFileVersionFromPathFD
  rw [Routine.follows_bind, Routine.follows_invoke]
  refine ⟨.plain rfl rfl trivial, fun opened _ => ?_⟩
  cases opened with
  | error e => exact ⟨rfl, rfl⟩
  | ok myfd =>
      change Follows accounts _ s (l.gain myfd) _
      rw [Routine.follows_bind, Routine.follows_invoke]
      have mine : ∀ fd ∈ [myfd], (l.gain myfd).MayUse fd := by
        intro fd h
        rw [List.mem_singleton] at h
        subst h
        exact .inl (l.gain_pos fd)
      refine ⟨.use mine rfl rfl trivial, fun version _ => ?_⟩
      change Follows accounts _ s (l.gain myfd) _
      rw [Routine.follows_bind]
      apply follows_destroyFd
      cases version with
      | error e => exact ⟨rfl, rfl⟩
      | ok v => exact ⟨rfl, rfl⟩

/-- The generation that is returned is the one in the memo, or the one put there. -/
theorem follows_getGeneration {a : Addr} {Q : StatusOr Nat → σ → Ledger → Prop}
    (held : 0 < l.shared a) (error : ∀ e l', l.Learns l' → Q (.error e) s l')
    (ok : ∀ v l', l.Learns l' → l'.seen.devices = l.seen.devices →
      (a, v) ∈ l'.seen.generations → Q (.ok v) s l') :
    Follows accounts (Inode.getGeneration P (.node a)) s l Q := by
  have known : ∀ {l₁ : Ledger} (v : Except VersionError Nat), l.Learns l₁ →
      l₁.seen.devices = l.seen.devices → Q (versionStatus P v) s (l₁.sawGeneration a (some v)) := by
    intro l₁ v learns devices
    have learns' := learns.trans (.sawGeneration l₁ a (some v))
    cases v with
    | error err => exact error _ _ learns'
    | ok v => exact ok v _ learns' devices List.mem_cons_self
  have reaches := Ledger.reaches_shared held
  unfold Inode.getGeneration
  rw [Routine.follows_bind, Routine.follows_invoke]
  refine ⟨.touch reaches rfl rfl trivial, fun memo _ => ?_⟩
  change Follows accounts _ s (l.sawGeneration a memo) _
  cases memo with
  | some v => exact known v (.refl l) rfl
  | none =>
      have learns := Ledger.Learns.sawGeneration l a none
      have reaches₁ : (l.sawGeneration a none).Reaches (.node a) := reaches
      dsimp only
      rw [Routine.follows_bind, Routine.follows_invoke]
      refine ⟨.touch reaches₁ rfl rfl trivial, fun fd _ => ?_⟩
      dsimp only
      rw [Routine.follows_bind]
      refine (steady_getFileVersionFromPathFD fd s).mono fun v s' l' same => ?_
      obtain ⟨rfl, rfl⟩ := same
      cases v with
      | error e => exact error e _ learns
      | ok v =>
          dsimp only
          rw [Routine.follows_bind, Routine.follows_invoke]
          exact ⟨.touch reaches₁ rfl rfl ⟨a, rfl, held, rfl⟩, fun _ _ => known v learns rfl⟩

theorem follows_statFD {fd : Fd} {Q : StatusOr Stat → σ → Ledger → Prop}
    (error : ∀ e, Q (.error e) s l) (ok : ∀ st, Q (.ok st) s (l.sawStat st)) :
    Follows accounts (statFD P fd) s l Q := by
  unfold statFD Syscalls.fstatat
  rw [follows_syscall]
  exact ⟨.plain rfl rfl trivial, fun e _ => error _, fun st _ => ok st⟩

theorem follows_findOrCreateInode {parent : InodeRef} {path : String}
    {Q : StatusOr Addr → σ → Ledger → Prop} (reaches : l.Reaches parent)
    (error : ∀ e, Q (.error e) s l) (ok : ∀ a l', l.Learns l' → Q (.ok a) s (l'.hold a)) :
    Follows accounts (fs.findOrCreateInode parent path) s l Q := by
  unfold PageAlignFS.findOrCreateInode Inode.create Syscalls.openat
  rw [Routine.follows_bind, Routine.follows_invoke]
  refine ⟨.touch reaches rfl rfl trivial, fun parentFd _ => ?_⟩
  change Follows accounts _ s l _
  rw [Routine.follows_bind, Routine.follows_bind, follows_syscall]
  refine ⟨.plain rfl rfl trivial, fun e _ => error _, fun fd _ => ?_⟩
  change Follows accounts _ s (l.gain fd) _
  rw [Routine.follows_bind, Routine.follows_onError]
  refine follows_statFD (fun e => ?_) (fun st => ?_)
  · exact follows_destroyFd (error e)
  · let i : Inode := ⟨fd, st.stIno, st.stDev, none, none⟩
    refine follows_insert (l := l.sawStat st) (i := i) rfl (List.mem_cons_self : st ∈ _) rfl ?_
    intro a l' learns
    exact ok a l' ((Ledger.Learns.sawStat l st).trans learns)

theorem follows_createFuseEntryParam {inode : Addr} {withGeneration : Bool}
    {Q : StatusOr EntryParam → σ → Ledger → Prop} (opts : l.opts = fs.opts)
    (held : 0 < l.shared inode) (error : ∀ e l', l.Learns l' → Q (.error e) s l')
    (ok : ∀ param l', l.Learns l' → l'.seen.devices = l.seen.devices → param.ino = inode →
      (withGeneration = true → l'.Covers param) → Q (.ok param) s l') :
    Follows accounts (fs.createFuseEntryParam inode withGeneration) s l Q := by
  unfold PageAlignFS.createFuseEntryParam
  rw [Routine.follows_bind, Routine.follows_invoke]
  refine ⟨.touch (Ledger.reaches_shared held) rfl rfl trivial, fun fd _ => ?_⟩
  change Follows accounts _ s l _
  rw [Routine.follows_bind]
  refine follows_statFD (fun e => error e l (.refl l)) (fun st => ?_)
  have learns := Ledger.Learns.sawStat l st
  cases withGeneration with
  | false => exact ok _ _ learns rfl rfl fun h => nomatch h
  | true =>
      dsimp only
      rw [if_pos rfl, Routine.follows_bind]
      refine follows_getGeneration (l := l.sawStat st) held (fun e l' learns' => ?_)
        (fun v l' learns' devices known => ?_)
      · exact error e l' (learns.trans learns')
      · refine ok _ l' (learns.trans learns') devices rfl fun _ => ⟨?_, ?_, v, rfl, known⟩
        · exact learns'.stats st List.mem_cons_self
        · rw [learns'.opts]
          exact congrArg Options.kernelAttributeTimeout opts.symm

/-- A reply with one entry, as `ReplyWithCreate` and `ReplyWithLookup` make it. -/
structure OneEntry (l : Ledger) (mk : EntryParam → Reply) : Prop where
  params : ∀ param, (mk param).params = [param]
  other : ∀ param st timeout, mk param ≠ .attr st timeout
  handle : ∀ param fd, (mk param).handle l.req = some fd → 0 < l.fds fd
  refused : ∀ param, (Call.fuseReply l.req (mk param)).refused = []

theorem OneEntry.entries {mk : EntryParam → Reply} (one : OneEntry l mk) (param : EntryParam) :
    (mk param).entries = [param.ino] := by
  rw [Reply.entries_eq, one.params, List.map_singleton]

/-- How the ledger looks once a handler is done with such a reply. -/
def EntryReplied (l : Ledger) (mk : EntryParam → Reply) : Status → FuseRequest → Ledger → Prop
  | .ok _, s, l' => s.req = none ∧ ∃ param, Ledger.Rests
      { l with
        owed := false
        fds := l.fds - fun fd => if (mk param).handle l.req = some fd then 1 else 0 } l'
  | .error _, s, l' => (s.req = some l.req ∧ l.Rests l') ∨
      (s.req = none ∧ Ledger.Rests { l with owed := false } l')

theorem follows_send_entry {what : String} {mk : EntryParam → Reply} {param : EntryParam}
    (one : OneEntry l mk) (owed : l.owed = true) (refs : l.refs = 0) (held : 0 < l.shared param.ino)
    (compared : l.Compared param.ino) (covers : l.Covers param) :
    Follows accounts ((FuseRequest.send P what (mk param)).onError
        (Inodes.unref .cleanup (.node param.ino) 1)) { req := some l.req } (l.refer param.ino)
      (EntryReplied l mk) := by
  rw [Routine.follows_onError, FuseRequest.follows_send_some]
  refine ⟨.plain rfl (one.refused param) ?_, fun rc _ => ?_⟩
  · constructor
    · rfl
    · exact owed
    · intro a
      simp only [one.entries, Ledger.refer, refs, zero_add, Pi.single_apply, List.count_cons,
        List.count_nil, beq_iff_eq]
      exact if_congr eq_comm rfl rfl
    · intro a h
      rw [one.entries, List.mem_singleton] at h
      subst h
      exact held
    · intro a h
      rw [one.entries, List.mem_singleton] at h
      subst h
      exact .inr compared
    · exact one.handle param
    · intro p h
      rw [one.params, List.mem_singleton] at h
      subst h
      exact ⟨covers.attr, covers.timeout, covers.generation⟩
    · exact fun st timeout h => absurd h (one.other param st timeout)
  · cases rc with
    | none =>
        refine ⟨rfl, param, l.seen, ?_⟩
        simp only [accounts, Ledger.after, Ledger.sent, Ledger.refer, refs]
    | some e =>
        change Follows accounts _ _ ({ l with owed := false }.refer param.ino) _
        exact follows_cleanup held (.inr ⟨rfl, .refl _⟩)

theorem EntryReplied.rests {mk : EntryParam → Reply} {status : Status} {s : FuseRequest}
    {l l₁ l' : Ledger} (rests : l.Rests l₁) (h : EntryReplied l₁ mk status s l') :
    EntryReplied l mk status s l' := by
  obtain ⟨seen, rfl⟩ := rests
  cases status with
  | ok _ => exact h
  | error e => exact h

theorem EntryReplied.drop {mk : EntryParam → Reply} {status : Status} {s : FuseRequest}
    {a : Addr} {l' : Ledger} (h : EntryReplied (l.hold a) mk status s l') :
    Follows accounts (Inodes.dropShared a) s l' fun _ s' l'' => EntryReplied l mk status s' l'' := by
  cases status with
  | ok _ =>
      obtain ⟨gone, param, seen, rfl⟩ := h
      exact follows_dropShared (l := { l with
        owed := false
        fds := l.fds - fun fd => if (mk param).handle l.req = some fd then 1 else 0
        seen := seen }) ⟨gone, param, seen, rfl⟩
  | error e =>
      obtain ⟨here, seen, rfl⟩ | ⟨gone, seen, rfl⟩ := h
      · exact follows_dropShared (l := { l with seen := seen }) (.inl ⟨here, seen, rfl⟩)
      · exact follows_dropShared (l := { l with owed := false, seen := seen })
          (.inr ⟨gone, seen, rfl⟩)

/-- Whatever was read in between, a failure before the reply leaves the request owed. -/
theorem EntryReplied.failed {mk : EntryParam → Reply} {a : Addr} {l₁ l₂ : Ledger} (e : Error)
    (rests : l.Rests l₁) (learns : (l₁.hold a).Learns l₂) :
    Follows accounts (Inodes.dropShared a) { req := some l.req } l₂ fun _ s' l' =>
      EntryReplied l mk (.error e) s' l' := by
  obtain ⟨seen, rfl⟩ := rests
  have replied : EntryReplied (Ledger.hold { l with seen := seen } a) mk (.error e)
      { req := some l.req } l₂ := .inl ⟨rfl, learns.rests⟩
  exact replied.drop.mono fun _ _ _ h => h.rests ⟨seen, rfl⟩

theorem follows_replyWithEntry {parent : Addr} {name what : String} {mk : EntryParam → Reply}
    (one : OneEntry l mk) (opts : l.opts = fs.opts) (owed : l.owed = true)
    (named : parent ∈ l.request.names) (refs : l.refs = 0) :
    Follows accounts (fs.replyWithEntry (getInode parent) name fun param =>
      FuseRequest.send fs.platform what (mk param)) { req := some l.req } l (EntryReplied l mk) := by
  unfold PageAlignFS.replyWithEntry
  rw [Routine.follows_bind]
  refine follows_findOrCreateInode (Ledger.reaches_getInode owed named)
    (fun e => .inl ⟨rfl, .refl l⟩) fun a l₀ learns₀ => ?_
  obtain ⟨seen₀, rfl⟩ := learns₀.rests
  dsimp only
  rw [Routine.follows_andFinally, Routine.follows_bind, Routine.follows_invoke]
  refine ⟨.touch (Ledger.reaches_getInode owed named) rfl rfl trivial, fun parentDevice _ => ?_⟩
  dsimp only
  rw [Routine.follows_bind, Routine.follows_invoke]
  refine ⟨.touch (Ledger.reaches_shared (Ledger.hold_pos _ a)) rfl rfl trivial, fun device _ => ?_⟩
  -- the two devices read here are what the comparison is about
  let l₁ : Ledger := (Ledger.sawDevice { l with seen := seen₀ } (getInode parent) parentDevice).sawDevice
    (.node a) device
  have rests : l.Rests l₁ := ⟨_, rfl⟩
  change Follows accounts _ _ (l₁.hold a) _
  rw [Routine.follows_ite]
  refine ⟨fun _ => EntryReplied.failed _ rests (.refl _), fun same => ?_⟩
  rw [Routine.follows_bind]
  refine follows_createFuseEntryParam opts (l₁.hold_pos a)
    (fun e l₂ learns => EntryReplied.failed e rests learns)
    (fun param l₂ learns devices ino covers => ?_)
  subst ino
  obtain ⟨seen, rfl⟩ := learns.rests
  let l₂ : Ledger := { l₁ with seen := seen }
  have rests' : l.Rests l₂ := ⟨seen, rfl⟩
  have compared : (l₂.hold param.ino).Compared param.ino := by
    refine ⟨device, ?_, parent, named, ?_⟩
    · change _ ∈ seen.devices
      rw [devices]
      exact List.mem_cons_self
    · change _ ∈ seen.devices
      rw [devices, ← not_ne_iff.mp same]
      exact List.mem_cons_of_mem _ List.mem_cons_self
  have one' : OneEntry (l₂.hold param.ino) mk := ⟨one.params, one.other, one.handle, one.refused⟩
  have covers := covers rfl
  obtain ⟨v, -, known⟩ := covers.generation
  change Follows accounts _ _ (l₂.hold param.ino) _
  rw [Routine.follows_bind]
  refine follows_ref (l₂.hold_pos param.ino) known ?_
  refine (follows_send_entry one' owed refs (l₂.hold_pos param.ino) compared covers).mono ?_
  intro status s' l' replied
  exact replied.drop.mono fun _ _ _ h => h.rests rests'

/-! Directory listings. While ReadDirPlus runs, each listed inode is held once by its
`shared_ptr` and once by the reference taken for the reply. -/

/-- The ledger of a listing with these inodes in its vector. -/
def Ledger.listing (l : Ledger) (inodes : List Addr) : Ledger :=
  { l with shared := fun a => inodes.count a, refs := fun a => inodes.count a }

def FuseDirsBuilder.inodes (d : FuseDirsBuilder) : List Addr := d.buf.map fun r => r.param.ino

theorem follows_addDirEntry {d : FuseDirsBuilder} {name : String} {param : EntryParam}
    {offset : Int} {Q : StatusOr (Option { d' // d.Grows d' }) → σ → Ledger → Prop}
    (full : Q (.ok none) s l)
    (added : ∀ (next : { d' // d.Grows d' }) size, next.1.buf = d.buf ++ [⟨name, param, offset, size⟩] →
      Q (.ok (some next)) s l) :
    Follows accounts (d.addDirEntry P name param offset) s l Q := by
  unfold FuseDirsBuilder.addDirEntry
  dsimp only
  split
  · rw [Routine.follows_bind, follows_check]
    exact ⟨fun _ => added _ _ rfl, fun _ => .plain rfl rfl fun h => nomatch h⟩
  · exact full

/-- What one round leaves behind. -/
def RoundKept (l : Ledger) (dirs : FuseDirsBuilder) :
    StatusOr (PageAlignFS.ReadDirRound dirs) → Ledger → Prop
  | .error _, l' | .ok .stop, l' => l.Learns l'
  | .ok (.added _ _ none), l' => dirs.plus = false ∧ l.Learns l'
  | .ok (.added next _ (some a)), l' => dirs.plus = true ∧ ∃ l₁, l.Learns l₁ ∧ l' = (l₁.refer a).hold a ∧
      ∃ r : DirRecord, r.param.ino = a ∧ l'.Covers r.param ∧ next.buf = dirs.buf ++ [r]

theorem Ledger.listing_nil (shared : l.shared = 0) (refs : l.refs = 0) : l.listing [] = l := by
  cases l
  subst shared refs
  rfl

theorem Ledger.listing_append (l : Ledger) (inodes : List Addr) (a : Addr) :
    l.listing (inodes ++ [a]) = ((l.listing inodes).refer a).hold a := by
  have counts : (fun b => (inodes ++ [a]).count b) = (fun b => inodes.count b) + Pi.single a 1 := by
    funext b
    simp only [List.count_append, List.count_cons, List.count_nil, beq_iff_eq, zero_add,
      Pi.add_apply, Pi.single_apply]
    rw [if_congr (eq_comm (a := a) (b := b)) rfl rfl]
  simp only [listing, refer, hold, counts]

/-- A held inode is dropped, and only what was read stays. -/
theorem Ledger.Learns.drop {a : Addr} {l' : Ledger} {Q : Status → σ → Ledger → Prop}
    (learns : (l.hold a).Learns l') (q : ∀ l₁, l.Learns l₁ → Q (.ok ()) s l₁) :
    Follows accounts (Inodes.dropShared a) s l' Q := by
  obtain ⟨⟨seen, rfl⟩, stats, generations⟩ := learns
  refine follows_dropShared (l := { l with seen := seen }) (q _ ⟨⟨seen, rfl⟩, stats, ?_⟩)
  intro b v mem pos
  exact generations b v mem (pos.trans_le (Nat.le_add_right _ _))

theorem follows_readDirRound {dirInode : InodeRef} {dir : DirPtr} {dirs : FuseDirsBuilder}
    (opts : l.opts = fs.opts) (reaches : l.Reaches dirInode) :
    Follows accounts (fs.readDirRound dirInode dir dirs) s l fun r s' l' =>
      s' = s ∧ RoundKept l dirs r l' := by
  unfold PageAlignFS.readDirRound Syscalls.readdir
  rw [Routine.follows_bind, follows_syscall]
  refine ⟨.plain rfl rfl trivial, fun e _ => ⟨rfl, .refl l⟩, fun entry _ => ?_⟩
  change Follows accounts _ s l _
  cases entry with
  | none => exact ⟨rfl, .refl l⟩
  | some entry =>
      dsimp only
      rw [Routine.follows_bind]
      refine follows_findOrCreateInode reaches (fun e => ⟨rfl, .refl l⟩) fun a l₁ learns₁ => ?_
      dsimp only
      -- from here on the inode is held, and every way out drops it or lists it
      rw [Routine.follows_bind, Routine.follows_onError, Routine.follows_bind]
      refine follows_createFuseEntryParam (l := l₁.hold a) (learns₁.opts.trans opts) (l₁.hold_pos a)
        (fun e l₂ learns₂ => ?_) (fun param l₂ learns₂ _ ino covers => ?_)
      · exact learns₂.drop fun l₃ learns₃ => ⟨rfl, learns₁.trans learns₃⟩
      · dsimp only
        rw [Routine.follows_bind]
        refine follows_addDirEntry ?_ fun next size listed => ?_
        · dsimp only
          rw [Routine.follows_pure]
          dsimp only
          rw [Routine.follows_bind]
          exact learns₂.drop fun l₃ learns₃ => ⟨rfl, learns₁.trans learns₃⟩
        · subst ino
          dsimp only
          rw [Routine.follows_bind]
          cases plus : dirs.plus with
          | false =>
              rw [doIf, if_neg Bool.false_ne_true, Routine.follows_pure]
              dsimp only
              rw [Routine.follows_pure]
              dsimp only
              rw [if_neg Bool.false_ne_true, Routine.follows_bind]
              exact learns₂.drop fun l₃ learns₃ => ⟨rfl, plus, learns₁.trans learns₃⟩
          | true =>
              have covers := covers plus
              obtain ⟨v, -, known⟩ := covers.generation
              obtain ⟨⟨seen, rfl⟩, stats, generations⟩ := learns₂
              rw [doIf, if_pos rfl]
              refine follows_ref (Ledger.hold_pos l₁ param.ino) known ?_
              dsimp only
              rw [Routine.follows_pure]
              dsimp only
              rw [if_pos rfl]
              refine ⟨rfl, plus, { l₁ with seen := seen }, learns₁.trans ⟨⟨seen, rfl⟩, stats, ?_⟩, rfl,
                ⟨_, param, _, size⟩, rfl, ?_, listed⟩
              · intro b v mem pos
                exact generations b v mem (pos.trans_le (Nat.le_add_right _ _))
              · exact ⟨covers.attr, covers.timeout, covers.generation⟩

/-- What the loop leaves behind: the vector lists exactly the references that are held, and
a buffer with attributes lists exactly the vector. -/
structure LoopKept (l : Ledger) (plus : Bool) (listed : StatusOr FuseDirsBuilder)
    (inodes : List Addr) (l' : Ledger) : Prop where
  rests : (l.listing inodes).Rests l'
  empty : plus = false → inodes = []
  listed : ∀ d, listed = .ok d → d.plus = plus ∧ (plus = true → d.inodes = inodes ∧
    ∀ r ∈ d.buf, l'.Covers r.param)

theorem LoopKept.learns {plus : Bool} {listed : StatusOr FuseDirsBuilder} {inodes : List Addr}
    {l₁ l₂ : Ledger} (kept : LoopKept l plus listed inodes l₁) (learns : l₁.Learns l₂) :
    LoopKept l plus listed inodes l₂ := by
  refine ⟨kept.rests.trans learns.rests, kept.empty, fun d ok => ⟨(kept.listed d ok).1, fun h => ?_⟩⟩
  obtain ⟨same, covers⟩ := (kept.listed d ok).2 h
  refine ⟨same, fun r mem => learns.covers ?_ (covers r mem)⟩
  obtain ⟨seen, rfl⟩ := kept.rests
  change 0 < inodes.count r.param.ino
  rw [List.count_pos_iff, ← same]
  exact List.mem_map_of_mem mem

theorem LoopKept.push {dirs next : FuseDirsBuilder} {inodes : List Addr} {r : DirRecord}
    {l₁ : Ledger} (kept : LoopKept l dirs.plus (.ok dirs) inodes l₁) (grows : dirs.Grows next)
    (plus : dirs.plus = true) (covers : l₁.Covers r.param) (buf : next.buf = dirs.buf ++ [r]) :
    LoopKept l next.plus (.ok next) (inodes ++ [r.param.ino])
      ((l₁.refer r.param.ino).hold r.param.ino) := by
  obtain ⟨same, covers'⟩ := (kept.listed dirs rfl).2 plus
  constructor
  · obtain ⟨seen, rfl⟩ := kept.rests
    refine ⟨seen, ?_⟩
    rw [Ledger.listing_append]
    rfl
  · intro plain
    rw [grows.plus, plus] at plain
    cases plain
  · rintro d ⟨⟩
    refine ⟨rfl, fun _ => ⟨?_, fun r' mem => ?_⟩⟩
    · simp only [FuseDirsBuilder.inodes, buf, List.map_append, List.map_singleton, ← same]
    · rw [buf, List.mem_append, List.mem_singleton] at mem
      have covered : l₁.Covers r'.param := by
        rcases mem with mem | rfl
        · exact covers' r' mem
        · exact covers
      exact ⟨covered.attr, covered.timeout, covered.generation⟩

theorem follows_readDirLoop {dirInode : InodeRef} {dir : DirPtr} {room : Nat}
    {dirs : FuseDirsBuilder} {inodes : List Addr} (h : dirs.maxsize - dirs.size < room)
    (opts : l.opts = fs.opts)
    (reaches : ∀ inodes l', Ledger.Rests (l.listing inodes) l' → l'.Reaches dirInode) {l' : Ledger}
    (kept : LoopKept l dirs.plus (.ok dirs) inodes l') :
    Follows accounts (fs.readDirLoop dirInode dir room dirs inodes h) s l' fun r s' l'' =>
      s' = s ∧ ∃ listed inodes', r = .ok (listed, inodes') ∧
        LoopKept l dirs.plus listed inodes' l'' := by
  -- the induction is on the room that is left in the buffer
  induction room generalizing dirs inodes l' with
  | zero => exact absurd h (Nat.not_lt_zero _)
  | succ room ih =>
      have opts' : l'.opts = fs.opts := by
        obtain ⟨seen, rfl⟩ := kept.rests
        exact opts
      unfold PageAlignFS.readDirLoop
      rw [Routine.follows_bind, Routine.follows_attempt]
      refine (follows_readDirRound opts' (reaches inodes l' kept.rests)).mono fun round s' l'' after => ?_
      obtain ⟨rfl, round_kept⟩ := after
      rcases round with e | _ | ⟨next, grows, _ | a⟩
      · exact ⟨rfl, _, _, rfl, (kept.learns round_kept).rests, kept.empty, fun d h => by cases h⟩
      · exact ⟨rfl, _, _, rfl, kept.learns round_kept⟩
      · obtain ⟨plain, learns⟩ := round_kept
        have next_kept : LoopKept l next.plus (.ok next) (inodes ++ []) l'' := by
          rw [List.append_nil]
          refine ⟨(kept.learns learns).rests, fun _ => kept.empty plain, ?_⟩
          rintro d ⟨⟩
          refine ⟨rfl, fun plus => ?_⟩
          rw [grows.plus, plain] at plus
          cases plus
        rw [← grows.plus]
        exact ih _ next_kept
      · obtain ⟨plus, l₁, learns, rfl, r, rfl, covers, buf⟩ := round_kept
        rw [← grows.plus]
        exact ih _ ((kept.learns learns).push grows plus
          ⟨covers.attr, covers.timeout, covers.generation⟩ buf)

theorem count_cons_eq (a : Addr) (inodes : List Addr) :
    (fun b => (a :: inodes).count b) = (fun b => inodes.count b) + Pi.single a 1 := by
  funext b
  simp only [List.count_cons, beq_iff_eq, Pi.add_apply, Pi.single_apply]
  rw [if_congr (eq_comm (a := a) (b := b)) rfl rfl]

theorem follows_unrefAll {inodes : List Addr} {Q : Status → σ → Ledger → Prop}
    (held : ∀ a ∈ inodes, 0 < l.shared a) (refs : l.refs = 0) (q : Q (.ok ()) s l) :
    Follows accounts (Inodes.unrefAll inodes) s { l with refs := fun a => inodes.count a } Q := by
  induction inodes with
  | nil =>
      change Q (.ok ()) s { l with refs := 0 }
      rw [← refs]
      exact q
  | cons a inodes ih =>
      rw [count_cons_eq]
      change Follows accounts _ s (Ledger.refer { l with refs := fun a => inodes.count a } a) _
      unfold Inodes.unrefAll
      rw [Routine.follows_bind, Routine.follows_attempt]
      refine follows_cleanup (held a List.mem_cons_self) ?_
      exact ih fun b hb => held b (List.mem_cons_of_mem a hb)

theorem follows_dropAllShared {inodes : List Addr} {Q : Status → σ → Ledger → Prop}
    (shared : l.shared = 0) (q : Q (.ok ()) s l) :
    Follows accounts (Inodes.dropAllShared inodes) s
      { l with shared := fun a => inodes.count a } Q := by
  induction inodes with
  | nil =>
      change Q (.ok ()) s { l with shared := 0 }
      rw [← shared]
      exact q
  | cons a inodes ih =>
      rw [count_cons_eq]
      change Follows accounts _ s (Ledger.hold { l with shared := fun a => inodes.count a } a) _
      unfold Inodes.dropAllShared
      rw [Routine.follows_bind]
      exact follows_dropShared ih

theorem entries_dirs (d : FuseDirsBuilder) :
    (Reply.buf (.dirs d.plus d.buf)).entries = if d.plus then d.inodes else [] := by
  cases d.plus <;> rfl

/-- The end of a listing: the buffer is sent, or the references taken for it are undone. -/
theorem follows_replyDirs {plus : Bool} {listed : StatusOr FuseDirsBuilder} {inodes : List Addr}
    (idle : l.Idle) (plus_ok : plus = true → l.request.isReaddirplus = true)
    (empty : plus = false → inodes = [])
    (lists : ∀ d, listed = .ok d → d.plus = plus ∧ (plus = true → d.inodes = inodes ∧
      ∀ r ∈ d.buf, l.Covers r.param)) :
    Follows accounts (Routine.onError (do
        let dirs ← Routine.ofExcept listed
        dirs.reply P) (Inodes.unrefAll inodes)) { req := some l.req } (l.listing inodes)
      fun _ s' l' => ∃ owed, s'.req = (if owed then some l.req else none) ∧
        l' = { l with owed := owed, shared := fun a => inodes.count a } := by
  have undo : ∀ (s' : FuseRequest) owed, s'.req = (if owed then some l.req else none) →
      Follows accounts (Inodes.unrefAll inodes) s'
        { l.listing inodes with owed := owed } fun _ s'' l' => ∃ owed,
          s''.req = (if owed then some l.req else none) ∧
            l' = { l with owed := owed, shared := fun a => inodes.count a } := by
    intro s' owed linked
    refine follows_unrefAll (l := { l with owed := owed, shared := fun a => inodes.count a })
      (fun a h => List.count_pos_iff.mpr h) idle.refs ⟨owed, linked, rfl⟩
  rw [Routine.follows_onError, Routine.follows_bind, Routine.follows_ofExcept]
  cases listed with
  | error e =>
      have same : l.listing inodes = { l.listing inodes with owed := true } := by
        rw [← idle.owed]
        rfl
      rw [same]
      exact undo _ true rfl
  | ok d =>
      obtain ⟨d_plus, d_inodes⟩ := lists d rfl
      have entries : (Reply.buf (.dirs d.plus d.buf)).entries = inodes := by
        rw [entries_dirs, d_plus]
        cases plus with
        | true => exact (d_inodes rfl).1
        | false => exact (empty rfl).symm
      have covers : ∀ param ∈ (Reply.buf (.dirs d.plus d.buf)).params,
          (l.listing inodes).Covers param := by
        intro param mem
        rw [d_plus] at mem
        cases plus with
        | true =>
            obtain ⟨r, listed, rfl⟩ := List.mem_map.mp mem
            have covered := (d_inodes rfl).2 r listed
            exact ⟨covered.attr, covered.timeout, covered.generation⟩
        | false => cases mem
      have listed_plus : ∀ a ∈ inodes, l.request.isReaddirplus = true := by
        intro a h
        cases plus with
        | true => exact plus_ok rfl
        | false => simp [empty rfl] at h
      dsimp only
      unfold FuseDirsBuilder.reply FuseRequest.replyBuf
      rw [Routine.follows_bind, follows_check]
      refine ⟨fun _ => ?_, fun _ => .plain rfl rfl fun h => nomatch h⟩
      dsimp only
      rw [FuseRequest.follows_send_some]
      refine ⟨.plain rfl rfl ⟨rfl, idle.owed, fun a => ?_, fun a h => ?_, fun a h => ?_,
        fun fd h => (nomatch h), covers, fun st timeout h => nomatch h⟩, fun rc _ => ?_⟩
      · rw [entries]
        rfl
      · rw [entries] at h
        exact List.count_pos_iff.mpr h
      · rw [entries] at h
        exact .inl (listed_plus a h)
      · cases rc with
        | some e => exact undo _ false rfl
        | none =>
            refine ⟨false, rfl, ?_⟩
            have kept : accounts.after (l.listing inodes)
                (.fuseReply l.req (.buf (.dirs d.plus d.buf))) none =
                { l.listing inodes with owed := false, refs := 0 } := Ledger.sent_eq rfl
            rw [kept, ← idle.refs]
            rfl

theorem settles_readDirInternal {ino : Addr} {size : Nat} {off : Int} {fi : FileInfo} {plus : Bool}
    (opts : l.opts = fs.opts) (idle : l.Idle) (shared : l.shared = 0)
    (named : ino ∈ l.request.names) (plus_ok : plus = true → l.request.isReaddirplus = true) :
    Settles l (fs.readDirInternal (getInode ino) size off fi plus) := by
  refine .bind idle (.invoke (.plain rfl rfl trivial) fun _ => rfl) fun dir =>
    .bind idle (.invoke (.plain rfl rfl trivial) fun _ => rfl) fun _ => ?_
  have reaches : ∀ inodes l', Ledger.Rests (l.listing inodes) l' → l'.Reaches (getInode ino) := by
    rintro inodes _ ⟨seen, rfl⟩
    exact Ledger.reaches_getInode idle.owed named
  have start : l.listing [] = l := Ledger.listing_nil shared idle.refs
  have kept : LoopKept l plus (.ok { plus, maxsize := size, buf := [] }) [] l := by
    refine ⟨start ▸ .refl _, fun _ => rfl, ?_⟩
    rintro d ⟨⟩
    exact ⟨rfl, fun _ => ⟨rfl, fun r mem => nomatch mem⟩⟩
  unfold Settles
  rw [Routine.follows_bind]
  refine (follows_readDirLoop _ opts reaches kept).mono ?_
  rintro _ _ _ ⟨rfl, listed, inodes, rfl, kept'⟩
  obtain ⟨⟨seen, rfl⟩, empty, lists⟩ := kept'
  let l₁ : Ledger := { l with seen := seen }
  have idle₁ : l₁.Idle := ⟨idle.owed, idle.refs⟩
  have lists₁ : ∀ d, listed = .ok d → d.plus = plus ∧ (plus = true → d.inodes = inodes ∧
      ∀ r ∈ d.buf, l₁.Covers r.param) := by
    intro d ok
    refine ⟨(lists d ok).1, fun h => ⟨((lists d ok).2 h).1, fun r mem => ?_⟩⟩
    have covered := ((lists d ok).2 h).2 r mem
    exact ⟨covered.attr, covered.timeout, covered.generation⟩
  dsimp only
  rw [Routine.follows_andFinally]
  refine (follows_replyDirs (l := l₁) idle₁ plus_ok empty lists₁).mono ?_
  rintro _ s' _ ⟨owed, linked, rfl⟩
  refine follows_dropAllShared (l := { l₁ with owed := owed }) shared ?_
  exact ⟨owed, linked, seen, rfl⟩

namespace Settles

variable {ino : Addr} {what message : String}

theorem logged {m : Handler} (idle : l.Idle) (named : ino ∈ l.request.names) (rest : Settles l m) :
    Settles l (do
      Routine.invoke (I := calls) (.logInode (getInode ino))
      m) :=
  .bind idle (.log (Ledger.reaches_getInode idle.owed named)) fun _ => rest

theorem withFD {f : Fd → Handler} (idle : l.Idle) (named : ino ∈ l.request.names)
    (rest : ∀ fd, Settles l (f fd)) :
    Settles l (Routine.invoke (I := calls) (.getFD (getInode ino)) >>= f) :=
  .bind idle (.getFD (Ledger.reaches_getInode idle.owed named)) rest

theorem sys {c : Sys} {f : c.Ret → Handler} (idle : l.Idle) (allows : l.Allows (.sys c))
    (same : ∀ r, l.after (.sys c) r = l) (rest : ∀ v, Settles l (f v)) :
    Settles l (syscall P c message >>= f) :=
  .bind idle (.syscall allows same) rest

theorem last {c : Sys} (idle : l.Idle) (allows : l.Allows (.sys c))
    (same : ∀ r, l.after (.sys c) r = l) :
    Settles l (syscall P c message : Io FuseRequest c.Ret) :=
  Steady.settles idle (.syscall allows same)

theorem replyWithLookup {name : String} (opts : l.opts = fs.opts) (idle : l.Idle)
    (named : ino ∈ l.request.names) : Settles l (fs.replyWithLookup (getInode ino) name) := by
  have one : OneEntry l Reply.entry :=
    ⟨fun _ => rfl, fun _ _ _ h => (nomatch h), fun _ _ h => (nomatch h), fun _ => rfl⟩
  refine (follows_replyWithEntry one opts idle.owed named idle.refs).mono fun status s l' replied => ?_
  cases status with
  | ok _ =>
      obtain ⟨gone, param, rests⟩ := replied
      have fds : (l.fds - fun fd => if (Reply.entry param).handle l.req = some fd then 1 else 0) =
          l.fds := by
        funext fd
        simp [Reply.handle]
      rw [fds] at rests
      exact ⟨false, gone, rests⟩
  | error e =>
      obtain ⟨here, rests⟩ | ⟨gone, rests⟩ := replied
      · have owed : { l with owed := true } = l := by rw [← idle.owed]
        exact ⟨true, here, by rw [owed]; exact rests⟩
      · exact ⟨false, gone, rests⟩

/-- The descriptor is closed on every way out. -/
theorem closing {fd : Fd} {m : Handler} (h : Settles (l.gain fd) m) :
    Routine.Follows accounts (m.andFinally (FileDescriptor.destroy fd)) { req := some l.req }
      (l.gain fd) fun _ => Settled l := by
  rw [Routine.follows_andFinally]
  refine Routine.Follows.mono h fun r s l' settled => ?_
  obtain ⟨owed, linked, seen, rfl⟩ := settled
  exact follows_destroyFd (l := { l with owed := owed, seen := seen }) ⟨owed, linked, seen, rfl⟩

theorem replyWithAttrs (opts : l.opts = fs.opts) (idle : l.Idle) (named : ino ∈ l.request.names) :
    Settles l (fs.replyWithAttrs (getInode ino)) := by
  refine .withFD idle named fun fd => ?_
  unfold Settles
  rw [Routine.follows_bind]
  refine follows_statFD (fun e => settled_same idle) fun st => ?_
  have idle' : (l.sawStat st).Idle := ⟨idle.owed, idle.refs⟩
  unfold FuseRequest.replyAttr
  dsimp only
  rw [FuseRequest.follows_send_some]
  refine ⟨.plain rfl rfl ?_, fun rc _ => ?_⟩
  · refine ⟨rfl, idle.owed, fun a => ?_, fun a h => (nomatch h), fun a h => (nomatch h),
      fun fd h => (nomatch h), fun param h => (nomatch h), ?_⟩
    · rw [idle'.refs]
      rfl
    · rintro _ _ ⟨⟩
      exact ⟨List.mem_cons_self, congrArg Options.kernelEntryTimeout opts.symm⟩
  · have after : accounts.after (l.sawStat st)
        (.fuseReply l.req (.attr st fs.opts.kernelEntryTimeout)) rc =
        { l.sawStat st with owed := false } := idle'.after_reply rfl rc
    rw [after]
    exact ⟨false, rfl, _, rfl⟩

theorem setAttrOn {fd : Fd} {attr : Stat} {toSet : Flags} (idle : l.Idle)
    (named : ino ∈ l.request.names) (opts : l.opts = fs.opts)
    (mayUse : l.MayUse fd) : Settles l (fs.setAttrOn (getInode ino) fd attr toSet) := by
  have mine : ∀ fd' ∈ [fd], l.MayUse fd' := by
    intro fd' h
    rwa [List.mem_singleton.mp h]
  refine .bind idle (.doIf (.syscall (.use mine rfl rfl trivial) fun _ => rfl)) fun _ => ?_
  refine .bind idle (.doIf (.syscall (.plain rfl rfl trivial) fun _ => rfl)) fun _ => ?_
  refine .bind idle (.doIf (.syscall (.use mine rfl rfl trivial) fun _ => rfl)) fun _ => ?_
  refine .bind idle (.doIf (.syscall (.use mine rfl rfl trivial) fun _ => rfl)) fun _ => ?_
  exact .replyWithAttrs opts idle named

theorem setAttr {attr : Stat} {toSet : Flags} {fi : FileInfo} (idle : l.Idle)
    (named : ino ∈ l.request.names) (opts : l.opts = fs.opts)
    (handle : fi.fh ≠ 0 → fi.fh ∈ l.request.handles) :
    Settles l (fs.setAttr ino attr toSet fi) := by
  refine .logged idle named ?_
  by_cases fh : fi.fh = 0
  · rw [if_pos fh]
    refine .withFD idle named fun inodeFd => ?_
    unfold Settles Syscalls.open_
    rw [Routine.follows_bind, follows_syscall]
    refine ⟨.plain rfl rfl trivial, fun _ _ => settled_same idle, fun myfd _ => ?_⟩
    have idle' : (l.gain myfd).Idle := ⟨idle.owed, idle.refs⟩
    exact closing (setAttrOn idle' named opts (.inl (l.gain_pos myfd)))
  · rw [if_neg fh]
    exact setAttrOn idle named opts (.inr (.inl ⟨idle.owed, handle fh⟩))

/-- The descriptor is closed if the reply that hands it out fails. -/
theorem open_ {fi : FileInfo} (idle : l.Idle) (named : ino ∈ l.request.names)
    (opcode : l.req.opcode ≠ .opendir) : Settles l (fs.open_ ino fi) := by
  refine .logged idle named (.withFD idle named fun inodeFd => ?_)
  unfold Settles Syscalls.open_
  rw [Routine.follows_bind, follows_syscall]
  refine ⟨.plain rfl rfl trivial, fun _ _ => settled_same idle, fun fd _ => ?_⟩
  change Follows accounts _ _ (l.gain fd) _
  have handle : (Reply.openFile (PageAlignFS.openedInfo fi fd)).handle l.req = some fd :=
    if_neg opcode
  unfold FuseRequest.replyOpen
  rw [Routine.follows_onError, FuseRequest.follows_send_some]
  refine ⟨.plain rfl rfl ⟨rfl, idle.owed, fun a => ?_, fun _ h => (nomatch h),
    fun _ h => (nomatch h), fun fd' h => ?_, fun _ h => (nomatch h), fun _ _ h => (nomatch h)⟩,
    fun rc _ => ?_⟩
  · have refs : (l.gain fd).refs = 0 := idle.refs
    rw [refs]
    rfl
  · cases handle.symm.trans h
    exact l.gain_pos fd
  · cases rc with
    | some e => exact follows_destroyFd (l := { l with owed := false }) ⟨false, rfl, .refl _⟩
    | none =>
        have after : accounts.after (l.gain fd)
            (.fuseReply l.req (.openFile (PageAlignFS.openedInfo fi fd))) none =
            { l with owed := false, refs := 0 } :=
          Ledger.sent_gain (l := { l with owed := false }) handle
        rw [after, ← idle.refs]
        exact ⟨false, rfl, .refl _⟩

theorem create {name : String} {mode : Nat} {fi : FileInfo} (opts : l.opts = fs.opts) (idle : l.Idle)
    (named : ino ∈ l.request.names) : Settles l (fs.create ino name mode fi) := by
  refine .logged idle named (.withFD idle named fun inodeFd => ?_)
  unfold Settles Syscalls.openat
  rw [Routine.follows_bind, follows_syscall]
  refine ⟨.plain rfl rfl trivial, fun _ _ => settled_same idle, fun fd _ => ?_⟩
  change Follows accounts _ _ (l.gain fd) _
  have handle (param : EntryParam) :
      (Reply.create param (PageAlignFS.openedInfo fi fd)).handle l.req = some fd := rfl
  have one : OneEntry (l.gain fd) fun param => .create param (PageAlignFS.openedInfo fi fd) := by
    refine ⟨fun _ => rfl, fun _ _ _ h => (nomatch h), fun param fd' h => ?_, fun _ => rfl⟩
    cases (handle param).symm.trans h
    exact l.gain_pos fd
  rw [Routine.follows_onError]
  refine (follows_replyWithEntry one opts idle.owed named idle.refs).mono fun status s l' replied => ?_
  cases status with
  | ok _ =>
      obtain ⟨gone, param, rests⟩ := replied
      have fds := Ledger.gain_sub (l := l) (handle param)
      change Ledger.Rests { l.gain fd with
        owed := false
        fds := (l.gain fd).fds - fun fd' =>
          if (Reply.create param (PageAlignFS.openedInfo fi fd)).handle l.req = some fd' then 1
          else 0 } l' at rests
      rw [fds] at rests
      exact ⟨false, gone, rests⟩
  | error e =>
      obtain ⟨here, seen, rfl⟩ | ⟨gone, seen, rfl⟩ := replied
      · refine follows_destroyFd (l := { l with seen := seen }) ?_
        exact ⟨true, here, seen, by rw [← idle.owed]⟩
      · exact follows_destroyFd (l := { l with owed := false, seen := seen })
          ⟨false, gone, seen, rfl⟩

/-- The duplicate is closed, and close(2) gives it up even when it fails. -/
theorem flush {fi : FileInfo} (idle : l.Idle) (named : ino ∈ l.request.names) :
    Settles l (fs.flush ino fi) := by
  refine .logged idle named ?_
  unfold Settles Syscalls.dup Syscalls.close
  rw [Routine.follows_bind, follows_syscall]
  refine ⟨.plain rfl rfl trivial, fun _ _ => settled_same idle, fun fd _ => ?_⟩
  change Follows accounts _ _ (l.gain fd) _
  have after (rc : Except Errno Unit) : accounts.after (l.gain fd) (.sys (.close fd false)) rc = l :=
    l.gain_drop fd
  rw [follows_syscall]
  refine ⟨.plain rfl rfl (l.gain_pos fd), fun e _ => ?_, fun v _ => ?_⟩
  · rw [after]
    exact settled_same idle
  · rw [after]
    exact settled_same idle

/-- The descriptor is gone from the ledger whether or not `fdopendir` took it. -/
theorem openDir {fi : FileInfo} (idle : l.Idle) (named : ino ∈ l.request.names)
    (opcode : l.req.opcode = .opendir) : Settles l (fs.openDir ino fi) := by
  refine .logged idle named (.withFD idle named fun fd => ?_)
  unfold Settles Syscalls.openat Syscalls.fdopendir
  rw [Routine.follows_bind, follows_syscall]
  refine ⟨.plain rfl rfl trivial, fun _ _ => settled_same idle, fun dirfd _ => ?_⟩
  change Follows accounts _ _ (l.gain dirfd) _
  have after (rc : Except Errno DirPtr) :
      accounts.after (l.gain dirfd) (.sys (.fdopendir dirfd)) rc = l := l.gain_drop dirfd
  rw [Routine.follows_bind, follows_syscall]
  refine ⟨.plain rfl rfl ⟨l.gain_pos dirfd, opcode⟩, fun e _ => ?_, fun d _ => ?_⟩
  · rw [after]
    exact settled_same idle
  · rw [after]
    refine Settles.bind idle (.invoke (.plain rfl rfl trivial) fun _ => rfl) fun dir => ?_
    exact .send idle rfl (if_pos opcode) fun _ h => nomatch h

theorem poll {ph : Option PollPtr} (idle : l.Idle) (named : ino ∈ l.request.names)
    (poll : l.request.usesPathFd = true) : Settles l (fs.poll ino ph) := by
  have reaches : l.Reaches (getInode ino) := Ledger.reaches_getInode idle.owed named
  refine .logged idle named (.bind idle ?_ fun _ => .withFD idle named fun fd => ?_)
  · cases ph with
    | none => exact .pure ()
    | some ph =>
        refine .bind (.invoke (.touch reaches rfl rfl trivial) fun _ => rfl) fun old => ?_
        cases old with
        | none => exact .pure ()
        | some o => exact .invoke (.plain rfl rfl trivial) fun _ => rfl
  · refine .sys idle (.use (fun _ _ => .inr (.inr poll)) rfl rfl trivial) (fun _ => rfl) fun _ => ?_
    exact .bind idle (.check fun h => nomatch h) fun _ => .send idle rfl rfl fun _ h => nomatch h

theorem syncFd {fd : Fd} {datasync : Bool} (idle : l.Idle) : Settles l (fs.syncFd datasync fd) := by
  cases datasync with
  | true => exact .last idle (.plain rfl rfl trivial) fun _ => rfl
  | false => exact .last idle (.plain rfl rfl trivial) fun _ => rfl

theorem readLink (idle : l.Idle) (named : ino ∈ l.request.names) :
    Settles l (fs.readLink ino) := by
  refine .logged idle named (.withFD idle named fun fd => ?_)
  refine .sys idle (.plain rfl rfl trivial) (fun _ => rfl) fun buf => ?_
  split
  · exact Steady.settles idle (.fail _)
  · exact .send idle rfl rfl fun _ h => by cases h

theorem getXAttr {name : String} {size : Nat} (idle : l.Idle) (named : ino ∈ l.request.names) :
    Settles l (fs.getXAttr ino name size) := by
  refine .logged idle named (.withFD idle named fun fd => .bind idle ?_ fun buf => ?_)
  · refine .bind (.syscall (.plain rfl rfl trivial) fun _ => rfl) fun _ => ?_
    exact .bind (.check fun h => nomatch h) fun _ => .pure _
  · exact .bind idle (.check fun h => nomatch h) fun _ => .send idle rfl rfl fun _ h => nomatch h

theorem listXAttr {size : Nat} (idle : l.Idle) (named : ino ∈ l.request.names) :
    Settles l (fs.listXAttr ino size) := by
  refine .logged idle named (.withFD idle named fun fd => ?_)
  refine .sys idle (.plain rfl rfl trivial) (fun _ => rfl) fun _ => ?_
  exact .bind idle (.check fun h => nomatch h) fun _ => .send idle rfl rfl fun _ h => nomatch h

/-- `NotifyPollEvent` runs after the reply. -/
theorem writeBuf {inBuf : FuseBufVec} {off : Int} {fi : FileInfo} (idle : l.Idle)
    (request : l.request = .writeBuf ino inBuf off fi) :
    Settles l (fs.writeBuf ino inBuf off fi) := by
  have named : ino ∈ l.request.names := by
    rw [request]
    exact List.mem_cons_self
  have lent : ∀ fd ∈ fi.fh :: inBuf.filterMap FuseBuf.fd, l.MayUse fd := by
    intro fd h
    refine .inr (.inl ⟨idle.owed, ?_⟩)
    rw [request]
    exact h
  refine .logged idle named (.bind idle (.invoke (.use lent rfl rfl trivial) fun _ => rfl)
    fun copied => ?_)
  cases copied with
  | error e => exact Steady.settles idle (.fail _)
  | ok nb =>
      have sent : Settles l (FuseRequest.replyWrite fs.platform nb) :=
        .send idle rfl rfl fun _ h => nomatch h
      unfold Settles
      dsimp only
      rw [Routine.follows_bind, Routine.follows_attempt]
      refine Routine.Follows.mono sent fun ret s l' settled => ?_
      have late : l'.Allows (.pollHandle (getInode ino)) := by
        obtain ⟨owed, -, seen, rfl⟩ := settled
        refine ⟨fun r h => ?_, fun _ h => (nomatch h), trivial⟩
        cases h
        unfold getInode
        split
        · exact .inl trivial
        · next ne => exact .inr ⟨rfl, ino, rfl, by rw [request]; rfl, ne⟩
      have steady : Steady l' (Inode.notifyPollEvent fs.platform (getInode ino) : Handler) := by
        refine .bind (.invoke late fun _ => rfl) fun present => ?_
        cases present with
        | none => exact .pure ()
        | some _ =>
            refine .bind (.invoke late fun _ => rfl) fun handle => ?_
            cases handle with
            | none => exact .pure ()
            | some ph => exact .bind (.invoke (.plain rfl rfl trivial) fun _ => rfl) fun _ => .ofExcept _
      dsimp only
      rw [Routine.follows_bind]
      refine (steady.attempt s).mono fun r s' l'' same => ?_
      obtain ⟨rfl, rfl⟩ := same
      cases r with
      | ok _ => exact settled
      | error _ => exact settled

end Settles

/-- The state in which a handler leaves its request and its ledger. -/
structure Returned (req : FuseReq) (s : FuseRequest) (l : Ledger) : Prop where
  clear : l.Clear
  own : l.req = req
  linked : s.req = if l.owed then some req else none

variable {req : FuseReq} {r : Request}

theorem Ledger.Idle.opening : (Ledger.opening fs.opts (req, r)).Idle := ⟨rfl, rfl⟩

theorem Settles.finish {m : Handler} (h : Settles (.opening fs.opts (req, r)) m) (forgets : r.forgets = [])
    (released : r.released = none) : Follows accounts m { req := some req } (.opening fs.opts (req, r))
      fun _ => Returned req := by
  refine Routine.Follows.mono h fun status s l settled => ?_
  obtain ⟨owed, linked, seen, rfl⟩ := settled
  refine ⟨⟨rfl, rfl, ?_, ?_⟩, rfl, linked⟩
  · change returned r.forgets = 0
    rw [forgets, returned_nil]
  · funext fd
    simp [Ledger.opening, released]

theorem follows_release {ino : Addr} {fi : FileInfo} :
    Follows accounts (fs.release ino fi) { req := some req } (.opening fs.opts (req, .release ino (some fi)))
      fun _ => Returned req := by
  have reaches := Ledger.reaches_getInode (l := .opening fs.opts (req, .release ino (some fi))) rfl
    (List.mem_cons_self (a := ino) (l := []))
  have mine : 0 < (Ledger.opening fs.opts (req, .release ino (some fi))).fds fi.fh := by
    simp [Ledger.opening, Request.released]
  have returned (rc : Except Errno Unit) : Returned req { req := some req }
      (accounts.after (.opening fs.opts (req, .release ino (some fi))) (.sys (.close fi.fh false)) rc) := by
    refine ⟨⟨rfl, rfl, rfl, ?_⟩, rfl, rfl⟩
    funext fd
    by_cases same : fi.fh = fd
    · simp [accounts, Ledger.after, Ledger.opening, Request.released, same]
    · simp [accounts, Ledger.after, Ledger.opening, Request.released, same]
  unfold PageAlignFS.release Syscalls.close
  rw [Routine.follows_bind, Routine.follows_invoke]
  refine ⟨.touch reaches rfl rfl trivial, fun _ _ => ?_⟩
  change Follows accounts _ _ (.opening fs.opts (req, .release ino (some fi))) _
  rw [follows_syscall]
  exact ⟨.plain rfl rfl mine, fun e _ => returned _, fun v _ => returned _⟩

theorem getInode_of_ne {ino : Addr} (ne : ino ≠ FUSE_ROOT_ID) : getInode ino = .node ino := if_neg ne

/-- One forget of a list is applied, and the rest are still held. -/
theorem follows_forget {s : σ} {d : ForgetData} (ds : List ForgetData)
    {Q : Status → σ → Ledger → Prop} (notRoot : d.ino ≠ FUSE_ROOT_ID) (pos : 0 < d.nlookup)
    (q : Q (.ok ()) s { l with forgets := returned ds }) :
    Follows accounts (Inodes.unref .forget (getInode d.ino) d.nlookup) s
      { l with forgets := returned (d :: ds) } Q := by
  have enough : d.nlookup ≤ returned (d :: ds) d.ino := by simp
  have kept : Ledger.Reaches { l with forgets := returned (d :: ds) } (.node d.ino) :=
    .inr (.inr (lt_of_lt_of_le pos enough))
  unfold Inodes.unref
  rw [getInode_of_ne notRoot, Routine.follows_bind, Routine.follows_invoke]
  refine ⟨.touch kept rfl rfl ⟨d.ino, rfl, pos, enough⟩, fun u found => ?_⟩
  have after : accounts.after { l with forgets := returned (d :: ds) }
      (.unref .forget (.node d.ino) d.nlookup) u =
      { l with forgets := returned ds, fds := l.fds + u.fds } := by
    simp [accounts, Ledger.after]
  rw [after]
  exact follows_settle (l := { l with forgets := returned ds }) found q

theorem follows_forgetMulti {s : FuseRequest} {ds : List ForgetData}
    {Q : Status → FuseRequest → Ledger → Prop}
    (admitted : ∀ d ∈ ds, d.ino ≠ FUSE_ROOT_ID ∧ 0 < d.nlookup)
    (q : Q (.ok ()) s { l with forgets := 0 }) :
    Follows accounts (PageAlignFS.forgetMulti ds) s { l with forgets := returned ds } Q := by
  induction ds with
  | nil => exact q
  | cons d ds ih =>
      obtain ⟨notRoot, pos⟩ := admitted d List.mem_cons_self
      unfold PageAlignFS.forgetMulti
      rw [Routine.follows_bind]
      refine follows_forget ds notRoot pos ?_
      exact ih fun d' h => admitted d' (List.mem_cons_of_mem d h)

theorem follows_forgetOne {ino : Addr} {n : Nat} (admitted : ino ≠ FUSE_ROOT_ID ∧ 0 < n) :
    Follows accounts (PageAlignFS.forget ino n) { req := some req } (.opening fs.opts (req, .forget ino n))
      fun _ => Returned req := by
  obtain ⟨notRoot, pos⟩ := admitted
  have kept : (Ledger.opening fs.opts (req, .forget ino n)).Reaches (getInode ino) := by
    rw [getInode_of_ne notRoot]
    refine .inr (.inr ?_)
    simpa [Ledger.opening, Request.forgets] using pos
  unfold PageAlignFS.forget
  dsimp only
  rw [Routine.follows_bind, Routine.follows_invoke]
  refine ⟨.touch kept rfl rfl trivial, fun _ _ => ?_⟩
  exact follows_forget (d := ⟨ino, n⟩) (l := .opening fs.opts (req, .forget ino n)) [] notRoot pos
    ⟨⟨rfl, rfl, rfl, rfl⟩, rfl, rfl⟩

/-- Every handler returns with nothing held. -/
theorem follows_invocation {req : FuseReq} :
    {r : Request} → {method : PageAlignFS → Handler} → pageAlignFSOps.invocation r = some method →
    req.opcode = r.opcode → (∀ d ∈ r.forgets, d.ino ≠ FUSE_ROOT_ID ∧ 0 < d.nlookup) →
    Follows accounts (method fs) { req := some req } (.opening fs.opts (req, r)) fun _ => Returned req
  | .lookup .., _, rfl, _, _ => Settles.finish (.logged .opening (.head _)
      (.replyWithLookup rfl .opening (.head _))) rfl rfl
  | .forget .., _, rfl, _, admitted => follows_forgetOne (admitted _ (.head _))
  | .getattr .., _, rfl, _, _ => Settles.finish (.logged .opening (.head _)
      (.replyWithAttrs rfl .opening (.head _))) rfl rfl
  | .setattr _ _ _ (some _), _, rfl, _, _ => Settles.finish (.setAttr .opening (.head _) rfl
      fun fh => by simp [Ledger.opening, Request.handles, fh]) rfl rfl
  | .readlink .., _, rfl, _, _ => Settles.finish (.readLink .opening (.head _)) rfl rfl
  | .mknod .., _, rfl, _, _ => Settles.finish (.logged .opening (.head _)
      (.withFD .opening (.head _) fun _ => .sys .opening (.plain rfl rfl trivial) (fun _ => rfl)
        fun _ => .replyWithLookup rfl .opening (.head _))) rfl rfl
  | .mkdir .., _, rfl, _, _ => Settles.finish (.logged .opening (.head _)
      (.withFD .opening (.head _) fun _ => .sys .opening (.plain rfl rfl trivial) (fun _ => rfl)
        fun _ => .replyWithLookup rfl .opening (.head _))) rfl rfl
  | .unlink .., _, rfl, _, _ => Settles.finish (.logged .opening (.head _)
      (.withFD .opening (.head _) fun _ => .last .opening (.plain rfl rfl trivial) fun _ => rfl)) rfl rfl
  | .rmdir .., _, rfl, _, _ => Settles.finish (.logged .opening (.head _)
      (.withFD .opening (.head _) fun _ => .last .opening (.plain rfl rfl trivial) fun _ => rfl)) rfl rfl
  | .symlink .., _, rfl, _, _ => Settles.finish (.logged .opening (.head _)
      (.withFD .opening (.head _) fun _ => .sys .opening (.plain rfl rfl trivial) (fun _ => rfl)
        fun _ => .replyWithLookup rfl .opening (.head _))) rfl rfl
  | .rename .., _, rfl, _, _ => Settles.finish (.logged .opening (.head _)
      (.logged .opening (.tail _ (.head _)) (.withFD .opening (.head _) fun _ =>
        .withFD .opening (.tail _ (.head _)) fun _ =>
          .last .opening (.plain rfl rfl trivial) fun _ => rfl))) rfl rfl
  | .link .., _, rfl, _, _ => Settles.finish (.logged .opening (.head _)
      (.logged .opening (.tail _ (.head _)) (.withFD .opening (.head _) fun _ =>
        .withFD .opening (.tail _ (.head _)) fun _ => .sys .opening (.plain rfl rfl trivial)
          (fun _ => rfl) fun _ => .replyWithLookup rfl .opening (.tail _ (.head _))))) rfl rfl
  | .open_ _ (some _), _, rfl, op, _ => Settles.finish (.open_ .opening (.head _)
      fun h => nomatch op.symm.trans h) rfl rfl
  | .read _ _ _ (some _), _, rfl, _, _ => Settles.finish (.logged .opening (.head _)
      (.send .opening rfl rfl fun _ h => .inr (.inl ⟨rfl, h⟩))) rfl rfl
  | .flush _ (some _), _, rfl, _, _ => Settles.finish (.flush .opening (.head _)) rfl rfl
  | .release _ (some _), _, rfl, _, _ => follows_release
  | .fsync _ _ (some _), _, rfl, _, _ => Settles.finish (.logged .opening (.head _)
      (.syncFd .opening)) rfl rfl
  | .opendir _ (some _), _, rfl, op, _ => Settles.finish (.openDir .opening (.head _) op) rfl rfl
  | .readdir _ _ _ (some _), _, rfl, _, _ => Settles.finish (.logged .opening (.head _)
      (settles_readDirInternal rfl .opening rfl (.head _) fun h => nomatch h)) rfl rfl
  | .releasedir _ (some _), _, rfl, _, _ => Settles.finish (.logged .opening (.head _)
      (.bind .opening (.invoke (.plain rfl rfl trivial) fun _ => rfl) fun _ =>
        .bind .opening (.invoke (.plain rfl rfl trivial) fun _ => rfl) fun _ =>
          Steady.settles .opening (.pure ()))) rfl rfl
  | .fsyncdir _ _ (some _), _, rfl, _, _ => Settles.finish (.logged .opening (.head _)
      (.bind .opening (.invoke (.plain rfl rfl trivial) fun _ => rfl) fun _ =>
        .sys .opening (.plain rfl rfl trivial) (fun _ => rfl) fun _ => .syncFd .opening)) rfl rfl
  | .statfs .., _, rfl, _, _ => Settles.finish (.logged .opening (.head _)
      (.withFD .opening (.head _) fun _ => .sys .opening (.plain rfl rfl trivial) (fun _ => rfl)
        fun _ => .send .opening rfl rfl fun _ h => nomatch h)) rfl rfl
  | .setxattr .., _, rfl, _, _ => Settles.finish (.logged .opening (.head _)
      (.withFD .opening (.head _) fun _ => .last .opening (.plain rfl rfl trivial) fun _ => rfl)) rfl rfl
  | .getxattr .., _, rfl, _, _ => Settles.finish (.getXAttr .opening (.head _)) rfl rfl
  | .listxattr .., _, rfl, _, _ => Settles.finish (.listXAttr .opening (.head _)) rfl rfl
  | .removexattr .., _, rfl, _, _ => Settles.finish (.logged .opening (.head _)
      (.withFD .opening (.head _) fun _ => .last .opening (.plain rfl rfl trivial) fun _ => rfl)) rfl rfl
  | .access .., _, rfl, _, _ => Settles.finish (.logged .opening (.head _)
      (.withFD .opening (.head _) fun _ => .last .opening (.plain rfl rfl trivial) fun _ => rfl)) rfl rfl
  | .create _ _ _ (some _), _, rfl, _, _ => Settles.finish (.create rfl .opening (.head _)) rfl rfl
  | .getlk _ (some _) _, _, rfl, _, _ => Settles.finish (.logged .opening (.head _)
      (.withFD .opening (.head _) fun _ => .sys .opening (.pathFd rfl trivial) (fun _ => rfl) fun _ =>
        .send .opening rfl rfl fun _ h => nomatch h)) rfl rfl
  | .setlk _ (some _) _ _, _, rfl, _, _ => Settles.finish (.logged .opening (.head _)
      (.withFD .opening (.head _) fun _ => .sys .opening (.pathFd rfl trivial) (fun _ => rfl) fun _ =>
        Steady.settles .opening (.pure ()))) rfl rfl
  | .poll _ (some _) _, _, rfl, _, _ => Settles.finish (.poll .opening (.head _) rfl) rfl rfl
  | .writeBuf .., _, rfl, _, _ => Settles.finish (.writeBuf .opening rfl) rfl rfl
  | .forgetMulti ds, _, rfl, _, admitted =>
      follows_forgetMulti (l := .opening fs.opts (req, .forgetMulti ds)) admitted
        ⟨⟨rfl, rfl, rfl, rfl⟩, rfl, rfl⟩
  | .flock _ (some _) _, _, rfl, _, _ => Settles.finish (.logged .opening (.head _)
      (.withFD .opening (.head _) fun _ => .last .opening (.pathFd rfl trivial) fun _ => rfl)) rfl rfl
  | .fallocate _ _ _ _ (some _), _, rfl, _, _ => Settles.finish (.logged .opening (.head _)
      (.withFD .opening (.head _) fun _ => .last .opening (.pathFd rfl trivial) fun _ => rfl)) rfl rfl
  | .readdirplus _ _ _ (some _), _, rfl, _, _ => Settles.finish (.logged .opening (.head _)
      (settles_readDirInternal rfl .opening rfl (.head _) fun _ => rfl)) rfl rfl
  | .copyFileRange _ _ (some _) _ _ (some _) _ _, _, rfl, _, _ => Settles.finish
      (.logged .opening (.head _) (.logged .opening (.tail _ (.head _))
        (.withFD .opening (.head _) fun _ => .withFD .opening (.tail _ (.head _)) fun _ =>
          .sys .opening (.pathFd rfl trivial) (fun _ => rfl) fun _ =>
            .send .opening rfl rfl fun _ h => nomatch h))) rfl rfl
  | .lseek _ _ _ (some _), _, rfl, _, _ => Settles.finish (.logged .opening (.head _)
      (.withFD .opening (.head _) fun _ => .sys .opening (.pathFd rfl trivial) (fun _ => rfl) fun _ =>
        .send .opening rfl rfl fun _ h => nomatch h)) rfl rfl

/-- A callback replies if its handler has not, and ends with nothing left to do. -/
theorem follows_epilogue {finish : Finish} {status : Status} {s : FuseRequest} {l : Ledger}
    (h : Returned req s l) :
    (epilogue P finish status s).Follows accounts l fun _ => Ledger.Final := by
  obtain ⟨clear, rfl, linked⟩ := h
  obtain ⟨own⟩ := s
  cases owed : l.owed with
  | false =>
      rw [owed] at linked
      cases linked
      rw [epilogue_gone]
      exact ⟨clear, owed⟩
  | true =>
      rw [owed] at linked
      cases linked
      rw [epilogue_owed]
      have idle : l.Idle := ⟨owed, clear.refs⟩
      have plain : (finish.reply P status).plain = true := by
        cases finish <;> cases status <;> rfl
      have handle : (finish.reply P status).handle l.req = none := by
        cases finish <;> cases status <;> rfl
      have refused : (Call.fuseReply l.req (finish.reply P status)).refused = [] := by
        cases finish <;> cases status <;> rfl
      refine ⟨.plain rfl refused (idle.mayReply plain handle), fun rc _ => ?_⟩
      have after : accounts.after l (.fuseReply l.req (finish.reply P status)) rc =
          { l with owed := false } := idle.after_reply handle rc
      rw [after]
      exact ⟨⟨clear.shared, clear.refs, clear.forgets, clear.fds⟩, rfl⟩

/-- What libfuse runs for a request keeps to the accounts. -/
theorem follows_serve {handler : Handler} (served : fs.serve req r = some handler)
    (opcode : req.opcode = r.opcode)
    (admitted : ∀ d ∈ r.forgets, d.ino ≠ FUSE_ROOT_ID ∧ 0 < d.nlookup) (s : FuseRequest) :
    (handler s).Follows accounts (.opening fs.opts (req, r)) fun _ => Ledger.Final := by
  obtain ⟨method, invoked⟩ | null := invocation_or_null served
  · rw [PageAlignFS.serve, asFuseLowLevelOps_of_invocation invoked] at served
    cases served
    rw [callback_eq, Prog.follows_bind]
    refine Prog.Follows.mono (follows_invocation invoked opcode admitted) ?_
    intro p l returned
    exact follows_epilogue returned
  · obtain ⟨next, stops⟩ := asFuseLowLevelOps_of_null served null s
    rw [stops]
    exact ⟨.plain rfl rfl CheckSite.noConfusion, fun impossible => by cases impossible⟩

end Pafs
