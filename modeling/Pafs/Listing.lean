import Pafs.Alone
import Pafs.Pager

/-! One call of `ReadDirInternal`: which entries are in the reply, and what becomes of the
references that were taken on the way. -/
namespace Pafs
open Resumption Pager

/-- How often each key occurs. -/
def counted (ks : List Key) : Key → Nat := fun k => ks.count k

theorem counted_cons (k : Key) (ks : List Key) : counted (k :: ks) = plus (counted ks) k := by
  funext k'
  change List.count k' (k :: ks) = List.count k' ks + (Pi.single k 1 : Key → Nat) k'
  rw [List.count_cons, Pi.single_apply]
  simp only [beq_iff_eq, @eq_comm _ k k']

theorem counted_concat (ks : List Key) (k : Key) : counted (ks ++ [k]) = plus (counted ks) k := by
  rw [← counted_cons]
  funext k'
  exact (List.perm_append_singleton k ks).count_eq k'

theorem counted_pos {ks : List Key} {k : Key} (mem : k ∈ ks) : 0 < counted ks k :=
  List.count_pos_iff.mpr mem

/-- The inodes at these addresses have these keys. -/
def World.HoldsAll (w : World) (as : List Addr) (ks : List Key) : Prop :=
  List.Forall₂ (fun a k => w.keyAt a = some k) as ks

theorem World.HoldsAll.passes {d : Key → Nat} {st st' : Stage} {as : List Addr} {ks : List Key}
    (h : st.world.HoldsAll as ks)
    (held : ∀ a k, st.world.keyAt a = some k → 0 < d k → st'.world.keyAt a = some k)
    (pos : ∀ k ∈ ks, 0 < d k) : st'.world.HoldsAll as ks := by
  induction h with
  | nil => exact .nil
  | @cons a k as ks here _ ih =>
      exact .cons (held a k here (pos k List.mem_cons_self)) (ih fun k' mem => pos k' (List.mem_cons_of_mem _ mem))

namespace Alone
open Routine (Follows)

variable {σ : Type} {s : σ} {B : Backing} {counts : String → Bool} {c : InodeCache} {d : Key → Nat}
  {st : Stage} {fs : PageAlignFS} {as : List Addr} {ks : List Key}

/-- One of several references is given back; the others are still held. -/
theorem giveBack {st' : Stage} (held : st.world.HoldsAll as ks)
    (first : Leads B c (d + counted ks) st (d + counted ks) [] st') :
    st'.world.HoldsAll as ks ∧ ∀ st'', Leads B c d st' d [] st'' → Leads B c d st d [] st'' := by
  constructor
  · refine held.passes first.passes.held fun k mem => ?_
    exact (counted_pos mem).trans_le (Nat.le_add_left _ _)
  · intro st'' others
    have weaker : Passes d st st' := first.passes.mono fun k => Nat.le_add_right _ _
    refine ⟨others.tracks, weaker.trans others.passes, ?_⟩
    rw [others.keys, first.keys, List.append_nil]

theorem follows_dropAllShared {Q : Status → σ → Stage → Prop} (h : Tracks B c (d + counted ks) st)
    (rest : AtRest c) (held : st.world.HoldsAll as ks)
    (q : ∀ st', Leads B c d st d [] st' → Q (.ok ()) s st') :
    Follows (alone B counts) (Inodes.dropAllShared as) s st Q := by
  induction as generalizing ks st with
  | nil =>
      cases held
      exact q st (.refl h)
  | cons a as ih =>
      cases held with
      | @cons _ k _ ks here others =>
          unfold Inodes.dropAllShared
          rw [counted_cons, ← add_assoc] at h
          rw [Routine.follows_bind]
          refine follows_dropShared h rest here fun st' dropped => ?_
          obtain ⟨still, join⟩ := giveBack others dropped
          exact ih dropped.tracks still fun st'' leads => q st'' (join st'' leads)

theorem follows_unrefAll {Q : Status → σ → Stage → Prop} (h : Tracks B c (d + counted ks) st)
    (rest : AtRest c) (held : st.world.HoldsAll as ks)
    (q : ∀ st', Leads B c d st d [] st' → Q (.ok ()) s st') :
    Follows (alone B counts) (Inodes.unrefAll as) s st Q := by
  induction as generalizing ks st with
  | nil =>
      cases held
      exact q st (.refl h)
  | cons a as ih =>
      cases held with
      | @cons _ k _ ks here others =>
          unfold Inodes.unrefAll
          rw [counted_cons, ← add_assoc] at h
          rw [Routine.follows_bind, Routine.follows_attempt]
          refine follows_cleanup h rest here fun st' dropped => ?_
          obtain ⟨still, join⟩ := giveBack others dropped
          exact ih dropped.tracks still fun st'' leads => q st'' (join st'' leads)

end Alone

/-- The size of an entry in the buffer. -/
def PageAlignFS.entrySize (fs : PageAlignFS) (plus : Bool) (e : Dirent) : Nat :=
  fs.platform.direntSize plus e.dName 0

/-- An entry as it is written to the buffer. -/
def PageAlignFS.encode (fs : PageAlignFS) (plus : Bool) (param : EntryParam) (e : Dirent) : DirRecord :=
  { name := e.dName, param, offset := e.dOff, size := fs.entrySize plus e }

/-- What a name in a listing was resolved to. -/
structure Denoted (B : Backing) (c : InodeCache) (plus : Bool) (name : String) (k : Key) : Prop where
  denotes : ∀ k', B.key name = some k' → k = k'
  has : plus = true → Has B c k

/-- Why a listing can fail at one of its entries. -/
def Unlisted (B : Backing) (c : InodeCache) (plus : Bool) (es : List Dirent) : Prop :=
  B.fails ∨ plus = true ∧ ∃ e ∈ es, ∃ k, (∀ k', B.key e.dName = some k' → k = k') ∧ Lacks B c k

/-- The stage after an entry was read. -/
def Stage.read (st : Stage) (dir : DirPtr) : Stage :=
  { st with rest := Function.update st.rest dir ((st.rest dir).map List.tail) }

theorem Tracks.read {B : Backing} {c : InodeCache} {d : Key → Nat} {st : Stage} (h : Tracks B c d st)
    (dir : DirPtr) : Tracks B c d (st.read dir) := h.congr rfl rfl rfl

namespace Alone
open Routine (Follows)

variable {σ : Type} {s : σ} {B : Backing} {counts : String → Bool} {c : InodeCache} {d : Key → Nat}
  {st : Stage} {fs : PageAlignFS} {dirInode : InodeRef} {dir : DirPtr} {es : List Dirent}

theorem follows_addDirEntry {dirs : FuseDirsBuilder} {e : Dirent} {param : EntryParam}
    {Q : StatusOr (Option { d' : FuseDirsBuilder // dirs.Grows d' }) → σ → Stage → Prop}
    (full : dirs.maxsize < fs.entrySize dirs.plus e + dirs.size → Q (.ok none) s st)
    (q : ∀ grows, fs.entrySize dirs.plus e + dirs.size ≤ dirs.maxsize →
      Q (.ok (some ⟨dirs.push (fs.encode dirs.plus param e), grows⟩)) s st) :
    Follows (alone B counts) (dirs.addDirEntry fs.platform e.dName param e.dOff) s st Q := by
  unfold FuseDirsBuilder.addDirEntry
  dsimp only
  split
  · next fits =>
      rw [fs.platform.direntSize_same, beq_self_eq_true]
      exact q _ fits
  · next unfit => exact full (Nat.lt_of_not_le unfit)

/-- One round of the loop. -/
theorem follows_readDirRound {dirs : FuseDirsBuilder}
    {Q : StatusOr (PageAlignFS.ReadDirRound dirs) → σ → Stage → Prop} (h : Tracks B c d st)
    (rest : AtRest c) (stream : st.rest dir = some es)
    (failed : ∀ e st', Unlisted B c dirs.plus es → Tracks B c d st' →
      (∀ a k, st.world.keyAt a = some k → 0 < d k → st'.world.keyAt a = some k) → Q (.error e) s st')
    (ended : es = [] → Q (.ok .stop) s (st.read dir))
    (full : ∀ e es' k st', es = e :: es' → dirs.maxsize < fs.entrySize dirs.plus e + dirs.size →
      Denoted B c dirs.plus e.dName k → Leads B c d (st.read dir) d [(e.dName, k)] st' → Q (.ok .stop) s st')
    (added : ∀ e es' k param grows st', es = e :: es' →
      fs.entrySize dirs.plus e + dirs.size ≤ dirs.maxsize → Denoted B c dirs.plus e.dName k →
      Leads B c d (st.read dir) (if dirs.plus then plus (plus d k) k else d) [(e.dName, k)] st' →
      (dirs.plus = true → st'.world.keyAt param.ino = some k) →
      Q (.ok (.added (dirs.push (fs.encode dirs.plus param e)) grows
        (if dirs.plus then some param.ino else none))) s st') :
    Follows (alone B counts) (fs.readDirRound dirInode dir dirs) s st Q := by
  unfold PageAlignFS.readDirRound Syscalls.readdir
  rw [Routine.follows_bind, follows_syscall]
  refine ⟨rfl, fun e answers => ?_, fun entry answers => ?_⟩
  · exact failed _ _ (.inl answers.2) (h.congr rfl rfl rfl) fun _ _ held _ => held
  have head : entry = es.head? := answers.2 es stream
  cases es with
  | nil =>
      cases head
      exact ended rfl
  | cons e es =>
      cases head
      have tracks := h.read dir
      dsimp only [List.head?_cons]
      rw [Routine.follows_bind]
      refine follows_findOrCreateInode tracks (fun e st' fails leads => ?_) fun a k st₁ inserted here denotes => ?_
      · exact failed e st' (.inl fails) leads.tracks leads.passes.held
      dsimp only
      rw [Routine.follows_bind, Routine.follows_onError, Routine.follows_bind]
      have keeps {st₂ : Stage} (leads : Leads B c d st₁ d [] st₂) :
          ∀ a k, st.world.keyAt a = some k → 0 < d k → st₂.world.keyAt a = some k :=
        (inserted.passes.trans leads.passes).held
      refine follows_createFuseEntryParam inserted.tracks rest (plus_pos d k) here (fun e st₂ cause leads => ?_)
        fun p st₂ ino has leads => ?_
      · dsimp only
        have still := leads.passes.held a k here (plus_pos d k)
        refine follows_dropShared leads.tracks rest still fun st' dropped => ?_
        refine failed e st' ?_ dropped.tracks ?_
        · exact cause.imp id fun lacks => ⟨lacks.1, _, List.mem_cons_self, k, denotes, lacks.2⟩
        · exact keeps ((Leads.mk leads.tracks (leads.passes.mono (plus_le d k)) leads.keys).back dropped)
      · subst ino
        have denoted : Denoted B c dirs.plus e.dName k := ⟨denotes, has⟩
        have upto : Leads B c d (st.read dir) (plus d k) [(e.dName, k)] st₂ :=
          inserted.trans (plus_le d k) leads
        have still := leads.passes.held p.ino k here (plus_pos d k)
        dsimp only
        rw [Routine.follows_bind]
        refine follows_addDirEntry (fun unfit => ?_) fun grows fits => ?_
        · dsimp only
          rw [Routine.follows_pure]
          dsimp only
          rw [Routine.follows_bind]
          refine follows_dropShared leads.tracks rest still fun st' dropped => ?_
          exact full e es k st' rfl unfit denoted (upto.back dropped)
        · have result := fun st' => added e es k p grows st' rfl fits denoted
          generalize dirs.push (fs.encode dirs.plus p e) = next at grows result ⊢
          dsimp only
          rw [Routine.follows_bind]
          cases more : dirs.plus with
          | true =>
              rw [more] at result
              refine follows_ref leads.tracks (plus_pos d k) still fun st' refed held => ?_
              exact result st' (upto.trans (plus_le d k) refed) fun _ => held
          | false =>
              rw [more] at result
              have drops : Follows (alone B counts) (do
                  Inodes.dropShared p.ino
                  pure (.added next grows none)) s st₂ Q := by
                rw [Routine.follows_bind]
                refine follows_dropShared leads.tracks rest still fun st' dropped => ?_
                exact result st' (upto.back dropped) nofun
              exact drops

end Alone

/-- The keys whose references a listing keeps: with attributes the inode of every entry is
held twice, by a `shared_ptr` and by a `Ref`. -/
def keptKeys (plus : Bool) (keys : List (String × Key)) : List Key := if plus then keys.map Prod.snd else []

/-- The entries `done` are in the buffer, and their names have been resolved to `keys`;
`extra` is the resolved name of an entry that found no room. -/
structure Listed (B : Backing) (c : InodeCache) (fs : PageAlignFS) (plus : Bool) (st : Stage)
    (dirs : FuseDirsBuilder) (inodes : List Addr) (done : List Dirent) (keys extra : List (String × Key))
    (st' : Stage) : Prop where
  encoded : List.Forall₂ (fun e r => r = fs.encode plus r.param e) done dirs.buf
  inos : plus = true → dirs.buf.map (fun r => r.param.ino) = inodes
  names : keys.map Prod.fst = done.map Dirent.dName
  denoted : ∀ p ∈ keys ++ extra, Denoted B c plus p.1 p.2
  tracks : Tracks B c (counted (keptKeys plus keys) + counted (keptKeys plus keys)) st'
  held : st'.world.HoldsAll inodes (keptKeys plus keys)
  resolved : st'.trail.resolved = st.trail.resolved ++ (keys ++ extra)
  sent : st'.trail.sent = st.trail.sent

section Listed
variable {B : Backing} {c : InodeCache} {fs : PageAlignFS} {plus : Bool} {st st₁ st' : Stage}
  {dirs : FuseDirsBuilder} {inodes : List Addr} {done : List Dirent} {keys extra : List (String × Key)}

theorem Listed.pos {k : Key} (mem : k ∈ keptKeys plus keys) :
    0 < (counted (keptKeys plus keys) + counted (keptKeys plus keys)) k :=
  Nat.add_pos_left (counted_pos mem) _

/-- An entry has been read and found no room. -/
theorem Listed.overflow {e : Dirent} {k : Key} {dir : DirPtr}
    (h : Listed B c fs plus st dirs inodes done keys [] st₁) (denoted : Denoted B c plus e.dName k)
    (leads : Leads B c (counted (keptKeys plus keys) + counted (keptKeys plus keys)) (st₁.read dir)
      (counted (keptKeys plus keys) + counted (keptKeys plus keys)) [(e.dName, k)] st') :
    Listed B c fs plus st dirs inodes done keys [(e.dName, k)] st' where
  encoded := h.encoded
  inos := h.inos
  names := h.names
  denoted p mem := by
    rcases List.mem_append.mp mem with mem | mem
    · exact h.denoted p (List.mem_append_left _ mem)
    · cases List.mem_singleton.mp mem
      exact denoted
  tracks := leads.tracks
  held := h.held.passes leads.passes.held fun k mem => Listed.pos mem
  resolved := by
    rw [leads.keys]
    change st₁.trail.resolved ++ _ = _
    rw [h.resolved, List.append_nil, List.append_assoc]
  sent := leads.passes.sent.trans h.sent

/-- An entry has been read and added. -/
theorem Listed.added {e : Dirent} {k : Key} {dir : DirPtr} {param : EntryParam}
    (h : Listed B c fs plus st dirs inodes done keys [] st₁) (denoted : Denoted B c plus e.dName k)
    (leads : Leads B c (counted (keptKeys plus keys) + counted (keptKeys plus keys)) (st₁.read dir)
      (if plus then Pafs.plus (Pafs.plus (counted (keptKeys plus keys) + counted (keptKeys plus keys)) k) k
        else counted (keptKeys plus keys) + counted (keptKeys plus keys)) [(e.dName, k)] st')
    (here : plus = true → st'.world.keyAt param.ino = some k) :
    Listed B c fs plus st (dirs.push (fs.encode plus param e))
      (inodes ++ (if plus then some param.ino else none).toList) (done ++ [e]) (keys ++ [(e.dName, k)]) []
      st' := by
  have still := h.held.passes leads.passes.held fun k mem => Listed.pos mem
  refine ⟨?_, fun more => ?_, ?_, fun p mem => ?_, ?_, ?_, ?_, leads.passes.sent.trans h.sent⟩
  · exact List.rel_append h.encoded (.cons rfl .nil)
  · rw [if_pos more, ← h.inos more, FuseDirsBuilder.push, List.map_append]
    rfl
  · rw [List.map_append, List.map_append, h.names]
    rfl
  · rw [List.append_nil] at mem
    rcases List.mem_append.mp mem with mem | mem
    · exact h.denoted p (List.mem_append_left _ mem)
    · cases List.mem_singleton.mp mem
      exact denoted
  · cases plus with
    | false => exact leads.tracks
    | true =>
        have kept : keptKeys true (keys ++ [(e.dName, k)]) = keptKeys true keys ++ [k] := by
          simp [keptKeys]
        have twice : counted (keptKeys true keys ++ [k]) + counted (keptKeys true keys ++ [k]) =
            Pafs.plus (Pafs.plus (counted (keptKeys true keys) + counted (keptKeys true keys)) k) k := by
          rw [counted_concat]
          unfold Pafs.plus
          ac_rfl
        rw [kept, twice]
        exact leads.tracks
  · cases plus with
    | false =>
        rw [if_neg Bool.false_ne_true]
        simpa [keptKeys] using still
    | true =>
        have kept : keptKeys true (keys ++ [(e.dName, k)]) = keptKeys true keys ++ [k] := by
          simp [keptKeys]
        rw [kept]
        exact List.rel_append still (.cons (here rfl) .nil)
  · rw [leads.keys]
    change st₁.trail.resolved ++ _ = _
    rw [h.resolved, List.append_nil, List.append_nil, List.append_assoc]

end Listed

namespace Alone
open Routine (Follows)

variable {σ : Type} {s : σ} {B : Backing} {counts : String → Bool} {c : InodeCache} {st₀ st : Stage}
  {fs : PageAlignFS} {dirInode : InodeRef} {dir : DirPtr}

/-- The loop goes on for as long as the entries fit, and reads one more. -/
theorem follows_readDirLoop {room : Nat} {dirs : FuseDirsBuilder} {inodes : List Addr}
    {enough : dirs.maxsize - dirs.size < room} {done left : List Dirent} {keys : List (String × Key)}
    {Q : StatusOr (StatusOr FuseDirsBuilder × List Addr) → σ → Stage → Prop}
    (h : Listed B c fs dirs.plus st₀ dirs inodes done keys [] st) (rest : AtRest c)
    (stream : st.rest dir = some left) (fits : dirs.size ≤ dirs.maxsize)
    (failed : ∀ e inodes' ks st', Unlisted B c dirs.plus left → Tracks B c (counted ks + counted ks) st' →
      st'.world.HoldsAll inodes' ks → Q (.ok (.error e, inodes')) s st')
    (q : ∀ dirs' inodes' more after keys' extra st', left = more ++ after →
      more = fitting (fs.entrySize dirs.plus) (dirs.maxsize - dirs.size) left →
      dirs'.plus = dirs.plus → dirs'.size ≤ dirs'.maxsize →
      extra.map Prod.fst = (after.take 1).map Dirent.dName →
      Listed B c fs dirs.plus st₀ dirs' inodes' (done ++ more) keys' extra st' →
      Q (.ok (.ok dirs', inodes')) s st') :
    Follows (alone B counts) (fs.readDirLoop dirInode dir room dirs inodes enough) s st Q := by
  induction room generalizing dirs inodes done left keys st with
  | zero => exact absurd enough (Nat.not_lt_zero _)
  | succ room ih =>
      unfold PageAlignFS.readDirLoop
      rw [Routine.follows_bind, Routine.follows_attempt]
      refine follows_readDirRound h.tracks rest stream (fun e st' cause tracks held => ?_) (fun none => ?_)
        (fun e es k st' cons unfit denoted leads => ?_) fun e es k param grows st' cons fit denoted leads here => ?_
      · exact failed e inodes _ st' cause tracks (h.held.passes held fun k mem => Listed.pos mem)
      · subst none
        refine q dirs inodes [] [] keys [] _ rfl rfl rfl fits rfl ?_
        rw [List.append_nil]
        exact ⟨h.encoded, h.inos, h.names, h.denoted, h.tracks.read dir, h.held, h.resolved, h.sent⟩
      · subst cons
        refine q dirs inodes [] (e :: es) keys [(e.dName, k)] st' rfl ?_ rfl fits rfl ?_
        · rw [fitting_cons_of_lt (by omega)]
        · rw [List.append_nil]
          exact h.overflow denoted leads
      · subst cons
        have grown := h.added denoted leads here
        have stream' : st'.rest dir = some es := by
          rw [leads.passes.rest]
          change Function.update st.rest dir _ dir = _
          rw [Function.update_self, stream]
          rfl
        have size' : (dirs.push (fs.encode dirs.plus param e)).size = dirs.size + fs.entrySize dirs.plus e :=
          FuseDirsBuilder.push_size _ _
        refine ih grown stream' grows.fits (fun e' inodes' ks st'' cause => ?_)
          fun dirs' inodes' more after keys' extra st'' split fill plus' fits' next listed => ?_
        · refine failed e' inodes' ks st'' (cause.imp id fun unlisted => ?_)
          obtain ⟨e'', mem, lacks⟩ := unlisted.2
          exact ⟨unlisted.1, e'', List.mem_cons_of_mem _ mem, lacks⟩
        · refine q dirs' inodes' (e :: more) after keys' extra st'' (by rw [split]; rfl) ?_ plus' fits' next ?_
          · have room' : (dirs.push (fs.encode dirs.plus param e)).maxsize - (dirs.push (fs.encode dirs.plus param e)).size =
                dirs.maxsize - dirs.size - fs.entrySize dirs.plus e := by
              rw [size']
              exact Nat.sub_add_eq _ _ _
            rw [fitting_cons_of_le (by omega), ← room']
            exact congrArg (e :: ·) fill
          · rw [List.append_assoc] at listed
            exact listed

end Alone

/-- The reply to a listing of the entries `es`, and what is known of the state after it. -/
structure Sent (B : Backing) (c : InodeCache) (fs : PageAlignFS) (plus : Bool) (size : Nat)
    (es : List Dirent) (st : Stage) (records : List DirRecord) (keys extra : List (String × Key))
    (st' : Stage) : Prop where
  encoded : List.Forall₂ (fun e r => r = fs.encode plus r.param e) (fitting (fs.entrySize plus) size es) records
  names : keys.map Prod.fst = records.map DirRecord.name
  next : extra.map Prod.fst = ((es.drop records.length).take 1).map Dirent.dName
  denoted : ∀ p ∈ keys ++ extra, Denoted B c plus p.1 p.2
  tracks : Tracks B c (counted (keptKeys plus keys)) st'
  held : plus = true → st'.world.HoldsAll (records.map fun r => r.param.ino) (keys.map Prod.snd)
  resolved : st'.trail.resolved = st.trail.resolved ++ (keys ++ extra)
  sent : st'.trail.sent = st.trail.sent ++ [.buf (.dirs plus records)]

theorem Sent.take {B : Backing} {c : InodeCache} {fs : PageAlignFS} {plus : Bool} {size : Nat}
    {es : List Dirent} {st st' : Stage} {records : List DirRecord} {keys extra : List (String × Key)}
    (h : Sent B c fs plus size es st records keys extra st') :
    (keys ++ extra).take records.length = keys := by
  have length : keys.length = records.length := by simpa using congrArg List.length h.names
  rw [← length, List.take_left]

theorem names_of_encoded {fs : PageAlignFS} {plus : Bool} {es : List Dirent} {records : List DirRecord}
    (h : List.Forall₂ (fun e r => r = fs.encode plus r.param e) es records) :
    records.map DirRecord.name = es.map Dirent.dName := by
  induction h with
  | nil => rfl
  | @cons e r es records same _ ih =>
      rw [List.map_cons, List.map_cons, ih, same]
      rfl

namespace Alone
open Routine (Follows)

variable {B : Backing} {counts : String → Bool} {c : InodeCache} {st : Stage}
  {fs : PageAlignFS} {dirInode : InodeRef} {dir : DirPtr} {req : FuseReq} {s : FuseRequest}

/-- On an error every reference goes back, those of the `Ref`s first. -/
theorem follows_undo {as : List Addr} {ks : List Key} {e : Error} {Q : Status → FuseRequest → Stage → Prop}
    (h : Tracks B c (counted ks + counted ks) st) (rest : AtRest c) (held : st.world.HoldsAll as ks)
    (failed : ∀ st', Tracks B c 0 st' → Q (.error e) s st') :
    Follows (alone B counts) (Inodes.unrefAll as) s st fun _ s' st' =>
      Follows (alone B counts) (Inodes.dropAllShared as) s' st' fun _ s'' st'' => Q (.error e) s'' st'' := by
  refine follows_unrefAll h rest held fun st' undone => ?_
  have still := held.passes undone.passes.held fun k mem => counted_pos mem
  have tracks : Tracks B c (0 + counted ks) st' := by
    rw [zero_add]
    exact undone.tracks
  exact follows_dropAllShared tracks rest still fun st'' dropped => failed st'' dropped.tracks

theorem follows_reply {dirs : FuseDirsBuilder} {Q : Status → FuseRequest → Stage → Prop}
    (fits : dirs.size ≤ dirs.maxsize)
    (sends : Follows (alone B counts)
      (FuseRequest.send fs.platform "fuse_reply_buf" (.buf (.dirs dirs.plus dirs.buf))) s st Q) :
    Follows (alone B counts) (dirs.reply fs.platform) s st Q := by
  have passes : check .dirsFit (dirs.size ≤ dirs.maxsize : Bool) = (pure () : Io FuseRequest Unit) := by
    rw [decide_eq_true fits]
    rfl
  unfold FuseDirsBuilder.reply
  rw [passes]
  exact sends

theorem follows_readDirInternal {size : Nat} {off : Int} {fi : FileInfo} {plus : Bool} {es : List Dirent}
    {Q : Status → FuseRequest → Stage → Prop} (h : Tracks B c 0 st) (rest : AtRest c)
    (opened : st.world.directories fi.fh.toNat = some dir) (stream : B.following dir off = some es)
    (failed : ∀ e s' st', Unlisted B c plus es → Tracks B c 0 st' → Q (.error e) s' st')
    (q : ∀ records keys extra st', Sent B c fs plus size es st records keys extra st' →
      Q (.ok ()) ⟨none⟩ st') :
    Follows (alone B counts) (fs.readDirInternal dirInode size off fi plus) ⟨some req⟩ st Q := by
  unfold PageAlignFS.readDirInternal Syscalls.seekdir
  rw [Routine.follows_bind, Routine.follows_invoke]
  refine ⟨rfl, fun dir' answers => ?_⟩
  have same : dir' = dir := answers.1 dir opened
  subst same
  dsimp only
  rw [Routine.follows_bind, Routine.follows_invoke]
  refine ⟨rfl, fun _ _ => ?_⟩
  dsimp only
  rw [Routine.follows_bind]
  have start : Listed B c fs plus st { plus, maxsize := size, buf := [] } [] [] [] []
      (st.after B counts (.seekdir dir' off) ()) := by
    refine ⟨.nil, fun _ => rfl, rfl, nofun, ?_, ?_, (List.append_nil _).symm, rfl⟩
    · cases plus <;> exact h.congr rfl rfl rfl
    · cases plus <;> exact .nil
  have fresh : (st.after B counts (.seekdir dir' off) ()).rest dir' = some es := by
    rw [← stream]
    exact Function.update_self ..
  refine follows_readDirLoop start rest fresh (Nat.zero_le _) (fun e inodes ks st₁ cause tracks held => ?_)
    fun dirs inodes more after keys extra st₁ split fill plus' fits next listed => ?_
  · dsimp only
    rw [Routine.follows_andFinally, Routine.follows_onError, Routine.follows_bind, Routine.follows_ofExcept]
    exact follows_undo tracks rest held fun st' tracks => failed e _ st' cause tracks
  · dsimp only
    rw [Routine.follows_andFinally, Routine.follows_onError, Routine.follows_bind, Routine.follows_ofExcept]
    dsimp only
    refine follows_reply fits (follows_send listed.tracks (fun e st₂ fails unsent => ?_)
      fun st₂ tracks resolved sent inodes' => ?_)
    · have still := listed.held.passes unsent.passes.held fun k mem => Listed.pos mem
      exact follows_undo unsent.tracks rest still fun st' tracks => failed e _ st' (.inl fails) tracks
    · have still : st₂.world.HoldsAll inodes (keptKeys plus keys) := by
        refine listed.held.passes (d := counted (keptKeys plus keys)) (fun a k key _ => ?_)
          fun k mem => counted_pos mem
        unfold World.keyAt at key ⊢
        rw [inodes']
        exact key
      refine follows_dropAllShared tracks rest still fun st₃ dropped => ?_
      have fill : more = fitting (fs.entrySize plus) size es := fill
      have length : dirs.buf.length = more.length := listed.encoded.length_eq.symm
      refine q dirs.buf keys extra st₃ ⟨?_, ?_, ?_, listed.denoted, dropped.tracks, fun more => ?_, ?_, ?_⟩
      · rw [← fill]
        exact listed.encoded
      · rw [names_of_encoded listed.encoded]
        exact listed.names
      · rw [next, length, split, List.drop_left]
      · rw [listed.inos more]
        have kept : keys.map Prod.snd = keptKeys plus keys := (if_pos more).symm
        rw [kept]
        exact still.passes dropped.passes.held fun k mem => counted_pos mem
      · rw [dropped.keys, List.append_nil, resolved, listed.resolved]
      · rw [dropped.passes.sent, sent, listed.sent, plus']

end Alone

/-- `ReadDirPlus` or `ReadDir`. -/
def PageAlignFS.list (fs : PageAlignFS) (plus : Bool) (ino : Addr) (size : Nat) (off : Int) (fi : FileInfo) :
    Io FuseRequest Unit :=
  if plus then fs.readDirPlus ino size off fi else fs.readDir ino size off fi

def Request.list (plus : Bool) (ino : Addr) (size : Nat) (off : Int) (fi : FileInfo) : Request :=
  if plus then .readdirplus ino size off (some fi) else .readdir ino size off (some fi)

theorem Alone.follows_list {B : Backing} {counts : String → Bool} {c : InodeCache} {st : Stage}
    {fs : PageAlignFS} {ino : Addr} {dir : DirPtr} {req : FuseReq} {size : Nat} {off : Int} {fi : FileInfo}
    {plus : Bool} {es : List Dirent} {Q : Status → FuseRequest → Stage → Prop} (h : Tracks B c 0 st)
    (rest : AtRest c) (opened : st.world.directories fi.fh.toNat = some dir)
    (stream : B.following dir off = some es)
    (failed : ∀ e s' st', Unlisted B c plus es → Tracks B c 0 st' → Q (.error e) s' st')
    (q : ∀ records keys extra st', Sent B c fs plus size es st records keys extra st' →
      Q (.ok ()) ⟨none⟩ st') :
    Routine.Follows (alone B counts) (fs.list plus ino size off fi) ⟨some req⟩ st Q := by
  have listed : Routine.Follows (alone B counts) (do
      Routine.invoke (I := calls) (.logInode (getInode ino))
      fs.readDirInternal (getInode ino) size off fi plus) ⟨some req⟩ st Q := by
    rw [Routine.follows_bind, Routine.follows_invoke]
    exact ⟨rfl, fun _ _ => follows_readDirInternal (h.congr rfl rfl rfl) rest opened stream failed q⟩
  cases plus with
  | true => exact listed
  | false => exact listed

theorem Portraying.ends_list {fs : PageAlignFS} {plus : Bool} {ino : Addr} {size : Nat} {off : Int} {fi : FileInfo} :
    Ends fs.opts (fs.list plus ino size off fi) := by
  have listed : Ends fs.opts (do
      Routine.invoke (I := calls) (.logInode (getInode ino))
      fs.readDirInternal (getInode ino) size off fi plus) := .logged fun _ _ h => readDirInternal h
  cases plus with
  | true => exact listed
  | false => exact listed

/-- Nothing is known but what the directory streams deliver after a `seekdir`. -/
def Backing.streams (following : DirPtr → Int → List Dirent) : Backing :=
  { unknown with following := fun d off => some (following d off) }

section EndToEnd
variable {fs : PageAlignFS} {counts : String → Bool} {root : Inode} {pipes : Fd → Bool} {w : World}
  {req : FuseReq} {plus : Bool} {ino : Addr} {size : Nat} {off : Int} {fi : FileInfo} {d : DirPtr}
  {t : List (Event calls)} {status : Status} {s : FuseRequest} {following : DirPtr → Int → List Dirent}

theorem list_served {B : Backing} {es : List Dirent} {ok : World → Label calls (FuseReq × Request) → Prop}
    (run : (daemon fs counts).Reach ok (.initial root pipes) ⟨w, []⟩)
    (opened : w.directories fi.fh.toNat = some d) (stream : B.following d off = some es)
    (exec : Exec (fs.list plus ino size off fi { req := some req }) t (status, s))
    (served : (alone B counts).Admits (.start (w.arrive req (.list plus ino size off fi))) t) :
    let st := Stage.start (w.arrive req (.list plus ino size off fi))
    (status = .ok () → s = ⟨none⟩ ∧ ∃ records keys extra,
      Sent B w.inodes fs plus size es st records keys extra ((alone B counts).run st t)) ∧
    ∀ e, status = .error e → Unlisted B w.inodes plus es ∧ Tracks B w.inodes 0 ((alone B counts).run st t) := by
  intro st
  have directory : (w.arrive req (.list plus ino size off fi)).directories fi.fh.toNat = some d := by
    obtain ⟨nlookup, forgetting, fds, -, arrive⟩ := w.arrive_cases req (.list plus ino size off fi)
    rw [arrive]
    exact opened
  have follows : Routine.Follows (alone B counts) (fs.list plus ino size off fi) ⟨some req⟩ st
      fun status s' st' =>
        (status = .ok () → s' = ⟨none⟩ ∧ ∃ records keys extra,
          Sent B w.inodes fs plus size es st records keys extra st') ∧
        ∀ e, status = .error e → Unlisted B w.inodes plus es ∧ Tracks B w.inodes 0 st' :=
    Alone.follows_list (tracks_arrive run req _) (atRest_of_reach run) directory stream
      (fun _ _ _ cause tracks => ⟨nofun, fun _ _ => ⟨cause, tracks⟩⟩)
      fun records keys extra _ sent => ⟨fun _ => ⟨rfl, records, keys, extra, sent⟩, nofun⟩
  exact Prog.Follows.exec follows exec served

/-- One listing, whatever the calls on the handle were before and wherever it fails. -/
theorem list_exact {ok : World → Label calls (FuseReq × Request) → Prop}
    (run : (daemon fs counts).Reach ok (.initial root pipes) ⟨w, []⟩)
    (opened : w.directories fi.fh.toNat = some d)
    (exec : Exec (fs.list plus ino size off fi { req := some req }) t (status, s))
    (served : (alone (.streams following) counts).Admits
      (.start (w.arrive req (.list plus ino size off fi))) t) :
    let w' := (w.arrive req (.list plus ino size off fi)).play counts t
    (status = .ok () → ∃ records, (Trail.ofEvents t).sent = [.buf (.dirs plus records)] ∧
      List.Forall₂ (fun e r => r = fs.encode plus r.param e)
        (fitting (fs.entrySize plus) size (following d off)) records ∧
      let replied := (Gallery.ofEvents t).portraits.take records.length
      -- an entry has the attributes and the version that were read for its own name
      List.Forall₂ (fun q r => q.name = r.name ∧ q.Makes fs.opts plus r.param) replied records ∧
      (plus = false → w'.inodes = w.inodes) ∧
      (plus = true → Raised w.inodes w'.inodes (counted (replied.map Portrait.key)) ∧
        w'.HoldsAll (records.map fun r => r.param.ino) (replied.map Portrait.key))) ∧
    ∀ e, status = .error e → w'.inodes = w.inodes := by
  intro w'
  obtain ⟨success, failure⟩ := list_served run opened rfl exec served
  have world : ((alone (.streams following) counts).run
      (.start (w.arrive req (.list plus ino size off fi))) t).world = w' := Stage.run_world _ t
  refine ⟨fun returned => ?_, fun e returned => ?_⟩
  · obtain ⟨-, records, keys, extra, sent⟩ := success returned
    have resolved := sent.resolved
    have replies := sent.sent
    rw [Stage.run_start] at resolved replies
    refine ⟨records, replies, sent.encoded, ?_⟩
    have shown : (Gallery.ofEvents t).Shows fs.opts (.buf (.dirs plus records)) := by
      apply Portraying.ends_list.shows exec
      rw [replies]
      exact List.mem_singleton_self _
    have replied : ((Gallery.ofEvents t).portraits.take records.length).map Portrait.key = keys.map Prod.snd := by
      have named : (Gallery.ofEvents t).portraits.map (fun q => (q.name, q.key)) = keys ++ extra :=
        (Gallery.resolved t).trans resolved
      have taken := congrArg (List.take records.length) named
      rw [sent.take, ← List.map_take] at taken
      rw [← taken, List.map_map]
      rfl
    dsimp only
    rw [replied]
    refine ⟨shown, fun less => ?_, fun more => ⟨?_, ?_⟩⟩
    · subst less
      have grown : Grown w.inodes _ 0 := sent.tracks.grown
      rw [world] at grown
      exact grown.eq_of_zero
    · subst more
      have grown : Grown w.inodes _ (counted (keys.map Prod.snd)) := sent.tracks.grown
      rw [world] at grown
      exact grown.raised
    · have held := sent.held more
      rw [world] at held
      exact held
  · have grown := (failure e returned).2.grown
    rw [world] at grown
    exact grown.eq_of_zero

end EndToEnd

namespace Sample

/-- "g" is another name of the file "f". -/
def threeNames : DirPtr → Int → List Dirent := fun _ off =>
  if off = 0 then [⟨"f", 1⟩, ⟨"g", 2⟩, ⟨"h", 3⟩] else []

/-- There is room for two entries. -/
def threeTag : FuseReq × Request := (listTag.1, .list true FUSE_ROOT_ID 400 0 ⟨0, 500, false, false⟩)

def threeRecords : List DirRecord :=
  [⟨"f", ⟨4096, some 1, fileStat, 0, 0⟩, 1, linux.direntSize true "f" 0⟩,
    ⟨"g", ⟨4096, some 1, fileStat, 0, 0⟩, 2, linux.direntSize true "g" 0⟩]

def threeEvents : List (Event calls) :=
  [⟨.logInode .root, ()⟩, ⟨.derefDirectory 500, (70 : Nat)⟩, ⟨.seekdir 70 0, ()⟩,
    ⟨.sys (.readdir 70), .ok (some ⟨"f", 1⟩)⟩, ⟨.getFD .root, (4 : Int)⟩,
    ⟨.sys (.openat 4 "f" (O_PATH ||| O_NOFOLLOW ||| O_CLOEXEC) 0), .ok (10 : Int)⟩,
    ⟨.sys (.fstatat 10 "" (AT_EMPTY_PATH ||| AT_SYMLINK_NOFOLLOW)), .ok fileStat⟩,
    ⟨.insert ⟨10, 77, 8, none, none⟩, { addr := 4096, fresh := true }⟩,
    ⟨.getFD (.node 4096), (10 : Int)⟩,
    ⟨.sys (.fstatat 10 "" (AT_EMPTY_PATH ||| AT_SYMLINK_NOFOLLOW)), .ok fileStat⟩,
    ⟨.getGeneration (.node 4096), none⟩, ⟨.getFD (.node 4096), (10 : Int)⟩,
    ⟨.sys (.open_ (.procSelfFd 10) (O_RDONLY ||| O_CLOEXEC)), .ok (11 : Int)⟩,
    ⟨.sys (.ioctl 11 FS_IOC_GETVERSION), .ok (1 : Nat)⟩, ⟨.sys (.close 11 true), .ok ()⟩,
    ⟨.setGeneration (.node 4096) (.ok 1), ()⟩, ⟨.ref (.node 4096) 1, none⟩,
    ⟨.sys (.readdir 70), .ok (some ⟨"g", 2⟩)⟩, ⟨.getFD .root, (4 : Int)⟩,
    ⟨.sys (.openat 4 "g" (O_PATH ||| O_NOFOLLOW ||| O_CLOEXEC) 0), .ok (11 : Int)⟩,
    ⟨.sys (.fstatat 11 "" (AT_EMPTY_PATH ||| AT_SYMLINK_NOFOLLOW)), .ok fileStat⟩,
    ⟨.insert ⟨11, 77, 8, none, none⟩, { addr := 4096, fresh := false }⟩, ⟨.sys (.close 11 true), .ok ()⟩,
    ⟨.getFD (.node 4096), (10 : Int)⟩,
    ⟨.sys (.fstatat 10 "" (AT_EMPTY_PATH ||| AT_SYMLINK_NOFOLLOW)), .ok fileStat⟩,
    ⟨.getGeneration (.node 4096), some (.ok 1)⟩, ⟨.ref (.node 4096) 1, none⟩,
    ⟨.sys (.readdir 70), .ok (some ⟨"h", 3⟩)⟩, ⟨.getFD .root, (4 : Int)⟩,
    ⟨.sys (.openat 4 "h" (O_PATH ||| O_NOFOLLOW ||| O_CLOEXEC) 0), .ok (11 : Int)⟩,
    ⟨.sys (.fstatat 11 "" (AT_EMPTY_PATH ||| AT_SYMLINK_NOFOLLOW)), .ok otherStat⟩,
    ⟨.insert ⟨11, 78, 8, none, none⟩, { addr := 5000, fresh := true }⟩,
    ⟨.getFD (.node 5000), (11 : Int)⟩,
    ⟨.sys (.fstatat 11 "" (AT_EMPTY_PATH ||| AT_SYMLINK_NOFOLLOW)), .ok otherStat⟩,
    ⟨.getGeneration (.node 5000), none⟩, ⟨.getFD (.node 5000), (11 : Int)⟩,
    ⟨.sys (.open_ (.procSelfFd 11) (O_RDONLY ||| O_CLOEXEC)), .ok (12 : Int)⟩,
    ⟨.sys (.ioctl 12 FS_IOC_GETVERSION), .ok (1 : Nat)⟩, ⟨.sys (.close 12 true), .ok ()⟩,
    ⟨.setGeneration (.node 5000) (.ok 1), ()⟩,
    ⟨.dropShared 5000, .dropped (some ⟨11, 78, 8, some (.ok 1), none⟩)⟩, ⟨.sys (.close 11 true), .ok ()⟩,
    ⟨.fuseReply listTag.1 (.buf (.dirs true threeRecords)), none⟩,
    ⟨.dropShared 4096, .dropped none⟩, ⟨.dropShared 4096, .dropped none⟩]

theorem exec_three : Exec (PageAlignFS.onLinux.list true FUSE_ROOT_ID 400 0 ⟨0, 500, false, false⟩
    { req := some listTag.1 }) threeEvents (.ok (), { req := none }) :=
  .step _ (.step _ (.step _ (.step _ (.step _ (.step _ (.step _ (.step _ (.step _ (.step _
    (.step _ (.step _ (.step _ (.step _ (.step _ (.step _ (.step _ (.step _ (.step _ (.step _
    (.step _ (.step _ (.step _ (.step _ (.step _ (.step _ (.step _ (.step _ (.step _ (.step _
    (.step _ (.step _ (.step _ (.step _ (.step _ (.step _ (.step _ (.step _ (.step _ (.step _
    (.step _ (.step _ (.step _ (.step _ (.step _
    (.refl _)))))))))))))))))))))))))))))))))))))))))))))

theorem served_three : (alone (.streams threeNames) countsName).Admits
    (.start (dirOpened.arrive threeTag.1 threeTag.2)) threeEvents :=
  ⟨⟨trivial, trivial⟩, ⟨fun _ h => Option.some.inj h, trivial⟩, ⟨trivial, trivial⟩,
    ⟨trivial, fun _ h => by cases h; rfl⟩, ⟨rfl, trivial⟩, ⟨rfl, trivial⟩, ⟨trivial, nofun⟩,
    ⟨⟨_, rfl⟩, trivial⟩, ⟨rfl, trivial⟩, ⟨trivial, nofun⟩, ⟨rfl, trivial⟩, ⟨rfl, trivial⟩,
    ⟨rfl, trivial⟩, ⟨trivial, nofun⟩, ⟨trivial, trivial⟩, ⟨trivial, trivial⟩, ⟨rfl, trivial⟩,
    ⟨trivial, fun _ h => by cases h; rfl⟩, ⟨rfl, trivial⟩, ⟨rfl, trivial⟩, ⟨trivial, nofun⟩,
    ⟨⟨_, rfl⟩, trivial⟩, ⟨trivial, trivial⟩, ⟨rfl, trivial⟩, ⟨trivial, nofun⟩, ⟨rfl, trivial⟩, ⟨rfl, trivial⟩,
    ⟨trivial, fun _ h => by cases h; rfl⟩, ⟨rfl, trivial⟩, ⟨rfl, trivial⟩, ⟨trivial, nofun⟩,
    ⟨⟨_, rfl⟩, trivial⟩, ⟨rfl, trivial⟩, ⟨trivial, nofun⟩, ⟨rfl, trivial⟩, ⟨rfl, trivial⟩,
    ⟨rfl, trivial⟩, ⟨trivial, nofun⟩, ⟨trivial, trivial⟩, ⟨trivial, trivial⟩, ⟨rfl, trivial⟩, ⟨trivial, trivial⟩,
    ⟨trivial, trivial⟩, ⟨rfl, trivial⟩, ⟨rfl, trivial⟩, trivial⟩

end Sample

open Sample in
/-- Two names of one file fit and the third name does not: the file is counted twice. -/
theorem list_exact_three : Raised dirOpened.inodes
    ((dirOpened.arrive threeTag.1 threeTag.2).play countsName threeEvents).inodes (counted [(8, 77), (8, 77)]) := by
  obtain ⟨records, sent, -, -, -, raised⟩ :=
    (list_exact (w := dirOpened) (d := 70) reach_dirOpened rfl exec_three served_three).1 rfl
  have reply : (Trail.ofEvents threeEvents).sent = [.buf (.dirs true threeRecords)] := rfl
  have found : ((Gallery.ofEvents threeEvents).portraits.take 2).map Portrait.key = [(8, 77), (8, 77)] := by
    decide +kernel
  rw [reply] at sent
  cases sent
  have raised := (raised rfl).1
  change Raised _ _ (counted (((Gallery.ofEvents threeEvents).portraits.take 2).map Portrait.key)) at raised
  rw [found] at raised
  exact raised

end Pafs
