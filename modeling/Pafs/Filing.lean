import Pafs.Service

/-! Every callback of `PageAlignFS` calls what its request asks for and nothing else, on
descriptors that it knows to stand for the files its request names. -/
namespace Pafs
open Resumption
open Routine (Follows)

namespace Filing

variable {σ α : Type} {P : Platform} {fs : PageAlignFS} {k : Work} {s : σ} {fd : Fd} {a : Addr}

/-! The routines of the cache and of the descriptors. -/

theorem closeFd {Q : Status → σ → Work → Prop} (own : fd ∈ k.own) (q : Q (.ok ()) s (k.lose fd)) :
    Follows filing (FileDescriptor.destroy fd) s k Q := by
  rw [follows_closeFd]
  exact ⟨.one rfl (.inl own) (.drop own), fun _ _ => q⟩

theorem destroyInode {i : Inode} {Q : Status → σ → Work → Prop} (own : i.fd ∈ k.own)
    (q : Q (.ok ()) s (k.lose i.fd)) : Follows filing i.destroy s k Q := by
  unfold Inode.destroy
  cases i.pollHandle with
  | none => exact closeFd own q
  | some ph =>
      rw [Routine.follows_bind, Routine.follows_invoke]
      exact ⟨.quiet rfl rfl trivial, fun _ _ => closeFd own q⟩

/-- What an `Unref` took over is closed. -/
theorem settle {u : Unrefed} {Q : Status → σ → Work → Prop} (new : ∀ i, u = .dropped (some i) → i.fd ∉ k.own)
    (q : ∀ r k', k.Keeps k' → Q r s k') : Follows filing u.settle s (k.takes u) Q := by
  rcases u with key | _ | _ | i
  · exact q _ k (.refl k)
  · unfold Unrefed.settle
    rw [follows_check]
    exact ⟨fun h => absurd h Bool.false_ne_true, fun _ => .quiet rfl rfl trivial⟩
  · exact q _ k (.refl k)
  · apply destroyInode (Set.mem_insert _ _)
    apply q
    exact (Work.Keeps.gain k i.fd).lose (new i rfl)

theorem unref {site : UnrefSite} {r : InodeRef} {n : Nat} {Q : Status → σ → Work → Prop}
    (q : ∀ r k', k.Keeps k' → Q r s k') : Follows filing (Inodes.unref site r n) s k Q := by
  unfold Inodes.unref
  rw [Routine.follows_bind, Routine.follows_invoke]
  refine ⟨.quiet rfl rfl trivial, fun u new => settle (fun i erased => ?_) q⟩
  subst erased
  exact new

theorem dropShared {Q : Status → σ → Work → Prop}
    (q : ∀ k', Work.Keeps { k with shared := k.shared - Pi.single a 1 } k' → Q (.ok ()) s k') :
    Follows filing (Inodes.dropShared a) s k Q := by
  unfold Inodes.dropShared
  rw [Routine.follows_bind, Routine.follows_attempt, Routine.follows_bind, Routine.follows_invoke]
  refine ⟨.quiet rfl rfl trivial, fun u new => ?_⟩
  let dropped : Work := { k with shared := k.shared - Pi.single a 1 }
  have after : filing.after k (.dropShared a) u = dropped.takes u := by
    rcases u with key | _ | _ | i <;> rfl
  rw [after]
  refine settle (k := dropped) (fun i erased => ?_) fun r k' keeps => q k' keeps
  subst erased
  exact new

/-- A `shared_ptr` that came after `k` is dropped. -/
theorem drop {k' : Work} {Q : Status → σ → Work → Prop} (finds : k.Finds a k')
    (q : ∀ k'', k.Keeps k'' → Q (.ok ()) s k'') : Follows filing (Inodes.dropShared a) s k' Q :=
  dropShared fun k'' keeps => q k'' (finds.drop.trans keeps)

theorem unrefAll {as : List Addr} : Follows filing (Inodes.unrefAll as) s k fun _ _ _ => True := by
  induction as generalizing k with
  | nil => trivial
  | cons a as ih =>
      unfold Inodes.unrefAll
      rw [Routine.follows_bind, Routine.follows_attempt]
      exact unref fun _ _ _ => ih

theorem dropAllShared {as : List Addr} : Follows filing (Inodes.dropAllShared as) s k fun _ _ _ => True := by
  induction as generalizing k with
  | nil => trivial
  | cons a as ih =>
      unfold Inodes.dropAllShared
      rw [Routine.follows_bind]
      exact dropShared fun _ _ => ih

theorem statFD {Q : StatusOr Stat → σ → Work → Prop} (may : k.MayName fd)
    (asked : Asked k.means k.request (.sys (.fstatat fd "" (AT_EMPTY_PATH ||| AT_SYMLINK_NOFOLLOW))))
    (error : ∀ e, Q (.error e) s k) (ok : ∀ st : Stat, Q (.ok st) s (k.sawKey fd st.key)) :
    Follows filing (statFD P fd) s k Q := by
  unfold Pafs.statFD Syscalls.fstatat
  rw [follows_syscall]
  exact ⟨.one rfl may asked, fun e _ => error _, fun st _ => ok st⟩

/-- The inode that was found is that of the twins of the descriptor too. -/
theorem insert {i : Inode} {k₁ : Work} {Q : StatusOr Addr → σ → Work → Prop} (new : i.fd ∉ k.own)
    (keeps : k.Keeps k₁) (own : i.fd ∈ k₁.own) (known : (i.fd, i.key) ∈ k₁.keys)
    (q : ∀ a k', k.Finds a k' → (∀ fd ∈ k.own, (i.fd, fd) ∈ k₁.twins → (fd, .node a) ∈ k'.stands) →
      Q (.ok a) s k') : Follows filing (Inodes.insert i) s k₁ Q := by
  unfold Inodes.insert
  rw [Routine.follows_bind, Routine.follows_invoke]
  refine ⟨.quiet rfl rfl known, fun r _ => ?_⟩
  change Follows filing _ s (k₁.inserted i.fd r) _
  rw [Routine.follows_bind]
  have held (b : Addr) : k.shared b + (Pi.single r.addr 1 : Addr → Nat) b ≤ (k₁.inserted i.fd r).shared b := by
    refine (Nat.add_le_add_right (keeps.shared b) _).trans (le_of_eq ?_)
    unfold Work.inserted
    split <;> rfl
  have other {fd : Fd} (mine : fd ∈ k.own) : fd ≠ i.fd := by
    rintro rfl
    exact new mine
  cases fresh : r.fresh with
  | true =>
      exact q r.addr _ ⟨keeps.inserted new r, held⟩ fun fd mine twin => .inr ⟨rfl, other mine, twin⟩
  | false =>
      have owned : i.fd ∈ (k₁.inserted i.fd r).own := by
        simp only [Work.inserted, fresh, Bool.false_eq_true, if_false]
        exact own
      refine destroyInode owned (q r.addr _ ⟨(keeps.inserted new r).lose new, held⟩ fun fd mine twin => ?_)
      exact ⟨.inr ⟨rfl, other mine, twin⟩, other mine⟩

/-- The files that the thread has created under the name are those of the inode. -/
def Work.Leads (k : Work) (parent : InodeRef) (name : String) (a : Addr) (k' : Work) : Prop :=
  ∀ fd ∈ k.own, (fd, parent, name) ∈ k.created → (fd, .node a) ∈ k'.stands

/-- The name is opened and its file looked at before it goes to the cache. -/
theorem findOrCreateInode {parent : Addr} {name : String} {Q : StatusOr Addr → σ → Work → Prop}
    (reaches : k.Reaches (getInode parent)) (resolves : k.request.Resolves parent name)
    (error : ∀ e k', k.Keeps k' → Q (.error e) s k')
    (ok : ∀ a k', k.Finds a k' → Work.Leads k (getInode parent) name a k' → Q (.ok a) s k') :
    Follows filing (fs.findOrCreateInode (getInode parent) name) s k Q := by
  unfold PageAlignFS.findOrCreateInode Inode.create Syscalls.openat
  rw [Routine.follows_bind, Routine.follows_invoke]
  refine ⟨.quiet rfl rfl trivial, fun parentFd _ => ?_⟩
  change Follows filing _ s (k.reads parentFd (getInode parent)) _
  have stands : (k.reads parentFd (getInode parent)).Stands parentFd (getInode parent) :=
    .inl ⟨Set.mem_insert _ _, (Work.Keeps.reads k parentFd _).reaches reaches⟩
  rw [Routine.follows_bind, Routine.follows_bind, follows_syscall]
  refine ⟨.on stands rfl (.find resolves stands), fun e _ => error _ _ (.reads _ _ _), fun fd new => ?_⟩
  let k₁ := (k.reads parentFd (getInode parent)).opens parentFd name (O_PATH ||| O_NOFOLLOW ||| O_CLOEXEC) fd
  change Follows filing _ s k₁ _
  have keeps : k.Keeps k₁ := (Work.Keeps.reads _ _ _).trans (.opens _ _ _ _ _)
  have new : fd ∉ k.own := new
  have own : fd ∈ k₁.own := Set.mem_insert _ _
  have resolves : k₁.request.Resolves parent name := resolves
  rw [Routine.follows_bind, Routine.follows_onError]
  refine statFD (.inl own) (.statFound resolves own) (fun e => ?_) (fun st => ?_)
  · exact closeFd own (error e _ (keeps.lose new))
  · let i : Inode := ⟨fd, st.stIno, st.stDev, none, none⟩
    refine insert (i := i) new (keeps.trans (.sawKey _ _ _)) own (.inr ⟨rfl, own⟩) fun a k' finds twins => ?_
    refine ok a k' finds fun fd' mine created => twins fd' mine (.inr ⟨rfl, getInode parent, ?_, ?_, created⟩)
    · exact (Work.Keeps.reads k parentFd _).reaches reaches
    · exact Set.mem_insert _ _

theorem getFileVersionFromPathFD {parent : Addr} {name : String}
    {Q : StatusOr (Except VersionError Nat) → σ → Work → Prop} (resolves : k.request.Resolves parent name)
    (held : 0 < k.shared a) (stands : k.Stands fd (.node a)) (q : ∀ r k', k.Keeps k' → Q r s k') :
    Follows filing (getFileVersionFromPathFD fd) s k Q := by
  unfold Pafs.getFileVersionFromPathFD
  rw [Routine.follows_bind, Routine.follows_invoke]
  refine ⟨.on stands rfl (.reopen resolves held stands), fun opened new => ?_⟩
  cases opened with
  | error e => exact q _ k (.refl k)
  | ok myfd =>
      change Follows filing _ s (k.reopen fd myfd) _
      have new : myfd ∉ k.own := new
      have own : myfd ∈ (k.reopen fd myfd).own := Set.mem_insert _ _
      rw [Routine.follows_bind, Routine.follows_invoke]
      refine ⟨.one rfl (.inl own) (.version resolves own), fun version _ => ?_⟩
      change Follows filing _ s (k.reopen fd myfd) _
      rw [Routine.follows_bind]
      have keeps : k.Keeps ((k.reopen fd myfd).lose myfd) := (Work.Keeps.reopen k fd myfd).lose new
      apply closeFd own
      cases version with
      | error e => exact q _ _ keeps
      | ok v => exact q _ _ keeps

theorem getGeneration {parent : Addr} {name : String} {Q : StatusOr Nat → σ → Work → Prop}
    (resolves : k.request.Resolves parent name) (held : 0 < k.shared a)
    (q : ∀ r k', k.Keeps k' → Q r s k') : Follows filing (Inode.getGeneration P (.node a)) s k Q := by
  unfold Inode.getGeneration
  rw [Routine.follows_bind, Routine.follows_invoke]
  refine ⟨.quiet rfl rfl trivial, fun memo _ => ?_⟩
  change Follows filing _ s k _
  cases memo with
  | some v => exact q _ k (.refl k)
  | none =>
      dsimp only
      rw [Routine.follows_bind, Routine.follows_invoke]
      refine ⟨.quiet rfl rfl trivial, fun fd _ => ?_⟩
      change Follows filing _ s (k.reads fd (.node a)) _
      have keeps := Work.Keeps.reads k fd (.node a)
      have stands : (k.reads fd (.node a)).Stands fd (.node a) := .inl ⟨Set.mem_insert _ _, .inr held⟩
      rw [Routine.follows_bind]
      refine getFileVersionFromPathFD resolves held stands fun v k' keeps' => ?_
      have kept := keeps.trans keeps'
      cases v with
      | error e => exact q _ _ kept
      | ok v =>
          dsimp only
          rw [Routine.follows_bind, Routine.follows_invoke]
          exact ⟨.quiet rfl rfl trivial, fun _ _ => q _ _ kept⟩

/-- An entry describes the file of its id. -/
theorem createFuseEntryParam {parent inode : Addr} {name : String} {withGeneration : Bool}
    {Q : StatusOr EntryParam → σ → Work → Prop} (resolves : k.request.Resolves parent name)
    (held : 0 < k.shared inode) (error : ∀ e k', k.Keeps k' → Q (.error e) s k')
    (ok : ∀ param k', k.Keeps k' → param.ino = inode → k'.Describes param → Q (.ok param) s k') :
    Follows filing (fs.createFuseEntryParam inode withGeneration) s k Q := by
  unfold PageAlignFS.createFuseEntryParam
  rw [Routine.follows_bind, Routine.follows_invoke]
  refine ⟨.quiet rfl rfl trivial, fun fd _ => ?_⟩
  change Follows filing _ s (k.reads fd (.node inode)) _
  have keeps := Work.Keeps.reads k fd (.node inode)
  have known : (fd, InodeRef.node inode) ∈ (k.reads fd (.node inode)).stands := Set.mem_insert _ _
  have stands : (k.reads fd (.node inode)).Stands fd (.node inode) := .inl ⟨known, .inr held⟩
  rw [Routine.follows_bind]
  refine statFD (Work.mayName_of_stands stands) (.statEntry resolves held stands) (fun e => error e _ keeps) (fun st => ?_)
  have kept : k.Keeps ((k.reads fd (.node inode)).sawKey fd st.key) := keeps.trans (.sawKey _ _ _)
  have describes (param : EntryParam) (ino : param.ino = inode) (attr : param.attr = st) :
      ((k.reads fd (.node inode)).sawKey fd st.key).Describes param := by
    subst ino attr
    exact ⟨held, .inr ⟨rfl, known⟩⟩
  cases withGeneration with
  | false => exact ok _ _ kept rfl (describes _ rfl rfl)
  | true =>
      dsimp only
      rw [if_pos rfl, Routine.follows_bind]
      have resolves : ((k.reads fd (.node inode)).sawKey fd st.key).request.Resolves parent name := resolves
      refine getGeneration resolves held fun v k' keeps' => ?_
      cases v with
      | error e => exact error e k' (kept.trans keeps')
      | ok v => exact ok _ k' (kept.trans keeps') rfl (keeps'.describes (describes ⟨inode, _, st, _, _⟩ rfl rfl))

theorem ref {r : InodeRef} {n : Nat} {Q : Status → σ → Work → Prop} (q : ∀ r, Q r s k) :
    Follows filing (Inodes.ref r n) s k Q := by
  unfold Inodes.ref
  rw [Routine.follows_bind, Routine.follows_invoke]
  refine ⟨.quiet rfl rfl trivial, fun rc _ => ?_⟩
  cases rc with
  | none => exact q _
  | some key => exact q _

/-! Replies. -/

theorem send {req : FuseReq} {what : String} {reply : Reply} {Q : Status → FuseRequest → Work → Prop}
    (allows : k.Allows (.fuseReply req reply))
    (q : ∀ rc, Q (errnoToStatus P rc what) ⟨none⟩ (k.after (.fuseReply req reply) rc)) :
    Follows filing (FuseRequest.send P what reply) ⟨some req⟩ k Q := by
  rw [FuseRequest.follows_send_some]
  exact ⟨allows, fun rc _ => q rc⟩

/-- A reply that could not be sent takes no descriptor. -/
theorem own_unsent {req : FuseReq} {reply : Reply} {rc : Option Errno} {what : String} {e : Error}
    (failed : errnoToStatus P rc what = .error e) : k.own ⊆ (k.after (.fuseReply req reply) rc).own := by
  cases rc with
  | none => cases failed
  | some e => exact subset_rfl

theorem epilogue {finish : Finish} {status : Status} {s : FuseRequest} :
    Follows filing (epilogue P finish status) s k fun _ _ _ => True := by
  obtain ⟨req⟩ := s
  cases req with
  | none =>
      rw [Follows, epilogue_gone]
      trivial
  | some req =>
      rw [Follows, epilogue_owed]
      refine ⟨.bare ?_, fun _ _ => trivial⟩
      rcases finish <;> rcases status with st | _ <;> rfl

/-- Both `ReplyWithLookup` and `ReplyWithCreate`. -/
theorem replyWithEntry {req : FuseReq} {parent : Addr} {name what : String} {mk : EntryParam → Reply}
    (reaches : k.Reaches (getInode parent)) (resolves : k.request.Resolves parent name)
    (allows : ∀ k' param, k.Keeps k' → k'.Describes param → Work.Leads k (getInode parent) name param.ino k' →
      k'.Allows (.fuseReply req (mk param))) :
    Follows filing (fs.replyWithEntry (getInode parent) name fun param =>
      FuseRequest.send fs.platform what (mk param)) ⟨some req⟩ k
      fun r _ k' => ∀ e, r = .error e → k.own ⊆ k'.own := by
  unfold PageAlignFS.replyWithEntry
  rw [Routine.follows_bind]
  refine findOrCreateInode reaches resolves (fun e k' keeps _ _ => keeps.own) fun inode k₁ finds leads => ?_
  dsimp only
  rw [Routine.follows_andFinally, Routine.follows_bind, Routine.follows_invoke]
  refine ⟨.quiet rfl rfl trivial, fun parentDevice _ => ?_⟩
  dsimp only
  rw [Routine.follows_bind, Routine.follows_invoke]
  refine ⟨.quiet rfl rfl trivial, fun device _ => ?_⟩
  -- whatever comes of the reply, the `shared_ptr` is dropped at the end
  have dropped {r : Status} {s : FuseRequest} {k' : Work} (own : ∀ e, r = .error e → k.own ⊆ k'.own) :
      Follows filing (Inodes.dropShared inode) s k' fun _ _ k'' => ∀ e, r = .error e → k.own ⊆ k''.own :=
    dropShared fun k'' keeps e failed => (own e failed).trans keeps.own
  change Follows filing _ _ k₁ _
  rw [Routine.follows_ite]
  refine ⟨fun _ => dropped fun _ _ => finds.own, fun _ => ?_⟩
  have resolves : k₁.request.Resolves parent name := by
    rw [finds.request]
    exact resolves
  rw [Routine.follows_bind]
  refine createFuseEntryParam resolves finds.pos (fun e k' keeps => dropped fun _ _ => finds.own.trans keeps.own)
    (fun param k₂ keeps ino describes => ?_)
  have kept : k.Keeps k₂ := finds.toKeeps.trans keeps
  have leads : Work.Leads k (getInode parent) name param.ino k₂ := by
    subst ino
    exact fun fd mine created => keeps.stands _ fd (finds.own mine) finds.pos (leads fd mine created)
  dsimp only
  rw [Routine.follows_bind]
  refine ref fun r => ?_
  cases r with
  | error e => exact dropped fun _ _ => kept.own
  | ok _ =>
      dsimp only
      rw [Routine.follows_onError]
      refine send (allows k₂ param kept describes leads) fun rc => ?_
      have unsent {e : Error} (failed : errnoToStatus fs.platform rc what = .error e) :
          k.own ⊆ (k₂.after (.fuseReply req (mk param)) rc).own :=
        kept.own.trans (own_unsent failed)
      cases status : errnoToStatus fs.platform rc what with
      | ok _ => exact dropped fun e failed => by cases failed
      | error e =>
          refine unref fun r k' keeps' => dropped fun _ _ => ?_
          exact (unsent status).trans keeps'.own

/-! Listings. -/

theorem addDirEntry {d : FuseDirsBuilder} {name : String} {param : EntryParam} {offset : Int}
    {Q : StatusOr (Option { d' // d.Grows d' }) → σ → Work → Prop} (full : Q (.ok none) s k)
    (added : ∀ (next : { d' // d.Grows d' }) size, next.1.buf = d.buf ++ [⟨name, param, offset, size⟩] →
      Q (.ok (some next)) s k) : Follows filing (d.addDirEntry P name param offset) s k Q := by
  unfold FuseDirsBuilder.addDirEntry
  dsimp only
  split
  · rw [Routine.follows_bind, follows_check]
    exact ⟨fun _ => added _ _ rfl, fun _ => .quiet rfl rfl trivial⟩
  · exact full

/-- What one round leaves behind. -/
def RoundFiled (k : Work) (dirs : FuseDirsBuilder) (round : StatusOr (PageAlignFS.ReadDirRound dirs)) (k' : Work) :
    Prop :=
  k.Keeps k' ∧ ∀ next grows inode, round = .ok (.added next grows inode) →
    ∃ r : DirRecord, next.buf = dirs.buf ++ [r] ∧ (dirs.plus = true → k'.Describes r.param)

theorem RoundFiled.failed {dirs : FuseDirsBuilder} {e : Error} {k' : Work} (keeps : k.Keeps k') :
    RoundFiled k dirs (.error e) k' := ⟨keeps, by simp⟩

theorem RoundFiled.stopped {dirs : FuseDirsBuilder} {k' : Work} (keeps : k.Keeps k') :
    RoundFiled k dirs (.ok .stop) k' := ⟨keeps, by simp⟩

/-- The thread lists the directory of its request. -/
structure Lists (k : Work) (parent : Addr) (off : Int) (dir : DirPtr) : Prop where
  reaches : k.Reaches (getInode parent)
  resolves : ∀ name, k.request.Resolves parent name
  position : k.request.position = some off
  stream : dir ∈ k.streams

theorem Lists.keeps {parent : Addr} {off : Int} {dir : DirPtr} {k' : Work} (h : Lists k parent off dir)
    (keeps : k.Keeps k') : Lists k' parent off dir where
  reaches := keeps.reaches h.reaches
  resolves := by
    rw [keeps.request]
    exact h.resolves
  position := by
    rw [keeps.request]
    exact h.position
  stream := keeps.streams h.stream

theorem readDirRound {parent : Addr} {off : Int} {dir : DirPtr} {dirs : FuseDirsBuilder}
    (lists : Lists k parent off dir) :
    Follows filing (fs.readDirRound (getInode parent) dir dirs) s k fun r _ k' => RoundFiled k dirs r k' := by
  unfold PageAlignFS.readDirRound Syscalls.readdir
  rw [Routine.follows_bind, follows_syscall]
  refine ⟨.unnamed rfl (.readdir lists.position lists.stream) trivial,
    fun e _ => RoundFiled.failed (.refl k), fun entry _ => ?_⟩
  change Follows filing _ s k _
  cases entry with
  | none => exact RoundFiled.stopped (.refl k)
  | some entry =>
      dsimp only
      rw [Routine.follows_bind]
      refine findOrCreateInode lists.reaches (lists.resolves entry.dName) (fun e k' keeps => RoundFiled.failed keeps)
        fun inode k₁ finds _ => ?_
      have resolves := (lists.keeps finds.toKeeps).resolves entry.dName
      dsimp only
      rw [Routine.follows_bind, Routine.follows_onError, Routine.follows_bind]
      refine createFuseEntryParam resolves finds.pos (fun e k' keeps => ?_) fun param k₂ keeps ino describes => ?_
      · exact drop (finds.keeps keeps) fun k'' kept => RoundFiled.failed kept
      · dsimp only
        have found := finds.keeps keeps
        rw [Routine.follows_bind]
        refine addDirEntry ?_ fun next size added => ?_
        · dsimp only
          rw [Routine.follows_pure]
          dsimp only
          rw [Routine.follows_bind]
          exact drop found fun k'' kept => RoundFiled.stopped kept
        · dsimp only
          rw [Routine.follows_bind]
          cases plus : dirs.plus with
          | false =>
              rw [doIf, if_neg Bool.false_ne_true, Routine.follows_pure]
              dsimp only
              rw [Routine.follows_pure]
              dsimp only
              rw [if_neg Bool.false_ne_true, Routine.follows_bind]
              refine drop found fun k'' kept => ⟨kept, ?_⟩
              rintro next' grows inode' ⟨⟩
              exact ⟨_, added, fun h => by rw [plus] at h; cases h⟩
          | true =>
              rw [doIf, if_pos rfl]
              refine ref fun r => ?_
              cases r with
              | error e => exact drop found fun k'' kept => RoundFiled.failed kept
              | ok _ =>
                  dsimp only
                  rw [Routine.follows_pure]
                  dsimp only
                  rw [if_pos rfl, Routine.follows_pure]
                  refine ⟨found.toKeeps, ?_⟩
                  rintro next' grows inode' ⟨⟩
                  exact ⟨_, added, fun _ => describes⟩

/-- The entries of a buffer that is sent with attributes are described. -/
def Listed (k : Work) (d : FuseDirsBuilder) : Prop := d.plus = true → ∀ r ∈ d.buf, k.Describes r.param

theorem readDirLoop {parent : Addr} {off : Int} {dir : DirPtr} {room : Nat} {dirs : FuseDirsBuilder}
    {inodes : List Addr} (h : dirs.maxsize - dirs.size < room) (lists : Lists k parent off dir)
    (listed : Listed k dirs) :
    Follows filing (fs.readDirLoop (getInode parent) dir room dirs inodes h) s k fun r _ k' =>
      k.Keeps k' ∧ ∀ d inodes, r = .ok (.ok d, inodes) → Listed k' d := by
  induction room generalizing dirs inodes s k with
  | zero => exact absurd h (Nat.not_lt_zero _)
  | succ room ih =>
      unfold PageAlignFS.readDirLoop
      rw [Routine.follows_bind, Routine.follows_attempt]
      refine (readDirRound lists).mono fun round s' k₁ filed => ?_
      obtain ⟨keeps, entry⟩ := filed
      have kept : Listed k₁ dirs := fun plus r mem => keeps.describes (listed plus r mem)
      cases round with
      | error e => exact ⟨keeps, fun d inodes same => by cases same⟩
      | ok round =>
          cases round with
          | stop =>
              refine ⟨keeps, ?_⟩
              rintro d inodes ⟨⟩
              exact kept
          | added next grows inode =>
              obtain ⟨r, buf, describes⟩ := entry next grows inode rfl
              have listed' : Listed k₁ next := by
                intro plus r' mem
                rw [grows.plus] at plus
                rw [buf, List.mem_append, List.mem_singleton] at mem
                rcases mem with mem | rfl
                · exact kept plus r' mem
                · exact describes plus
              refine (ih _ (lists.keeps keeps) listed').mono fun r' s'' k₂ done => ?_
              exact ⟨keeps.trans done.1, done.2⟩

theorem Listed.permits {req : FuseReq} {d : FuseDirsBuilder} (listed : Listed k d) :
    k.Permits (.fuseReply req (.buf (.dirs d.plus d.buf))) := by
  refine ⟨fun param mem => ?_, trivial⟩
  cases plus : d.plus with
  | false =>
      rw [plus] at mem
      cases mem
  | true =>
      rw [plus] at mem
      obtain ⟨r, there, rfl⟩ := List.mem_map.mp mem
      exact listed plus r there

theorem readDirInternal {req : FuseReq} {parent : Addr} {size : Nat} {off : Int} {fi : FileInfo} {plus : Bool}
    (reaches : k.Reaches (getInode parent)) (resolves : ∀ name, k.request.Resolves parent name)
    (directory : k.request.directory = some fi.fh.toNat) (position : k.request.position = some off) :
    Follows filing (fs.readDirInternal (getInode parent) size off fi plus) ⟨some req⟩ k fun _ _ _ => True := by
  have dropped {inodes : List Addr} {s : FuseRequest} {k' : Work} :
      Follows filing (Inodes.dropAllShared inodes) s k' fun _ _ _ => True := dropAllShared
  have undone {inodes : List Addr} {s : FuseRequest} {k' : Work} :
      Follows filing (Inodes.unrefAll inodes) s k' fun _ s' k'' =>
        Follows filing (Inodes.dropAllShared inodes) s' k'' fun _ _ _ => True :=
    unrefAll.mono fun _ _ _ _ => dropped
  unfold PageAlignFS.readDirInternal Syscalls.seekdir
  rw [Routine.follows_bind, Routine.follows_invoke]
  refine ⟨.unnamed rfl (.directory directory) trivial, fun dir _ => ?_⟩
  let k₁ : Work := k.streaming dir
  change Follows filing _ _ k₁ _
  have lists : Lists k₁ parent off dir := ⟨reaches, resolves, position, Set.mem_insert _ _⟩
  rw [Routine.follows_bind, Routine.follows_invoke]
  refine ⟨.unnamed rfl (.seekdir lists.position lists.stream) trivial, fun _ _ => ?_⟩
  change Follows filing _ _ k₁ _
  have listed : Listed k₁ { plus, maxsize := size, buf := [] } := fun _ r mem => absurd mem List.not_mem_nil
  rw [Routine.follows_bind]
  refine (readDirLoop _ lists listed).mono fun r s k' done => ?_
  rcases r with e | ⟨listed, inodes⟩
  · trivial
  dsimp only
  rw [Routine.follows_andFinally, Routine.follows_onError, Routine.follows_bind, Routine.follows_ofExcept]
  cases listed with
  | error e => exact undone
  | ok d =>
      unfold FuseDirsBuilder.reply
      dsimp only
      rw [Routine.follows_bind, follows_check]
      refine ⟨fun _ => ?_, fun _ => .quiet rfl rfl trivial⟩
      unfold FuseRequest.replyBuf
      obtain ⟨req⟩ := s
      cases req with
      | none => exact dropped
      | some req =>
          refine send (.quiet rfl rfl (done.2 d inodes rfl).permits) fun rc => ?_
          cases errnoToStatus fs.platform rc "fuse_reply_buf" with
          | ok _ => exact dropped
          | error e => exact undone

/-! The handlers. -/

/-- The code keeps to the discipline while the request is unanswered. -/
def Acts (k : Work) (req : FuseReq) (m : Io FuseRequest α) : Prop :=
  Follows filing m ⟨some req⟩ k fun _ _ _ => True

namespace Acts

variable {req : FuseReq} {ino : Addr} {what message : String}

theorem logged {m : Handler} (rest : Acts k req m) :
    Acts k req (do
      Routine.invoke (I := calls) (.logInode (getInode ino))
      m) := by
  unfold Acts
  rw [Routine.follows_bind, Routine.follows_invoke]
  exact ⟨.quiet rfl rfl trivial, fun _ _ => rest⟩

theorem withFD {f : Fd → Handler} (owed : k.owed = true) (named : ino ∈ k.request.names)
    (rest : ∀ fd, (k.reads fd (getInode ino)).Stands fd (getInode ino) →
      Acts (k.reads fd (getInode ino)) req (f fd)) :
    Acts k req (Routine.invoke (I := calls) (.getFD (getInode ino)) >>= f) := by
  unfold Acts
  rw [Routine.follows_bind, Routine.follows_invoke]
  refine ⟨.quiet rfl rfl trivial, fun fd _ => rest fd (.inl ⟨Set.mem_insert _ _, ?_⟩)⟩
  exact (Work.Keeps.reads k fd _).reaches (Work.reaches_getInode owed named)

theorem sys {c : Sys} {f : c.Ret → Handler} (allows : k.Allows (.sys c))
    (same : ∀ r, k.after (.sys c) r = k) (rest : ∀ v, Acts k req (f v)) :
    Acts k req (syscall P c message >>= f) := by
  unfold Acts
  rw [Routine.follows_bind, follows_syscall]
  refine ⟨allows, fun e _ => trivial, fun v _ => ?_⟩
  have after : filing.after k (.sys c) (.ok v) = k := same (.ok v)
  dsimp only
  rw [after]
  exact rest v

theorem last {c : Sys} (allows : k.Allows (.sys c)) :
    Acts k req (syscall P c message : Io FuseRequest c.Ret) := by
  unfold Acts
  rw [follows_syscall]
  exact ⟨allows, fun _ _ => trivial, fun _ _ => trivial⟩

theorem send {reply : Reply} (allows : k.Allows (.fuseReply req reply)) :
    Acts k req (FuseRequest.send P what reply) := Filing.send allows fun _ => trivial

theorem replyWithLookup {name : String} (owed : k.owed = true) (named : ino ∈ k.request.names)
    (resolves : k.request.Resolves ino name) : Acts k req (fs.replyWithLookup (getInode ino) name) := by
  refine (replyWithEntry (Work.reaches_getInode owed named) resolves fun k' param keeps describes _ => ?_).mono
    fun _ _ _ _ => trivial
  refine .quiet rfl rfl ⟨fun param' mem => ?_, trivial⟩
  obtain rfl := List.mem_singleton.mp mem
  exact describes

/-- The attributes are those of the inode; no descriptor is taken. -/
theorem replyWithAttrs (owed : k.owed = true) (named : ino ∈ k.request.names)
    (attributed : k.request.attributed = some ino) :
    Follows filing (fs.replyWithAttrs (getInode ino)) ⟨some req⟩ k fun _ _ k' => k.own ⊆ k'.own := by
  unfold PageAlignFS.replyWithAttrs
  rw [Routine.follows_bind, Routine.follows_invoke]
  refine ⟨.quiet rfl rfl trivial, fun fd _ => ?_⟩
  change Follows filing _ _ (k.reads fd (getInode ino)) _
  have known : (fd, getInode ino) ∈ (k.reads fd (getInode ino)).stands := Set.mem_insert _ _
  have reaches := (Work.Keeps.reads k fd (getInode ino)).reaches (Work.reaches_getInode owed named)
  have stands : (k.reads fd (getInode ino)).Stands fd (getInode ino) := .inl ⟨known, reaches⟩
  have attributed : (k.reads fd (getInode ino)).request.attributed = some ino := attributed
  rw [Routine.follows_bind]
  refine statFD (Work.mayName_of_stands stands) (.statAttributes attributed stands) (fun e => subset_rfl) fun st => ?_
  refine Filing.send ?_ fun rc => ?_
  · refine .quiet rfl rfl ⟨fun param mem => absurd mem List.not_mem_nil, ino, named, ?_⟩
    exact .inr ⟨rfl, known⟩
  · cases rc with
    | none => exact subset_rfl
    | some e => exact subset_rfl

/-- A system call by which the thread neither gets nor loses anything. -/
theorem same {c : Sys} (allows : k.Allows (.sys c)) (same : ∀ r, k.after (.sys c) r = k) :
    Follows filing (syscall P c message : Io σ c.Ret) s k fun _ s' k' => s' = s ∧ k' = k := by
  rw [follows_syscall]
  exact ⟨allows, fun e _ => ⟨rfl, same (.error e)⟩, fun v _ => ⟨rfl, same (.ok v)⟩⟩

/-- One of the four settings of `SetAttr`. -/
theorem setting {condition : Bool} {m : Handler} {f : Unit → Handler} {Q : Status → FuseRequest → Work → Prop}
    (quiet : condition = true → Follows filing m ⟨some req⟩ k fun _ s' k' => s' = ⟨some req⟩ ∧ k' = k)
    (error : ∀ e, Q (.error e) ⟨some req⟩ k) (rest : Follows filing (f ()) ⟨some req⟩ k Q) :
    Follows filing (doIf condition m >>= f) ⟨some req⟩ k Q := by
  rw [Routine.follows_bind]
  cases condition with
  | false => exact rest
  | true =>
      refine (quiet rfl).mono fun r s' k' same => ?_
      obtain ⟨rfl, rfl⟩ := same
      cases r with
      | ok _ => exact rest
      | error e => exact error e

theorem setAttrOn {attr : Stat} {toSet : Flags} {fi : Option FileInfo} (owed : k.owed = true)
    (request : k.request = .setattr ino attr toSet fi) (stands : k.Stands fd (getInode ino)) :
    Follows filing (fs.setAttrOn (getInode ino) fd attr toSet) ⟨some req⟩ k fun _ _ k' => k.own ⊆ k'.own := by
  have asked {c : Call} (h : Asked k.means (.setattr ino attr toSet fi) c) : Asked k.means k.request c := by
    rw [request]
    exact h
  have named : ino ∈ k.request.names := by
    rw [request]
    exact List.mem_cons_self
  refine setting (fun has => same (.on stands rfl (asked (.chmod has stands))) fun _ => rfl)
    (fun _ => subset_rfl) ?_
  refine setting (fun has => same (.on stands rfl (asked (.chown has stands))) fun _ => rfl)
    (fun _ => subset_rfl) ?_
  refine setting (fun has => same (.on stands rfl (asked (.truncate has stands))) fun _ => rfl)
    (fun _ => subset_rfl) ?_
  refine setting (fun has => same (.on stands rfl (asked (.utimens has stands))) fun _ => rfl)
    (fun _ => subset_rfl) (replyWithAttrs owed named ?_)
  rw [request]
  rfl

/-- A descriptor of the inode itself, or the handle that the request names. -/
theorem setAttr {attr : Stat} {toSet : Flags} {fi : FileInfo} (owed : k.owed = true)
    (request : k.request = .setattr ino attr toSet (some fi)) : Acts k req (fs.setAttr ino attr toSet fi) := by
  have named : ino ∈ k.request.names := by
    rw [request]
    exact List.mem_cons_self
  refine .logged ?_
  by_cases fh : fi.fh = 0
  · rw [if_pos fh]
    refine .withFD owed named fun inodeFd here => ?_
    unfold Acts Syscalls.open_
    rw [Routine.follows_bind, follows_syscall]
    refine ⟨.on here rfl (request ▸ .reopenToSet fh here), fun _ _ => trivial, fun myfd new => ?_⟩
    let k' := (k.reads inodeFd (getInode ino)).reopen inodeFd myfd
    have stands : k'.Stands myfd (getInode ino) := by
      refine .inl ⟨.inr ⟨rfl, Set.mem_insert _ _⟩, ?_⟩
      exact ((Work.Keeps.reads _ _ _).trans (.reopen _ _ _)).reaches (Work.reaches_getInode owed named)
    change Follows filing _ _ k' _
    rw [Routine.follows_andFinally]
    refine (setAttrOn (k := k') owed request stands).mono fun _ _ k'' kept => ?_
    exact closeFd (kept (Set.mem_insert _ _)) trivial
  · rw [if_neg fh]
    have here := Work.stands_handle owed (by rw [request]; exact if_neg fh) (by rw [request]; rfl)
    exact (setAttrOn owed request here).mono fun _ _ _ _ => trivial

theorem readLink (owed : k.owed = true) (request : k.request = .readlink ino) : Acts k req (fs.readLink ino) := by
  have named : ino ∈ k.request.names := by
    rw [request]
    exact List.mem_cons_self
  refine .logged (.withFD owed named fun fd here => .sys (.on here rfl ?_) (fun _ => rfl) fun buf => ?_)
  · exact request ▸ .readlink here
  · split
    · trivial
    · exact .send (.bare rfl)

/-- The handle that is sent is a descriptor of the inode. -/
theorem open_ {fi : FileInfo} (owed : k.owed = true) (request : k.request = .open_ ino (some fi)) :
    Acts k req (fs.open_ ino fi) := by
  have named : ino ∈ k.request.names := by
    rw [request]
    exact List.mem_cons_self
  refine .logged (.withFD owed named fun inodeFd here => ?_)
  unfold Acts Syscalls.open_
  rw [Routine.follows_bind, follows_syscall]
  refine ⟨.on here rfl (request ▸ .open_ here), fun _ _ => trivial, fun fd new => ?_⟩
  change Follows filing _ _ ((k.reads inodeFd (getInode ino)).reopen inodeFd fd) _
  have own : fd ∈ ((k.reads inodeFd (getInode ino)).reopen inodeFd fd).own := Set.mem_insert _ _
  rw [Routine.follows_onError]
  refine Filing.send (.quiet rfl rfl ⟨fun _ mem => absurd mem List.not_mem_nil, .inr ⟨own, ino, some fi, request, ?_⟩⟩)
    fun rc => ?_
  · exact .inr ⟨rfl, Set.mem_insert _ _⟩
  · cases status : errnoToStatus fs.platform rc "fuse_reply_open" with
    | ok _ => trivial
    | error e => exact closeFd (own_unsent status own) trivial

/-- The handle that is sent is the descriptor that was created. -/
theorem create {name : String} {mode : Nat} {fi : FileInfo} (owed : k.owed = true)
    (request : k.request = .create ino name mode (some fi)) : Acts k req (fs.create ino name mode fi) := by
  have named : ino ∈ k.request.names := by
    rw [request]
    exact List.mem_cons_self
  refine .logged (.withFD owed named fun inodeFd here => ?_)
  unfold Acts Syscalls.openat
  rw [Routine.follows_bind, follows_syscall]
  refine ⟨.on here rfl (request ▸ .create here), fun _ _ => trivial, fun fd new => ?_⟩
  let flags := (fi.flags ||| O_CLOEXEC ||| O_CREAT) &&& ~~~O_NOFOLLOW
  let k₁ := (k.reads inodeFd (getInode ino)).opens inodeFd name flags fd
  change Follows filing _ _ k₁ _
  have own : fd ∈ k₁.own := Set.mem_insert _ _
  have created : (fd, getInode ino, name) ∈ k₁.created :=
    .inr ⟨rfl, create_makes fi.flags, rfl, Set.mem_insert _ _⟩
  have reaches : k₁.Reaches (getInode ino) :=
    ((Work.Keeps.reads _ _ _).trans (.opens _ _ _ _ _)).reaches (Work.reaches_getInode owed named)
  have resolves : k₁.request.Resolves ino name := by
    change k.request.Resolves ino name
    rw [request]
    exact .create
  rw [Routine.follows_onError]
  refine (replyWithEntry reaches resolves fun k' param keeps describes leads => ?_).mono fun status s k' kept => ?_
  · refine .quiet rfl rfl ⟨fun param' mem => ?_, keeps.own own, leads fd own created⟩
    obtain rfl := List.mem_singleton.mp mem
    exact describes
  · cases status with
    | ok _ => trivial
    | error e => exact closeFd (kept e rfl own) trivial

theorem flush {fi : FileInfo} (owed : k.owed = true) (request : k.request = .flush ino (some fi)) :
    Acts k req (fs.flush ino fi) := by
  have here := Work.stands_handle owed (by rw [request]; rfl) (by rw [request]; rfl)
  refine .logged ?_
  unfold Acts Syscalls.dup Syscalls.close
  rw [Routine.follows_bind, follows_syscall]
  refine ⟨.on here rfl (request ▸ .dup here), fun _ _ => trivial, fun fd _ => ?_⟩
  change Acts (k.gain fd) _ _
  have own : fd ∈ (k.gain fd).own := Set.mem_insert _ _
  have request : (k.gain fd).request = .flush ino (some fi) := request
  exact last (.one rfl (.inl own) (request ▸ .flush own))

theorem openDir {fi : FileInfo} (owed : k.owed = true) (request : k.request = .opendir ino (some fi))
    (opcode : req.opcode = .opendir) : Acts k req (fs.openDir ino fi) := by
  have named : ino ∈ k.request.names := by
    rw [request]
    exact List.mem_cons_self
  refine .logged (.withFD owed named fun fd here => ?_)
  unfold Acts Syscalls.openat Syscalls.fdopendir
  rw [Routine.follows_bind, follows_syscall]
  refine ⟨.on here rfl (request ▸ .opendir here), fun _ _ => trivial, fun dirfd _ => ?_⟩
  let k₁ := (k.reads fd (getInode ino)).opens fd "." (O_DIRECTORY ||| O_NOFOLLOW ||| O_CLOEXEC) dirfd
  change Follows filing _ _ k₁ _
  have own : dirfd ∈ k₁.own := Set.mem_insert _ _
  have request : k₁.request = .opendir ino (some fi) := request
  dsimp only
  rw [Routine.follows_bind, follows_syscall]
  refine ⟨.one rfl (.inl own) (request ▸ .fdopendir own), fun _ _ => trivial, fun d _ => ?_⟩
  dsimp only
  rw [Routine.follows_bind, Routine.follows_invoke]
  refine ⟨.quiet rfl rfl trivial, fun dir _ => ?_⟩
  exact send (.quiet rfl rfl ⟨fun _ mem => absurd mem List.not_mem_nil, .inl opcode⟩)

theorem syncFd {datasync : Int} (may : k.MayName fd)
    (asked : Asked k.means k.request (.sys (if datasync ≠ 0 then .fdatasync fd else .fsync fd))) :
    Acts k req (fs.syncFd (datasync != 0) fd) := by
  have mayName (fd' : Fd) (mem : fd' ∈ [fd]) : k.MayName fd' := by
    obtain rfl := List.mem_singleton.mp mem
    exact may
  by_cases zero : datasync = 0
  · subst zero
    exact last (.serve mayName asked)
  · have nonzero : (datasync != 0) = true := by simpa using zero
    rw [if_pos zero] at asked
    rw [nonzero]
    exact last (.serve mayName asked)

theorem fSync {datasync : Int} {fi : FileInfo} (owed : k.owed = true)
    (request : k.request = .fsync ino datasync (some fi)) : Acts k req (fs.fSync ino (datasync != 0) fi) := by
  have here := Work.stands_handle owed (by rw [request]; rfl) (by rw [request]; rfl)
  exact .logged (.syncFd (Work.mayName_of_stands here) (request ▸ .fsync here rfl))

theorem read {size : Nat} {off : Int} {fi : FileInfo} (owed : k.owed = true)
    (request : k.request = .read ino size off (some fi)) : Acts k req (fs.read ino size off fi) := by
  have here := Work.stands_handle owed (by rw [request]; rfl) (by rw [request]; rfl)
  refine .logged (.send ⟨fun fd mem => ?_, fun _ => request ▸ .read here, ?_⟩)
  · obtain rfl := List.mem_singleton.mp mem
    exact Work.mayName_of_stands here
  · exact ⟨fun _ mem => absurd mem List.not_mem_nil, trivial⟩

theorem getXAttr {name : String} {size : Nat} (owed : k.owed = true) (request : k.request = .getxattr ino name size) :
    Acts k req (fs.getXAttr ino name size) := by
  have named : ino ∈ k.request.names := by
    rw [request]
    exact List.mem_cons_self
  refine .logged (.withFD owed named fun fd here => ?_)
  unfold Acts Syscalls.getxattr
  rw [Routine.follows_bind, Routine.follows_bind, follows_syscall]
  refine ⟨.on here rfl (request ▸ .getxattr here), fun _ _ => trivial, fun r _ => ?_⟩
  dsimp only
  rw [Routine.follows_bind, follows_check]
  refine ⟨fun _ => ?_, fun _ => .quiet rfl rfl trivial⟩
  dsimp only
  rw [Routine.follows_pure]
  dsimp only
  rw [Routine.follows_bind, follows_check]
  refine ⟨fun _ => ?_, fun _ => .quiet rfl rfl trivial⟩
  exact send (.bare rfl)

theorem listXAttr {size : Nat} (owed : k.owed = true) (request : k.request = .listxattr ino size) :
    Acts k req (fs.listXAttr ino size) := by
  have named : ino ∈ k.request.names := by
    rw [request]
    exact List.mem_cons_self
  refine .logged (.withFD owed named fun fd here => .sys (.on here rfl ?_) (fun _ => rfl) fun r => ?_)
  · exact request ▸ .listxattr here
  · unfold Acts
    rw [Routine.follows_bind, follows_check]
    refine ⟨fun _ => ?_, fun _ => .quiet rfl rfl trivial⟩
    exact send (.bare rfl)

theorem poll {fi : Option FileInfo} {ph : Option PollPtr} (owed : k.owed = true)
    (request : k.request = .poll ino fi ph) : Acts k req (fs.poll ino ph) := by
  have named : ino ∈ k.request.names := by
    rw [request]
    exact List.mem_cons_self
  have polled : Acts k req (do
      let fd ← Routine.invoke (I := calls) (.getFD (getInode ino))
      let polled ← Syscalls.poll fs.platform fd PageAlignFS.pollEvents
      check .pollCount (polled.1 ≤ 1)
      FuseRequest.replyPoll fs.platform polled.2) := by
    refine .withFD owed named fun fd here => .sys (.on here rfl (request ▸ .poll here)) (fun _ => rfl) fun r => ?_
    unfold Acts
    rw [Routine.follows_bind, follows_check]
    refine ⟨fun _ => ?_, fun _ => .quiet rfl rfl trivial⟩
    exact send (.bare rfl)
  refine .logged ?_
  unfold Acts Inode.addPollHandle
  rw [Routine.follows_bind]
  cases ph with
  | none => exact polled
  | some ph =>
      dsimp only
      rw [Routine.follows_bind, Routine.follows_invoke]
      refine ⟨.quiet rfl rfl trivial, fun old _ => ?_⟩
      cases old with
      | none => exact polled
      | some o => exact ⟨.quiet rfl rfl trivial, fun _ _ => polled⟩

/-- What is written goes to the handle that the request names. -/
theorem writeBuf {inBuf : FuseBufVec} {off : Int} {fi : FileInfo} (owed : k.owed = true)
    (request : k.request = .writeBuf ino inBuf off fi) : Acts k req (fs.writeBuf ino inBuf off fi) := by
  have here := Work.stands_handle owed (by rw [request]; rfl) (by rw [request]; rfl)
  refine .logged ?_
  unfold Acts
  rw [Routine.follows_bind, Routine.follows_invoke]
  refine ⟨⟨fun fd mem => ?_, fun _ => request ▸ .writeBuf here, trivial⟩, fun copied _ => ?_⟩
  · refine .inr (.inr (.inl ⟨owed, ?_⟩))
    rw [request]
    exact mem
  · cases copied with
    | error e => trivial
    | ok nb =>
        dsimp only
        rw [Routine.follows_bind, Routine.follows_attempt]
        refine Filing.send (.bare rfl) fun rc => ?_
        dsimp only
        rw [Routine.follows_bind, Routine.follows_attempt]
        unfold Inode.notifyPollEvent
        rw [Routine.follows_bind, Routine.follows_invoke]
        refine ⟨.quiet rfl rfl trivial, fun present _ => ?_⟩
        cases present with
        | none => trivial
        | some _ =>
            dsimp only
            rw [Routine.follows_bind, Routine.follows_invoke]
            refine ⟨.quiet rfl rfl trivial, fun handle _ => ?_⟩
            cases handle with
            | none => trivial
            | some ph =>
                dsimp only
                rw [Routine.follows_bind, Routine.follows_invoke]
                exact ⟨.quiet rfl rfl trivial, fun _ _ => trivial⟩

theorem forgetMulti {forgets : List ForgetData} : Acts k req (PageAlignFS.forgetMulti forgets) := by
  unfold Acts
  induction forgets generalizing k with
  | nil => trivial
  | cons forget forgets ih =>
      unfold PageAlignFS.forgetMulti
      rw [Routine.follows_bind]
      refine unref fun r k' _ => ?_
      cases r with
      | ok _ => exact ih
      | error e => trivial

theorem releaseDir {fi : FileInfo} (request : k.request = .releasedir ino (some fi)) : Acts k req (do
    let d ← Routine.invoke (I := calls) (.deleteDirectory fi.fh.toNat)
    Directory.destroy d) := by
  unfold Acts
  rw [Routine.follows_bind, Routine.follows_invoke]
  refine ⟨.unnamed rfl (request ▸ .releasedir) trivial, fun d _ => ?_⟩
  change Follows filing _ _ (k.streaming d) _
  have stream : d ∈ (k.streaming d).streams := Set.mem_insert _ _
  have request : (k.streaming d).request = .releasedir ino (some fi) := request
  rw [follows_closeDir]
  exact ⟨.unnamed rfl (request ▸ .closedir stream) trivial, fun _ _ => trivial⟩

/-- The descriptor is the one that the stream reports. -/
theorem fSyncDir {datasync : Int} {fi : FileInfo} (request : k.request = .fsyncdir ino datasync (some fi)) :
    Acts k req (do
      let dir ← Routine.invoke (I := calls) (.derefDirectory fi.fh.toNat)
      let dfd ← Syscalls.dirfd fs.platform dir
      fs.syncFd (datasync != 0) dfd) := by
  unfold Acts Syscalls.dirfd
  rw [Routine.follows_bind, Routine.follows_invoke]
  refine ⟨.unnamed rfl (.directory (by rw [request]; rfl)) trivial, fun dir _ => ?_⟩
  change Follows filing _ _ (k.streaming dir) _
  have stream : dir ∈ (k.streaming dir).streams := Set.mem_insert _ _
  have request : (k.streaming dir).request = .fsyncdir ino datasync (some fi) := request
  rw [Routine.follows_bind, follows_syscall]
  refine ⟨.unnamed rfl (request ▸ .dirfd stream) trivial, fun _ _ => trivial, fun fd _ => ?_⟩
  let k₁ := (k.streaming dir).dirfd fd
  change Acts k₁ _ _
  have streamFd : fd ∈ k₁.streamFds := Set.mem_insert _ _
  have request : k₁.request = .fsyncdir ino datasync (some fi) := request
  exact syncFd (.inr (.inr (.inr streamFd))) (request ▸ .fsyncdir streamFd rfl)

theorem setLk {fi : Option FileInfo} {lock : FLock} {sleep : Int} (request : k.request = .setlk ino fi lock sleep)
    (here : k.Stands fd (getInode ino)) : Acts k req (do
      let _ ← Syscalls.fcntl fs.platform fd (if sleep != 0 then F_SETLKW else F_SETLK) lock
      pure ()) := by
  have chosen : (if (sleep != 0) = true then F_SETLKW else F_SETLK) = if sleep ≠ 0 then F_SETLKW else F_SETLK := by
    simp
  rw [chosen]
  exact sys (.on here rfl (request ▸ .setlk here)) (fun _ => rfl) fun _ => trivial

end Acts

variable {req : FuseReq} {r : Request}

/-- Every handler keeps to what its request asks for. -/
theorem follows_invocation : {r : Request} → {method : PageAlignFS → Handler} →
    pageAlignFSOps.invocation r = some method → req.opcode = r.opcode →
    Acts (.opening (req, r)) req (method fs)
  | .lookup .., _, rfl, _ => .logged (.replyWithLookup rfl (.head _) .lookup)
  | .forget .., _, rfl, _ => .logged (unref fun _ _ _ => trivial)
  | .getattr .., _, rfl, _ => .logged ((Acts.replyWithAttrs rfl (.head _) rfl).mono fun _ _ _ _ => trivial)
  | .setattr _ _ _ (some _), _, rfl, _ => .setAttr rfl rfl
  | .readlink .., _, rfl, _ => .readLink rfl rfl
  | .mknod .., _, rfl, _ => .logged (.withFD rfl (.head _) fun _ here =>
      .sys (.on here rfl (.mknod here)) (fun _ => rfl) fun _ => .replyWithLookup rfl (.head _) .mknod)
  | .mkdir .., _, rfl, _ => .logged (.withFD rfl (.head _) fun _ here =>
      .sys (.on here rfl (.mkdir here)) (fun _ => rfl) fun _ => .replyWithLookup rfl (.head _) .mkdir)
  | .unlink .., _, rfl, _ => .logged (.withFD rfl (.head _) fun _ here => .last (.on here rfl (.unlink here)))
  | .rmdir .., _, rfl, _ => .logged (.withFD rfl (.head _) fun _ here => .last (.on here rfl (.rmdir here)))
  | .symlink .., _, rfl, _ => .logged (.withFD rfl (.head _) fun _ here =>
      .sys (.on here rfl (.symlink here)) (fun _ => rfl) fun _ => .replyWithLookup rfl (.head _) .symlink)
  | .rename .., _, rfl, _ => .logged (.logged (.withFD rfl (.head _) fun _ here =>
      .withFD rfl (.tail _ (.head _)) fun newfd there =>
        .last (.two (here.reads newfd) there rfl (.rename (here.reads newfd) there))))
  | .link .., _, rfl, _ => .logged (.logged (.withFD rfl (.head _) fun _ here =>
      .withFD rfl (.tail _ (.head _)) fun newfd there =>
        .sys (.two (here.reads newfd) there rfl (.link (here.reads newfd) there)) (fun _ => rfl) fun _ =>
          .replyWithLookup rfl (.tail _ (.head _)) .link))
  | .open_ _ (some _), _, rfl, _ => .open_ rfl rfl
  | .read _ _ _ (some _), _, rfl, _ => .read rfl rfl
  | .flush _ (some _), _, rfl, _ => .flush rfl rfl
  | .release _ (some _), _, rfl, _ => .logged (.last (.one rfl (.inl rfl) (.release rfl)))
  | .fsync _ _ (some _), _, rfl, _ => .fSync rfl rfl
  | .opendir _ (some _), _, rfl, opcode => .openDir rfl rfl opcode
  | .readdir _ _ _ (some _), _, rfl, _ =>
      .logged (readDirInternal (Work.reaches_getInode rfl (.head _)) (fun _ => .readdir) rfl rfl)
  | .releasedir _ (some _), _, rfl, _ => .logged (.releaseDir rfl)
  | .fsyncdir _ _ (some _), _, rfl, _ => .logged (.fSyncDir rfl)
  | .statfs .., _, rfl, _ => .logged (.withFD rfl (.head _) fun _ here =>
      .sys (.on here rfl (.statfs here)) (fun _ => rfl) fun _ => .send (.bare rfl))
  | .setxattr .., _, rfl, _ => .logged (.withFD rfl (.head _) fun _ here => .last (.on here rfl (.setxattr here)))
  | .getxattr .., _, rfl, _ => .getXAttr rfl rfl
  | .listxattr .., _, rfl, _ => .listXAttr rfl rfl
  | .removexattr .., _, rfl, _ =>
      .logged (.withFD rfl (.head _) fun _ here => .last (.on here rfl (.removexattr here)))
  | .access .., _, rfl, _ => .logged (.withFD rfl (.head _) fun _ here => .last (.on here rfl (.access here)))
  | .create _ _ _ (some _), _, rfl, _ => .create rfl rfl
  | .getlk _ (some _) _, _, rfl, _ => .logged (.withFD rfl (.head _) fun _ here =>
      .sys (.on here rfl (.getlk here)) (fun _ => rfl) fun _ => .send (.bare rfl))
  | .setlk _ (some _) _ _, _, rfl, _ => .logged (.withFD rfl (.head _) fun _ here => .setLk rfl here)
  | .poll _ (some _) _, _, rfl, _ => .poll rfl rfl
  | .writeBuf .., _, rfl, _ => .writeBuf rfl rfl
  | .forgetMulti .., _, rfl, _ => .forgetMulti
  | .flock _ (some _) _, _, rfl, _ => .logged (.withFD rfl (.head _) fun _ here => .last (.on here rfl (.flock here)))
  | .fallocate _ _ _ _ (some _), _, rfl, _ =>
      .logged (.withFD rfl (.head _) fun _ here => .last (.on here rfl (.fallocate here)))
  | .readdirplus _ _ _ (some _), _, rfl, _ =>
      .logged (readDirInternal (Work.reaches_getInode rfl (.head _)) (fun _ => .readdirplus) rfl rfl)
  | .copyFileRange _ _ (some _) _ _ (some _) _ _, _, rfl, _ => .logged (.logged
      (.withFD rfl (.head _) fun _ here => .withFD rfl (.tail _ (.head _)) fun fdOut there =>
        .sys (.two (here.reads fdOut) there rfl (.copyFileRange (here.reads fdOut) there)) (fun _ => rfl) fun _ =>
          .send (.bare rfl)))
  | .lseek _ _ _ (some _), _, rfl, _ => .logged (.withFD rfl (.head _) fun _ here =>
      .sys (.on here rfl (.lseek here)) (fun _ => rfl) fun _ => .send (.bare rfl))

/-- What libfuse runs for a request keeps to what it asks for. -/
theorem follows_serve {handler : Handler} (served : fs.serve req r = some handler) (opcode : req.opcode = r.opcode)
    (s : FuseRequest) : (handler s).Follows filing (.opening (req, r)) fun _ _ => True := by
  obtain ⟨method, invoked⟩ | null := invocation_or_null served
  · rw [PageAlignFS.serve, asFuseLowLevelOps_of_invocation invoked] at served
    cases served
    rw [callback_eq, Prog.follows_bind]
    exact Prog.Follows.mono (follows_invocation invoked opcode) fun _ _ _ => epilogue
  · obtain ⟨next, stops⟩ := asFuseLowLevelOps_of_null served null s
    rw [stops]
    exact ⟨.quiet rfl rfl trivial, fun impossible => by cases impossible⟩

end Filing

end Pafs
