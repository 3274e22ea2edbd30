import Pafs.Agreement

/-! The requests that make an entry in a backing directory and are then answered like a lookup
of it. Whatever makes the lookup fail, the entry stays. -/
namespace Pafs
open Resumption

/-- The course that one creation takes: how its calls come out. -/
structure Course where
  /-- the directory that a descriptor stands for -/
  directory : Fd → Key
  /-- where `open` makes a file: nowhere if the name has one, elsewhere if it is a dangling link -/
  lands : Fd → String → Option (Key × String)
  /-- the creating call; only that of `Create` returns the descriptor -/
  made : Except Errno Fd
  /-- opening the new inode, and the `fstatat` that tells its key -/
  opened : Except Errno Fd
  stat : Except Errno Stat
  /-- the `fstatat` for the reply -/
  restat : Except Errno Stat
  /-- reopening the inode for reading, and the ioctl on the new descriptor -/
  reopened : Except Errno Fd
  version : Except Errno Nat
  /-- the reply, whether of an entry or of an error -/
  replied : Option Errno
  /-- the address of the next node -/
  alloc : Addr

/-- The world, the entries of the backing directories, whether `fstatat` was called, and the
replies that the kernel has received. -/
structure Scene where
  world : World
  entries : Set (Key × String)
  seen : Bool
  received : List Reply

namespace Course
variable (K : Course)

/-- The entry that a system call adds if it succeeds. -/
def adds : Sys → Option (Key × String)
  | .mknodat fd name _ _ | .mkdirat fd name _ | .symlinkat _ fd name | .linkat _ _ fd name _ =>
      some (K.directory fd, name)
  | .openat fd name flags _ => if flags.has O_CREAT then K.lands fd name else none
  | _ => none

/-- The answers that matter. -/
def answer (st : Scene) : (c : Call) → Option c.Ret
  | .sys (.mknodat _ _ _ _) | .sys (.mkdirat _ _ _) | .sys (.symlinkat _ _ _)
  | .sys (.linkat _ _ _ _ _) => some (K.made.map fun _ => ())
  | .sys (.openat _ _ flags _) => some (if flags.has O_CREAT then K.made else K.opened)
  | .sys (.fstatat _ _ _) => some (if st.seen then K.restat else K.stat)
  | .sys (.open_ _ _) => some K.reopened
  | .sys (.ioctl _ _) => some K.version
  | .fuseReply _ _ => some K.replied
  | .getFD r => (st.world.inodeAt r).map Inode.fd
  | .getSourceDevice r => (st.world.inodeAt r).map Inode.srcDevNum
  | .getGeneration r => (st.world.inodeAt r).map Inode.generation
  | .insert i => (st.world.inodes.insert i K.alloc).map Prod.snd
  | .ref r ntimes =>
      (st.world.inodeAt r).map fun i =>
        if (st.world.inodes.ref i.key ntimes).isSome then none else some i.key
  | .unref _ r ntimes => (st.world.inodeAt r).map fun i => (st.world.inodes.unref i.key ntimes).1
  | .dropShared a => (st.world.inodeAt (.node a)).map fun i => (st.world.inodes.unref i.key 1).1
  | _ => none

/-- One request in these circumstances; no `CHECK` fails. -/
def creating (counts : String → Bool) : Discipline calls Scene where
  allows _ c := c.isAbort = false
  answers st c r := ∀ r', K.answer st c = some r' → r = r'
  after st c r :=
    { world := st.world.effect counts c r
      entries :=
        match c, r with
        | .sys s, .ok _ =>
            match K.adds s with
            | some e => insert e st.entries
            | none => st.entries
        | _, _ => st.entries
      seen :=
        match c with
        | .sys (.fstatat _ _ _) => true
        | _ => st.seen
      received :=
        match c, r with
        | .fuseReply _ reply, none => st.received ++ [reply]
        | _, _ => st.received }

/-- The new inode can be reopened for reading and has a version. -/
def versioned : Bool :=
  match K.reopened, K.version with
  | .ok _, .ok _ => true
  | _, _ => false

/-- Nothing stops the lookup in a directory on this device. -/
structure Found (c : InodeCache) (device : Dev) : Prop where
  opens : ∃ fd, K.opened = .ok fd
  stats : ∃ st, K.stat = .ok st ∧ st.stDev = device ∧
    Obtainable c (fun _ => K.versioned) (st.stDev, st.stIno)
  restats : ∃ st, K.restat = .ok st

end Course

/-- The parent and the name of the entry that a request makes. -/
def Request.makes : Request → Option (Addr × String)
  | .mknod parent name _ _ | .mkdir parent name _ | .symlink _ parent name | .link _ parent name
  | .create parent name _ (some _) => some (parent, name)
  | _ => none

namespace Course
variable (K : Course)

/-- The entry that a request with this parent adds to the backing directory. -/
def newEntry (parent : Inode) : Request → Option (Key × String)
  | .create _ name _ _ => K.lands parent.fd name
  | r => r.makes.map fun made => (K.directory parent.fd, made.2)

/-- When a request that is answered with an error has added nothing. -/
def Clean (entries : Set (Key × String)) (c : InodeCache) (parent : Inode) (r : Request) : Prop :=
  (∃ e, K.made = .error e) ∨ (∀ x, K.newEntry parent r = some x → x ∈ entries) ∨
    K.Found c parent.srcDevNum ∨ K.replied ≠ none

end Course

/-- The kernel was answered with an error. -/
def Failed (received : List Reply) : Prop := ∃ n, n ≠ 0 ∧ Reply.err n ∈ received

/-- A request that is answered with an error leaves the backing directories as they were. -/
def LeavesNoTrace (fs : PageAlignFS) (counts : String → Bool) (K : Course) (entries : Set (Key × String))
    (w : World) (req : FuseReq) (r : Request) : Prop :=
  ∃ handler, fs.serve req r = some handler ∧ ∀ s,
    Routine.Follows (K.creating counts) handler s ⟨w.arrive req r, entries, false, []⟩
      fun _ _ st => Failed st.received → st.entries ⊆ entries

namespace Course

variable {K : Course} {counts : String → Bool}

theorem ret_nonempty {c : Call} (live : c.isAbort = false) : Nonempty c.Ret := by
  cases c with
  | sys call => exact ⟨(.error ⟨ENOENT, by decide, by decide⟩ : Except Errno call.Ret)⟩
  | insert i => exact ⟨⟨0, true⟩⟩
  | unref site r ntimes => exact ⟨.missing (0, 0)⟩
  | dropShared a => exact ⟨.missing (0, 0)⟩
  | fuseBufCopy dst src => exact ⟨.ok 0⟩
  | abort site => cases live
  | _ => exact ⟨default⟩

theorem answered : (K.creating counts).Answered := by
  intro st c live
  cases known : K.answer st c with
  | none =>
      obtain ⟨r⟩ := ret_nonempty live
      refine ⟨r, fun r' same => ?_⟩
      rw [known] at same
      cases same
  | some r =>
      refine ⟨r, fun r' same => ?_⟩
      rw [known] at same
      exact Option.some.inj same

/-- Whether a memo, or the version where there is none yet, gives a generation. -/
def Gives (K : Course) : Option (Except VersionError Nat) → Prop
  | some v => ∃ n, v = .ok n
  | none => K.versioned = true

/-- Between requests no memo is unset. -/
theorem obtainable_iff {c : InodeCache} {k : Key} (rest : AtRest c) :
    Obtainable c (fun _ => K.versioned) k ↔ K.Gives ((c.find k).bind fun p => p.2.inode.generation) := by
  unfold Obtainable
  cases found : c.find k with
  | none => exact Iff.rfl
  | some p =>
      obtain ⟨a, n⟩ := p
      have set := rest.memos a n (InodeCache.find_eq_some_iff.mp found).1
      rw [Option.bind_some]
      dsimp only
      cases memo : n.inode.generation with
      | none => exact absurd memo set
      | some v =>
          unfold Gives
          simp only [Option.some.injEq]

/-- A call that adds no entry and replies nothing. -/
structure Like (st st' : Scene) : Prop where
  entries : st'.entries = st.entries
  received : st'.received = st.received

theorem Like.trans {st st₁ st₂ : Scene} (h : Like st st₁) (h' : Like st₁ st₂) : Like st st₂ :=
  ⟨h'.entries.trans h.entries, h'.received.trans h.received⟩

/-- Nor does it change the cache. -/
structure Quiet (st st' : Scene) : Prop extends Like st st' where
  root : st'.world.root = st.world.root
  inodes : st'.world.inodes = st.world.inodes
  seen : st'.seen = st.seen

/-- A node with at least this many references. -/
def Cached (w : World) (a : Addr) (m : Nat) : Prop := ∃ n, w.inodes.heap a = some n ∧ m ≤ n.refcnt

theorem Cached.congr {w w' : World} {a : Addr} {m : Nat} (h : Cached w a m) (inodes : w'.inodes = w.inodes) :
    Cached w' a m := by
  unfold Cached
  rw [inodes]
  exact h

section Rules
open Routine (Follows)
variable {σ : Type} {s : σ} {st : Scene} {a : Addr} {m : Nat} {n : Node} {fs : PageAlignFS}

theorem follows_destroyFd {fd : Fd} {Q : Status → σ → Scene → Prop}
    (q : ∀ st', Quiet st st' → Q (.ok ()) s st') :
    Follows (K.creating counts) (FileDescriptor.destroy fd) s st Q := by
  rw [follows_closeFd]
  refine ⟨rfl, fun rc _ => ?_⟩
  apply q
  cases rc <;> exact ⟨⟨rfl, rfl⟩, rfl, rfl, rfl⟩

theorem follows_destroyInode {i : Inode} {Q : Status → σ → Scene → Prop}
    (q : ∀ st', Quiet st st' → Q (.ok ()) s st') :
    Follows (K.creating counts) i.destroy s st Q := by
  unfold Inode.destroy
  cases i.pollHandle with
  | none => exact follows_destroyFd q
  | some ph =>
      rw [Routine.follows_bind, Routine.follows_invoke]
      refine ⟨rfl, fun _ _ => ?_⟩
      apply follows_destroyFd
      intro st' quiet
      exact q st' ⟨⟨quiet.entries, quiet.received⟩, quiet.root, quiet.inodes, quiet.seen⟩

theorem follows_settle {erased : Option Inode} {Q : Status → σ → Scene → Prop}
    (q : ∀ st', Quiet st st' → Q (.ok ()) s st') :
    Follows (K.creating counts) (Unrefed.dropped erased).settle s st Q := by
  cases erased with
  | none => exact q st ⟨⟨rfl, rfl⟩, rfl, rfl, rfl⟩
  | some i => exact follows_destroyInode q

theorem inodeAt_node {w : World} (here : w.inodes.heap a = some n) : w.inodeAt (.node a) = some n.inode := by
  simp [World.inodeAt, here]

theorem inodeAt_congr {w w' : World} {r : InodeRef} (root : w'.root = w.root) (inodes : w'.inodes = w.inodes) :
    w'.inodeAt r = w.inodeAt r := by
  cases r with
  | root => exact congrArg some root
  | node a => exact congrArg (fun c : InodeCache => (c.heap a).map Node.inode) inodes

theorem inodes_unref {w : World} {r : InodeRef} {i : Inode} {ntimes : Nat} (here : w.inodeAt r = some i)
    (answer : Unrefed) : (w.unref r ntimes answer).inodes = (w.inodes.unref i.key ntimes).2 := by
  unfold World.unref
  rw [here]
  unfold World.takeErased
  dsimp only
  split <;> rfl

theorem unref_known {w : World} (here : w.inodes.heap a = some n) (live : 1 ≤ n.refcnt) :
    ((w.inodeAt (.node a)).map fun i => (w.inodes.unref i.key 1).1) =
      some (.dropped (if n.refcnt = 1 then some n.inode else none)) := by
  rw [inodeAt_node here, Option.map_some, (InodeCache.unref_of_heap here live).1]

/-- The last copy of a `shared_ptr` dies. -/
theorem follows_dropShared {Q : Status → σ → Scene → Prop} (cached : Cached st.world a 1)
    (q : ∀ st', Like st st' → Q (.ok ()) s st') :
    Follows (K.creating counts) (Inodes.dropShared a) s st Q := by
  obtain ⟨n, here, live⟩ := cached
  unfold Inodes.dropShared
  rw [Routine.follows_bind, Routine.follows_attempt, Routine.follows_bind, Routine.follows_invoke]
  refine ⟨rfl, fun u answer => ?_⟩
  obtain rfl := answer _ (unref_known here live)
  apply follows_settle
  intro st' quiet
  exact q st' ⟨quiet.entries, quiet.received⟩

/-- The cleanup after a reply that could not be sent. -/
theorem follows_cleanup {Q : Status → σ → Scene → Prop} (cached : Cached st.world a 2)
    (q : ∀ st', Like st st' → Cached st'.world a 1 → Q (.ok ()) s st') :
    Follows (K.creating counts) (Inodes.unref .cleanup (.node a) 1) s st Q := by
  obtain ⟨n, here, live⟩ := cached
  have pos : 1 ≤ n.refcnt := one_le_two.trans live
  have heap := (InodeCache.unref_of_heap here pos).2
  unfold Inodes.unref
  rw [Routine.follows_bind, Routine.follows_invoke]
  refine ⟨rfl, fun u answer => ?_⟩
  obtain rfl := answer _ (unref_known here pos)
  apply follows_settle
  intro st' quiet
  refine q st' ⟨quiet.entries, quiet.received⟩ (Cached.congr ?_ quiet.inodes)
  have more : n.refcnt ≠ 1 := by omega
  refine ⟨{ n with refcnt := n.refcnt - 1 }, ?_, by dsimp only; omega⟩
  change (st.world.unref (.node a) 1 _).inodes.heap a = _
  rw [inodes_unref (inodeAt_node here), heap, Function.update_self, if_neg more]

/-- One reference more, on behalf of the kernel. -/
theorem follows_ref {Q : Status → σ → Scene → Prop} (cached : Cached st.world a m)
    (q : ∀ st', Like st st' → Cached st'.world a (m + 1) → Q (.ok ()) s st') :
    Follows (K.creating counts) (Inodes.ref (.node a) 1) s st Q := by
  obtain ⟨n, here, live⟩ := cached
  obtain ⟨inodes, ref, heap⟩ := InodeCache.ref_of_heap here 1
  unfold Inodes.ref
  rw [Routine.follows_bind, Routine.follows_invoke]
  refine ⟨rfl, fun rc answer => ?_⟩
  have known : K.answer st (.ref (.node a) 1) = some none := by
    simp only [Course.answer, inodeAt_node here, Option.map_some, ref, Option.isSome_some, if_true]
  obtain rfl := answer none known
  refine q _ ⟨rfl, rfl⟩ ⟨{ n with refcnt := n.refcnt + 1 }, ?_, Nat.add_le_add_right live 1⟩
  have effect : (st.world.effect counts (.ref (.node a) 1) none).inodes = inodes := by
    simp only [World.effect, inodeAt_node here, ref]
  change (st.world.effect counts (.ref (.node a) 1) none).inodes.heap a = _
  rw [effect, heap, Function.update_self]

/-- `fstatat` of the new inode's descriptor, or of the one in the cache. -/
theorem follows_statFD {fd : Fd} {Q : StatusOr Stat → σ → Scene → Prop}
    (failed : ∀ e x st', (if st.seen then K.restat else K.stat) = .error x → failureErrno fs.platform e ≠ 0 →
      Like st st' → st'.world = st.world → Q (.error e) s st')
    (q : ∀ v st', (if st.seen then K.restat else K.stat) = .ok v → Like st st' → st'.world = st.world →
      st'.seen = true → Q (.ok v) s st') :
    Follows (K.creating counts) (statFD fs.platform fd) s st Q := by
  unfold statFD Syscalls.fstatat
  rw [follows_syscall]
  refine ⟨rfl, fun x answer => ?_, fun v answer => ?_⟩
  · exact failed _ x _ (answer _ rfl).symm (failureErrno_errnoError_ne_zero _ _ _) ⟨rfl, rfl⟩ rfl
  · exact q v _ (answer _ rfl).symm ⟨rfl, rfl⟩ rfl rfl

theorem failureErrno_version_ne_zero (P : Platform) (err : VersionError) : failureErrno P (err.status P) ≠ 0 := by
  cases err with
  | openFailed fd e => exact failureErrno_errnoError_ne_zero _ _ _
  | ioctlFailed fd e => exact failureErrno_ne_zero_of_no_payload _ rfl

/-- The memo is filled in with a version if there is one, and with the failure if not. -/
theorem follows_setGeneration {v : Except VersionError Nat} {Q : StatusOr Nat → σ → Scene → Prop}
    (cached : Cached st.world a m)
    (q : ∀ st', Like st st' → Cached st'.world a m → Q (versionStatus fs.platform v) s st') :
    Follows (K.creating counts) (do
      Routine.invoke (I := calls) (.setGeneration (.node a) v)
      Routine.ofExcept (versionStatus fs.platform v)) s st Q := by
  obtain ⟨n, here, live⟩ := cached
  rw [Routine.follows_bind, Routine.follows_invoke]
  refine ⟨rfl, fun _ _ => ?_⟩
  refine q _ ⟨rfl, rfl⟩ ⟨{ n with inode := { n.inode with generation := some v } }, ?_, live⟩
  have written := World.heap_write_node (w := st.world) (a := a)
    (f := fun i => { i with generation := some v }) (k := fun _ => rfl)
  rw [here] at written
  change (st.world.write (.node a) (fun i => { i with generation := some v }) fun _ => rfl).inodes.heap a = _
  rw [written, Function.update_self]
  rfl

theorem follows_getFileVersionFromPathFD {fd : Fd} {Q : StatusOr (Except VersionError Nat) → σ → Scene → Prop}
    (failed : ∀ e st', K.versioned = false → Like st st' → st'.world.inodes = st.world.inodes →
      Q (.ok (.error e)) s st')
    (q : ∀ v st', K.versioned = true → Like st st' → st'.world.inodes = st.world.inodes →
      Q (.ok (.ok v)) s st') :
    Follows (K.creating counts) (getFileVersionFromPathFD fd) s st Q := by
  unfold getFileVersionFromPathFD
  rw [Routine.follows_bind, Routine.follows_invoke]
  refine ⟨rfl, fun opened answer => ?_⟩
  have reopened : opened = K.reopened := answer _ rfl
  cases opened with
  | error e =>
      have lacking : K.versioned = false := by simp [Course.versioned, ← reopened]
      exact failed _ _ lacking ⟨rfl, rfl⟩ rfl
  | ok myfd =>
      dsimp only
      rw [Routine.follows_bind, Routine.follows_invoke]
      refine ⟨rfl, fun version answer => ?_⟩
      have fetched : version = K.version := answer _ rfl
      dsimp only
      rw [Routine.follows_bind]
      apply follows_destroyFd
      intro st' quiet
      have like : Like st st' := by
        cases version <;> exact ⟨quiet.entries, quiet.received⟩
      cases version with
      | error e =>
          have lacking : K.versioned = false := by simp [Course.versioned, ← reopened, ← fetched]
          exact failed _ st' lacking like quiet.inodes
      | ok v =>
          have given : K.versioned = true := by simp [Course.versioned, ← reopened, ← fetched]
          exact q v st' given like quiet.inodes

theorem follows_getGeneration {Q : StatusOr Nat → σ → Scene → Prop} (here : st.world.inodes.heap a = some n)
    (live : m ≤ n.refcnt)
    (failed : ∀ e st', ¬ K.Gives n.inode.generation → failureErrno fs.platform e ≠ 0 → Like st st' →
      Cached st'.world a m → Q (.error e) s st')
    (q : ∀ v st', K.Gives n.inode.generation → Like st st' → Cached st'.world a m → Q (.ok v) s st') :
    Follows (K.creating counts) (Inode.getGeneration fs.platform (.node a)) s st Q := by
  have cached : Cached st.world a m := ⟨n, here, live⟩
  unfold Inode.getGeneration
  rw [Routine.follows_bind, Routine.follows_invoke]
  refine ⟨rfl, fun memo answer => ?_⟩
  have read : memo = n.inode.generation :=
    answer _ (congrArg (Option.map Inode.generation) (inodeAt_node here))
  rw [← read] at failed q
  dsimp only
  cases memo with
  | none =>
      rw [Routine.follows_bind, Routine.follows_invoke]
      refine ⟨rfl, fun fd _ => ?_⟩
      dsimp only
      rw [Routine.follows_bind]
      apply follows_getFileVersionFromPathFD
      · intro e st' lacking like inodes
        apply follows_setGeneration (cached.congr inodes)
        intro st'' set cached'
        have missing : ¬ K.Gives none := by
          unfold Gives
          rw [lacking]
          exact Bool.false_ne_true
        exact failed _ st'' missing (failureErrno_version_ne_zero _ e) (like.trans set) cached'
      · intro v st' given like inodes
        apply follows_setGeneration (cached.congr inodes)
        intro st'' set cached'
        exact q v st'' given (like.trans set) cached'
  | some memo =>
      cases memo with
      | error e =>
          have missing : ¬ K.Gives (some (.error e)) := by
            rintro ⟨v, same⟩
            cases same
          exact failed _ _ missing (failureErrno_version_ne_zero _ e) ⟨rfl, rfl⟩ cached
      | ok v => exact q v _ ⟨v, rfl⟩ ⟨rfl, rfl⟩ cached

theorem follows_createFuseEntryParam {Q : StatusOr EntryParam → σ → Scene → Prop}
    (here : st.world.inodes.heap a = some n) (live : m ≤ n.refcnt) (seen : st.seen = true)
    (failed : ∀ e st', ¬ ((∃ v, K.restat = .ok v) ∧ K.Gives n.inode.generation) →
      failureErrno fs.platform e ≠ 0 → Like st st' → Cached st'.world a m → Q (.error e) s st')
    (q : ∀ p st', (∃ v, K.restat = .ok v) → K.Gives n.inode.generation → Like st st' →
      Cached st'.world a m → Q (.ok p) s st') :
    Follows (K.creating counts) (fs.createFuseEntryParam a true) s st Q := by
  have cached : Cached st.world a m := ⟨n, here, live⟩
  unfold PageAlignFS.createFuseEntryParam
  rw [Routine.follows_bind, Routine.follows_invoke]
  refine ⟨rfl, fun fd _ => ?_⟩
  dsimp only
  rw [Routine.follows_bind]
  apply follows_statFD
  · intro e x st' outcome nonzero like world
    have restat : K.restat = .error x := (if_pos seen).symm.trans outcome
    refine failed e st' ?_ nonzero like (cached.congr (congrArg World.inodes world))
    rintro ⟨⟨v, ok⟩, -⟩
    rw [restat] at ok
    cases ok
  · intro attr st' outcome like world _
    have restat : ∃ v, K.restat = .ok v := ⟨attr, (if_pos seen).symm.trans outcome⟩
    have here' : st'.world.inodes.heap a = some n := by
      rw [world]
      exact here
    dsimp only
    rw [if_pos rfl, Routine.follows_bind]
    apply follows_getGeneration here' live
    · intro e st'' missing nonzero like' cached
      exact failed e st'' (fun both => missing both.2) nonzero (like.trans like') cached
    · intro v st'' given like' cached
      exact q _ st'' restat given (like.trans like') cached

/-- `openat` and `fstatat` of the name. -/
theorem follows_create {parentFd : Fd} {name : String} {Q : StatusOr Inode → σ → Scene → Prop}
    (first : st.seen = false)
    (failed : ∀ e st', ¬ ((∃ fd, K.opened = .ok fd) ∧ ∃ v, K.stat = .ok v) → failureErrno fs.platform e ≠ 0 →
      Like st st' → Q (.error e) s st')
    (q : ∀ fd v st', K.opened = .ok fd → K.stat = .ok v → Like st st' → st'.seen = true →
      st'.world.root = st.world.root → st'.world.inodes = st.world.inodes →
      Q (.ok { fd, num := v.stIno, srcDevNum := v.stDev, generation := none, pollHandle := none }) s st') :
    Follows (K.creating counts) (Inode.create fs.platform name parentFd) s st Q := by
  unfold Inode.create Syscalls.openat
  rw [Routine.follows_bind, follows_syscall]
  refine ⟨rfl, fun x answer => ?_, fun fd answer => ?_⟩
  · have opened : Except.error x = K.opened := answer _ rfl
    refine failed _ _ ?_ (failureErrno_errnoError_ne_zero _ _ _) ⟨rfl, rfl⟩
    rintro ⟨⟨fd, ok⟩, -⟩
    rw [← opened] at ok
    cases ok
  · have opened : Except.ok fd = K.opened := answer _ rfl
    dsimp only
    rw [Routine.follows_bind, Routine.follows_onError]
    apply follows_statFD
    · intro e x st' outcome nonzero like _
      have stat : K.stat = .error x := (if_neg (Bool.eq_false_iff.mp first)).symm.trans outcome
      apply follows_destroyFd
      intro st'' quiet
      refine failed e st'' ?_ nonzero ⟨quiet.entries.trans like.entries, quiet.received.trans like.received⟩
      rintro ⟨-, ⟨v, ok⟩⟩
      rw [stat] at ok
      cases ok
    · intro v st' outcome like world seen
      have stat : K.stat = .ok v := (if_neg (Bool.eq_false_iff.mp first)).symm.trans outcome
      refine q fd v st' opened.symm stat ⟨like.entries, like.received⟩ seen ?_ ?_
      · rw [world]
        rfl
      · rw [world]
        rfl

theorem insert_of_free {c : InodeCache} {i : Inode} {alloc : Addr} (free : c.heap alloc = none) :
    ∃ c' r, c.insert i alloc = some (c', r) := by
  unfold InodeCache.insert
  split
  · exact ⟨_, _, rfl⟩
  · rw [dif_pos free]
    exact ⟨_, _, rfl⟩

/-- The node that `Insert` returns, and its memo. -/
theorem node_of_insert {c c' : InodeCache} {i : Inode} {alloc : Addr} {r : Inserted} (unset : i.generation = none)
    (insert : c.insert i alloc = some (c', r)) :
    ∃ n, c'.heap r.addr = some n ∧ n.inode.key = i.key ∧ 1 ≤ n.refcnt ∧
      n.inode.generation = (c.find i.key).bind fun p => p.2.inode.generation := by
  obtain ⟨rfl, -, absent, heap⟩ | ⟨n, -, here, key, heap⟩ := InodeCache.insert_cases insert
  · refine ⟨⟨1, i⟩, by rw [heap, Function.update_self], rfl, le_refl 1, ?_⟩
    rw [InodeCache.find_eq_none_iff.mpr absent]
    exact unset
  · refine ⟨{ n with refcnt := n.refcnt + 1 }, by rw [heap, Function.update_self], key, Nat.le_add_left 1 _, ?_⟩
    rw [← key, InodeCache.find_eq_some_iff.mpr ⟨here, rfl⟩]
    rfl

theorem inodeAt_inserted {w w' : World} {ref : InodeRef} {i j : Inode} {alloc : Addr} {r : Inserted}
    (known : w.inodeAt ref = some i) (insert : w.inodes.insert j alloc = some (w'.inodes, r))
    (root : w'.root = w.root) : w'.inodeAt ref = some i := by
  cases ref with
  | root =>
      rw [← known]
      exact congrArg some root
  | node a =>
      obtain ⟨n, here, rfl⟩ := Option.map_eq_some_iff.mp known
      obtain ⟨n', here', same⟩ := heap_inserted insert here
      rw [inodeAt_node here', same]

/-- The address does not matter on a hit. -/
theorem insert_again {c c' : InodeCache} {i : Inode} {alloc : Addr} {r : Inserted}
    (insert : c.insert i alloc = some (c', r)) : c.insert i r.addr = some (c', r) := by
  obtain ⟨rfl, -⟩ | ⟨n, -, here, key, -⟩ := InodeCache.insert_cases insert
  · exact insert
  · have found : c.find i.key = some (r.addr, n) := InodeCache.find_eq_some_iff.mpr ⟨here, key⟩
    rw [← insert]
    unfold InodeCache.insert
    split
    · rfl
    · next absent =>
        rw [found] at absent
        cases absent

theorem effect_insert (counts : String → Bool) {w : World} {i : Inode} {c' : InodeCache} {alloc : Addr} {r : Inserted}
    (insert : w.inodes.insert i alloc = some (c', r)) :
    (w.effect counts (.insert i) r).inodes = c' ∧ (w.effect counts (.insert i) r).root = w.root := by
  simp only [World.effect, insert_again insert]
  split <;> exact ⟨rfl, rfl⟩

theorem follows_findOrCreateInode {parent : InodeRef} {i : Inode} {name : String}
    {Q : StatusOr Addr → σ → Scene → Prop} (known : st.world.inodeAt parent = some i) (first : st.seen = false)
    (free : st.world.inodes.heap K.alloc = none)
    (failed : ∀ e st', ¬ ((∃ fd, K.opened = .ok fd) ∧ ∃ v, K.stat = .ok v) → failureErrno fs.platform e ≠ 0 →
      Like st st' → Q (.error e) s st')
    (q : ∀ a n v st', (∃ fd, K.opened = .ok fd) → K.stat = .ok v → Like st st' → st'.seen = true →
      st'.world.inodeAt parent = some i → st'.world.inodes.heap a = some n → n.inode.key = (v.stDev, v.stIno) →
      1 ≤ n.refcnt →
      n.inode.generation = ((st.world.inodes.find (v.stDev, v.stIno)).bind fun p => p.2.inode.generation) →
      Q (.ok a) s st') :
    Follows (K.creating counts) (fs.findOrCreateInode parent name) s st Q := by
  unfold PageAlignFS.findOrCreateInode
  rw [Routine.follows_bind, Routine.follows_invoke]
  refine ⟨rfl, fun parentFd _ => ?_⟩
  dsimp only
  rw [Routine.follows_bind]
  apply follows_create first
  · intro e st' stops nonzero like
    exact failed e st' stops nonzero ⟨like.entries, like.received⟩
  · intro fd v st₁ opened stat like seen root inodes
    have root : st₁.world.root = st.world.root := root
    have inodes : st₁.world.inodes = st.world.inodes := inodes
    have known₁ : st₁.world.inodeAt parent = some i := by
      rw [inodeAt_congr root inodes]
      exact known
    rw [← inodes] at free
    dsimp only
    unfold Inodes.insert
    rw [Routine.follows_bind, Routine.follows_invoke]
    refine ⟨rfl, fun r answer => ?_⟩
    obtain ⟨c', r', insert⟩ := insert_of_free
      (i := { fd, num := v.stIno, srcDevNum := v.stDev, generation := none, pollHandle := none }) free
    obtain rfl := answer r' (congrArg (Option.map Prod.snd) insert)
    obtain ⟨inodes', root'⟩ := effect_insert counts insert
    obtain ⟨n, here, key, live, memo⟩ := node_of_insert rfl insert
    rw [inodes] at memo
    have finish : ∀ st₂ : Scene, st₂.world.inodes = c' → st₂.world.root = st₁.world.root → Like st st₂ →
        st₂.seen = true → Q (.ok r.addr) s st₂ := by
      intro st₂ inodes₂ root₂ like₂ seen₂
      subst inodes₂
      exact q r.addr n v st₂ ⟨fd, opened⟩ stat like₂ seen₂ (inodeAt_inserted known₁ insert root₂) here key live memo
    dsimp only
    rw [Routine.follows_bind]
    unfold doIf
    rw [Routine.follows_ite]
    constructor
    · -- a hit: the duplicate dies
      intro _
      apply follows_destroyInode
      intro st₂ quiet
      apply finish st₂
      · exact quiet.inodes.trans inodes'
      · exact quiet.root.trans root'
      · exact ⟨quiet.entries.trans like.entries, quiet.received.trans like.received⟩
      · exact quiet.seen.trans seen
    · intro _
      exact finish _ inodes' root' ⟨like.entries, like.received⟩ seen

end Rules

theorem Cached.mono {w : World} {a : Addr} {m m' : Nat} (h : Cached w a m) (le : m' ≤ m) : Cached w a m' := by
  obtain ⟨n, here, live⟩ := h
  exact ⟨n, here, le.trans live⟩

theorem inodes_reply {w : World} (counts : String → Bool) (req : FuseReq) (reply : Reply) (rc : Option Errno) :
    (w.effect counts (.fuseReply req reply) rc).inodes = w.inodes := by
  cases rc with
  | some e => rfl
  | none =>
      simp only [World.effect, World.receive]
      split <;> rfl

/-- How a method ends whose lookup finds the entry or does not: with a reply that is no error,
with one that was not received, or with nothing replied. -/
def Ends (K : Course) (P : Platform) (req : FuseReq) (found : Prop) (entries : Set (Key × String))
    (status : Status) (s : FuseRequest) (st : Scene) : Prop :=
  st.entries = entries ∧
    (found ∧ status = .ok () ∧ s = ⟨none⟩ ∧ ¬ Failed st.received ∨
      (∃ e, status = .error e ∧ st.received = [] ∧
        (s = ⟨none⟩ ∧ K.replied ≠ none ∨ s = ⟨some req⟩ ∧ ¬ found ∧ failureErrno P e ≠ 0)))

section Methods
open Routine (Follows)
variable {st : Scene} {fs : PageAlignFS} {req : FuseReq} {parent : InodeRef} {i : Inode} {name : String}
  {c : InodeCache}

theorem Found.of_parts {v : Stat} {n : Node} (rest : AtRest c) (opened : ∃ fd, K.opened = .ok fd)
    (stat : K.stat = .ok v)
    (memo : n.inode.generation = ((c.find (v.stDev, v.stIno)).bind fun p => p.2.inode.generation)) :
    K.Found c i.srcDevNum ↔
      i.srcDevNum = v.stDev ∧ (∃ u, K.restat = .ok u) ∧ K.Gives n.inode.generation := by
  rw [memo, ← obtainable_iff rest]
  constructor
  · rintro ⟨-, ⟨v', stat', device, obtainable⟩, restat⟩
    rw [stat] at stat'
    cases stat'
    exact ⟨device.symm, restat, obtainable⟩
  · rintro ⟨device, restat, obtainable⟩
    exact ⟨opened, ⟨v, stat, device.symm, obtainable⟩, restat⟩

/-- Before the lookup: `i` is the parent's inode, and the allocator has a free address. -/
structure Ready (K : Course) (st : Scene) (parent : InodeRef) (i : Inode) : Prop where
  rest : AtRest st.world.inodes
  known : st.world.inodeAt parent = some i
  free : st.world.inodes.heap K.alloc = none
  first : st.seen = false
  unanswered : st.received = []

theorem Ready.congr {st' : Scene} (h : Ready K st parent i) (root : st'.world.root = st.world.root)
    (inodes : st'.world.inodes = st.world.inodes) (seen : st'.seen = st.seen)
    (received : st'.received = st.received) : Ready K st' parent i := by
  constructor
  · rw [inodes]
    exact h.rest
  · rw [inodeAt_congr root inodes]
    exact h.known
  · rw [inodes]
    exact h.free
  · exact seen.trans h.first
  · exact received.trans h.unanswered

theorem follows_replyWithEntry {what : String} {reply : EntryParam → Reply}
    (noError : ∀ p n, reply p ≠ .err n) (ready : Ready K st parent i) :
    Follows (K.creating counts)
      (fs.replyWithEntry parent name fun param => FuseRequest.send fs.platform what (reply param))
      ⟨some req⟩ st (Ends K fs.platform req (K.Found st.world.inodes i.srcDevNum) st.entries) := by
  obtain ⟨rest, known, free, first, unanswered⟩ := ready
  unfold PageAlignFS.replyWithEntry
  rw [Routine.follows_bind]
  apply follows_findOrCreateInode known first free
  · intro e st₁ stops nonzero like
    refine ⟨like.entries, .inr ⟨e, rfl, like.received.trans unanswered, .inr ⟨rfl, ?_, nonzero⟩⟩⟩
    intro found
    obtain ⟨v, stat, -⟩ := found.stats
    exact stops ⟨found.opens, v, stat⟩
  · intro a n v st₁ opened stat like seen known₁ here key live memo
    have parts := Found.of_parts (i := i) rest opened stat memo
    have cached : Cached st₁.world a 1 := ⟨n, here, live⟩
    dsimp only
    -- every exit drops the `shared_ptr`
    have drop {e : Error} {st₂ : Scene} (missing : ¬ K.Found st.world.inodes i.srcDevNum)
        (nonzero : failureErrno fs.platform e ≠ 0) (like₂ : Like st₁ st₂) (cached₂ : Cached st₂.world a 1) :
        Follows (K.creating counts) (Inodes.dropShared a) ⟨some req⟩ st₂ fun _ s' st' =>
          Ends K fs.platform req (K.Found st.world.inodes i.srcDevNum) st.entries (.error e) s' st' := by
      apply follows_dropShared cached₂
      intro st₃ like₃
      have whole := (like.trans like₂).trans like₃
      exact ⟨whole.entries, .inr ⟨e, rfl, whole.received.trans unanswered, .inr ⟨rfl, missing, nonzero⟩⟩⟩
    rw [Routine.follows_andFinally, Routine.follows_bind, Routine.follows_invoke]
    refine ⟨rfl, fun parentDevice answer => ?_⟩
    obtain rfl := answer _ (congrArg (Option.map Inode.srcDevNum) known₁)
    dsimp only
    rw [Routine.follows_bind, Routine.follows_invoke]
    refine ⟨rfl, fun own answer => ?_⟩
    obtain rfl := answer _ (congrArg (Option.map Inode.srcDevNum) (inodeAt_node here))
    have device : n.inode.srcDevNum = v.stDev := congrArg Prod.fst key
    dsimp only
    split
    · next mismatch =>
        have missing : ¬ K.Found st.world.inodes i.srcDevNum := by
          rw [parts]
          exact fun found => mismatch (found.1.trans device.symm)
        apply drop missing
        · exact failureErrno_ne_zero_of_no_payload _ rfl
        · exact ⟨rfl, rfl⟩
        · exact cached
    · next same =>
        rw [Routine.follows_bind]
        apply follows_createFuseEntryParam here live seen
        · intro e st₂ lacks nonzero like₂ cached₂
          have missing : ¬ K.Found st.world.inodes i.srcDevNum := by
            rw [parts]
            exact fun found => lacks found.2
          exact drop missing nonzero like₂ cached₂
        · intro p st₂ restat given like₂ cached₂
          have found : K.Found st.world.inodes i.srcDevNum :=
            parts.mpr ⟨(not_not.mp same).trans device, restat, given⟩
          dsimp only
          rw [Routine.follows_bind]
          apply follows_ref cached₂
          intro st₃ like₃ cached₃
          dsimp only
          rw [Routine.follows_onError, FuseRequest.follows_send_some]
          refine ⟨rfl, fun rc answer => ?_⟩
          have replied : rc = K.replied := answer _ rfl
          have whole := (like.trans like₂).trans like₃
          have cached₄ : Cached ((K.creating counts).after st₃ (.fuseReply req (reply p)) rc).world a 2 :=
            cached₃.congr (inodes_reply counts req (reply p) rc)
          cases rc with
          | some x =>
              have lost : K.replied ≠ none := by
                rw [← replied]
                exact Option.some_ne_none x
              dsimp only [errnoToStatus]
              apply follows_cleanup cached₄
              intro st₄ like₄ cached₅
              apply follows_dropShared cached₅
              intro st₅ like₅
              refine ⟨?_, .inr ⟨_, rfl, ?_, .inl ⟨rfl, lost⟩⟩⟩
              · exact like₅.entries.trans (like₄.entries.trans whole.entries)
              · exact like₅.received.trans (like₄.received.trans (whole.received.trans unanswered))
          | none =>
              dsimp only [errnoToStatus]
              apply follows_dropShared (cached₄.mono (Nat.le_succ 1))
              intro st₄ like₄
              refine ⟨like₄.entries.trans whole.entries, .inl ⟨found, rfl, rfl, ?_⟩⟩
              have received : st₄.received = [reply p] := by
                rw [like₄.received]
                change st₃.received ++ [reply p] = _
                rw [whole.received, unanswered]
                rfl
              rw [received]
              rintro ⟨code, -, mem⟩
              exact noError p code (List.mem_singleton.mp mem).symm

/-- What the creating call leaves, and whether it and the lookup succeed. -/
def entriesAfter (K : Course) (entries : Set (Key × String)) (parent : Inode) (r : Request) :
    Set (Key × String) :=
  match K.made, K.newEntry parent r with
  | .ok _, some x => insert x entries
  | _, _ => entries

def Succeeds (K : Course) (c : InodeCache) (parent : Inode) : Prop :=
  (∃ fd, K.made = .ok fd) ∧ K.Found c parent.srcDevNum

theorem Ends.made {fd : Fd} {entries : Set (Key × String)} {status : Status} {s : FuseRequest}
    (made : K.made = .ok fd) (h : Ends K fs.platform req (K.Found c i.srcDevNum) entries status s st) :
    Ends K fs.platform req (K.Succeeds c i) entries status s st := by
  have same : K.Found c i.srcDevNum ↔ K.Succeeds c i := ⟨fun found => ⟨⟨fd, made⟩, found⟩, And.right⟩
  unfold Ends at h ⊢
  rw [← same]
  exact h

theorem Ends.refused {e : Errno} {message : String} (P : Platform) (refused : K.made = .error e)
    (unanswered : st.received = []) (x : Errno) :
    Ends K P req (K.Succeeds c i) st.entries (.error (errnoError P x message)) ⟨some req⟩ st := by
  refine ⟨rfl, .inr ⟨_, rfl, unanswered, .inr ⟨rfl, ?_, failureErrno_errnoError_ne_zero _ _ _⟩⟩⟩
  rintro ⟨⟨fd, made⟩, -⟩
  rw [refused] at made
  cases made

/-- The lookup once the entry is made. -/
theorem follows_entryMade {what : String} {reply : EntryParam → Reply} {r : Request} {fd : Fd} {st₁ : Scene}
    (noError : ∀ p n, reply p ≠ .err n) (ready : Ready K st parent i) (made : K.made = .ok fd)
    (root : st₁.world.root = st.world.root) (inodes : st₁.world.inodes = st.world.inodes)
    (seen : st₁.seen = st.seen) (received : st₁.received = st.received)
    (entries : st₁.entries = K.entriesAfter st.entries i r) :
    Follows (K.creating counts)
      (fs.replyWithEntry parent name fun param => FuseRequest.send fs.platform what (reply param))
      ⟨some req⟩ st₁ (Ends K fs.platform req (K.Succeeds st.world.inodes i) (K.entriesAfter st.entries i r)) := by
  have follows : Follows (K.creating counts)
      (fs.replyWithEntry parent name fun param => FuseRequest.send fs.platform what (reply param))
      ⟨some req⟩ st₁ (Ends K fs.platform req (K.Found st₁.world.inodes i.srcDevNum) st₁.entries) :=
    follows_replyWithEntry noError (ready.congr root inodes seen received)
  rw [inodes, entries] at follows
  exact follows.mono fun status s st' ends => ends.made made

/-- A system call that makes an entry, then the lookup. -/
theorem follows_makeThenEntry {call : Sys} {message what : String} {reply : EntryParam → Reply} {r : Request}
    {f : Fd → call.Ret} (noError : ∀ p n, reply p ≠ .err n) (ready : Ready K st parent i)
    (answered : K.answer st (.sys call) = some (K.made.map f)) (adds : K.adds call = K.newEntry i r)
    (world : ∀ rc, ((K.creating counts).after st (.sys call) rc).world = st.world)
    (seen : ∀ rc, ((K.creating counts).after st (.sys call) rc).seen = st.seen) :
    Follows (K.creating counts) (do
      let _ ← syscall fs.platform call message
      fs.replyWithEntry parent name fun param => FuseRequest.send fs.platform what (reply param))
      ⟨some req⟩ st (Ends K fs.platform req (K.Succeeds st.world.inodes i) (K.entriesAfter st.entries i r)) := by
  rw [Routine.follows_bind, follows_syscall]
  refine ⟨rfl, fun x answer => ?_, fun v answer => ?_⟩
  · have outcome : Except.error x = K.made.map f := answer _ answered
    cases made : K.made with
    | ok fd =>
        rw [made] at outcome
        cases outcome
    | error e =>
        have entries : K.entriesAfter st.entries i r = st.entries := by
          unfold entriesAfter
          rw [made]
        rw [entries]
        exact Ends.refused fs.platform made ready.unanswered x
  · have outcome : Except.ok v = K.made.map f := answer _ answered
    cases made : K.made with
    | error e =>
        rw [made] at outcome
        cases outcome
    | ok fd =>
        apply follows_entryMade noError ready made
        · rw [world]
        · rw [world]
        · exact seen _
        · rfl
        · unfold entriesAfter
          rw [made, ← adds]
          dsimp only [creating]
          cases K.adds call <;> rfl

theorem Ends.like {P : Platform} {found : Prop} {entries : Set (Key × String)} {status : Status} {s : FuseRequest}
    {st' : Scene} (h : Ends K P req found entries status s st) (like : Like st st') :
    Ends K P req found entries status s st' := by
  unfold Ends
  rw [like.entries, like.received]
  exact h

theorem follows_createMethod {ino : Addr} {mode : Nat} {fi : FileInfo} (ready : Ready K st (getInode ino) i) :
    Follows (K.creating counts) (fs.create ino name mode fi) ⟨some req⟩ st
      (Ends K fs.platform req (K.Succeeds st.world.inodes i)
        (K.entriesAfter st.entries i (.create ino name mode (some fi)))) := by
  unfold PageAlignFS.create Syscalls.openat
  rw [Routine.follows_bind, Routine.follows_invoke]
  refine ⟨rfl, fun _ _ => ?_⟩
  dsimp only
  rw [Routine.follows_bind, Routine.follows_invoke]
  refine ⟨rfl, fun parentFd answer => ?_⟩
  obtain rfl := answer _ (congrArg (Option.map Inode.fd) ready.known)
  dsimp only
  rw [Routine.follows_bind, follows_syscall]
  refine ⟨rfl, fun e answer => ?_, fun fd answer => ?_⟩
  · have refused : Except.error e = K.made := (answer _ rfl).trans (if_pos (create_makes fi.flags))
    have entries : K.entriesAfter st.entries i (.create ino name mode (some fi)) = st.entries := by
      unfold entriesAfter
      rw [← refused]
    rw [entries]
    exact Ends.refused fs.platform refused.symm ready.unanswered e
  · have made : Except.ok fd = K.made := (answer _ rfl).trans (if_pos (create_makes fi.flags))
    dsimp only
    rw [Routine.follows_onError]
    refine Follows.mono (follows_entryMade (r := .create ino name mode (some fi)) (fun _ _ same => ?_) ready
      made.symm rfl rfl rfl rfl ?_) fun status s' st' ends => ?_
    · cases same
    · unfold entriesAfter
      rw [← made]
      dsimp only [creating, Course.adds]
      rw [if_pos (create_makes fi.flags)]
      unfold newEntry
      dsimp only
      cases K.lands i.fd name <;> rfl
    · cases status with
      | ok _ => exact ends
      | error e =>
          apply follows_destroyFd
          intro st'' quiet
          exact ends.like quiet.toLike

/-- What the methods do before the creating call. -/
theorem follows_withFD {α σ : Type} {s : σ} {f : Fd → Io σ α} {Q : StatusOr α → σ → Scene → Prop}
    (ready : Ready K st parent i) (follows : Follows (K.creating counts) (f i.fd) s st Q) :
    Follows (K.creating counts) (do
      Routine.invoke (I := calls) (.logInode parent)
      let fd ← Routine.invoke (I := calls) (.getFD parent)
      f fd) s st Q := by
  rw [Routine.follows_bind, Routine.follows_invoke]
  refine ⟨rfl, fun _ _ => ?_⟩
  dsimp only
  rw [Routine.follows_bind, Routine.follows_invoke]
  refine ⟨rfl, fun parentFd answer => ?_⟩
  obtain rfl := answer _ (congrArg (Option.map Inode.fd) ready.known)
  exact follows

theorem follows_linkMethod {ino newparent : Addr} (ready : Ready K st (getInode newparent) i) :
    Follows (K.creating counts) (fs.link ino newparent name) ⟨some req⟩ st
      (Ends K fs.platform req (K.Succeeds st.world.inodes i)
        (K.entriesAfter st.entries i (.link ino newparent name))) := by
  unfold PageAlignFS.link
  rw [Routine.follows_bind, Routine.follows_invoke]
  refine ⟨rfl, fun _ _ => ?_⟩
  dsimp only
  rw [Routine.follows_bind, Routine.follows_invoke]
  refine ⟨rfl, fun _ _ => ?_⟩
  dsimp only
  rw [Routine.follows_bind, Routine.follows_invoke]
  refine ⟨rfl, fun fd _ => ?_⟩
  dsimp only
  rw [Routine.follows_bind, Routine.follows_invoke]
  refine ⟨rfl, fun newfd answer => ?_⟩
  obtain rfl := answer _ (congrArg (Option.map Inode.fd) ready.known)
  apply follows_makeThenEntry (fun _ _ same => ?_) ready
  · rfl
  · rfl
  · intro rc
    rfl
  · intro rc
    rfl
  · cases same

/-- Every request that makes an entry. -/
theorem follows_making {r : Request} {ino : Addr} {method : PageAlignFS → Handler}
    (invoked : pageAlignFSOps.invocation r = some method) (makes : r.makes = some (ino, name))
    (ready : Ready K st (getInode ino) i) :
    Follows (K.creating counts) (method fs) ⟨some req⟩ st
      (Ends K fs.platform req (K.Succeeds st.world.inodes i) (K.entriesAfter st.entries i r)) := by
  cases r
  case mknod parent name' mode rdev =>
      cases makes
      cases invoked
      apply follows_withFD ready
      exact follows_makeThenEntry (fun _ _ same => by cases same) ready rfl rfl (fun _ => rfl) fun _ => rfl
  case mkdir parent name' mode =>
      cases makes
      cases invoked
      apply follows_withFD ready
      exact follows_makeThenEntry (fun _ _ same => by cases same) ready rfl rfl (fun _ => rfl) fun _ => rfl
  case symlink link parent name' =>
      cases makes
      cases invoked
      apply follows_withFD ready
      exact follows_makeThenEntry (fun _ _ same => by cases same) ready rfl rfl (fun _ => rfl) fun _ => rfl
  case link ino' parent name' =>
      cases makes
      cases invoked
      exact follows_linkMethod ready
  case create parent name' mode fi =>
      cases fi with
      | none => cases makes
      | some fi =>
          cases makes
          cases invoked
          exact follows_createMethod ready
  all_goals cases makes

/-- The callback answers a request that its method has not. -/
theorem follows_finish {P : Platform} {found : Prop} {before entries : Set (Key × String)} {status : Status}
    {s : FuseRequest} (ends : Ends K P req found entries status s st) :
    Follows (K.creating counts) (epilogue P .replyFailure status) s st fun _ _ st' =>
      ((Failed st'.received → st'.entries ⊆ before) ↔ entries ⊆ before ∨ found ∨ K.replied ≠ none) := by
  obtain ⟨same, ⟨found, rfl, rfl, answered⟩ | ⟨e, rfl, received, how⟩⟩ := ends
  · rw [Follows, epilogue_gone]
    exact iff_of_true (fun failed => absurd failed answered) (.inr (.inl found))
  · have unanswered : ¬ Failed st.received := by
      rintro ⟨n, -, mem⟩
      rw [received] at mem
      cases mem
    obtain ⟨rfl, lost⟩ | ⟨rfl, missing, nonzero⟩ := how
    · rw [Follows, epilogue_gone]
      exact iff_of_true (fun failed => absurd failed unanswered) (.inr (.inr lost))
    · rw [Follows, epilogue_owed]
      refine ⟨rfl, fun rc answer => ?_⟩
      have replied : rc = K.replied := answer _ rfl
      cases rc with
      | some x =>
          have lost : K.replied ≠ none := by
            rw [← replied]
            exact Option.some_ne_none x
          exact iff_of_true (fun failed => absurd failed unanswered) (.inr (.inr lost))
      | none =>
          have failed : Failed (st.received ++ [.err (failureErrno P e)]) :=
            ⟨_, nonzero, List.mem_append_right _ List.mem_cons_self⟩
          change (Failed (st.received ++ [.err (failureErrno P e)]) → st.entries ⊆ before) ↔ _
          rw [same]
          constructor
          · intro keeps
            exact .inl (keeps failed)
          · rintro (keeps | found | lost) _
            · exact keeps
            · exact absurd found missing
            · exact absurd replied.symm lost

end Methods

theorem clean_iff {entries : Set (Key × String)} {c : InodeCache} {parent : Inode} {r : Request} :
    K.entriesAfter entries parent r ⊆ entries ∨ K.Succeeds c parent ∨ K.replied ≠ none ↔
      K.Clean entries c parent r := by
  unfold entriesAfter Succeeds Clean
  cases K.made with
  | error e => simp
  | ok fd =>
      cases K.newEntry parent r with
      | none => simp
      | some x => simp [Set.insert_subset_iff]

end Course

section Trace
variable {fs : PageAlignFS} {counts : String → Bool} {root : Inode} {pipes : Fd → Bool} {w : World}
  {ok : World → Label calls (FuseReq × Request) → Prop} {r : Request} {ino : Addr} {name : String} {i : Inode}
  {K : Course} {entries : Set (Key × String)}

/-- The request is served, and by a method whose failures are answered. -/
theorem serve_of_makes (fs : PageAlignFS) (req : FuseReq) (makes : r.makes = some (ino, name)) :
    ∃ method, pageAlignFSOps.invocation r = some method ∧
      fs.serve req r = some (callback fs.platform (some fs) req .replyFailure method) := by
  have replies : ∀ method, pageAlignFSOps.invocation r = some method → r.opcode.finish = .replyFailure →
      fs.serve req r = some (callback fs.platform (some fs) req .replyFailure method) := by
    intro method invoked finish
    rw [← finish]
    exact asFuseLowLevelOps_of_invocation invoked
  cases r
  case mknod => exact ⟨_, rfl, replies _ rfl rfl⟩
  case mkdir => exact ⟨_, rfl, replies _ rfl rfl⟩
  case symlink => exact ⟨_, rfl, replies _ rfl rfl⟩
  case link => exact ⟨_, rfl, replies _ rfl rfl⟩
  case create parent name' mode fi =>
      cases fi with
      | none => cases makes
      | some fi => exact ⟨_, rfl, replies _ rfl rfl⟩
  all_goals cases makes

theorem ready_arrive (run : (daemon fs counts).Reach ok (.initial root pipes) ⟨w, []⟩)
    (known : w.inodeAt (getInode ino) = some i) (free : w.inodes.heap K.alloc = none) (req : FuseReq) (r : Request)
    (entries : Set (Key × String)) :
    Course.Ready K ⟨w.arrive req r, entries, false, []⟩ (getInode ino) i := by
  have rest := atRest_of_reach run
  obtain ⟨nlookup, forgetting, fds, -, arrive⟩ := w.arrive_cases req r
  rw [arrive]
  exact ⟨rest, known, free, rfl, rfl⟩

/-- What the request leaves is decided by how its calls come out. -/
theorem leavesNoTrace_iff (run : (daemon fs counts).Reach ok (.initial root pipes) ⟨w, []⟩) (req : FuseReq)
    (makes : r.makes = some (ino, name)) (known : w.inodeAt (getInode ino) = some i)
    (free : w.inodes.heap K.alloc = none) :
    LeavesNoTrace fs counts K entries w req r ↔
      K.entriesAfter entries i r ⊆ entries ∨ K.Succeeds w.inodes i ∨ K.replied ≠ none := by
  obtain ⟨method, invoked, served⟩ := serve_of_makes fs req makes
  have inodes : (w.arrive req r).inodes = w.inodes := by
    obtain ⟨nlookup, forgetting, fds, -, arrive⟩ := w.arrive_cases req r
    rw [arrive]
  have decided : ∀ s, Routine.Follows (K.creating counts)
      (callback fs.platform (some fs) req .replyFailure method) s ⟨w.arrive req r, entries, false, []⟩
      (fun _ _ st => Failed st.received → st.entries ⊆ entries) ↔
      K.entriesAfter entries i r ⊆ entries ∨ K.Succeeds w.inodes i ∨ K.replied ≠ none := by
    intro s
    have ready := ready_arrive run known free req r entries
    have follows : Routine.Follows (K.creating counts)
        (callback fs.platform (some fs) req .replyFailure method) s ⟨w.arrive req r, entries, false, []⟩
        fun _ _ st => ((Failed st.received → st.entries ⊆ entries) ↔
          K.entriesAfter entries i r ⊆ entries ∨ K.Succeeds w.inodes i ∨ K.replied ≠ none) := by
      rw [follows_callback]
      refine (Course.follows_making invoked makes ready).mono fun status s' st ends => ?_
      rw [← inodes]
      exact Course.follows_finish ends
    exact follows.decided Course.answered
  constructor
  · rintro ⟨handler, served', follows⟩
    rw [served] at served'
    cases served'
    exact (decided ⟨none⟩).mp (follows _)
  · intro clean
    exact ⟨_, served, fun s => (decided s).mpr clean⟩

/-- For every reachable cache, every backing directory and every way in which the calls of a
request that makes an entry may come out. -/
theorem noTrace_iff (run : (daemon fs counts).Reach ok (.initial root pipes) ⟨w, []⟩) (req : FuseReq)
    (makes : r.makes = some (ino, name)) (known : w.inodeAt (getInode ino) = some i) (K : Course)
    (free : w.inodes.heap K.alloc = none) (entries : Set (Key × String)) :
    LeavesNoTrace fs counts K entries w req r ↔ K.Clean entries w.inodes i r := by
  rw [← Course.clean_iff]
  exact leavesNoTrace_iff run req makes known free

end Trace

namespace Sample

/-- A directory `d` is made in the root directory, which has the device 8 and the number 2. -/
def mkdirCourse : Course where
  directory _ := (8, 2)
  lands _ _ := none
  made := .ok 0
  opened := .ok 10
  stat := .ok ⟨8, 91, 0o40755, 0, 0, 0, ⟨0, 0⟩, ⟨0, 0⟩⟩
  restat := .ok ⟨8, 91, 0o40755, 0, 0, 0, ⟨0, 0⟩, ⟨0, 0⟩⟩
  reopened := .ok 11
  version := .ok 5
  replied := none
  alloc := 4096

/-- A symbolic link cannot be reopened. -/
def symlinkCourse : Course :=
  { mkdirCourse with
    stat := .ok linkStat
    restat := .ok linkStat
    reopened := .error ELOOP }

end Sample

open Sample in
theorem noTrace_mkdir : LeavesNoTrace .onLinux countsName mkdirCourse {((8, 2), "f")} mounted ⟨5, .mkdir⟩
    (.mkdir FUSE_ROOT_ID "d" 0o755) := by
  have run : (daemon .onLinux countsName).Reach (fun _ _ => True) mounted ⟨mounted, []⟩ := .init
  have found : mkdirCourse.Found mounted.inodes rootInode.srcDevNum := ⟨⟨10, rfl⟩, ⟨_, rfl, rfl, rfl⟩, ⟨_, rfl⟩⟩
  exact (noTrace_iff run ⟨5, .mkdir⟩ rfl rfl mkdirCourse rfl _).mpr (.inr (.inr (.inl found)))

open Sample in
/-- The link is made, and then it cannot be reopened. -/
theorem symlink_left_behind : ¬ ∀ (fs : PageAlignFS) (counts : String → Bool) (root : Inode) (pipes : Fd → Bool)
    (ok : World → Label calls (FuseReq × Request) → Prop) (w : World) (req : FuseReq) (r : Request) (ino : Addr)
    (name : String) (i : Inode) (K : Course) (entries : Set (Key × String)),
    (daemon fs counts).Reach ok (.initial root pipes) ⟨w, []⟩ → r.makes = some (ino, name) →
      w.inodeAt (getInode ino) = some i → w.inodes.heap K.alloc = none →
        LeavesNoTrace fs counts K entries w req r := by
  intro always
  have run : (daemon .onLinux countsName).Reach (fun _ _ => True) mounted ⟨mounted, []⟩ := .init
  have traceless := always .onLinux countsName _ _ _ mounted ⟨5, .symlink⟩ (.symlink "f" FUSE_ROOT_ID "l")
    FUSE_ROOT_ID "l" rootInode symlinkCourse ∅ run rfl rfl rfl
  rw [leavesNoTrace_iff run _ rfl rfl rfl] at traceless
  obtain left | ⟨-, found⟩ | lost := traceless
  · exact left (Set.mem_insert ((8, 2), "l") ∅)
  · obtain ⟨v, stat, -, obtainable⟩ := found.stats
    cases stat
    exact Bool.false_ne_true obtainable
  · exact lost rfl

end Pafs
