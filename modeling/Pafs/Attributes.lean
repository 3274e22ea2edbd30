import Pafs.Replies

/-! `SetAttr`: up to four changes of a file in a fixed order, then a reply with its attributes.
The kernel is deterministic, so two runs can be compared. -/
namespace Pafs
open Resumption

/-- What `SetAttr` can change of a file. -/
structure FileAttrs where
  mode : BitVec 12
  uid : Nat
  gid : Nat
  size : Int
  atime : Timespec
  mtime : Timespec
  deriving DecidableEq

def EBADF : Int := 9
def S_ISUID : BitVec 12 := 0o4000
def S_ISGID : BitVec 12 := 0o2000
def S_IXGRP : BitVec 12 := 0o10

/-- The permission bits after a successful chown. -/
def chownMode (mode : BitVec 12) : BitVec 12 :=
  let kept := mode &&& ~~~S_ISUID
  if mode &&& S_IXGRP = 0 then kept else kept &&& ~~~S_ISGID

/-- The four calls on a descriptor of the file. -/
inductive Change where
  | fchmod (mode : Nat)
  | fchownat (owner group : Nat)
  | ftruncate (length : Int)
  | futimens (atime mtime : Timespec)
  deriving DecidableEq

def Timespec.set (now old time : Timespec) : Timespec :=
  if time.tvNsec = UTIME_NOW then now else if time.tvNsec = UTIME_OMIT then old else time

/-- What a successful change does to the file. -/
def Change.effect (now : Timespec) (f : FileAttrs) : Change → FileAttrs
  | .fchmod mode => { f with mode := BitVec.ofNat 12 mode }
  | .fchownat owner group =>
      { f with
        uid := if owner = kKeepOwner then f.uid else owner
        gid := if group = kKeepOwner then f.gid else group
        mode := chownMode f.mode }
  | .ftruncate length => { f with size := length, mtime := now }
  | .futimens atime mtime =>
      { f with atime := Timespec.set now f.atime atime, mtime := Timespec.set now f.mtime mtime }

def Change.truncates : Change → Bool
  | .ftruncate _ => true
  | _ => false

/-- What the kernel does with one file: which changes fail, where the descriptor is open for
writing, and when each of them is made; `refusal` answers `ftruncate` on any other one. -/
structure Kernel where
  fd : InodeRef → Fd
  fails : FileAttrs → Change → Option Errno
  stat : FileAttrs → Except Errno Stat
  clock : Change → Timespec
  refusal : Errno
  refused : refusal.num = EINVAL ∨ refusal.num = EBADF
  /-- the descriptor that `open` returns -/
  own : Fd

namespace Kernel
variable (K : Kernel)

/-- The outcome of a change on a descriptor, open for writing or not. -/
def outcome (writable : Bool) (f : FileAttrs) (c : Change) : Option Errno :=
  if c.truncates && !writable then some K.refusal else K.fails f c

/-- Changes one after the other, up to the first failure. -/
def run (writable : Bool) : FileAttrs → List Change → FileAttrs × Option (Errno × Change)
  | f, [] => (f, none)
  | f, c :: cs =>
      match K.outcome writable f c with
      | some e => (f, some (e, c))
      | none => run writable (c.effect (K.clock c) f) cs

end Kernel

/-- The file, its descriptors with whether they are open for writing, and the replies. -/
structure Setting where
  file : FileAttrs
  writable : Fd → Option Bool
  replies : List Reply

namespace Setting

def outcome (st : Setting) (K : Kernel) (fd : Fd) (c : Change) : Except Errno Unit :=
  match st.writable fd with
  | none => .error ⟨EBADF, by decide, by decide⟩
  | some writable =>
      match K.outcome writable st.file c with
      | some e => .error e
      | none => .ok ()

def change (st : Setting) (K : Kernel) (c : Change) (rc : Except Errno Unit) : Setting :=
  match rc with
  | .ok _ => { st with file := c.effect (K.clock c) st.file }
  | .error _ => st

/-- Before the request: the handle is open for reading and writing. -/
def start (f : FileAttrs) (handle : Fd) : Setting where
  file := f
  writable := Function.update (fun _ => none) handle (some true)
  replies := []

end Setting

/-- The calls on the file behind `ino`, which the daemon may read and write. -/
def Kernel.file (K : Kernel) (ino : Addr) : Discipline calls Setting where
  allows _ _ := True
  answers st c r :=
    match c, r with
    | .getFD ref, fd => fd = K.fd ref
    | .sys (.open_ (.procSelfFd fd) _), rc => fd = K.fd (getInode ino) → rc = .ok K.own
    | .sys (.fchmod fd mode), rc => rc = st.outcome K fd (.fchmod mode)
    | .sys (.fchownat fd path owner group flag), rc =>
        path = "" ∧ flag.has AT_EMPTY_PATH = true → rc = st.outcome K fd (.fchownat owner group)
    | .sys (.ftruncate fd length), rc => rc = st.outcome K fd (.ftruncate length)
    | .sys (.futimens fd atime mtime), rc => rc = st.outcome K fd (.futimens atime mtime)
    | .sys (.fstatat fd path flag), rc =>
        fd = K.fd (getInode ino) ∧ path = "" ∧ flag.has AT_EMPTY_PATH = true → rc = K.stat st.file
    | _, _ => True
  after st c r :=
    match c, r with
    | .sys (.open_ _ flags), .ok fd =>
        { st with writable := Function.update st.writable fd (some (flags &&& O_ACCMODE != O_RDONLY)) }
    | .sys (.close fd _), _ => { st with writable := Function.update st.writable fd none }
    | .sys (.fchmod _ mode), rc => st.change K (.fchmod mode) rc
    | .sys (.fchownat _ _ owner group _), rc => st.change K (.fchownat owner group) rc
    | .sys (.ftruncate _ length), rc => st.change K (.ftruncate length) rc
    | .sys (.futimens _ atime mtime), rc => st.change K (.futimens atime mtime) rc
    | .fuseReply _ reply, _ => { st with replies := st.replies ++ [reply] }
    | _, _ => st

/-! `SetAttr` as a list of changes. -/

section Changes
variable {σ : Type}

def Change.message : Change → String
  | .fchmod _ => "fchmod"
  | .fchownat _ _ => "fchownat"
  | .ftruncate _ => "ftruncate"
  | .futimens _ _ => "futimens"

def Change.perform (P : Platform) (fd : Fd) : Change → Io σ Unit
  | .fchmod mode => Syscalls.fchmod P fd mode
  | .fchownat owner group =>
      Syscalls.fchownat P fd "" owner group (AT_EMPTY_PATH ||| AT_SYMLINK_NOFOLLOW)
  | .ftruncate length => Syscalls.ftruncate P fd length
  | .futimens atime mtime => Syscalls.futimens P fd atime mtime

/-- Changes one after the other, then the rest. -/
def performAll (P : Platform) (fd : Fd) (rest : Io σ Unit) : List Change → Io σ Unit
  | [] => rest
  | c :: cs => do
      c.perform P fd
      performAll P fd rest cs

/-- The changes before a truncation. -/
def ownership (attr : Stat) (toSet : Flags) : List Change :=
  (if toSet.has FUSE_SET_ATTR_MODE then [.fchmod attr.stMode] else []) ++
    if toSet.has (FUSE_SET_ATTR_UID ||| FUSE_SET_ATTR_GID) then
      [.fchownat (if toSet.has FUSE_SET_ATTR_UID then attr.stUid else kKeepOwner)
        (if toSet.has FUSE_SET_ATTR_GID then attr.stGid else kKeepOwner)]
    else []

/-- The changes after a truncation. -/
def times (attr : Stat) (toSet : Flags) : List Change :=
  if toSet.has (FUSE_SET_ATTR_ATIME ||| FUSE_SET_ATTR_MTIME) then
    [.futimens
      (PageAlignFS.chooseTime (toSet.has FUSE_SET_ATTR_ATIME_NOW) (toSet.has FUSE_SET_ATTR_ATIME) attr.stAtim)
      (PageAlignFS.chooseTime (toSet.has FUSE_SET_ATTR_MTIME_NOW) (toSet.has FUSE_SET_ATTR_MTIME) attr.stMtim)]
  else []

def truncation (attr : Stat) (toSet : Flags) : List Change :=
  if toSet.has FUSE_SET_ATTR_SIZE then [.ftruncate attr.stSize] else []

def changes (attr : Stat) (toSet : Flags) : List Change :=
  ownership attr toSet ++ (truncation attr toSet ++ times attr toSet)

theorem setAttrOn_eq (fs : PageAlignFS) (inode : InodeRef) (fd : Fd) (attr : Stat) (toSet : Flags) :
    fs.setAttrOn inode fd attr toSet =
      performAll fs.platform fd (fs.replyWithAttrs inode) (changes attr toSet) := by
  unfold PageAlignFS.setAttrOn PageAlignFS.setMode PageAlignFS.setOwner PageAlignFS.setSize
    PageAlignFS.setTimes changes ownership truncation times
  cases toSet.has FUSE_SET_ATTR_MODE <;>
    cases toSet.has (FUSE_SET_ATTR_UID ||| FUSE_SET_ATTR_GID) <;>
    cases toSet.has FUSE_SET_ATTR_SIZE <;>
    cases toSet.has (FUSE_SET_ATTR_ATIME ||| FUSE_SET_ATTR_MTIME) <;> rfl

end Changes

/-- The errno sent for a failed call, whatever its wrapper says about it. -/
def sentErrno (P : Platform) (e : Errno) : Int := failureErrno P (errnoError P e "")

theorem failureErrno_eq_sentErrno (P : Platform) (e : Errno) (message : String) :
    failureErrno P (errnoError P e message) = sentErrno P e := by
  simp only [sentErrno, failureErrno, getErrnoFromStatus_errnoError]
  rfl

namespace Kernel

/-- The reply once all changes are made. -/
def attrReply (K : Kernel) (fs : PageAlignFS) (f : FileAttrs) : Reply :=
  match K.stat f with
  | .error e => .err (sentErrno fs.platform e)
  | .ok st => .attr st fs.opts.kernelEntryTimeout

/-- What `SetAttr` leaves behind: the file and the reply. -/
def served (K : Kernel) (fs : PageAlignFS) (writable : Bool) (f : FileAttrs) (cs : List Change) :
    FileAttrs × Reply :=
  match K.run writable f cs with
  | (f', some (e, _)) => (f', .err (sentErrno fs.platform e))
  | (f', none) => (f', K.attrReply fs f')

section Rules
open Routine (Follows)
variable {K : Kernel} {ino : Addr} {σ : Type} {P : Platform} {fs : PageAlignFS} {req : FuseReq} {s : σ}
  {st : Setting} {fd : Fd} {Q : FileAttrs → List Reply → Prop}

theorem follows_perform (c : Change) {Q : Status → σ → Setting → Prop} :
    Follows (K.file ino) (c.perform P fd) s st Q ↔
      match st.outcome K fd c with
      | .error e => Q (.error (errnoError P e c.message)) s st
      | .ok _ => Q (.ok ()) s { st with file := c.effect (K.clock c) st.file } := by
  cases c with
  | fchmod mode =>
      refine (follows_syscall_known trivial fun _ => Iff.rfl).trans ?_
      cases st.outcome K fd (.fchmod mode) <;> rfl
  | fchownat owner group =>
      have flag : (AT_EMPTY_PATH ||| AT_SYMLINK_NOFOLLOW).has AT_EMPTY_PATH = true := by decide
      have known : ∀ rc, (K.file ino).answers st
          (.sys (.fchownat fd "" owner group (AT_EMPTY_PATH ||| AT_SYMLINK_NOFOLLOW))) rc ↔
          rc = st.outcome K fd (.fchownat owner group) := by
        intro rc
        exact ⟨fun h => h ⟨rfl, flag⟩, fun h _ => h⟩
      refine (follows_syscall_known trivial known).trans ?_
      cases st.outcome K fd (.fchownat owner group) <;> rfl
  | ftruncate length =>
      refine (follows_syscall_known trivial fun _ => Iff.rfl).trans ?_
      cases st.outcome K fd (.ftruncate length) <;> rfl
  | futimens atime mtime =>
      refine (follows_syscall_known trivial fun _ => Iff.rfl).trans ?_
      cases st.outcome K fd (.futimens atime mtime) <;> rfl

theorem follows_performAll {w : Bool} (opened : st.writable fd = some w) {rest : Io σ Unit} (cs : List Change)
    {Q : Status → σ → Setting → Prop} :
    Follows (K.file ino) (performAll P fd rest cs) s st Q ↔
      match K.run w st.file cs with
      | (f, some (e, c)) => Q (.error (errnoError P e c.message)) s { st with file := f }
      | (f, none) => Follows (K.file ino) rest s { st with file := f } Q := by
  induction cs generalizing st with
  | nil => exact Iff.rfl
  | cons c cs ih =>
      rw [performAll, Routine.follows_bind, follows_perform]
      simp only [Setting.outcome, opened, Kernel.run]
      cases K.outcome w st.file c with
      | some e => exact Iff.rfl
      | none => exact ih opened

theorem follows_epilogue (status : Status) :
    Follows (K.file ino) (epilogue P .replyFailure status) ⟨none⟩ st (fun _ _ l => Q l.file l.replies) ↔
      Q st.file st.replies := by
  cases status <;> exact Iff.rfl

theorem follows_failed (e : Errno) (message : String) :
    Follows (K.file ino) (epilogue P .replyFailure (.error (errnoError P e message))) ⟨some req⟩ st
        (fun _ _ l => Q l.file l.replies) ↔
      Q st.file (st.replies ++ [.err (sentErrno P e)]) := by
  rw [← failureErrno_eq_sentErrno P e message]
  constructor
  · intro follows
    exact follows.2 none trivial
  · intro q
    exact ⟨trivial, fun rc _ => by cases rc <;> exact q⟩

/-- What is still done after `SetAttr` answers a failure, and nothing else. -/
structure Finishes (fs : PageAlignFS) (req : FuseReq) (R : Status → FuseRequest → Setting → Prop)
    (Q : FileAttrs → List Reply → Prop) : Prop where
  failed : ∀ e message l, R (.error (errnoError fs.platform e message)) ⟨some req⟩ l ↔
    Q l.file (l.replies ++ [.err (sentErrno fs.platform e)])
  replied : ∀ status l, R status ⟨none⟩ l ↔ Q l.file l.replies

theorem finishes_epilogue : Finishes fs req (fun status s' l =>
    Follows (K.file ino) (epilogue fs.platform .replyFailure status) s' l fun _ _ l' => Q l'.file l'.replies) Q :=
  ⟨fun e message _ => follows_failed e message, fun status _ => follows_epilogue status⟩

theorem Finishes.closing {R : Status → FuseRequest → Setting → Prop} (h : Finishes fs req R Q) :
    Finishes fs req (fun status s' l =>
      Follows (K.file ino) (FileDescriptor.destroy fd) s' l fun _ s'' l' => R status s'' l') Q := by
  constructor
  · intro e message l
    have after := h.failed e message { l with writable := Function.update l.writable fd none }
    constructor
    · intro follows
      exact after.mp (follows.2 (.ok ()) trivial)
    · intro q
      exact ⟨trivial, fun rc _ => after.mpr q⟩
  · intro status l
    have after := h.replied status { l with writable := Function.update l.writable fd none }
    constructor
    · intro follows
      exact after.mp (follows.2 (.ok ()) trivial)
    · intro q
      exact ⟨trivial, fun rc _ => after.mpr q⟩

theorem follows_replyWithAttrs {R : Status → FuseRequest → Setting → Prop} (h : Finishes fs req R Q) :
    Follows (K.file ino) (fs.replyWithAttrs (getInode ino)) ⟨some req⟩ st R ↔
      Q st.file (st.replies ++ [K.attrReply fs st.file]) := by
  unfold PageAlignFS.replyWithAttrs attrReply statFD Syscalls.fstatat
  rw [Routine.follows_invoke_known trivial fun _ => Iff.rfl, Routine.follows_bind]
  have flag : (AT_EMPTY_PATH ||| AT_SYMLINK_NOFOLLOW).has AT_EMPTY_PATH = true := by decide
  have known : ∀ rc, (K.file ino).answers st
      (.sys (.fstatat (K.fd (getInode ino)) "" (AT_EMPTY_PATH ||| AT_SYMLINK_NOFOLLOW))) rc ↔
      rc = K.stat st.file := by
    intro rc
    exact ⟨fun h => h ⟨rfl, rfl, flag⟩, fun h _ => h⟩
  refine (follows_syscall_known trivial known).trans ?_
  cases K.stat st.file with
  | error e => exact h.failed e _ _
  | ok attr =>
      constructor
      · intro follows
        exact (h.replied _ _).mp (follows.2 none trivial)
      · intro q
        exact ⟨trivial, fun rc _ => (h.replied _ _).mpr q⟩

theorem follows_setAttrOn {w : Bool} (opened : st.writable fd = some w) {attr : Stat} {toSet : Flags}
    {R : Status → FuseRequest → Setting → Prop} (h : Finishes fs req R Q) :
    Follows (K.file ino) (fs.setAttrOn (getInode ino) fd attr toSet) ⟨some req⟩ st R ↔
      Q (K.served fs w st.file (changes attr toSet)).1
        (st.replies ++ [(K.served fs w st.file (changes attr toSet)).2]) := by
  rw [setAttrOn_eq, follows_performAll opened, served]
  rcases K.run w st.file (changes attr toSet) with ⟨f, _ | ⟨e, c⟩⟩
  · exact follows_replyWithAttrs h
  · exact h.failed e _ _

theorem follows_setAttr_handle {attr : Stat} {toSet : Flags} {fi : FileInfo} {f : FileAttrs}
    (given : fi.fh ≠ 0) (s : FuseRequest) :
    Follows (K.file ino) (callback fs.platform (some fs) req .replyFailure (·.setAttr ino attr toSet fi)) s
        (.start f fi.fh) (fun _ _ l => Q l.file l.replies) ↔
      Q (K.served fs true f (changes attr toSet)).1 [(K.served fs true f (changes attr toSet)).2] := by
  rw [follows_callback]
  unfold PageAlignFS.setAttr
  dsimp only
  rw [if_neg given]
  have opened : (Setting.start f fi.fh).writable fi.fh = some true := by
    simp [Setting.start]
  constructor
  · intro follows
    exact (follows_setAttrOn opened finishes_epilogue).mp (follows.2 () trivial)
  · intro q
    exact ⟨trivial, fun _ _ => (follows_setAttrOn opened finishes_epilogue).mpr q⟩

/-- Without a handle the descriptor is opened for reading only. -/
theorem follows_setAttr_own {attr : Stat} {toSet : Flags} {fi : FileInfo} {f : FileAttrs} {handle : Fd}
    (none : fi.fh = 0) (s : FuseRequest) :
    Follows (K.file ino) (callback fs.platform (some fs) req .replyFailure (·.setAttr ino attr toSet fi)) s
        (.start f handle) (fun _ _ l => Q l.file l.replies) ↔
      Q (K.served fs false f (changes attr toSet)).1 [(K.served fs false f (changes attr toSet)).2] := by
  rw [follows_callback]
  unfold PageAlignFS.setAttr
  dsimp only
  rw [if_pos none]
  have known : ∀ rc, (K.file ino).answers (.start f handle)
      (.sys (.open_ (.procSelfFd (K.fd (getInode ino))) (O_RDONLY ||| O_CLOEXEC))) rc ↔ rc = .ok K.own := by
    intro rc
    exact ⟨fun h => h rfl, fun h _ => h⟩
  let reading : Setting :=
    { Setting.start f handle with
      writable := Function.update (Setting.start f handle).writable K.own (some false) }
  have opened : reading.writable K.own = some false := by
    simp [reading]
  have logged : ∀ r : Unit, (K.file ino).answers (.start f handle) (.logInode (getInode ino)) r ↔ r = () := by
    intro r
    exact iff_of_true trivial rfl
  rw [Routine.follows_invoke_known trivial logged,
    Routine.follows_invoke_known trivial fun _ => Iff.rfl, Syscalls.open_, Routine.follows_bind]
  refine (follows_syscall_known trivial known).trans ?_
  dsimp only
  rw [Routine.follows_andFinally]
  exact follows_setAttrOn opened (Finishes.closing finishes_epilogue)

end Rules

/-- Serving `setattr` ends so, whatever the kernel does with the rest. -/
def Ends (K : Kernel) (fs : PageAlignFS) (req : FuseReq) (ino : Addr) (attr : Stat) (toSet : Flags)
    (f : FileAttrs) (handle : Fd) (fi : FileInfo) (Q : FileAttrs → List Reply → Prop) : Prop :=
  ∃ handler, fs.serve req (.setattr ino attr toSet (some fi)) = some handler ∧
    ∀ s, Routine.Follows (K.file ino) handler s (.start f handle) fun _ _ l => Q l.file l.replies

section Ends
variable {K : Kernel} {fs : PageAlignFS} {req : FuseReq} {ino : Addr} {attr : Stat} {toSet : Flags}
  {f : FileAttrs} {handle : Fd} {fi : FileInfo} {Q : FileAttrs → List Reply → Prop}

theorem ends_handle (given : fi.fh ≠ 0) : K.Ends fs req ino attr toSet f fi.fh fi Q ↔
    Q (K.served fs true f (changes attr toSet)).1 [(K.served fs true f (changes attr toSet)).2] := by
  constructor
  · rintro ⟨handler, served, follows⟩
    cases served
    exact (follows_setAttr_handle given ⟨none⟩).mp (follows _)
  · intro q
    exact ⟨_, rfl, fun s => (follows_setAttr_handle given s).mpr q⟩

theorem ends_own (none : fi.fh = 0) : K.Ends fs req ino attr toSet f handle fi Q ↔
    Q (K.served fs false f (changes attr toSet)).1 [(K.served fs false f (changes attr toSet)).2] := by
  constructor
  · rintro ⟨handler, served, follows⟩
    cases served
    exact (follows_setAttr_own none ⟨.none⟩).mp (follows _)
  · intro q
    exact ⟨_, rfl, fun s => (follows_setAttr_own none s).mpr q⟩

end Ends

section Run
variable {K : Kernel} {w w' : Bool} {f f' : FileAttrs} {cs ds : List Change}

theorem run_append : K.run w f (cs ++ ds) =
    match K.run w f cs with
    | (f', some e) => (f', some e)
    | (f', none) => K.run w f' ds := by
  induction cs generalizing f with
  | nil => rfl
  | cons c cs ih =>
      simp only [List.cons_append, Kernel.run]
      cases K.outcome w f c with
      | some e => rfl
      | none => exact ih

/-- Only a truncation asks how the descriptor was opened. -/
theorem run_same (untruncated : ∀ c ∈ cs, c.truncates = false) : K.run w f cs = K.run w' f cs := by
  induction cs generalizing f with
  | nil => rfl
  | cons c cs ih =>
      have same : ∀ writable, K.outcome writable f c = K.fails f c := by
        intro writable
        simp [outcome, untruncated c List.mem_cons_self]
      simp only [Kernel.run, same]
      cases K.fails f c with
      | some e => rfl
      | none => exact ih fun c mem => untruncated c (List.mem_cons_of_mem _ mem)

/-- The file once all changes are made. -/
def applied (K : Kernel) (f : FileAttrs) (cs : List Change) : FileAttrs :=
  cs.foldl (fun f c => c.effect (K.clock c) f) f

theorem applied_of_run (done : K.run w f cs = (f', none)) : f' = K.applied f cs := by
  induction cs generalizing f with
  | nil =>
      cases done
      rfl
  | cons c cs ih =>
      rw [Kernel.run] at done
      cases outcome : K.outcome w f c with
      | some e =>
          rw [outcome] at done
          cases done
      | none =>
          rw [outcome] at done
          exact ih done

theorem run_of_never_fails (never : ∀ f c, K.outcome w f c = none) : K.run w f cs = (K.applied f cs, none) := by
  induction cs generalizing f with
  | nil => rfl
  | cons c cs ih =>
      rw [Kernel.run, never]
      exact ih

end Run

end Kernel

/-- No call fails. -/
def Kernel.willing : Kernel where
  fd _ := 3
  fails _ _ := none
  stat f := .ok ⟨8, 77, f.mode.toNat, f.uid, f.gid, f.size, f.atime, f.mtime⟩
  clock _ := ⟨1000, 0⟩
  refusal := ⟨EINVAL, by decide, by decide⟩
  refused := .inl rfl
  own := 9

/-! With and without a handle. -/

section Handles
variable {K : Kernel} {fs : PageAlignFS} {req : FuseReq} {ino : Addr} {attr : Stat} {toSet : Flags}
  {f : FileAttrs} {fi : FileInfo}

/-- The handle makes no difference to the file and to the reply. -/
def Kernel.SameWithoutHandle (K : Kernel) (fs : PageAlignFS) (req : FuseReq) (ino : Addr) (attr : Stat)
    (toSet : Flags) (f : FileAttrs) (fi : FileInfo) : Prop :=
  ∃ f' reply,
    K.Ends fs req ino attr toSet f fi.fh fi (fun file replies => file = f' ∧ replies = [reply]) ∧
    K.Ends fs req ino attr toSet f fi.fh { fi with fh := 0 } fun file replies => file = f' ∧ replies = [reply]

/-- An errno that is answered like the refusal of a descriptor that is not open for writing. -/
def Kernel.LikeRefusal (K : Kernel) (fs : PageAlignFS) (e : Errno) : Prop :=
  sentErrno fs.platform e = sentErrno fs.platform K.refusal

/-- The attributes of the file cannot be read. -/
def Kernel.Unread (K : Kernel) (fs : PageAlignFS) (f : FileAttrs) : Prop :=
  ∃ e, K.stat f = .error e ∧ K.LikeRefusal fs e

def chosenAtime (attr : Stat) (toSet : Flags) : Timespec :=
  PageAlignFS.chooseTime (toSet.has FUSE_SET_ATTR_ATIME_NOW) (toSet.has FUSE_SET_ATTR_ATIME) attr.stAtim

def chosenMtime (attr : Stat) (toSet : Flags) : Timespec :=
  PageAlignFS.chooseTime (toSet.has FUSE_SET_ATTR_MTIME_NOW) (toSet.has FUSE_SET_ATTR_MTIME) attr.stMtim

/-- What the kernel must answer on the read-write descriptor, from `f` on: `ftruncate` fails;
or it finds the size it is to set, a later call fails, and the times are then what they were. -/
def Kernel.TruncatesInVain (K : Kernel) (fs : PageAlignFS) (f : FileAttrs) (attr : Stat)
    (toSet : Flags) : Prop :=
  let truncated := K.clock (.ftruncate attr.stSize)
  match K.fails f (.ftruncate attr.stSize) with
  | some e => K.LikeRefusal fs e
  | none => attr.stSize = f.size ∧
      if toSet.has (FUSE_SET_ATTR_ATIME ||| FUSE_SET_ATTR_MTIME) then
        let change := Change.futimens (chosenAtime attr toSet) (chosenMtime attr toSet)
        match K.fails { f with mtime := truncated } change with
        | some e => truncated = f.mtime ∧ K.LikeRefusal fs e
        | none =>
            Timespec.set (K.clock change) f.atime (chosenAtime attr toSet) = f.atime ∧
              Timespec.set (K.clock change) truncated (chosenMtime attr toSet) = f.mtime ∧ K.Unread fs f
      else truncated = f.mtime ∧ K.Unread fs f

theorem eq_of_mem_chosen {b : Bool} {c d : Change} (mem : c ∈ if b then [d] else []) : c = d := by
  split at mem
  · exact List.mem_singleton.mp mem
  · cases mem

theorem ownership_untruncated : ∀ c ∈ ownership attr toSet, c.truncates = false := by
  intro c mem
  rcases List.mem_append.mp mem with mem | mem
  · rw [eq_of_mem_chosen mem]
    rfl
  · rw [eq_of_mem_chosen mem]
    rfl

theorem times_untruncated : ∀ c ∈ times attr toSet, c.truncates = false := by
  intro c mem
  rw [eq_of_mem_chosen mem]
  rfl

theorem sameWithoutHandle_iff_served (given : fi.fh ≠ 0) :
    K.SameWithoutHandle fs req ino attr toSet f fi ↔
      K.served fs true f (changes attr toSet) = K.served fs false f (changes attr toSet) := by
  have without : ({ fi with fh := 0 } : FileInfo).fh = 0 := rfl
  unfold Kernel.SameWithoutHandle
  simp only [Kernel.ends_handle given, Kernel.ends_own without]
  constructor
  · rintro ⟨f', reply, ⟨file, replied⟩, file', replied'⟩
    have reply_eq := replied.trans replied'.symm
    rw [List.singleton_inj] at reply_eq
    exact Prod.ext (file.trans file'.symm) reply_eq
  · intro same
    rw [← same]
    exact ⟨_, _, ⟨rfl, rfl⟩, rfl, rfl⟩

theorem attrReply_eq_refusal_iff (g : FileAttrs) :
    K.attrReply fs g = .err (sentErrno fs.platform K.refusal) ↔ K.Unread fs g := by
  unfold Kernel.attrReply Kernel.Unread Kernel.LikeRefusal
  cases K.stat g with
  | error e => simp
  | ok st => simp

/-- The rest of the chain after a truncation that was carried out. -/
theorem served_times (g : FileAttrs) : K.served fs true g (times attr toSet) =
    if toSet.has (FUSE_SET_ATTR_ATIME ||| FUSE_SET_ATTR_MTIME) then
      let change := Change.futimens (chosenAtime attr toSet) (chosenMtime attr toSet)
      match K.fails g change with
      | some e => (g, .err (sentErrno fs.platform e))
      | none => (change.effect (K.clock change) g, K.attrReply fs (change.effect (K.clock change) g))
    else (g, K.attrReply fs g) := by
  cases selected : toSet.has (FUSE_SET_ATTR_ATIME ||| FUSE_SET_ATTR_MTIME) with
  | false =>
      have none : times attr toSet = [] := by simp [times, selected]
      rw [none]
      rfl
  | true =>
      have one : times attr toSet = [.futimens (chosenAtime attr toSet) (chosenMtime attr toSet)] := if_pos selected
      have made : K.outcome true g (.futimens (chosenAtime attr toSet) (chosenMtime attr toSet)) =
          K.fails g (.futimens (chosenAtime attr toSet) (chosenMtime attr toSet)) := rfl
      rw [one, Kernel.served, Kernel.run, made]
      dsimp only
      cases K.fails g (.futimens (chosenAtime attr toSet) (chosenMtime attr toSet)) <;> rfl

/-- A truncation that was carried out ends like a refused one only if it changed nothing that
is left in the end, and a later call fails. -/
theorem served_truncated_iff (carried : K.fails f (.ftruncate attr.stSize) = none) :
    K.served fs true (Change.effect (K.clock (.ftruncate attr.stSize)) f (.ftruncate attr.stSize))
        (times attr toSet) = (f, .err (sentErrno fs.platform K.refusal)) ↔
      K.TruncatesInVain fs f attr toSet := by
  simp only [Kernel.TruncatesInVain, carried]
  rw [served_times]
  by_cases size : attr.stSize = f.size
  · have truncated : Change.effect (K.clock (.ftruncate attr.stSize)) f (.ftruncate attr.stSize) =
        { f with mtime := K.clock (.ftruncate attr.stSize) } := by
      simp only [Change.effect, size]
    have unchanged : ∀ t : Timespec, { f with mtime := t } = f ↔ t = f.mtime := by
      intro t
      constructor
      · intro same
        exact congrArg FileAttrs.mtime same
      · rintro rfl
        rfl
    rw [truncated, and_iff_right size]
    cases toSet.has (FUSE_SET_ATTR_ATIME ||| FUSE_SET_ATTR_MTIME) with
    | false =>
        simp only [Bool.false_eq_true, if_false, Prod.mk.injEq, unchanged]
        refine and_congr_right fun same => ?_
        rw [(unchanged _).mpr same]
        exact attrReply_eq_refusal_iff f
    | true =>
        dsimp only
        rw [if_pos rfl, if_pos rfl]
        cases K.fails { f with mtime := K.clock (.ftruncate attr.stSize) }
            (.futimens (chosenAtime attr toSet) (chosenMtime attr toSet)) with
        | some e => simp only [Prod.mk.injEq, unchanged, Reply.err.injEq, Kernel.LikeRefusal]
        | none =>
            have restored : ∀ a m : Timespec, { f with atime := a, mtime := m } = f ↔ a = f.atime ∧ m = f.mtime := by
              intro a m
              constructor
              · intro same
                exact ⟨congrArg FileAttrs.atime same, congrArg FileAttrs.mtime same⟩
              · rintro ⟨rfl, rfl⟩
                rfl
            simp only [Change.effect, Prod.mk.injEq, restored, and_assoc]
            refine and_congr_right fun atime => and_congr_right fun mtime => ?_
            rw [(restored _ _).mpr ⟨atime, mtime⟩]
            exact attrReply_eq_refusal_iff f
  · -- no later call sets the size back
    refine iff_of_false (fun same => ?_) fun both => size both.1
    have same := congrArg (fun out => out.1.size) same
    split at same
    · dsimp only at same
      split at same <;> exact size same
    · exact size same

theorem sameWithoutHandle_iff (K : Kernel) (fs : PageAlignFS) (req : FuseReq) (ino : Addr) (attr : Stat)
    (toSet : Flags) (f : FileAttrs) (fi : FileInfo) (given : fi.fh ≠ 0) :
    K.SameWithoutHandle fs req ino attr toSet f fi ↔
      toSet.has FUSE_SET_ATTR_SIZE = false ∨ (K.run true f (ownership attr toSet)).2 ≠ none ∨
        K.TruncatesInVain fs (K.run true f (ownership attr toSet)).1 attr toSet := by
  rw [sameWithoutHandle_iff_served given]
  have before : K.run false f (ownership attr toSet) = K.run true f (ownership attr toSet) :=
    Kernel.run_same ownership_untruncated
  simp only [Kernel.served, changes, Kernel.run_append, before]
  rcases K.run true f (ownership attr toSet) with ⟨f₁, _ | failure⟩
  · dsimp only
    cases selected : toSet.has FUSE_SET_ATTR_SIZE with
    | false =>
        have after : K.run false f₁ (times attr toSet) = K.run true f₁ (times attr toSet) :=
          Kernel.run_same times_untruncated
        simp [truncation, selected, Kernel.run, after]
    | true =>
        have refused : K.outcome false f₁ (.ftruncate attr.stSize) = some K.refusal := rfl
        have carried : K.outcome true f₁ (.ftruncate attr.stSize) = K.fails f₁ (.ftruncate attr.stSize) := rfl
        simp only [truncation, selected, if_true, Kernel.run, refused, carried]
        cases fails : K.fails f₁ (.ftruncate attr.stSize) with
        | some e => simp [Kernel.TruncatesInVain, fails, Kernel.LikeRefusal]
        | none =>
            rw [← served_truncated_iff fails]
            simp [Kernel.served]
  · simp

end Handles

namespace Sample

/-- A regular file of 4096 bytes, and the descriptor that it was opened with. -/
def regular : FileAttrs := ⟨0o644, 0, 0, 4096, ⟨1, 0⟩, ⟨1, 0⟩⟩

def readWrite : FileInfo := ⟨2, 11, false, false⟩

/-- A file that is empty, belongs to user 1000 and has the mode 04755. -/
def wantedStat : Stat := ⟨0, 0, 0o104755, 1000, 0, 0, ⟨0, 0⟩, ⟨0, 0⟩⟩

end Sample

theorem sameWithoutHandle_chmod : Kernel.willing.SameWithoutHandle .onLinux ⟨5, .setattr⟩ 4096
    Sample.wantedStat FUSE_SET_ATTR_MODE Sample.regular Sample.readWrite :=
  (sameWithoutHandle_iff .willing .onLinux ⟨5, .setattr⟩ 4096 Sample.wantedStat FUSE_SET_ATTR_MODE
    Sample.regular Sample.readWrite (by decide)).mpr (.inl rfl)

/-- `truncate(2)` by path. -/
theorem truncate_needs_handle : ¬ ∀ (K : Kernel) (fs : PageAlignFS) (req : FuseReq) (ino : Addr) (attr : Stat)
    (toSet : Flags) (f : FileAttrs) (fi : FileInfo), fi.fh ≠ 0 →
      K.SameWithoutHandle fs req ino attr toSet f fi := by
  intro always
  have given : Sample.readWrite.fh ≠ 0 := by decide
  have same := always .willing .onLinux ⟨5, .setattr⟩ 4096 Sample.wantedStat FUSE_SET_ATTR_SIZE Sample.regular
    Sample.readWrite given
  rw [sameWithoutHandle_iff_served given] at same
  have reply := congrArg Prod.snd same
  cases reply

/-! What is achieved when nothing fails. -/

/-- A chown takes bits away from such a mode. -/
def Clears (mode : BitVec 12) : Prop :=
  mode &&& S_ISUID ≠ 0 ∨ mode &&& S_ISGID ≠ 0 ∧ mode &&& S_IXGRP ≠ 0

instance (mode : BitVec 12) : Decidable (Clears mode) := inferInstanceAs (Decidable (_ ∨ _))

/-- What libfuse sends: the time now only for a time that is to be set, real owners, and
nanoseconds that are none of the two marks. -/
structure SensibleAttr (attr : Stat) (toSet : Flags) : Prop where
  atimeNow : toSet.has FUSE_SET_ATTR_ATIME_NOW = true → toSet.has FUSE_SET_ATTR_ATIME = true
  mtimeNow : toSet.has FUSE_SET_ATTR_MTIME_NOW = true → toSet.has FUSE_SET_ATTR_MTIME = true
  uid : toSet.has FUSE_SET_ATTR_UID = true → attr.stUid ≠ kKeepOwner
  gid : toSet.has FUSE_SET_ATTR_GID = true → attr.stGid ≠ kKeepOwner
  atime : attr.stAtim.tvNsec < 1000000000
  mtime : attr.stMtim.tvNsec < 1000000000

/-- What was selected has the value asked for; what was not is as before, but for the bits
that a chown clears and the time of a truncation. -/
structure Achieved (K : Kernel) (attr : Stat) (toSet : Flags) (f f' : FileAttrs) : Prop where
  mode : f'.mode =
    if toSet.has FUSE_SET_ATTR_MODE then BitVec.ofNat 12 attr.stMode
    else if toSet.has FUSE_SET_ATTR_UID || toSet.has FUSE_SET_ATTR_GID then chownMode f.mode
    else f.mode
  uid : f'.uid = if toSet.has FUSE_SET_ATTR_UID then attr.stUid else f.uid
  gid : f'.gid = if toSet.has FUSE_SET_ATTR_GID then attr.stGid else f.gid
  size : f'.size = if toSet.has FUSE_SET_ATTR_SIZE then attr.stSize else f.size
  atime :
    if toSet.has FUSE_SET_ATTR_ATIME_NOW then ∃ c ∈ changes attr toSet, f'.atime = K.clock c
    else f'.atime = if toSet.has FUSE_SET_ATTR_ATIME then attr.stAtim else f.atime
  mtime :
    if toSet.has FUSE_SET_ATTR_MTIME_NOW then ∃ c ∈ changes attr toSet, f'.mtime = K.clock c
    else if toSet.has FUSE_SET_ATTR_MTIME then f'.mtime = attr.stMtim
    else if toSet.has FUSE_SET_ATTR_SIZE then ∃ c ∈ changes attr toSet, f'.mtime = K.clock c
    else f'.mtime = f.mtime

theorem has_or (toSet a b : Flags) : toSet.has (a ||| b) = (toSet.has a || toSet.has b) := by
  unfold Flags.has
  rw [BitVec.and_or_distrib_left, Bool.eq_iff_iff]
  simp [← not_and_or]

theorem and_not_eq_self_iff {w : Nat} (x y : BitVec w) : x &&& ~~~y = x ↔ x &&& y = 0 := by
  constructor
  · intro same
    ext i hi
    have bit := congrArg (fun z => z.getLsbD i) same
    simp at bit ⊢
    grind
  · intro disjoint
    ext i hi
    have bit := congrArg (fun z => z.getLsbD i) disjoint
    simp at bit ⊢
    grind

theorem chownMode_eq_self_iff (mode : BitVec 12) : chownMode mode = mode ↔ ¬ Clears mode := by
  unfold chownMode Clears
  by_cases group : mode &&& S_IXGRP = 0
  · simp [group, and_not_eq_self_iff]
  · have both : mode &&& ~~~S_ISUID &&& ~~~S_ISGID = mode &&& ~~~(S_ISUID ||| S_ISGID) := by
      rw [BitVec.not_or, BitVec.and_assoc]
    simp only [group, if_false, both, and_not_eq_self_iff, BitVec.and_or_distrib_left]
    simp only [BitVec.ofNat_eq_ofNat, BitVec.or_eq_zero_iff, ne_eq, not_or, not_and, not_not]
    refine and_congr_right fun _ => ⟨fun kept lost => absurd kept lost, fun h => ?_⟩
    exact by_contra fun lost => group (h lost)

section Achieved
variable {K : Kernel} {fs : PageAlignFS} {req : FuseReq} {ino : Addr} {attr : Stat} {toSet : Flags}
  {f : FileAttrs} {fi : FileInfo}

theorem applied_chosen (b : Bool) (c : Change) :
    K.applied f (if b then [c] else []) = if b then c.effect (K.clock c) f else f := by
  cases b <;> rfl

theorem applied_ownership (wf : SensibleAttr attr toSet) : K.applied f (ownership attr toSet) =
    { f with
      mode :=
        let mode := if toSet.has FUSE_SET_ATTR_MODE then BitVec.ofNat 12 attr.stMode else f.mode
        if toSet.has FUSE_SET_ATTR_UID || toSet.has FUSE_SET_ATTR_GID then chownMode mode else mode
      uid := if toSet.has FUSE_SET_ATTR_UID then attr.stUid else f.uid
      gid := if toSet.has FUSE_SET_ATTR_GID then attr.stGid else f.gid } := by
  have owner : ∀ {u : Bool} {x old : Nat}, (u = true → x ≠ kKeepOwner) →
      (if (if u then x else kKeepOwner) = kKeepOwner then old else if u then x else kKeepOwner) =
        if u then x else old := by
    intro u x old proper
    cases u with
    | false => simp
    | true => simp [proper rfl]
  unfold ownership
  rw [Kernel.applied, List.foldl_append, ← Kernel.applied, ← Kernel.applied, applied_chosen, applied_chosen,
    has_or]
  cases either : toSet.has FUSE_SET_ATTR_UID || toSet.has FUSE_SET_ATTR_GID with
  | false =>
      obtain ⟨uid, gid⟩ := Bool.or_eq_false_iff.mp either
      cases toSet.has FUSE_SET_ATTR_MODE <;> simp [uid, gid, Change.effect]
  | true =>
      simp only [if_true, Change.effect, owner wf.uid, owner wf.gid]
      cases toSet.has FUSE_SET_ATTR_MODE <;> rfl

theorem applied_truncation : K.applied f (truncation attr toSet) =
    { f with
      size := if toSet.has FUSE_SET_ATTR_SIZE then attr.stSize else f.size
      mtime := if toSet.has FUSE_SET_ATTR_SIZE then K.clock (.ftruncate attr.stSize) else f.mtime } := by
  unfold truncation
  rw [applied_chosen]
  cases toSet.has FUSE_SET_ATTR_SIZE <;> rfl

/-- The call for the two times. -/
def timesChange (attr : Stat) (toSet : Flags) : Change :=
  .futimens
    (PageAlignFS.chooseTime (toSet.has FUSE_SET_ATTR_ATIME_NOW) (toSet.has FUSE_SET_ATTR_ATIME) attr.stAtim)
    (PageAlignFS.chooseTime (toSet.has FUSE_SET_ATTR_MTIME_NOW) (toSet.has FUSE_SET_ATTR_MTIME) attr.stMtim)

theorem set_chooseTime {now given : Bool} {time t old : Timespec} (proper : time.tvNsec < 1000000000) :
    Timespec.set t old (PageAlignFS.chooseTime now given time) =
      if now then t else if given then time else old := by
  have notNow : time.tvNsec ≠ UTIME_NOW := by
    unfold UTIME_NOW
    omega
  have notOmit : time.tvNsec ≠ UTIME_OMIT := by
    unfold UTIME_OMIT
    omega
  cases now with
  | true => rfl
  | false =>
      cases given with
      | true => simp [PageAlignFS.chooseTime, Timespec.set, notNow, notOmit]
      | false => rfl

theorem applied_times (wf : SensibleAttr attr toSet) : K.applied f (times attr toSet) =
    { f with
      atime := if toSet.has FUSE_SET_ATTR_ATIME_NOW then K.clock (timesChange attr toSet)
        else if toSet.has FUSE_SET_ATTR_ATIME then attr.stAtim else f.atime
      mtime := if toSet.has FUSE_SET_ATTR_MTIME_NOW then K.clock (timesChange attr toSet)
        else if toSet.has FUSE_SET_ATTR_MTIME then attr.stMtim else f.mtime } := by
  unfold times
  rw [applied_chosen, has_or]
  cases either : toSet.has FUSE_SET_ATTR_ATIME || toSet.has FUSE_SET_ATTR_MTIME with
  | false =>
      obtain ⟨atime, mtime⟩ := Bool.or_eq_false_iff.mp either
      have atimeNow : toSet.has FUSE_SET_ATTR_ATIME_NOW = false :=
        Bool.eq_false_iff.mpr fun now => by simpa [atime] using wf.atimeNow now
      have mtimeNow : toSet.has FUSE_SET_ATTR_MTIME_NOW = false :=
        Bool.eq_false_iff.mpr fun now => by simpa [mtime] using wf.mtimeNow now
      simp [atime, mtime, atimeNow, mtimeNow]
  | true => simp [Change.effect, set_chooseTime wf.atime, set_chooseTime wf.mtime, timesChange]

theorem applied_changes (wf : SensibleAttr attr toSet) : K.applied f (changes attr toSet) =
    { mode :=
        let mode := if toSet.has FUSE_SET_ATTR_MODE then BitVec.ofNat 12 attr.stMode else f.mode
        if toSet.has FUSE_SET_ATTR_UID || toSet.has FUSE_SET_ATTR_GID then chownMode mode else mode
      uid := if toSet.has FUSE_SET_ATTR_UID then attr.stUid else f.uid
      gid := if toSet.has FUSE_SET_ATTR_GID then attr.stGid else f.gid
      size := if toSet.has FUSE_SET_ATTR_SIZE then attr.stSize else f.size
      atime := if toSet.has FUSE_SET_ATTR_ATIME_NOW then K.clock (timesChange attr toSet)
        else if toSet.has FUSE_SET_ATTR_ATIME then attr.stAtim else f.atime
      mtime := if toSet.has FUSE_SET_ATTR_MTIME_NOW then K.clock (timesChange attr toSet)
        else if toSet.has FUSE_SET_ATTR_MTIME then attr.stMtim
        else if toSet.has FUSE_SET_ATTR_SIZE then K.clock (.ftruncate attr.stSize) else f.mtime } := by
  have split : K.applied f (changes attr toSet) =
      K.applied (K.applied (K.applied f (ownership attr toSet)) (truncation attr toSet)) (times attr toSet) := by
    simp only [Kernel.applied, changes, List.foldl_append]
  rw [split, applied_ownership wf, applied_truncation, applied_times wf]

theorem timesChange_mem (selected : toSet.has FUSE_SET_ATTR_ATIME = true ∨ toSet.has FUSE_SET_ATTR_MTIME = true) :
    timesChange attr toSet ∈ changes attr toSet := by
  have chosen : toSet.has (FUSE_SET_ATTR_ATIME ||| FUSE_SET_ATTR_MTIME) = true := by
    rw [has_or, Bool.or_eq_true]
    exact selected
  simp [changes, times, chosen, timesChange]

theorem ftruncate_mem (selected : toSet.has FUSE_SET_ATTR_SIZE = true) :
    Change.ftruncate attr.stSize ∈ changes attr toSet := by
  simp [changes, truncation, selected]

/-- The mode and an owner are selected, and the chown takes bits of the mode away again. -/
def Undone (attr : Stat) (toSet : Flags) : Prop :=
  toSet.has FUSE_SET_ATTR_MODE = true ∧
    (toSet.has FUSE_SET_ATTR_UID = true ∨ toSet.has FUSE_SET_ATTR_GID = true) ∧
    Clears (BitVec.ofNat 12 attr.stMode)

instance (attr : Stat) (toSet : Flags) : Decidable (Undone attr toSet) :=
  inferInstanceAs (Decidable (_ ∧ _))

theorem achieved_iff (wf : SensibleAttr attr toSet) :
    Achieved K attr toSet f (K.applied f (changes attr toSet)) ↔ ¬ Undone attr toSet := by
  rw [applied_changes wf]
  constructor
  · rintro achieved ⟨mode, owner, clears⟩
    have kept := achieved.mode
    rw [← Bool.or_eq_true] at owner
    simp only [mode, owner, if_true] at kept
    exact (chownMode_eq_self_iff _).mp kept clears
  · intro kept
    constructor
    · cases mode : toSet.has FUSE_SET_ATTR_MODE with
      | false => rfl
      | true =>
          dsimp only
          rw [if_pos rfl]
          split
          · next owner =>
              rw [Bool.or_eq_true] at owner
              exact (chownMode_eq_self_iff _).mpr fun clears => kept ⟨mode, owner, clears⟩
          · rfl
    · rfl
    · rfl
    · rfl
    · dsimp only
      split
      · next now => exact ⟨_, timesChange_mem (.inl (wf.atimeNow now)), rfl⟩
      · rfl
    · dsimp only
      split
      · next now => exact ⟨_, timesChange_mem (.inr (wf.mtimeNow now)), rfl⟩
      · split
        · rfl
        · split
          · next sized => exact ⟨_, ftruncate_mem sized, rfl⟩
          · rfl

/-- If the kernel is told that `SetAttr` succeeded, it has achieved what was selected. -/
def Kernel.Achieves (K : Kernel) (fs : PageAlignFS) (req : FuseReq) (ino : Addr) (attr : Stat)
    (toSet : Flags) (f : FileAttrs) (fi : FileInfo) : Prop :=
  K.Ends fs req ino attr toSet f fi.fh fi fun f' replies =>
    (∃ st timeout, replies = [.attr st timeout]) → Achieved K attr toSet f f'

theorem willing_served : Kernel.willing.served fs true f (changes attr toSet) =
    (Kernel.willing.applied f (changes attr toSet),
      Kernel.willing.attrReply fs (Kernel.willing.applied f (changes attr toSet))) := by
  have never : ∀ f c, Kernel.willing.outcome true f c = none := by
    intro f c
    cases c <;> rfl
  rw [Kernel.served, Kernel.run_of_never_fails never]

theorem achieves_iff (fs : PageAlignFS) (req : FuseReq) (ino : Addr) (attr : Stat) (toSet : Flags)
    (f : FileAttrs) (fi : FileInfo) (given : fi.fh ≠ 0) (wf : SensibleAttr attr toSet) :
    (∀ K : Kernel, K.Achieves fs req ino attr toSet f fi) ↔ ¬ Undone attr toSet := by
  unfold Kernel.Achieves
  simp only [Kernel.ends_handle given]
  constructor
  · intro always
    have achieved := always .willing
    rw [willing_served] at achieved
    exact (achieved_iff wf).mp (achieved ⟨_, _, rfl⟩)
  · rintro kept K ⟨st, timeout, replied⟩
    unfold Kernel.served at replied ⊢
    cases run : K.run true f (changes attr toSet) with
    | mk f' failure =>
        cases failure with
        | some failure =>
            rw [run] at replied
            cases replied
        | none =>
            obtain rfl := Kernel.applied_of_run run
            exact (achieved_iff wf).mpr kept

end Achieved

theorem achieves_chmod : Kernel.willing.Achieves .onLinux ⟨5, .setattr⟩ 4096 Sample.wantedStat
    FUSE_SET_ATTR_MODE Sample.regular Sample.readWrite :=
  (achieves_iff .onLinux ⟨5, .setattr⟩ 4096 Sample.wantedStat FUSE_SET_ATTR_MODE Sample.regular Sample.readWrite
    (by decide) ⟨by decide, by decide, by decide, by decide, by decide, by decide⟩).mpr (by decide) .willing

/-- The set-user-ID bit is asked for together with an owner. -/
theorem setuid_lost : ¬ ∀ (fs : PageAlignFS) (req : FuseReq) (ino : Addr) (attr : Stat) (toSet : Flags)
    (f : FileAttrs) (fi : FileInfo), fi.fh ≠ 0 → SensibleAttr attr toSet →
      ∀ K : Kernel, K.Achieves fs req ino attr toSet f fi := by
  intro always
  have given : Sample.readWrite.fh ≠ 0 := by decide
  have wf : SensibleAttr Sample.wantedStat (FUSE_SET_ATTR_MODE ||| FUSE_SET_ATTR_UID) :=
    ⟨by decide, by decide, by decide, by decide, by decide, by decide⟩
  have achieves := always .onLinux ⟨5, .setattr⟩ 4096 Sample.wantedStat _ Sample.regular Sample.readWrite given wf
    .willing
  rw [Kernel.Achieves, Kernel.ends_handle given, willing_served] at achieves
  have undone : Undone Sample.wantedStat (FUSE_SET_ATTR_MODE ||| FUSE_SET_ATTR_UID) := by decide
  exact (achieved_iff wf).mp (achieves ⟨_, _, rfl⟩) undone

end Pafs
