import Pafs.Dispatch

/-! What one callback answers. A `Record` collects, from the events of a single thread, the
replies it makes and the failed system calls whose status it must hand on; every handler is
run symbolically over it, whatever its environment answers. -/
namespace Pafs
open Resumption

/-- A failed system call; the template `ioctl` is the one that drops the errno. -/
structure Failure where
  errno : Errno
  viaIoctl : Bool
  deriving DecidableEq

def Failure.Explains (P : Platform) (f : Failure) (st : Error) : Prop :=
  ∃ message, st =
    if f.viaIoctl then abslErrnoToStatus P f.errno message else errnoError P f.errno message

/-- The failure of a call, unless it was made by a destructor, which only logs it. -/
def Sys.failure (s : Sys) (e : Errno) : Option Failure :=
  match s with
  | .close _ true | .closedir _ => none
  | .ioctl .. => some ⟨e, true⟩
  | _ => some ⟨e, false⟩

def VersionError.failure : VersionError → Failure
  | .openFailed _ e => ⟨e, false⟩
  | .ioctlFailed _ e => ⟨e, true⟩

/-- The failure that an answered call reports; a memoised version error stands for the
call that failed when it was memoised. -/
def failureOf : (c : Call) → c.Ret → Option Failure
  | .sys s, .error e => s.failure e
  | .getGeneration _, some (.error v) => some v.failure
  | _, _ => none

def replyOf : Call → Option (FuseReq × Reply)
  | .fuseReply req reply => some (req, reply)
  | _ => none

structure Record where
  replies : List (FuseReq × Reply)
  failures : List Failure

def Record.after (l : Record) (c : Call) (r : c.Ret) : Record where
  replies := l.replies ++ (replyOf c).toList
  failures := l.failures ++ (failureOf c r).toList

def Record.start : Record := ⟨[], []⟩

def record : Discipline calls Record where
  allows _ _ := True
  answers _ _ _ := True
  after := Record.after

def repliesIn (t : List (Event calls)) : List (FuseReq × Reply) := t.filterMap fun e => replyOf e.1

def failuresIn (t : List (Event calls)) : List Failure := t.filterMap fun e => failureOf e.1 e.2

theorem record_run (l : Record) (t : List (Event calls)) :
    record.run l t = ⟨l.replies ++ repliesIn t, l.failures ++ failuresIn t⟩ := by
  induction t generalizing l with
  | nil => simp [Discipline.run, repliesIn, failuresIn]
  | cons e t ih =>
      have step : record.run l (e :: t) = record.run (l.after e.1 e.2) t := rfl
      rw [step, ih]
      cases hr : replyOf e.1 <;> cases hf : failureOf e.1 e.2 <;>
        simp [Record.after, repliesIn, failuresIn, hr, hf]

theorem record_admits (l : Record) (t : List (Event calls)) : record.Admits l t := by
  induction t generalizing l with
  | nil => trivial
  | cons e t ih => exact ⟨trivial, ih _⟩

@[simp] theorem record_allows (l : Record) (c : Call) : record.allows l c ↔ True := Iff.rfl

@[simp] theorem record_answers (l : Record) (c : Call) (r : c.Ret) :
    record.answers l c r ↔ True := Iff.rfl

@[simp] theorem record_after (l : Record) (c : Call) (r : c.Ret) :
    record.after l c r = ⟨l.replies ++ (replyOf c).toList, l.failures ++ (failureOf c r).toList⟩ :=
  rfl

def Record.blame (l : Record) (f : Failure) : Record := { l with failures := l.failures ++ [f] }

theorem after_of_quiet {l : Record} {c : Call} {r : c.Ret} (quiet : replyOf c = none)
    (fine : failureOf c r = none) : record.after l c r = l := by
  simp [quiet, fine]

theorem after_of_failed {l : Record} {c : Call} {r : c.Ret} {f : Failure}
    (quiet : replyOf c = none) (failed : failureOf c r = some f) :
    record.after l c r = l.blame f := by
  simp [quiet, failed, Record.blame]

theorem failureOf_close (fd : Fd) (rc : Except Errno Unit) :
    failureOf (.sys (.close fd true)) rc = none := by
  cases rc with
  | error e => rfl
  | ok _ => rfl

variable {σ α β : Type} {P : Platform}

/-- Code that leaves no trace in the record, such as a destructor. -/
def Silent (P : Platform) (m : Io σ α) : Prop :=
  ∀ (s : σ) (l : Record) (Q : Except Error α → σ → Record → Prop), (∀ a, Q (.ok a) s l) →
    (∀ st, failureErrno P st ≠ 0 → Q (.error st) s l) → Routine.Follows record m s l Q

/-- Code that makes no reply, and reports no failure other than one it returns. -/
def Calm (P : Platform) (m : Io σ α) : Prop :=
  ∀ (s : σ) (l : Record) (Q : Except Error α → σ → Record → Prop), (∀ a, Q (.ok a) s l) →
    (∀ st, failureErrno P st ≠ 0 → Q (.error st) s l) →
    (∀ f st, f.Explains P st → Q (.error st) s (l.blame f)) → Routine.Follows record m s l Q

namespace Silent

theorem pure (a : α) : Silent P (pure a : Io σ α) := fun _ _ _ ok _ => ok a

theorem fail {st : Error} (h : st.payloads = []) : Silent P (Routine.fail st : Io σ α) :=
  fun _ _ _ _ bad => bad st (failureErrno_ne_zero_of_no_payload P h)

theorem bind {m : Io σ α} {f : α → Io σ β} (first : Silent P m) (rest : ∀ a, Silent P (f a)) :
    Silent P (m >>= f) := by
  intro s l Q ok bad
  rw [Routine.follows_bind]
  exact first s l _ (fun a => rest a s l Q ok bad) bad

theorem attempt {m : Io σ α} (h : Silent P m) : Silent P m.attempt := by
  intro s l Q ok _
  rw [Routine.follows_attempt]
  exact h s l _ (fun a => ok _) (fun st _ => ok _)

theorem invoke {c : Call} (quiet : replyOf c = none) (fine : ∀ r, failureOf c r = none) :
    Silent P (Routine.invoke (I := calls) c : Io σ c.Ret) := by
  intro s l Q ok _
  rw [Routine.follows_invoke]
  refine ⟨trivial, fun r _ => ?_⟩
  rw [after_of_quiet quiet (fine r)]
  exact ok r

theorem check (site : CheckSite) (holds : Bool) : Silent P (check site holds : Io σ Unit) := by
  intro s l Q ok _
  rw [follows_check]
  exact ⟨fun _ => ok (), fun _ => trivial⟩

theorem calm {m : Io σ α} (h : Silent P m) : Calm P m :=
  fun s l Q ok bad _ => h s l Q ok bad

theorem onError {m : Io σ α} {cleanup : Io σ Unit} (after : Silent P cleanup) {s : σ}
    {l : Record} {Q : Except Error α → σ → Record → Prop} (h : Routine.Follows record m s l Q) :
    Routine.Follows record (m.onError cleanup) s l Q := by
  rw [Routine.follows_onError]
  refine Routine.Follows.mono h fun r s l out => ?_
  cases r with
  | ok _ => exact out
  | error st => exact after _ _ _ (fun _ => out) fun _ _ => out

theorem andFinally {m : Io σ α} {destroy : Io σ Unit} (after : Silent P destroy) {s : σ}
    {l : Record} {Q : Except Error α → σ → Record → Prop} (h : Routine.Follows record m s l Q) :
    Routine.Follows record (m.andFinally destroy) s l Q := by
  rw [Routine.follows_andFinally]
  exact Routine.Follows.mono h fun r s l out => after _ _ _ (fun _ => out) fun _ _ => out

theorem closeFd (fd : Fd) : Silent P (FileDescriptor.destroy fd : Io σ Unit) :=
  bind (invoke rfl (failureOf_close fd)) fun _ => pure ()

theorem closeDir (d : DirPtr) : Silent P (Directory.destroy d : Io σ Unit) :=
  bind (invoke rfl fun r => by cases r <;> rfl) fun _ => pure ()

theorem destroyInode (i : Inode) : Silent P (i.destroy : Io σ Unit) := by
  unfold Inode.destroy
  cases i.pollHandle with
  | some ph => exact bind (invoke rfl fun _ => rfl) fun _ => closeFd i.fd
  | none => exact closeFd i.fd

theorem settle (u : Unrefed) : Silent P (u.settle : Io σ Unit) := by
  rcases u with key | _ | erased
  · exact fail rfl
  · exact check _ _
  · cases erased with
    | none => exact pure ()
    | some i => exact destroyInode i

theorem unref (site : UnrefSite) (r : InodeRef) (n : Nat) :
    Silent P (Inodes.unref site r n : Io σ Unit) :=
  bind (invoke rfl fun _ => rfl) settle

theorem ref (r : InodeRef) (n : Nat) : Silent P (Inodes.ref r n : Io σ Unit) := by
  refine bind (invoke rfl fun _ => rfl) fun rc => ?_
  cases rc with
  | none => exact pure ()
  | some key => exact fail rfl

theorem dropShared (a : Addr) : Silent P (Inodes.dropShared a : Io σ Unit) :=
  bind (attempt (bind (invoke rfl fun _ => rfl) settle)) fun _ => pure ()

theorem dropAllShared (as : List Addr) : Silent P (Inodes.dropAllShared as : Io σ Unit) := by
  induction as with
  | nil => exact pure ()
  | cons a as ih => exact bind (dropShared a) fun _ => ih

theorem unrefAll (as : List Addr) : Silent P (Inodes.unrefAll as : Io σ Unit) := by
  induction as with
  | nil => exact pure ()
  | cons a as ih => exact bind (attempt (unref .cleanup (.node a) 1)) fun _ => ih

end Silent

namespace Calm

theorem bind {m : Io σ α} {f : α → Io σ β} (first : Calm P m) (rest : ∀ a, Calm P (f a)) :
    Calm P (m >>= f) := by
  intro s l Q ok bad blamed
  rw [Routine.follows_bind]
  exact first s l _ (fun a => rest a s l Q ok bad blamed) bad blamed

theorem syscall (c : Sys) (message : String) (kind : ∀ e, c.failure e = some ⟨e, false⟩) :
    Calm P (syscall P c message : Io σ c.Ret) := by
  intro s l Q ok _ blamed
  rw [follows_syscall]
  refine ⟨trivial, fun e _ => ?_, fun v _ => ?_⟩
  · rw [after_of_failed (c := .sys c) (r := .error e) rfl (kind e)]
    exact blamed _ _ ⟨message, rfl⟩
  · rw [after_of_quiet rfl rfl]
    exact ok v

theorem onError {m : Io σ α} {cleanup : Io σ Unit} (h : Calm P m) (after : Silent P cleanup) :
    Calm P (m.onError cleanup) :=
  fun s l Q ok bad blamed => after.onError (h s l Q ok bad blamed)

theorem doIf {c : Bool} {m : Io σ Unit} (h : Calm P m) : Calm P (doIf c m) := by
  cases c with
  | true => exact h
  | false => exact (Silent.pure ()).calm

theorem createInode (path : String) (parentFd : Fd) :
    Calm P (Inode.create P path parentFd : Io σ Inode) := by
  unfold Inode.create
  refine bind (syscall _ _ fun _ => rfl) fun fd => ?_
  refine bind (onError (syscall _ _ fun _ => rfl) (Silent.closeFd fd)) fun st => ?_
  exact (Silent.pure _).calm

theorem insert (i : Inode) : Calm P (Inodes.insert i : Io σ Addr) := by
  unfold Inodes.insert
  refine bind (Silent.invoke rfl fun _ => rfl).calm fun r => ?_
  exact bind (doIf (Silent.destroyInode i).calm) fun _ => (Silent.pure _).calm

theorem findOrCreateInode (fs : PageAlignFS) (parent : InodeRef) (path : String) :
    Calm fs.platform (fs.findOrCreateInode parent path : Io σ Addr) := by
  unfold PageAlignFS.findOrCreateInode
  refine bind (Silent.invoke rfl fun _ => rfl).calm fun parentFd => ?_
  exact bind (createInode path parentFd) insert

end Calm

theorem VersionError.failure_explains (P : Platform) (v : VersionError) :
    v.failure.Explains P (v.status P) := by
  cases v with
  | openFailed fd e => exact ⟨_, rfl⟩
  | ioctlFailed fd e => exact ⟨_, rfl⟩

theorem follows_getFileVersionFromPathFD {s : σ} {l : Record} (fd : Fd)
    {Q : Except Error (Except VersionError Nat) → σ → Record → Prop}
    (ok : ∀ v, Q (.ok (.ok v)) s l)
    (bad : ∀ err : VersionError, Q (.ok (.error err)) s (l.blame err.failure)) :
    Routine.Follows record (getFileVersionFromPathFD fd) s l Q := by
  unfold getFileVersionFromPathFD
  rw [Routine.follows_bind, Routine.follows_invoke]
  refine ⟨trivial, fun opened _ => ?_⟩
  cases opened with
  | error e =>
      rw [after_of_failed rfl (f := ⟨e, false⟩) rfl]
      exact bad (.openFailed fd e)
  | ok myfd =>
      rw [after_of_quiet rfl rfl]
      change Routine.Follows record (_ >>= _) s l Q
      rw [Routine.follows_bind, Routine.follows_invoke]
      refine ⟨trivial, fun version _ => ?_⟩
      change Routine.Follows record (_ >>= _) s _ Q
      rw [Routine.follows_bind, follows_closeFd]
      refine ⟨trivial, fun rc _ => ?_⟩
      rw [after_of_quiet rfl (failureOf_close myfd rc)]
      cases version with
      | error e =>
          rw [after_of_failed rfl (f := ⟨e, true⟩) rfl]
          exact bad (.ioctlFailed myfd e)
      | ok v =>
          rw [after_of_quiet rfl rfl]
          exact ok v

namespace Calm

theorem getGeneration (r : InodeRef) : Calm P (Inode.getGeneration P r : Io σ Nat) := by
  intro s l Q ok _ blamed
  have store (v : Except VersionError Nat) (l' : Record) (h : Q (versionStatus P v) s l') :
      Routine.Follows record (do
        Routine.invoke (I := calls) (.setGeneration r v)
        Routine.ofExcept (versionStatus P v)) s l' Q := by
    rw [Routine.follows_bind, Routine.follows_invoke]
    refine ⟨trivial, fun _ _ => ?_⟩
    rw [after_of_quiet rfl rfl]
    exact h
  unfold Inode.getGeneration
  rw [Routine.follows_bind, Routine.follows_invoke]
  refine ⟨trivial, fun memo _ => ?_⟩
  cases memo with
  | some v =>
      cases v with
      | error err =>
          rw [after_of_failed rfl (f := err.failure) rfl]
          exact blamed _ _ (err.failure_explains P)
      | ok v =>
          rw [after_of_quiet rfl rfl]
          exact ok v
  | none =>
      rw [after_of_quiet rfl rfl]
      change Routine.Follows record (_ >>= _) s l Q
      rw [Routine.follows_bind, Routine.follows_invoke]
      refine ⟨trivial, fun fd _ => ?_⟩
      rw [after_of_quiet rfl rfl]
      change Routine.Follows record (_ >>= _) s l Q
      rw [Routine.follows_bind]
      exact follows_getFileVersionFromPathFD fd (fun v => store _ _ (ok v))
        (fun err => store _ _ (blamed _ _ (err.failure_explains P)))

theorem createFuseEntryParam (fs : PageAlignFS) (inode : Addr) (withGeneration : Bool) :
    Calm fs.platform (fs.createFuseEntryParam inode withGeneration : Io σ EntryParam) := by
  unfold PageAlignFS.createFuseEntryParam
  refine bind (Silent.invoke rfl fun _ => rfl).calm fun fd => ?_
  refine bind (syscall _ _ fun _ => rfl) fun attr => ?_
  cases withGeneration with
  | false => exact (Silent.pure _).calm
  | true => exact bind (getGeneration _) fun _ => (Silent.pure _).calm

theorem addDirEntry (d : FuseDirsBuilder) (name : String) (param : EntryParam) (offset : Int) :
    Calm P (d.addDirEntry P name param offset : Io σ (Option { d' // d.Grows d' })) := by
  unfold FuseDirsBuilder.addDirEntry
  dsimp only
  split
  · exact bind (Silent.check _ _).calm fun _ => (Silent.pure _).calm
  · exact (Silent.pure _).calm

theorem readDirRound (fs : PageAlignFS) (dirInode : InodeRef) (dir : DirPtr)
    (dirs : FuseDirsBuilder) :
    Calm fs.platform (fs.readDirRound dirInode dir dirs :
      Io σ (PageAlignFS.ReadDirRound dirs)) := by
  unfold PageAlignFS.readDirRound
  refine bind (syscall _ _ fun _ => rfl) fun entry => ?_
  cases entry with
  | none => exact (Silent.pure _).calm
  | some entry =>
      refine bind (findOrCreateInode fs dirInode entry.dName) fun inode => ?_
      refine bind (onError (bind (createFuseEntryParam fs inode dirs.plus) fun param =>
        bind (addDirEntry dirs entry.dName param entry.dOff) fun next => ?_)
        (Silent.dropShared inode)) fun next => ?_
      · cases next with
        | none => exact (Silent.pure _).calm
        | some next => exact bind (doIf (Silent.ref _ _).calm) fun _ => (Silent.pure _).calm
      · cases next with
        | none => exact bind (Silent.dropShared inode).calm fun _ => (Silent.pure _).calm
        | some next =>
            dsimp only
            split
            · exact (Silent.pure _).calm
            · exact bind (Silent.dropShared inode).calm fun _ => (Silent.pure _).calm

/-- The vector of references survives a failed round, so the loop itself always returns. -/
theorem readDirLoop (fs : PageAlignFS) (dirInode : InodeRef) (dir : DirPtr) {room : Nat}
    {dirs : FuseDirsBuilder} {inodes : List Addr} (h : dirs.maxsize - dirs.size < room) {s : σ}
    {l : Record} {Q : Except Error (StatusOr FuseDirsBuilder × List Addr) → σ → Record → Prop}
    (ok : ∀ dirs' inodes, dirs'.plus = dirs.plus → Q (.ok (.ok dirs', inodes)) s l)
    (bad : ∀ st inodes, failureErrno fs.platform st ≠ 0 → Q (.ok (.error st, inodes)) s l)
    (blamed : ∀ f st inodes, f.Explains fs.platform st →
      Q (.ok (.error st, inodes)) s (l.blame f)) :
    Routine.Follows record (fs.readDirLoop dirInode dir room dirs inodes h) s l Q := by
  induction room generalizing dirs inodes with
  | zero => exact absurd h (Nat.not_lt_zero _)
  | succ room ih =>
      unfold PageAlignFS.readDirLoop
      rw [Routine.follows_bind, Routine.follows_attempt]
      refine readDirRound fs dirInode dir dirs s l _ (fun round => ?_)
        (fun st hst => bad st inodes hst) (fun f st hst => blamed f st inodes hst)
      cases round with
      | stop => exact ok dirs inodes rfl
      | added next grows inode =>
          exact ih _ fun dirs' inodes same => ok dirs' inodes (same.trans grows.plus)

end Calm

/-- The handlers that leave the reply of a success to the callback. -/
def Opcode.silent : Opcode → Bool
  | .forget | .forgetMulti | .unlink | .rmdir | .rename | .flush | .release | .fsync
  | .releasedir | .fsyncdir | .setxattr | .removexattr | .access | .setlk | .flock
  | .fallocate => true
  | _ => false

/-- The data reply of an operation that has one. -/
def Reply.Suits (o : Opcode) (reply : Reply) : Prop :=
  match o with
  | .lookup | .mknod | .mkdir | .symlink | .link => ∃ param, reply = .entry param
  | .getattr | .setattr => ∃ attr timeout, reply = .attr attr timeout
  | .readlink => ∃ link, reply = .readlink link
  | .open_ | .opendir => ∃ fi, reply = .openFile fi
  | .create => ∃ param fi, reply = .create param fi
  | .read => ∃ bufv, reply = .data bufv
  | .writeBuf | .copyFileRange => ∃ count, reply = .write count
  | .readdir => ∃ records, reply = .buf (.dirs false records)
  | .readdirplus => ∃ records, reply = .buf (.dirs true records)
  | .getxattr | .listxattr => ∃ data, reply = .buf (.bytes data)
  | .statfs => ∃ stbuf, reply = .statfs stbuf
  | .getlk => ∃ fl, reply = .lock fl
  | .lseek => ∃ off, reply = .lseek off
  | .poll => ∃ revents, reply = .poll revents
  | _ => False

theorem Reply.Suits.not_silent {o : Opcode} {reply : Reply} (h : reply.Suits o) :
    o.silent = false := by
  cases o
  all_goals first
    | rfl
    | exact h.elim

structure Unanswered (req : FuseReq) (s : FuseRequest) (l : Record) : Prop where
  owed : s = ⟨some req⟩
  replies : l.replies = []

structure Answered (req : FuseReq) (o : Opcode) (s : FuseRequest) (l : Record) : Prop where
  gone : s = ⟨none⟩
  replies : ∃ reply, reply.Suits o ∧ l.replies = [(req, reply)]
  failures : l.failures = []

/-- Where a status that is not OK comes from. -/
inductive Grounds (P : Platform) (st : Error) (l : Record) : Prop
  | own (none : l.failures = []) (nonzero : failureErrno P st ≠ 0)
  | call (f : Failure) (only : l.failures = [f]) (explains : f.Explains P st)

/-- The ways in which the handler of an operation returns; a silent one leaves its success to
the callback. -/
def Outcome (P : Platform) (req : FuseReq) (o : Opcode) (r : Status) (s : FuseRequest)
    (l : Record) : Prop :=
  match r with
  | .ok _ => if o.silent then Unanswered req s l ∧ l.failures = [] else Answered req o s l
  | .error st => (Unanswered req s l ∧ Grounds P st l) ∨ Answered req o s l

def Answers (P : Platform) (req : FuseReq) (o : Opcode) (m : Handler) : Prop :=
  Routine.Follows record m ⟨some req⟩ .start (Outcome P req o)

variable {req : FuseReq} {o : Opcode}

theorem Grounds.ne_zero {st : Error} {l : Record} (h : Grounds P st l) : failureErrno P st ≠ 0 := by
  cases h with
  | own _ nonzero => exact nonzero
  | call f _ explains =>
      obtain ⟨message, rfl⟩ := explains
      split
      · exact failureErrno_ne_zero_of_no_payload P rfl
      · exact failureErrno_errnoError_ne_zero P f.errno message

theorem outcome_failed {st : Error} (h : failureErrno P st ≠ 0) :
    Outcome P req o (.error st) ⟨some req⟩ .start := .inl ⟨⟨rfl, rfl⟩, .own rfl h⟩

theorem outcome_blamed {f : Failure} {st : Error} (h : f.Explains P st) :
    Outcome P req o (.error st) ⟨some req⟩ (Record.start.blame f) :=
  .inl ⟨⟨rfl, rfl⟩, .call f rfl h⟩

theorem outcome_answered {r : Status} {s : FuseRequest} {l : Record} (h : Answered req o s l) :
    Outcome P req o r s l := by
  cases r with
  | ok _ =>
      obtain ⟨reply, suits, -⟩ := h.replies
      simpa [Outcome, suits.not_silent] using h
  | error st => exact .inr h

namespace Answers

theorem of_calm {m : Handler} (silent : o.silent = true) (h : Calm P m) : Answers P req o m := by
  refine h _ _ _ (fun _ => ?_) (fun _ => outcome_failed) (fun _ _ => outcome_blamed)
  simpa [Outcome, silent] using ⟨⟨rfl, rfl⟩, rfl⟩

theorem fail {st : Error} (h : failureErrno P st ≠ 0) : Answers P req o (Routine.fail st) := by
  unfold Answers
  rw [Routine.follows_fail]
  exact outcome_failed h

theorem calm_bind {α : Type} {m : Io FuseRequest α} {f : α → Handler} (first : Calm P m)
    (rest : ∀ a, Answers P req o (f a)) : Answers P req o (m >>= f) := by
  unfold Answers
  rw [Routine.follows_bind]
  exact first _ _ _ rest (fun _ => outcome_failed) (fun _ _ => outcome_blamed)

theorem send {what : String} {reply : Reply} (data : reply.Suits o) :
    Answers P req o (FuseRequest.send P what reply) :=
  ⟨trivial, fun _ _ => outcome_answered ⟨rfl, ⟨reply, data, rfl⟩, rfl⟩⟩

theorem onError {m cleanup : Handler} (h : Answers P req o m) (after : Silent P cleanup) :
    Answers P req o (m.onError cleanup) := after.onError h

theorem andFinally {m destroy : Handler} (h : Answers P req o m)
    (after : Silent P destroy) : Answers P req o (m.andFinally destroy) := after.andFinally h

theorem logged {r : InodeRef} {f : Handler} (h : Answers P req o f) :
    Answers P req o (do
      Routine.invoke (I := calls) (.logInode r)
      f) :=
  calm_bind (Silent.invoke rfl fun _ => rfl).calm fun _ => h

theorem withFD {r : InodeRef} {f : Fd → Handler} (h : ∀ fd, Answers P req o (f fd)) :
    Answers P req o (do
      let fd ← Routine.invoke (I := calls) (.getFD r)
      f fd) :=
  calm_bind (Silent.invoke rfl fun _ => rfl).calm h

theorem sys {c : Sys} {message : String} {f : c.Ret → Handler}
    (kind : ∀ e, c.failure e = some ⟨e, false⟩) (h : ∀ v, Answers P req o (f v)) :
    Answers P req o (syscall P c message >>= f) :=
  calm_bind (.syscall c message kind) h

variable (fs : PageAlignFS)

theorem replyWithEntry (parent : InodeRef) (name : String) {reply : EntryParam → Handler}
    (data : ∀ param, Answers fs.platform req o (reply param)) :
    Answers fs.platform req o (fs.replyWithEntry parent name reply) := by
  refine calm_bind (.findOrCreateInode fs parent name) fun inode => ?_
  refine andFinally ?_ (.dropShared inode)
  refine calm_bind (Silent.invoke rfl fun _ => rfl).calm fun parentDevice => ?_
  refine calm_bind (Silent.invoke rfl fun _ => rfl).calm fun device => ?_
  split
  · exact fail (failureErrno_ne_zero_of_no_payload _ rfl)
  · refine calm_bind (.createFuseEntryParam fs inode true) fun param => ?_
    exact calm_bind (Silent.ref _ _).calm fun _ => onError (data param) (.unref _ _ _)

theorem replyWithLookup (parent : InodeRef) (name : String)
    (data : ∀ param, (Reply.entry param).Suits o) :
    Answers fs.platform req o (fs.replyWithLookup parent name) :=
  replyWithEntry fs parent name fun param => send (data param)

theorem replyWithAttrs (inode : InodeRef)
    (data : ∀ attr timeout, (Reply.attr attr timeout).Suits o) :
    Answers fs.platform req o (fs.replyWithAttrs inode) :=
  withFD fun _ => sys (fun _ => rfl) fun attr => send (data attr _)

theorem setAttrOn (inode : InodeRef) (fd : Fd) (attr : Stat) (toSet : Flags) :
    Answers fs.platform req .setattr (fs.setAttrOn inode fd attr toSet) := by
  refine calm_bind (.doIf (.syscall _ _ fun _ => rfl)) fun _ => ?_
  refine calm_bind (.doIf (.syscall _ _ fun _ => rfl)) fun _ => ?_
  refine calm_bind (.doIf (.syscall _ _ fun _ => rfl)) fun _ => ?_
  exact calm_bind (.doIf (.syscall _ _ fun _ => rfl)) fun _ => replyWithAttrs fs inode fun _ _ => ⟨_, _, rfl⟩

theorem setAttr (ino : Addr) (attr : Stat) (toSet : Flags) (fi : FileInfo) :
    Answers fs.platform req .setattr (fs.setAttr ino attr toSet fi) := by
  refine logged ?_
  split
  · refine withFD fun _ => sys (fun _ => rfl) fun myfd => ?_
    exact andFinally (setAttrOn fs _ myfd attr toSet) (.closeFd myfd)
  · exact setAttrOn fs _ fi.fh attr toSet

theorem readLink (ino : Addr) : Answers fs.platform req .readlink (fs.readLink ino) := by
  refine logged (withFD fun _ => sys (fun _ => rfl) fun buf => ?_)
  split
  · exact fail (failureErrno_errnoError_ne_zero _ _ _)
  · exact send ⟨_, rfl⟩

theorem readDirInternal (dirInode : InodeRef) (size : Nat) (off : Int) (fi : FileInfo)
    (plus : Bool) (data : ∀ records, (Reply.buf (.dirs plus records)).Suits o) :
    Answers fs.platform req o (fs.readDirInternal dirInode size off fi plus) := by
  refine calm_bind (Silent.invoke rfl fun _ => rfl).calm fun dir => ?_
  refine calm_bind (Silent.invoke rfl fun _ => rfl).calm fun _ => ?_
  unfold Answers
  rw [Routine.follows_bind]
  have close {listed : StatusOr FuseDirsBuilder} {inodes : List Addr} {l : Record}
      (h : Routine.Follows record (do
        let dirs ← Routine.ofExcept listed
        dirs.reply fs.platform) ⟨some req⟩ l (Outcome fs.platform req o)) :=
    (Silent.dropAllShared (P := fs.platform) inodes).andFinally
      ((Silent.unrefAll (P := fs.platform) inodes).onError h)
  refine Calm.readDirLoop fs dirInode dir _ (fun dirs inodes same => ?_)
    (fun st inodes h => ?_) (fun f st inodes h => ?_)
  · refine close ?_
    rw [Routine.follows_bind, Routine.follows_ofExcept]
    refine calm_bind (Silent.check _ _).calm fun _ => send ?_
    rw [same]
    exact data dirs.buf
  · exact close (show Outcome _ _ o (.error st) _ _ from outcome_failed h)
  · exact close (show Outcome _ _ o (.error st) _ _ from outcome_blamed h)

theorem open_ (ino : Addr) (fi : FileInfo) : Answers fs.platform req .open_ (fs.open_ ino fi) :=
  logged (withFD fun _ => sys (fun _ => rfl) fun fd => onError (send ⟨_, rfl⟩) (.closeFd fd))

theorem create (ino : Addr) (name : String) (mode : Nat) (fi : FileInfo) :
    Answers fs.platform req .create (fs.create ino name mode fi) := by
  refine logged (withFD fun _ => sys (fun _ => rfl) fun fd => ?_)
  exact onError (replyWithEntry fs _ name fun _ => send ⟨_, _, rfl⟩) (.closeFd fd)

theorem openDir (ino : Addr) (fi : FileInfo) : Answers fs.platform req .opendir (fs.openDir ino fi) := by
  refine logged (withFD fun _ => sys (fun _ => rfl) fun _ => sys (fun _ => rfl) fun _ => ?_)
  exact calm_bind (Silent.invoke rfl fun _ => rfl).calm fun _ => send ⟨_, rfl⟩

theorem getXAttr (ino : Addr) (name : String) (size : Nat) :
    Answers fs.platform req .getxattr (fs.getXAttr ino name size) := by
  refine logged (withFD fun _ => calm_bind ?_ fun _ => ?_)
  · refine .bind (.syscall _ _ fun _ => rfl) fun _ => ?_
    exact .bind (Silent.check _ _).calm fun _ => (Silent.pure _).calm
  · exact calm_bind (Silent.check _ _).calm fun _ => send ⟨_, rfl⟩

theorem listXAttr (ino : Addr) (size : Nat) :
    Answers fs.platform req .listxattr (fs.listXAttr ino size) := by
  refine logged (withFD fun _ => sys (fun _ => rfl) fun _ => ?_)
  exact calm_bind (Silent.check _ _).calm fun _ => send ⟨_, rfl⟩

theorem addPollHandle (r : InodeRef) (ph : Option PollPtr) :
    Calm P (Inode.addPollHandle r ph : Io FuseRequest Unit) := by
  cases ph with
  | none => exact (Silent.pure ()).calm
  | some ph =>
      refine .bind (Silent.invoke rfl fun _ => rfl).calm fun old => ?_
      cases old with
      | none => exact (Silent.pure ()).calm
      | some o => exact (Silent.invoke rfl fun _ => rfl).calm

theorem poll (ino : Addr) (ph : Option PollPtr) : Answers fs.platform req .poll (fs.poll ino ph) := by
  refine logged (calm_bind (addPollHandle _ ph) fun _ => withFD fun _ => ?_)
  refine sys (fun _ => rfl) fun _ => ?_
  exact calm_bind (Silent.check _ _).calm fun _ => send ⟨_, rfl⟩

theorem notifyPollEvent (r : InodeRef) : Silent P (Inode.notifyPollEvent P r : Io FuseRequest Unit) := by
  refine .bind (.invoke rfl fun _ => rfl) fun present => ?_
  cases present with
  | none => exact .pure ()
  | some _ =>
      refine .bind (.invoke rfl fun _ => rfl) fun handle => ?_
      cases handle with
      | none => exact .pure ()
      | some ph =>
          refine .bind (.invoke rfl fun _ => rfl) fun rc => ?_
          cases rc with
          | none => exact .pure ()
          | some e => exact fun _ _ _ _ bad => bad _ (failureErrno_errnoError_ne_zero P e _)

theorem writeBuf (ino : Addr) (inBuf : FuseBufVec) (off : Int) (fi : FileInfo) :
    Answers fs.platform req .writeBuf (fs.writeBuf ino inBuf off fi) := by
  refine logged (calm_bind (Silent.invoke rfl fun _ => rfl).calm fun copied => ?_)
  cases copied with
  | error e => exact fail (failureErrno_errnoError_ne_zero _ _ _)
  | ok nb =>
      have sent : Answers fs.platform req .writeBuf (FuseRequest.replyWrite fs.platform nb) :=
        send ⟨_, rfl⟩
      unfold Answers
      dsimp only
      rw [Routine.follows_bind, Routine.follows_attempt]
      refine Routine.Follows.mono sent fun ret s l out => ?_
      dsimp only
      rw [Routine.follows_bind, Routine.follows_attempt]
      exact notifyPollEvent _ s l _ (fun _ => out) fun _ _ => out

end Answers

theorem Calm.forgetMulti (forgets : List ForgetData) :
    Calm P (PageAlignFS.forgetMulti forgets) := by
  induction forgets with
  | nil => exact (Silent.pure ()).calm
  | cons f forgets ih => exact bind (Silent.unref _ _ _).calm fun _ => ih

theorem Calm.syncFd (fs : PageAlignFS) (datasync : Bool) (fd : Fd) :
    Calm fs.platform (fs.syncFd datasync fd : Io σ Unit) := by
  cases datasync with
  | true => exact .syscall _ _ fun _ => rfl
  | false => exact .syscall _ _ fun _ => rfl

/-- Every handler returns in one of the ways of `Outcome`. -/
theorem answers_invocation {fs : PageAlignFS} :
    {r : Request} → {method : PageAlignFS → Handler} →
    pageAlignFSOps.invocation r = some method →
    Answers fs.platform req r.opcode (method fs)
  | .lookup .., _, rfl => .logged (.replyWithLookup fs _ _ fun _ => ⟨_, rfl⟩)
  | .forget .., _, rfl => .logged (.of_calm rfl (Silent.unref _ _ _).calm)
  | .getattr .., _, rfl => .logged (.replyWithAttrs fs _ fun _ _ => ⟨_, _, rfl⟩)
  | .setattr _ _ _ (some _), _, rfl => .setAttr fs _ _ _ _
  | .readlink .., _, rfl => .readLink fs _
  | .mknod .., _, rfl => .logged (.withFD fun _ => .sys (fun _ => rfl) fun _ =>
      .replyWithLookup fs _ _ fun _ => ⟨_, rfl⟩)
  | .mkdir .., _, rfl => .logged (.withFD fun _ => .sys (fun _ => rfl) fun _ =>
      .replyWithLookup fs _ _ fun _ => ⟨_, rfl⟩)
  | .unlink .., _, rfl => .logged (.withFD fun _ => .of_calm rfl (.syscall _ _ fun _ => rfl))
  | .rmdir .., _, rfl => .logged (.withFD fun _ => .of_calm rfl (.syscall _ _ fun _ => rfl))
  | .symlink .., _, rfl => .logged (.withFD fun _ => .sys (fun _ => rfl) fun _ =>
      .replyWithLookup fs _ _ fun _ => ⟨_, rfl⟩)
  | .rename .., _, rfl => .logged (.logged (.withFD fun _ => .withFD fun _ =>
      .of_calm rfl (.syscall _ _ fun _ => rfl)))
  | .link .., _, rfl => .logged (.logged (.withFD fun _ => .withFD fun _ =>
      .sys (fun _ => rfl) fun _ => .replyWithLookup fs _ _ fun _ => ⟨_, rfl⟩))
  | .open_ _ (some _), _, rfl => .open_ fs _ _
  | .read _ _ _ (some _), _, rfl => .logged (.send ⟨_, rfl⟩)
  | .flush _ (some _), _, rfl => .logged (.sys (fun _ => rfl) fun _ =>
      .of_calm rfl (.syscall _ _ fun _ => rfl))
  | .release _ (some _), _, rfl => .logged (.of_calm rfl (.syscall _ _ fun _ => rfl))
  | .fsync _ _ (some _), _, rfl => .logged (.of_calm rfl (.syncFd fs _ _))
  | .opendir _ (some _), _, rfl => .openDir fs _ _
  | .readdir _ _ _ (some _), _, rfl => .logged (.readDirInternal fs _ _ _ _ _ fun _ => ⟨_, rfl⟩)
  | .releasedir _ (some _), _, rfl => .logged (.calm_bind (Silent.invoke rfl fun _ => rfl).calm
      fun d => .of_calm rfl (Silent.closeDir d).calm)
  | .fsyncdir _ _ (some _), _, rfl => .logged (.calm_bind (Silent.invoke rfl fun _ => rfl).calm
      fun _ => .sys (fun _ => rfl) fun _ => .of_calm rfl (.syncFd fs _ _))
  | .statfs .., _, rfl => .logged (.withFD fun _ => .sys (fun _ => rfl) fun _ => .send ⟨_, rfl⟩)
  | .setxattr .., _, rfl => .logged (.withFD fun _ => .of_calm rfl (.syscall _ _ fun _ => rfl))
  | .getxattr .., _, rfl => .getXAttr fs _ _ _
  | .listxattr .., _, rfl => .listXAttr fs _ _
  | .removexattr .., _, rfl => .logged (.withFD fun _ => .of_calm rfl (.syscall _ _ fun _ => rfl))
  | .access .., _, rfl => .logged (.withFD fun _ => .of_calm rfl (.syscall _ _ fun _ => rfl))
  | .create _ _ _ (some _), _, rfl => .create fs _ _ _ _
  | .getlk _ (some _) _, _, rfl => .logged (.withFD fun _ => .sys (fun _ => rfl) fun _ =>
      .send ⟨_, rfl⟩)
  | .setlk _ (some _) _ _, _, rfl => .logged (.withFD fun _ => .sys (fun _ => rfl) fun _ =>
      .of_calm rfl (Silent.pure ()).calm)
  | .poll _ (some _) _, _, rfl => .poll fs _ _
  | .writeBuf .., _, rfl => .writeBuf fs _ _ _ _
  | .forgetMulti .., _, rfl => .of_calm rfl (.forgetMulti _)
  | .flock _ (some _) _, _, rfl => .logged (.withFD fun _ => .of_calm rfl (.syscall _ _ fun _ => rfl))
  | .fallocate _ _ _ _ (some _), _, rfl => .logged (.withFD fun _ =>
      .of_calm rfl (.syscall _ _ fun _ => rfl))
  | .readdirplus _ _ _ (some _), _, rfl => .logged (.readDirInternal fs _ _ _ _ _ fun _ => ⟨_, rfl⟩)
  | .copyFileRange _ _ (some _) _ _ (some _) _ _, _, rfl => .logged (.logged (.withFD fun _ =>
      .withFD fun _ => .sys (fun _ => rfl) fun _ => .send ⟨_, rfl⟩))
  | .lseek _ _ _ (some _), _, rfl => .logged (.withFD fun _ => .sys (fun _ => rfl) fun _ =>
      .send ⟨_, rfl⟩)

end Pafs
