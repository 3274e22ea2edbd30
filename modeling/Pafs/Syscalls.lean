import Pafs.Calls

/-! `syscalls.h`, `syscalls.cc` and the closing of descriptors and directories by the
destructors of `fd.cc` and `dir.cc`. Every wrapper but `ioctl` turns a failure into
`pafs::ErrnoToStatus` of its errno. -/
namespace Pafs
open Resumption

variable {σ : Type}

/-- The common shape of the wrappers: make the call, and on failure return the status of
its errno with this message. -/
def syscall (P : Platform) (s : Sys) (message : String) : Io σ s.Ret := do
  let rc ← Routine.invoke (I := calls) (.sys s)
  match rc with
  | .error e => Routine.fail (errnoError P e message)
  | .ok v => pure v

namespace Syscalls

def close (P : Platform) (fd : Fd) : Io σ Unit :=
  syscall P (.close fd false) ("close(" ++ toString fd ++ ")")

def open_ (P : Platform) (path : Path) (flags : Flags) : Io σ Fd :=
  syscall P (.open_ path flags) ("open('" ++ path.text ++ "')")

def openat (P : Platform) (dirfd : Fd) (path : String) (flags : Flags) (mode : Nat) : Io σ Fd :=
  syscall P (.openat dirfd path flags mode)
    ("openat(" ++ toString dirfd ++ ", '" ++ path ++ "')")

def fstatat (P : Platform) (fd : Fd) (path : String) (flag : Flags) : Io σ Stat :=
  syscall P (.fstatat fd path flag) ("fstatat(" ++ toString fd ++ ", " ++ path ++ ")")

def ioctlMessage (fd : Fd) (request : Nat) : String :=
  "ioctl(" ++ toString fd ++ ", " ++ toString request ++ ")"

/-- The template `ioctl` of `syscalls.h` calls `absl::ErrnoToStatus`, not the wrapper of
`status.h`: the status it returns carries no errno. -/
def ioctl (P : Platform) (fd : Fd) (request : Nat) : Io σ Nat := do
  let rc ← Routine.invoke (I := calls) (.sys (.ioctl fd request))
  match rc with
  | .error e => Routine.fail (abslErrnoToStatus P e (ioctlMessage fd request))
  | .ok v => pure v

def fdopendir (P : Platform) (fd : Fd) : Io σ DirPtr := syscall P (.fdopendir fd) "fdopendir"

def readdir (P : Platform) (dir : DirPtr) : Io σ (Option Dirent) :=
  syscall P (.readdir dir) "readdir"

def seekdir (dir : DirPtr) (loc : Int) : Io σ Unit :=
  Routine.invoke (I := calls) (.seekdir dir loc)

def fchmod (P : Platform) (fd : Fd) (mode : Nat) : Io σ Unit := syscall P (.fchmod fd mode) "fchmod"

def fchownat (P : Platform) (fd : Fd) (path : String) (owner group : Nat) (flag : Flags) :
    Io σ Unit := syscall P (.fchownat fd path owner group flag) "fchownat"

def ftruncate (P : Platform) (fd : Fd) (length : Int) : Io σ Unit :=
  syscall P (.ftruncate fd length) "ftruncate"

def futimens (P : Platform) (fd : Fd) (atime mtime : Timespec) : Io σ Unit :=
  syscall P (.futimens fd atime mtime) "futimens"

def readlinkat (P : Platform) (dirfd : Fd) (path : String) (size : Nat) : Io σ Bytes :=
  syscall P (.readlinkat dirfd path size) "readlinkat"

def mknodat (P : Platform) (dirfd : Fd) (path : String) (mode : Nat) (dev : Dev) : Io σ Unit :=
  syscall P (.mknodat dirfd path mode dev) "mknodat"

def mkdirat (P : Platform) (dirfd : Fd) (path : String) (mode : Nat) : Io σ Unit :=
  syscall P (.mkdirat dirfd path mode) "mkdirat"

def unlinkat (P : Platform) (dirfd : Fd) (path : String) (flags : Flags) : Io σ Unit :=
  syscall P (.unlinkat dirfd path flags) "unlinkat"

def symlinkat (P : Platform) (target : String) (newdirfd : Fd) (linkpath : String) : Io σ Unit :=
  syscall P (.symlinkat target newdirfd linkpath) "symlinkat"

def renameat2 (P : Platform) (olddirfd : Fd) (oldpath : String) (newdirfd : Fd)
    (newpath : String) (flags : Flags) : Io σ Unit :=
  syscall P (.renameat2 olddirfd oldpath newdirfd newpath flags) "renameat2"

def linkat (P : Platform) (olddirfd : Fd) (oldpath : String) (newdirfd : Fd)
    (newpath : String) (flags : Flags) : Io σ Unit :=
  syscall P (.linkat olddirfd oldpath newdirfd newpath flags) "linkat"

def dup (P : Platform) (oldfd : Fd) : Io σ Fd := syscall P (.dup oldfd) "dup"

def fsync (P : Platform) (fd : Fd) : Io σ Unit := syscall P (.fsync fd) "fsync"

def fdatasync (P : Platform) (fd : Fd) : Io σ Unit := syscall P (.fdatasync fd) "fdatasync"

def dirfd (P : Platform) (dir : DirPtr) : Io σ Fd := syscall P (.dirfd dir) "dirfd"

def fstatvfs (P : Platform) (fd : Fd) : Io σ StatVfs := syscall P (.fstatvfs fd) "fstatvfs"

def setxattr (P : Platform) (path : Path) (name : String) (value : Bytes) (flags : Flags) :
    Io σ Unit := syscall P (.setxattr path name value flags) "setxattr"

/-- A `std::vector<char>` of `size` zeros into which a call wrote its bytes, then resized
to `nb`. -/
def resized (size : Nat) (written : Bytes) (nb : Nat) : Bytes :=
  let val := (written ++ List.replicate (size - written.length) 0).take size
  val.take nb ++ List.replicate (nb - val.length) 0

/-- The overload of `getxattr` that allocates its buffer. -/
def getxattr (P : Platform) (path : Path) (name : String) (maxsize : Nat) : Io σ Bytes := do
  let r ← syscall P (.getxattr path name maxsize) "getxattr"
  check .getxattrCount (r.nb ≤ maxsize)
  pure (resized maxsize r.written r.nb)

def listxattr (P : Platform) (path : Path) (size : Nat) : Io σ XattrRead :=
  syscall P (.listxattr path size) "listxattr"

def removexattr (P : Platform) (path : Path) (name : String) : Io σ Unit :=
  syscall P (.removexattr path name) "removexattr"

def access (P : Platform) (path : Path) (mode : Flags) : Io σ Unit :=
  syscall P (.access path mode) "access"

def flock (P : Platform) (fd : Fd) (operation : Flags) : Io σ Unit :=
  syscall P (.flock fd operation) "flock"

def fallocate (P : Platform) (fd : Fd) (mode : Flags) (offset len : Int) : Io σ Unit :=
  syscall P (.fallocate fd mode offset len) "fallocate"

def copyFileRange (P : Platform) (fdIn : Fd) (offIn : Int) (fdOut : Fd) (offOut : Int)
    (len : Nat) (flags : Flags) : Io σ Nat :=
  syscall P (.copyFileRange fdIn offIn fdOut offOut len flags) "copy_file_range"

def lseek (P : Platform) (fd : Fd) (offset : Int) (whence : Flags) : Io σ Int :=
  syscall P (.lseek fd offset whence) "lseek"

/-- `poll` on one descriptor with a zero timeout, which passes the conversion checks. -/
def poll (P : Platform) (fd : Fd) (events : BitVec 16) : Io σ (Nat × BitVec 16) :=
  syscall P (.poll fd events) "poll"

def fcntl (P : Platform) (fd : Fd) (cmd : Nat) (lock : FLock) : Io σ FLock :=
  syscall P (.fcntl fd cmd lock) "fcntl"

end Syscalls

/-- `~FileDescriptor`: `syscalls::close` takes the descriptor over and its failure is only
logged. -/
def FileDescriptor.destroy (fd : Fd) : Io σ Unit := do
  let _ ← Routine.invoke (I := calls) (.sys (.close fd true))
  pure ()

/-- `~Directory`. -/
def Directory.destroy (dir : DirPtr) : Io σ Unit := do
  let _ ← Routine.invoke (I := calls) (.sys (.closedir dir))
  pure ()

section Rules
variable {L : Type} {D : Discipline calls L} {P : Platform} {s : σ} {l : L}

/-- Symbolic execution of a wrapper: it fails with the status of its errno, or returns. -/
@[simp] theorem follows_syscall (c : Sys) (message : String)
    (Q : Except Error c.Ret → σ → L → Prop) :
    Routine.Follows (α := no_index c.Ret) D (syscall P c message) s l Q ↔ D.allows l (.sys c) ∧
      (∀ e : Errno, D.answers l (.sys c) (.error e) →
        Q (.error (errnoError P e message)) s (D.after l (.sys c) (.error e))) ∧
      ∀ v : c.Ret, D.answers l (.sys c) (.ok v) → Q (.ok v) s (D.after l (.sys c) (.ok v)) := by
  unfold syscall
  rw [Routine.follows_bind, Routine.follows_invoke]
  exact and_congr_right fun _ => forall_except

/-- A wrapper of a call to which only one answer is expected. -/
theorem follows_syscall_known {c : Sys} {message : String} {rc : Except Errno c.Ret}
    {Q : Except Error c.Ret → σ → L → Prop} (allowed : D.allows l (.sys c)) :
    (∀ rc', D.answers l (.sys c) rc' ↔ rc' = rc) →
      (Routine.Follows (α := no_index c.Ret) D (syscall P c message) s l Q ↔
        match rc with
        | .error e => Q (.error (errnoError P e message)) s (D.after l (.sys c) rc)
        | .ok v => Q (.ok v) s (D.after l (.sys c) rc)) := by
  intro known
  rw [follows_syscall]
  constructor
  · intro follows
    cases rc with
    | error e => exact follows.2.1 e ((known _).mpr rfl)
    | ok v => exact follows.2.2 v ((known _).mpr rfl)
  · intro follows
    refine ⟨allowed, fun e answer => ?_, fun v answer => ?_⟩
    · obtain rfl := (known _).mp answer
      exact follows
    · obtain rfl := (known _).mp answer
      exact follows

@[simp] theorem follows_ioctl (fd : Fd) (request : Nat) (Q : Except Error Nat → σ → L → Prop) :
    Routine.Follows D (Syscalls.ioctl P fd request) s l Q ↔
      D.allows l (.sys (.ioctl fd request)) ∧
      (∀ e : Errno, D.answers l (.sys (.ioctl fd request)) (.error e) →
        Q (.error (abslErrnoToStatus P e (Syscalls.ioctlMessage fd request))) s
          (D.after l (.sys (.ioctl fd request)) (.error e))) ∧
      ∀ v : Nat, D.answers l (.sys (.ioctl fd request)) (.ok v) →
        Q (.ok v) s (D.after l (.sys (.ioctl fd request)) (.ok v)) := by
  unfold Syscalls.ioctl
  rw [Routine.follows_bind, Routine.follows_invoke]
  exact and_congr_right fun _ => forall_except

@[simp] theorem follows_check (site : CheckSite) (holds : Bool)
    (Q : Except Error Unit → σ → L → Prop) :
    Routine.Follows D (check site holds) s l Q ↔
      (holds = true → Q (.ok ()) s l) ∧ (holds = false → D.allows l (.abort site)) := by
  cases holds with
  | true => simp [check]
  | false =>
      simp only [check, Bool.false_eq_true, if_false, Routine.follows_bind,
        false_implies, true_and, forall_const]
      refine ⟨fun h => h.1, fun h => ⟨h, fun r => ?_⟩⟩
      cases r

@[simp] theorem follows_closeFd (fd : Fd) (Q : Except Error Unit → σ → L → Prop) :
    Routine.Follows D (FileDescriptor.destroy fd) s l Q ↔ D.allows l (.sys (.close fd true)) ∧
      ∀ rc : Except Errno Unit, D.answers l (.sys (.close fd true)) rc →
        Q (.ok ()) s (D.after l (.sys (.close fd true)) rc) := Iff.rfl

@[simp] theorem follows_closeDir (dir : DirPtr) (Q : Except Error Unit → σ → L → Prop) :
    Routine.Follows D (Directory.destroy dir) s l Q ↔ D.allows l (.sys (.closedir dir)) ∧
      ∀ rc : Except Errno Unit, D.answers l (.sys (.closedir dir)) rc →
        Q (.ok ()) s (D.after l (.sys (.closedir dir)) rc) := Iff.rfl

end Rules

end Pafs
