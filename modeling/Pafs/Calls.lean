import Pafs.Status
import Pafs.Resumption.Routine

/-! The data the daemon passes around, and every call by which one of its threads touches
anything outside its own stack: system calls, libfuse, the heap objects behind raw
pointers, the inode cache. Log texts are left out; a log line that reads an `Inode` is
kept as the read it is. -/
namespace Pafs
open Resumption

abbrev Fd := Int
abbrev Addr := Nat
abbrev Dev := Nat
/-- A C `int` used as a bit set. -/
abbrev Flags := BitVec 32
abbrev Bytes := List UInt8
/-- `absl::Duration`: a number of quarter nanoseconds, or infinite in either direction. -/
abbrev Duration := WithBot (WithTop Int)
/-- The address of a `DIR`. -/
abbrev DirPtr := Nat
/-- The address of a `fuse_pollhandle`. -/
abbrev PollPtr := Nat

def O_RDONLY : Flags := 0
def O_ACCMODE : Flags := 0o3
def O_CREAT : Flags := 0o100
def O_DIRECTORY : Flags := 0o200000
def O_NOFOLLOW : Flags := 0o400000
def O_CLOEXEC : Flags := 0o2000000
def O_PATH : Flags := 0o10000000
def AT_FDCWD : Fd := -100
def AT_SYMLINK_NOFOLLOW : Flags := 0x100
def AT_REMOVEDIR : Flags := 0x200
def AT_EMPTY_PATH : Flags := 0x1000
def F_GETLK : Nat := 5
def F_SETLK : Nat := 6
def F_SETLKW : Nat := 7
def PATH_MAX : Nat := 4096
/-- `static_cast<uid_t>(-1)`: leave the owner (the group) alone. -/
def kKeepOwner : Nat := 4294967295
def FUSE_ROOT_ID : Addr := 1
/-- `_IOR('v', 1, long)`. -/
def FS_IOC_GETVERSION : Nat := 0x80087601
def UTIME_NOW : Int := 0x3fffffff
def UTIME_OMIT : Int := 0x3ffffffe
def FUSE_SET_ATTR_MODE : Flags := 0x1
def FUSE_SET_ATTR_UID : Flags := 0x2
def FUSE_SET_ATTR_GID : Flags := 0x4
def FUSE_SET_ATTR_SIZE : Flags := 0x8
def FUSE_SET_ATTR_ATIME : Flags := 0x10
def FUSE_SET_ATTR_MTIME : Flags := 0x20
def FUSE_SET_ATTR_ATIME_NOW : Flags := 0x80
def FUSE_SET_ATTR_MTIME_NOW : Flags := 0x100

/-- Some bit of `mask` is set in `flags`. -/
def Flags.has (flags mask : Flags) : Bool := flags &&& mask != 0

/-- What `Create` opens with makes the file. -/
theorem create_makes (flags : Flags) :
    ((flags ||| O_CLOEXEC ||| O_CREAT) &&& ~~~O_NOFOLLOW).has O_CREAT = true := by
  have kept : ~~~O_NOFOLLOW &&& O_CREAT = O_CREAT := by decide
  have absorbed : (flags ||| O_CLOEXEC ||| O_CREAT) &&& O_CREAT = O_CREAT := by
    ext bit
    simp only [BitVec.getElem_and, BitVec.getElem_or, Bool.and_eq_right_iff_imp, Bool.or_eq_true]
    exact Or.inr
  unfold Flags.has
  rw [BitVec.and_assoc, kept, absorbed]
  decide

structure Timespec where
  tvSec : Int
  tvNsec : Int
  deriving DecidableEq

/-- The members of `struct stat` that the daemon reads. -/
structure Stat where
  stDev : Dev
  stIno : Nat
  stMode : Nat
  stUid : Nat
  stGid : Nat
  stSize : Int
  stAtim : Timespec
  stMtim : Timespec
  deriving DecidableEq

/-- `fuse_file_info`; `fh` holds a descriptor or the address of a `Directory`. -/
structure FileInfo where
  flags : Flags
  fh : Int
  noflush : Bool
  parallelDirectWrites : Bool
  deriving DecidableEq

/-- `fuse_entry_param`; the generation is absent where the source leaves it unset. -/
structure EntryParam where
  ino : Addr
  generation : Option Nat
  attr : Stat
  attrTimeout : Duration
  entryTimeout : Duration
  deriving DecidableEq

structure Dirent where
  dName : String
  dOff : Int
  deriving DecidableEq

/-- One encoded entry of a directory buffer. -/
structure DirRecord where
  name : String
  param : EntryParam
  offset : Int
  size : Nat
  deriving DecidableEq

/-- `fuse_buf`: memory, or a position in a descriptor. -/
structure FuseBuf where
  size : Nat
  fd : Option Fd
  pos : Int
  deriving DecidableEq

abbrev FuseBufVec := List FuseBuf

def fuseBufSize (v : FuseBufVec) : Nat := (v.map FuseBuf.size).sum

/-- `struct flock`. -/
structure FLock where
  lType : Nat
  lWhence : Nat
  lStart : Int
  lLen : Int
  lPid : Int
  deriving DecidableEq

/-- `struct statvfs`, handed through unread. -/
structure StatVfs where
  raw : Bytes
  deriving DecidableEq

/-- `fuse_forget_data`. -/
structure ForgetData where
  ino : Addr
  nlookup : Nat
  deriving DecidableEq

/-- The buffer of `fuse_reply_buf`: plain bytes, or the entries encoded in it. -/
inductive Buffer where
  | bytes (data : Bytes)
  | dirs (plus : Bool) (records : List DirRecord)
  deriving DecidableEq

/-- The calls `fuse_reply_*` with what they send. -/
inductive Reply where
  | err (errnum : Int)
  | nothing
  | entry (param : EntryParam)
  | create (param : EntryParam) (fi : FileInfo)
  | attr (attr : Stat) (timeout : Duration)
  | openFile (fi : FileInfo)
  | buf (data : Buffer)
  | data (bufv : FuseBufVec)
  | write (count : Nat)
  | readlink (link : Bytes)
  | statfs (stbuf : StatVfs)
  | lock (lock : FLock)
  | lseek (off : Int)
  | poll (revents : BitVec 16)
  -- libfuse has it for the size of an attribute; no method of `FuseRequest` sends it
  | xattr (count : Nat)
  deriving DecidableEq

/-- The operations of `fuse_lowlevel_ops` that carry a request. -/
inductive Opcode where
  | lookup | forget | getattr | setattr | readlink | mknod | mkdir | unlink | rmdir | symlink
  | rename | link | open_ | read | write | flush | release | fsync | opendir | readdir
  | releasedir | fsyncdir | statfs | setxattr | getxattr | listxattr | removexattr | access
  | create | getlk | setlk | bmap | ioctl | poll | writeBuf | retrieveReply | forgetMulti
  | flock | fallocate | readdirplus | copyFileRange | lseek
  deriving DecidableEq, Repr

/-- `fuse_req_t`. -/
structure FuseReq where
  unique : Nat
  opcode : Opcode
  deriving DecidableEq

/-- A path argument: a plain one, or `StrCat("/proc/self/fd/", fd)`. -/
inductive Path where
  | plain (text : String)
  | procSelfFd (fd : Fd)
  deriving DecidableEq

def Path.text : Path → String
  | .plain text => text
  | .procSelfFd fd => "/proc/self/fd/" ++ toString fd

/-- The return value of `getxattr(2)` or `listxattr(2)` and the bytes it wrote. -/
structure XattrRead where
  nb : Nat
  written : Bytes
  deriving DecidableEq

/-- The system calls made by `pafs::syscalls`. A `close` is tagged with whether a
destructor makes it, because a destructor only logs the failure. -/
inductive Sys where
  | open_ (path : Path) (flags : Flags)
  | openat (dirfd : Fd) (path : String) (flags : Flags) (mode : Nat)
  | close (fd : Fd) (byDestructor : Bool)
  | dup (fd : Fd)
  | fstatat (fd : Fd) (path : String) (flag : Flags)
  | ioctl (fd : Fd) (request : Nat)
  | fdopendir (fd : Fd)
  | closedir (dir : DirPtr)
  | readdir (dir : DirPtr)
  | dirfd (dir : DirPtr)
  | fchmod (fd : Fd) (mode : Nat)
  | fchownat (fd : Fd) (path : String) (owner group : Nat) (flag : Flags)
  | ftruncate (fd : Fd) (length : Int)
  | futimens (fd : Fd) (atime mtime : Timespec)
  | readlinkat (dirfd : Fd) (path : String) (size : Nat)
  | mknodat (dirfd : Fd) (path : String) (mode : Nat) (dev : Dev)
  | mkdirat (dirfd : Fd) (path : String) (mode : Nat)
  | unlinkat (dirfd : Fd) (path : String) (flags : Flags)
  | symlinkat (target : String) (newdirfd : Fd) (linkpath : String)
  | renameat2 (olddirfd : Fd) (oldpath : String) (newdirfd : Fd) (newpath : String)
      (flags : Flags)
  | linkat (olddirfd : Fd) (oldpath : String) (newdirfd : Fd) (newpath : String) (flags : Flags)
  | fsync (fd : Fd)
  | fdatasync (fd : Fd)
  | fstatvfs (fd : Fd)
  | setxattr (path : Path) (name : String) (value : Bytes) (flags : Flags)
  | getxattr (path : Path) (name : String) (size : Nat)
  | listxattr (path : Path) (size : Nat)
  | removexattr (path : Path) (name : String)
  | access (path : Path) (mode : Flags)
  | flock (fd : Fd) (operation : Flags)
  | fallocate (fd : Fd) (mode : Flags) (offset len : Int)
  | copyFileRange (fdIn : Fd) (offIn : Int) (fdOut : Fd) (offOut : Int) (len : Nat)
      (flags : Flags)
  | lseek (fd : Fd) (offset : Int) (whence : Flags)
  | poll (fd : Fd) (events : BitVec 16)
  | fcntl (fd : Fd) (cmd : Nat) (lock : FLock)
  deriving DecidableEq

/-- What a successful call returns. -/
abbrev Sys.Ret : Sys → Type
  | .open_ .. | .openat .. | .dup .. | .dirfd .. => Fd
  | .fstatat .. => Stat
  | .ioctl .. => Nat
  | .fdopendir .. => DirPtr
  | .readdir .. => Option Dirent
  | .readlinkat .. => Bytes
  | .fstatvfs .. => StatVfs
  | .getxattr .. | .listxattr .. => XattrRead
  | .copyFileRange .. => Nat
  | .lseek .. => Int
  | .poll .. => Nat × BitVec 16
  | .fcntl .. => FLock
  | _ => Unit

/-- The two ways in which `GetFileVersionFromPathFD` fails. -/
inductive VersionError where
  | openFailed (fd : Fd) (e : Errno)
  | ioctlFailed (fd : Fd) (e : Errno)
  deriving DecidableEq

/-- `Inode`. The memoised `StatusOr` of `generation_` is kept as the version or the
failed call its status is built from. -/
structure Inode where
  fd : Fd
  num : Nat
  srcDevNum : Dev
  generation : Option (Except VersionError Nat)
  pollHandle : Option PollPtr
  deriving DecidableEq

/-- The key of `InodeCache::inodes_`. -/
abbrev Key := Dev × Nat

def Inode.key (i : Inode) : Key := (i.srcDevNum, i.num)

/-- What `PageAlignFS::GetInode` refers to. -/
inductive InodeRef where
  | root
  | node (a : Addr)
  deriving DecidableEq

/-- `Insert` found the key (`fresh = false`) or allocated a new heap node. -/
structure Inserted where
  addr : Addr
  fresh : Bool
  deriving DecidableEq

inductive Unrefed where
  | missing (key : Key)
  | checkFailed
  | dropped (erased : Option Inode)
  deriving DecidableEq

/-- The place an explicit `Unref` is made from. -/
inductive UnrefSite where
  | forget
  | cleanup
  deriving DecidableEq

/-- The `CHECK`s of the source. -/
inductive CheckSite where
  | fileInfo
  | userdata
  | unrefCount
  | replyFailure
  | direntSize
  | dirsFit
  | getxattrCount
  | getXAttrBuffer
  | listXAttrBuffer
  | pollCount
  deriving DecidableEq

inductive Call where
  | sys (s : Sys)
  | seekdir (dir : DirPtr) (loc : Int)
  | newDirectory (dir : DirPtr)
  | derefDirectory (a : Addr)
  | deleteDirectory (a : Addr)
  | logInode (r : InodeRef)
  | getFD (r : InodeRef)
  | getSourceDevice (r : InodeRef)
  | getGeneration (r : InodeRef)
  | setGeneration (r : InodeRef) (v : Except VersionError Nat)
  | addPollHandle (r : InodeRef) (ph : PollPtr)
  | pollHandle (r : InodeRef)
  | destroyPollHandle (ph : PollPtr)
  | notifyPoll (ph : PollPtr)
  | insert (i : Inode)
  | ref (r : InodeRef) (ntimes : Nat)
  | unref (site : UnrefSite) (r : InodeRef) (ntimes : Nat)
  | dropShared (a : Addr)
  | fuseReply (req : FuseReq) (reply : Reply)
  | fuseBufCopy (dst src : FuseBufVec)
  | abort (site : CheckSite)
  deriving DecidableEq

abbrev Call.Ret : Call → Type
  | .sys s => Except Errno s.Ret
  | .newDirectory _ => Addr
  | .derefDirectory _ | .deleteDirectory _ => DirPtr
  | .getFD _ => Fd
  | .getSourceDevice _ => Dev
  | .getGeneration _ => Option (Except VersionError Nat)
  | .addPollHandle _ _ | .pollHandle _ => Option PollPtr
  | .notifyPoll _ => Option Errno
  | .insert _ => Inserted
  | .ref _ _ => Option Key
  | .unref _ _ _ | .dropShared _ => Unrefed
  | .fuseReply _ _ => Option Errno
  | .fuseBufCopy _ _ => Except Errno Nat
  | .abort _ => Empty
  | _ => Unit

abbrev calls : Interface := { Call := Call, Ret := Call.Ret }

/-- Code of the daemon with one local object of type `σ`. -/
abbrev Io (σ α : Type) := Routine calls σ Error α

variable {σ : Type}

/-- `CHECK`: a failed check aborts the process. -/
def check (site : CheckSite) (holds : Bool) : Io σ Unit :=
  if holds then pure () else do
    let impossible ← Routine.invoke (I := calls) (.abort site)
    nomatch impossible

end Pafs
