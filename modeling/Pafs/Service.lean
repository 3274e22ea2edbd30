import Pafs.World
import Pafs.Replies
import Pafs.Resumption.Product

/-! What a request asks for, and what one thread knows of the files behind its descriptors.
Every handler is shown to make no other calls than its request asks for, on descriptors
that stand for the files the request names. -/
namespace Pafs
open Resumption
open Routine (Follows Safe)

/-- The file that a `stat` is about. -/
def Stat.key (st : Stat) : Key := (st.stDev, st.stIno)

def Path.fds : Path → List Fd
  | .plain _ => []
  | .procSelfFd fd => [fd]

/-- The descriptors that a system call is given. -/
def Sys.uses : Sys → List Fd
  | .open_ path _ | .setxattr path _ _ _ | .getxattr path _ _ | .listxattr path _
  | .removexattr path _ | .access path _ => path.fds
  | .openat fd _ _ _ | .close fd _ | .dup fd | .fstatat fd _ _ | .ioctl fd _ | .fdopendir fd
  | .fchmod fd _ | .fchownat fd _ _ _ _ | .ftruncate fd _ | .futimens fd _ _ | .readlinkat fd _ _
  | .mknodat fd _ _ _ | .mkdirat fd _ _ | .unlinkat fd _ _ | .symlinkat _ fd _ | .fsync fd
  | .fdatasync fd | .fstatvfs fd | .flock fd _ | .fallocate fd _ _ _ | .lseek fd _ _ | .poll fd _
  | .fcntl fd _ _ => [fd]
  | .renameat2 fd _ fd' _ _ | .linkat fd _ fd' _ _ | .copyFileRange fd _ fd' _ _ _ => [fd, fd']
  | .closedir _ | .readdir _ | .dirfd _ => []

/-- libfuse reads and writes the descriptors in the buffers it is given. -/
def Call.uses : Call → List Fd
  | .sys s => s.uses
  | .fuseReply _ (.data bufv) => bufv.filterMap FuseBuf.fd
  | .fuseBufCopy dst src => (dst ++ src).filterMap FuseBuf.fd
  | _ => []

/-- The calls that do something outside the daemon, and those that take a stream out of the
`Directory` behind a handle. -/
def Call.serves : Call → Bool
  | .sys _ | .seekdir .. | .derefDirectory _ | .deleteDirectory _ | .fuseReply _ (.data _) | .fuseBufCopy .. => true
  | _ => false

/-- The reply carries neither attributes nor descriptors. -/
def Reply.bare : Reply → Bool
  | .entry _ | .create _ _ | .attr _ _ | .openFile _ | .data _ | .buf (.dirs true _) => false
  | _ => true

namespace Request

/-- The names that a request has resolved, and where: its own, or any name of the directory
that it lists. -/
inductive Resolves : Request → Addr → String → Prop
  | lookup {parent : Addr} {name : String} : Resolves (.lookup parent name) parent name
  | mknod {parent : Addr} {name : String} {mode : Nat} {rdev : Dev} :
      Resolves (.mknod parent name mode rdev) parent name
  | mkdir {parent : Addr} {name : String} {mode : Nat} : Resolves (.mkdir parent name mode) parent name
  | symlink {target : String} {parent : Addr} {name : String} :
      Resolves (.symlink target parent name) parent name
  | link {ino parent : Addr} {name : String} : Resolves (.link ino parent name) parent name
  | create {parent : Addr} {name : String} {mode : Nat} {fi : Option FileInfo} :
      Resolves (.create parent name mode fi) parent name
  | readdir {ino : Addr} {name : String} {size : Nat} {off : Int} {fi : Option FileInfo} :
      Resolves (.readdir ino size off fi) ino name
  | readdirplus {ino : Addr} {name : String} {size : Nat} {off : Int} {fi : Option FileInfo} :
      Resolves (.readdirplus ino size off fi) ino name

/-- The node and the handle that a request names together. -/
def handleOf : Request → Option (Addr × Fd)
  | .setattr ino _ _ (some fi) => if fi.fh = 0 then none else some (ino, fi.fh)
  | .read ino _ _ (some fi) | .flush ino (some fi) | .fsync ino _ (some fi) | .writeBuf ino _ _ fi
  | .release ino (some fi) => some (ino, fi.fh)
  | _ => none

/-- The `Directory` whose address a request has for a handle. -/
def directory : Request → Option Addr
  | .readdir _ _ _ (some fi) | .readdirplus _ _ _ (some fi) | .fsyncdir _ _ (some fi) => some fi.fh.toNat
  | _ => none

/-- Where the listing that a request asks for begins. -/
def position : Request → Option Int
  | .readdir _ _ off _ | .readdirplus _ _ off _ => some off
  | _ => none

/-- The inode whose attributes a request gets. -/
def attributed : Request → Option Addr
  | .getattr ino _ | .setattr ino _ _ _ => some ino
  | _ => none

/-- A handle is lent until it is released. -/
theorem mem_handles {r : Request} {ino : Addr} {fd : Fd} (named : r.handleOf = some (ino, fd))
    (lent : r.released = none) : fd ∈ r.handles := by
  unfold handleOf at named
  split at named
  case h_1 ino' attr toSet fi =>
      split at named
      · cases named
      · next opened =>
          cases named
          simp [handles, opened]
  case h_6 => cases lent
  case h_7 => cases named
  all_goals
    cases named
    exact List.mem_cons_self

end Request

/-- What a thread may use for its request. -/
structure Means where
  /-- descriptors of the file of an inode -/
  stands : Fd → InodeRef → Prop
  /-- descriptors that the thread has opened itself, or has to close -/
  own : Fd → Prop
  /-- inodes that its own calls have found, and that it holds -/
  holds : Addr → Prop
  /-- streams of the `Directory` behind the handle of the request -/
  stream : DirPtr → Prop
  /-- descriptors that `dirfd` has returned for such a stream -/
  streamFd : Fd → Prop

/-- The same and perhaps more. -/
structure Means.Within (m m' : Means) : Prop where
  stands : ∀ fd r, m.stands fd r → m'.stands fd r
  own : ∀ fd, m.own fd → m'.own fd
  holds : ∀ a, m.holds a → m'.holds a
  stream : ∀ d, m.stream d → m'.stream d
  streamFd : ∀ fd, m.streamFd fd → m'.streamFd fd

/-- What a request asks for: its own operation with its own arguments, on the files that it
names, and what it takes to answer it. -/
inductive Asked (m : Means) : Request → Call → Prop
  | find {r : Request} {parent : Addr} {name : String} {fd : Fd} : r.Resolves parent name →
      m.stands fd (getInode parent) →
      Asked m r (.sys (.openat fd name (O_PATH ||| O_NOFOLLOW ||| O_CLOEXEC) 0))
  | chmod {ino : Addr} {attr : Stat} {toSet : Flags} {fi : Option FileInfo} {fd : Fd} :
      toSet.has FUSE_SET_ATTR_MODE = true → m.stands fd (getInode ino) →
      Asked m (.setattr ino attr toSet fi) (.sys (.fchmod fd attr.stMode))
  | chown {ino : Addr} {attr : Stat} {toSet : Flags} {fi : Option FileInfo} {fd : Fd} :
      toSet.has (FUSE_SET_ATTR_UID ||| FUSE_SET_ATTR_GID) = true → m.stands fd (getInode ino) →
      Asked m (.setattr ino attr toSet fi) (.sys (.fchownat fd ""
        (if toSet.has FUSE_SET_ATTR_UID then attr.stUid else kKeepOwner)
        (if toSet.has FUSE_SET_ATTR_GID then attr.stGid else kKeepOwner)
        (AT_EMPTY_PATH ||| AT_SYMLINK_NOFOLLOW)))
  | truncate {ino : Addr} {attr : Stat} {toSet : Flags} {fi : Option FileInfo} {fd : Fd} :
      toSet.has FUSE_SET_ATTR_SIZE = true → m.stands fd (getInode ino) →
      Asked m (.setattr ino attr toSet fi) (.sys (.ftruncate fd attr.stSize))
  | utimens {ino : Addr} {attr : Stat} {toSet : Flags} {fi : Option FileInfo} {fd : Fd} :
      toSet.has (FUSE_SET_ATTR_ATIME ||| FUSE_SET_ATTR_MTIME) = true → m.stands fd (getInode ino) →
      Asked m (.setattr ino attr toSet fi) (.sys (.futimens fd
        (PageAlignFS.chooseTime (toSet.has FUSE_SET_ATTR_ATIME_NOW) (toSet.has FUSE_SET_ATTR_ATIME) attr.stAtim)
        (PageAlignFS.chooseTime (toSet.has FUSE_SET_ATTR_MTIME_NOW) (toSet.has FUSE_SET_ATTR_MTIME) attr.stMtim)))
  | readlink {ino : Addr} {fd : Fd} : m.stands fd (getInode ino) →
      Asked m (.readlink ino) (.sys (.readlinkat fd "" (PATH_MAX + 1)))
  | mknod {parent : Addr} {name : String} {mode : Nat} {rdev : Dev} {fd : Fd} : m.stands fd (getInode parent) →
      Asked m (.mknod parent name mode rdev) (.sys (.mknodat fd name mode rdev))
  | mkdir {parent : Addr} {name : String} {mode : Nat} {fd : Fd} : m.stands fd (getInode parent) →
      Asked m (.mkdir parent name mode) (.sys (.mkdirat fd name mode))
  | unlink {parent : Addr} {name : String} {fd : Fd} : m.stands fd (getInode parent) →
      Asked m (.unlink parent name) (.sys (.unlinkat fd name 0))
  | rmdir {parent : Addr} {name : String} {fd : Fd} : m.stands fd (getInode parent) →
      Asked m (.rmdir parent name) (.sys (.unlinkat fd name AT_REMOVEDIR))
  | symlink {target : String} {parent : Addr} {name : String} {fd : Fd} : m.stands fd (getInode parent) →
      Asked m (.symlink target parent name) (.sys (.symlinkat target fd name))
  | rename {parent newparent : Addr} {name newname : String} {flags : Flags} {fd newfd : Fd} :
      m.stands fd (getInode parent) → m.stands newfd (getInode newparent) →
      Asked m (.rename parent name newparent newname flags) (.sys (.renameat2 fd name newfd newname flags))
  | link {ino parent : Addr} {name : String} {fd newfd : Fd} :
      m.stands fd (getInode ino) → m.stands newfd (getInode parent) →
      Asked m (.link ino parent name) (.sys (.linkat fd "" newfd name AT_EMPTY_PATH))
  | open_ {ino : Addr} {fi : FileInfo} {fd : Fd} : m.stands fd (getInode ino) →
      Asked m (.open_ ino (some fi))
        (.sys (.open_ (.procSelfFd fd) ((fi.flags ||| O_CLOEXEC) &&& ~~~O_NOFOLLOW)))
  | create {parent : Addr} {name : String} {mode : Nat} {fi : FileInfo} {fd : Fd} : m.stands fd (getInode parent) →
      Asked m (.create parent name mode (some fi))
        (.sys (.openat fd name ((fi.flags ||| O_CLOEXEC ||| O_CREAT) &&& ~~~O_NOFOLLOW) mode))
  | read {ino : Addr} {size : Nat} {off : Int} {fi : FileInfo} {req : FuseReq} : m.stands fi.fh (getInode ino) →
      Asked m (.read ino size off (some fi)) (.fuseReply req (.data [{ size, fd := some fi.fh, pos := off }]))
  | writeBuf {ino : Addr} {inBuf : FuseBufVec} {off : Int} {fi : FileInfo} : m.stands fi.fh (getInode ino) →
      Asked m (.writeBuf ino inBuf off fi)
        (.fuseBufCopy [{ size := fuseBufSize inBuf, fd := some fi.fh, pos := off }] inBuf)
  | fsync {ino : Addr} {datasync : Int} {fi : FileInfo} {s : Sys} : m.stands fi.fh (getInode ino) →
      s = (if datasync ≠ 0 then .fdatasync fi.fh else .fsync fi.fh) →
      Asked m (.fsync ino datasync (some fi)) (.sys s)
  | opendir {ino : Addr} {fi : Option FileInfo} {fd : Fd} : m.stands fd (getInode ino) →
      Asked m (.opendir ino fi) (.sys (.openat fd "." (O_DIRECTORY ||| O_NOFOLLOW ||| O_CLOEXEC) 0))
  | fsyncdir {ino : Addr} {datasync : Int} {fi : Option FileInfo} {fd : Fd} {s : Sys} : m.streamFd fd →
      s = (if datasync ≠ 0 then .fdatasync fd else .fsync fd) →
      Asked m (.fsyncdir ino datasync fi) (.sys s)
  | statfs {ino : Addr} {fd : Fd} : m.stands fd (getInode ino) → Asked m (.statfs ino) (.sys (.fstatvfs fd))
  | setxattr {ino : Addr} {name : String} {value : Bytes} {flags : Flags} {fd : Fd} : m.stands fd (getInode ino) →
      Asked m (.setxattr ino name value flags) (.sys (.setxattr (.procSelfFd fd) name value flags))
  | getxattr {ino : Addr} {name : String} {size : Nat} {fd : Fd} : m.stands fd (getInode ino) →
      Asked m (.getxattr ino name size) (.sys (.getxattr (.procSelfFd fd) name size))
  | listxattr {ino : Addr} {size : Nat} {fd : Fd} : m.stands fd (getInode ino) →
      Asked m (.listxattr ino size) (.sys (.listxattr (.procSelfFd fd) size))
  | removexattr {ino : Addr} {name : String} {fd : Fd} : m.stands fd (getInode ino) →
      Asked m (.removexattr ino name) (.sys (.removexattr (.procSelfFd fd) name))
  | access {ino : Addr} {mask : Flags} {fd : Fd} : m.stands fd (getInode ino) →
      Asked m (.access ino mask) (.sys (.access (.procSelfFd fd) mask))
  | getlk {ino : Addr} {fi : Option FileInfo} {lock : FLock} {fd : Fd} : m.stands fd (getInode ino) →
      Asked m (.getlk ino fi lock) (.sys (.fcntl fd F_GETLK lock))
  | setlk {ino : Addr} {fi : Option FileInfo} {lock : FLock} {sleep : Int} {fd : Fd} : m.stands fd (getInode ino) →
      Asked m (.setlk ino fi lock sleep) (.sys (.fcntl fd (if sleep ≠ 0 then F_SETLKW else F_SETLK) lock))
  | poll {ino : Addr} {fi : Option FileInfo} {ph : Option PollPtr} {fd : Fd} {events : BitVec 16} :
      m.stands fd (getInode ino) → Asked m (.poll ino fi ph) (.sys (.poll fd events))
  | flock {ino : Addr} {fi : Option FileInfo} {op : Flags} {fd : Fd} : m.stands fd (getInode ino) →
      Asked m (.flock ino fi op) (.sys (.flock fd op))
  | fallocate {ino : Addr} {mode : Flags} {offset length : Int} {fi : Option FileInfo} {fd : Fd} :
      m.stands fd (getInode ino) →
      Asked m (.fallocate ino mode offset length fi) (.sys (.fallocate fd mode offset length))
  | copyFileRange {inoIn inoOut : Addr} {offIn offOut : Int} {fiIn fiOut : Option FileInfo} {len : Nat}
      {flags : Flags} {fdIn fdOut : Fd} : m.stands fdIn (getInode inoIn) → m.stands fdOut (getInode inoOut) →
      Asked m (.copyFileRange inoIn offIn fiIn inoOut offOut fiOut len flags)
        (.sys (.copyFileRange fdIn offIn fdOut offOut len flags))
  | lseek {ino : Addr} {off : Int} {whence : Flags} {fi : Option FileInfo} {fd : Fd} : m.stands fd (getInode ino) →
      Asked m (.lseek ino off whence fi) (.sys (.lseek fd off whence))
  -- the attributes of a file: of one that was found under a name, and of the inode it led to
  | statFound {r : Request} {parent : Addr} {name : String} {fd : Fd} : r.Resolves parent name → m.own fd →
      Asked m r (.sys (.fstatat fd "" (AT_EMPTY_PATH ||| AT_SYMLINK_NOFOLLOW)))
  | statEntry {r : Request} {parent : Addr} {name : String} {fd : Fd} {a : Addr} : r.Resolves parent name →
      m.holds a → m.stands fd (.node a) → Asked m r (.sys (.fstatat fd "" (AT_EMPTY_PATH ||| AT_SYMLINK_NOFOLLOW)))
  | statAttributes {r : Request} {ino : Addr} {fd : Fd} : r.attributed = some ino → m.stands fd (getInode ino) →
      Asked m r (.sys (.fstatat fd "" (AT_EMPTY_PATH ||| AT_SYMLINK_NOFOLLOW)))
  -- the version of a file that was found
  | reopen {r : Request} {parent : Addr} {name : String} {fd : Fd} {a : Addr} : r.Resolves parent name →
      m.holds a → m.stands fd (.node a) → Asked m r (.sys (.open_ (.procSelfFd fd) (O_RDONLY ||| O_CLOEXEC)))
  | version {r : Request} {parent : Addr} {name : String} {fd : Fd} : r.Resolves parent name → m.own fd →
      Asked m r (.sys (.ioctl fd FS_IOC_GETVERSION))
  -- `SetAttr` without a handle works on a descriptor of its own
  | reopenToSet {ino : Addr} {attr : Stat} {toSet : Flags} {fi : FileInfo} {fd : Fd} : fi.fh = 0 →
      m.stands fd (getInode ino) →
      Asked m (.setattr ino attr toSet (some fi)) (.sys (.open_ (.procSelfFd fd) (O_RDONLY ||| O_CLOEXEC)))
  | dup {ino : Addr} {fi : FileInfo} : m.stands fi.fh (getInode ino) →
      Asked m (.flush ino (some fi)) (.sys (.dup fi.fh))
  | flush {ino : Addr} {fi : Option FileInfo} {fd : Fd} : m.own fd →
      Asked m (.flush ino fi) (.sys (.close fd false))
  | release {ino : Addr} {fi : FileInfo} : m.own fi.fh → Asked m (.release ino (some fi)) (.sys (.close fi.fh false))
  | fdopendir {ino : Addr} {fi : Option FileInfo} {fd : Fd} : m.own fd →
      Asked m (.opendir ino fi) (.sys (.fdopendir fd))
  | directory {r : Request} {a : Addr} : r.directory = some a → Asked m r (.derefDirectory a)
  | seekdir {r : Request} {off : Int} {d : DirPtr} : r.position = some off → m.stream d → Asked m r (.seekdir d off)
  | readdir {r : Request} {off : Int} {d : DirPtr} : r.position = some off → m.stream d →
      Asked m r (.sys (.readdir d))
  | dirfd {ino : Addr} {datasync : Int} {fi : Option FileInfo} {d : DirPtr} : m.stream d →
      Asked m (.fsyncdir ino datasync fi) (.sys (.dirfd d))
  | releasedir {ino : Addr} {fi : FileInfo} : Asked m (.releasedir ino (some fi)) (.deleteDirectory fi.fh.toNat)
  | closedir {ino : Addr} {fi : Option FileInfo} {d : DirPtr} : m.stream d →
      Asked m (.releasedir ino fi) (.sys (.closedir d))
  -- a descriptor that the thread is done with
  | drop {r : Request} {fd : Fd} : m.own fd → Asked m r (.sys (.close fd true))

theorem Asked.mono {m m' : Means} {r : Request} {c : Call} (h : Asked m r c) (within : m.Within m') :
    Asked m' r c := by
  obtain ⟨stands, own, holds, stream, streamFd⟩ := within
  cases h
  case find here resolves => exact .find resolves (stands _ _ here)
  case statFound mine resolves => exact .statFound resolves (own _ mine)
  case statEntry held here resolves => exact .statEntry resolves (holds _ held) (stands _ _ here)
  case reopen held here resolves => exact .reopen resolves (holds _ held) (stands _ _ here)
  case version mine resolves => exact .version resolves (own _ mine)
  case statAttributes here attributed => exact .statAttributes attributed (stands _ _ here)
  case reopenToSet fh here => exact .reopenToSet fh (stands _ _ here)
  case dirfd here => exact .dirfd (stream _ here)
  case seekdir here position => exact .seekdir position (stream _ here)
  case readdir here position => exact .readdir position (stream _ here)
  all_goals constructor
  all_goals first
    | assumption
    | exact stands _ _ (by assumption)
    | exact own _ (by assumption)
    | exact stream _ (by assumption)
    | exact streamFd _ (by assumption)

/-- What a thread knows of files. The relations are about the inodes that it reaches: what is
known of another inode may be out of date. -/
structure Work where
  request : Request
  owed : Bool
  shared : Addr → Nat
  /-- the descriptors that it has to close -/
  own : Set Fd
  /-- what `stat` has said of them -/
  keys : Set (Fd × Key)
  /-- descriptors of the file of an inode -/
  stands : Set (Fd × InodeRef)
  /-- what `stat` has said of inodes -/
  stats : Set (InodeRef × Key)
  /-- descriptors of files that it has created, each with the directory and the name -/
  created : Set (Fd × InodeRef × String)
  /-- a descriptor of a name that was opened again, and the one by which the file was created -/
  twins : Set (Fd × Fd)
  /-- streams that the `Directory` of its request has told -/
  streams : Set DirPtr
  /-- the descriptors of these streams -/
  streamFds : Set Fd

namespace Work

def opening (tag : FuseReq × Request) : Work where
  request := tag.2
  owed := true
  shared := 0
  own := {fd | tag.2.released = some fd}
  keys := ∅
  stands := ∅
  stats := ∅
  created := ∅
  twins := ∅
  streams := ∅
  streamFds := ∅

/-- Why the inode behind a reference is still the same. -/
def Reaches (k : Work) : InodeRef → Prop
  | .root => True
  | .node a => (k.owed = true ∧ a ∈ k.request.names ∧ a ≠ FUSE_ROOT_ID) ∨ 0 < k.shared a

/-- A descriptor of the file of an inode: one that the thread knows of, or the handle that
the request names with it. -/
def Stands (k : Work) (fd : Fd) (r : InodeRef) : Prop :=
  ((fd, r) ∈ k.stands ∧ k.Reaches r) ∨
    (k.owed = true ∧ ∃ ino, k.request.handleOf = some (ino, fd) ∧ k.request.released = none ∧ r = getInode ino)

/-- The descriptors that the thread may put into a call. -/
def MayName (k : Work) (fd : Fd) : Prop :=
  fd ∈ k.own ∨ (∃ r, (fd, r) ∈ k.stands ∧ k.Reaches r) ∨ (k.owed = true ∧ fd ∈ k.request.handles) ∨
    fd ∈ k.streamFds

/-- What the thread may use for its request. -/
def means (k : Work) : Means := ⟨k.Stands, (· ∈ k.own), (0 < k.shared ·), (· ∈ k.streams), (· ∈ k.streamFds)⟩

/-- An entry carries the attributes of the file that its id stands for. -/
def Describes (k : Work) (param : EntryParam) : Prop :=
  0 < k.shared param.ino ∧ (.node param.ino, param.attr.key) ∈ k.stats

def Permits (k : Work) : Call → Prop
  | .insert i => (i.fd, i.key) ∈ k.keys
  | .fuseReply req reply => (∀ param ∈ reply.params, k.Describes param) ∧
      match reply with
      | .attr st _ => ∃ ino ∈ k.request.names, (getInode ino, st.key) ∈ k.stats
      | .openFile fi => req.opcode = .opendir ∨
          (fi.fh ∈ k.own ∧ ∃ ino info, k.request = .open_ ino info ∧ (fi.fh, getInode ino) ∈ k.stands)
      | .create param fi => fi.fh ∈ k.own ∧ (fi.fh, .node param.ino) ∈ k.stands
      | _ => True
  | _ => True

structure Allows (k : Work) (c : Call) : Prop where
  names : ∀ fd ∈ c.uses, k.MayName fd
  asked : c.serves = true → Asked k.means k.request c
  permits : k.Permits c

def gain (k : Work) (fd : Fd) : Work := { k with own := insert fd k.own }

def lose (k : Work) (fd : Fd) : Work :=
  { k with
    own := k.own \ {fd}
    keys := {p ∈ k.keys | p.1 ≠ fd}
    stands := {p ∈ k.stands | p.1 ≠ fd}
    created := {p ∈ k.created | p.1 ≠ fd}
    twins := {p ∈ k.twins | p.1 ≠ fd ∧ p.2 ≠ fd} }

/-- A name was opened. If the thread has created a file under it, it leads to that file. -/
def opens (k : Work) (dir : Fd) (name : String) (flags : Flags) (fd : Fd) : Work :=
  { k.gain fd with
    created := k.created ∪ {p | p.1 = fd ∧ flags.has O_CREAT = true ∧ p.2.2 = name ∧ (dir, p.2.1) ∈ k.stands}
    twins := k.twins ∪ {p | p.1 = fd ∧ ∃ r, k.Reaches r ∧ (dir, r) ∈ k.stands ∧ (p.2, r, name) ∈ k.created} }

/-- A descriptor was opened through another one. -/
def reopen (k : Work) (old fd : Fd) : Work :=
  { k.gain fd with stands := k.stands ∪ {p | p.1 = fd ∧ (old, p.2) ∈ k.stands} }

def sawKey (k : Work) (fd : Fd) (key : Key) : Work :=
  { k with
    keys := k.keys ∪ {p | p = (fd, key) ∧ fd ∈ k.own}
    stats := k.stats ∪ {p | p.2 = key ∧ (fd, p.1) ∈ k.stands} }

/-- `Insert` has returned the inode at `a`. What was known of an inode at this address is out
of date, unless the thread has held it. -/
def found (k : Work) (a : Addr) : Work :=
  { k with
    shared := k.shared + Pi.single a 1
    stands := {p ∈ k.stands | p.2 = .node a → 0 < k.shared a}
    stats := {p ∈ k.stats | p.1 = .node a → 0 < k.shared a}
    created := {p ∈ k.created | p.2.1 = .node a → 0 < k.shared a} }

/-- The descriptor `fd` went to the cache, and its file has the inode at `a`: the file of its
twins too. -/
def inserted (k : Work) (fd : Fd) (r : Inserted) : Work :=
  let k' := (if r.fresh then k.lose fd else k).found r.addr
  { k' with stands := k'.stands ∪ {p | p.2 = .node r.addr ∧ p.1 ≠ fd ∧ (fd, p.1) ∈ k.twins} }

/-- The `Directory` of the request has told its stream. -/
def streaming (k : Work) (d : DirPtr) : Work := { k with streams := insert d k.streams }

/-- A stream has told its descriptor. -/
def dirfd (k : Work) (fd : Fd) : Work := { k with streamFds := insert fd k.streamFds }

def takes (k : Work) : Unrefed → Work
  | .dropped (some i) => k.gain i.fd
  | _ => k

def sent (k : Work) (req : FuseReq) (reply : Reply) : Work :=
  match reply.handle req with
  | some fd => k.lose fd
  | none => k

def after (k : Work) : (c : Call) → c.Ret → Work
  | .sys (.open_ (.procSelfFd old) _), .ok fd => k.reopen old fd
  | .sys (.openat dir name flags _), .ok fd => k.opens dir name flags fd
  | .sys (.open_ (.plain _) _), .ok fd | .sys (.dup _), .ok fd => k.gain fd
  | .sys (.close fd _), _ | .sys (.fdopendir fd), _ => k.lose fd
  | .sys (.fstatat fd _ _), .ok st => k.sawKey fd st.key
  | .getFD r, fd => { k with stands := insert (fd, r) k.stands }
  | .insert i, r => k.inserted i.fd r
  | .derefDirectory _, d | .deleteDirectory _, d => k.streaming d
  | .sys (.dirfd _), .ok fd => k.dirfd fd
  | .unref _ _ _, answer => k.takes answer
  | .dropShared a, answer => { k.takes answer with shared := k.shared - Pi.single a 1 }
  | .fuseReply req reply, rc =>
      let k := { k with owed := false }
      match rc with
      | none => k.sent req reply
      | some _ => k
  | _, _ => k

/-- A descriptor that comes to a thread is none of those it has. -/
def Expects (k : Work) : (c : Call) → c.Ret → Prop
  | .sys (.open_ _ _), .ok fd | .sys (.openat _ _ _ _), .ok fd | .sys (.dup _), .ok fd => fd ∉ k.own
  | .unref _ _ _, .dropped (some i) | .dropShared _, .dropped (some i) => i.fd ∉ k.own
  | _, _ => True

end Work

def filing : Discipline calls Work where
  allows := Work.Allows
  answers := Work.Expects
  after := Work.after

variable {σ : Type} {P : Platform} {k k' k'' : Work} {s : σ} {fd : Fd} {a : Addr}

namespace Work

/-- The descriptor of an inode was read. -/
def reads (k : Work) (fd : Fd) (r : InodeRef) : Work := { k with stands := insert (fd, r) k.stands }

/-- What the thread has stays, and what it knows of the inodes it holds. -/
structure Keeps (k k' : Work) : Prop where
  request : k'.request = k.request
  owed : k'.owed = k.owed
  shared : ∀ a, k.shared a ≤ k'.shared a
  own : k.own ⊆ k'.own
  stats : ∀ a key, 0 < k.shared a → (.node a, key) ∈ k.stats → (.node a, key) ∈ k'.stats
  stands : ∀ a fd, fd ∈ k.own → 0 < k.shared a → (fd, .node a) ∈ k.stands → (fd, .node a) ∈ k'.stands
  streams : k.streams ⊆ k'.streams

namespace Keeps

theorem refl (k : Work) : k.Keeps k :=
  ⟨rfl, rfl, fun _ => le_refl _, subset_rfl, fun _ _ _ h => h, fun _ _ _ _ h => h, subset_rfl⟩

theorem trans (h : k.Keeps k') (h' : k'.Keeps k'') : k.Keeps k'' where
  request := h'.request.trans h.request
  owed := h'.owed.trans h.owed
  shared a := (h.shared a).trans (h'.shared a)
  own := h.own.trans h'.own
  stats a key held mem := h'.stats a key (held.trans_le (h.shared a)) (h.stats a key held mem)
  stands a fd own held mem := h'.stands a fd (h.own own) (held.trans_le (h.shared a)) (h.stands a fd own held mem)
  streams := h.streams.trans h'.streams

theorem reaches {r : InodeRef} (h : k.Keeps k') (reaches : k.Reaches r) : k'.Reaches r := by
  cases r with
  | root => trivial
  | node a =>
      rcases reaches with named | held
      · left
        rw [h.owed, h.request]
        exact named
      · exact .inr (held.trans_le (h.shared a))

theorem describes {param : EntryParam} (h : k.Keeps k') (describes : k.Describes param) : k'.Describes param :=
  ⟨describes.1.trans_le (h.shared _), h.stats _ _ describes.1 describes.2⟩

theorem reads (k : Work) (fd : Fd) (r : InodeRef) : k.Keeps (k.reads fd r) :=
  ⟨rfl, rfl, fun _ => le_refl _, subset_rfl, fun _ _ _ h => h, fun _ _ _ _ h => .inr h, subset_rfl⟩

theorem opens (k : Work) (dir : Fd) (name : String) (flags : Flags) (fd : Fd) : k.Keeps (k.opens dir name flags fd) :=
  ⟨rfl, rfl, fun _ => le_refl _, Set.subset_insert _ _, fun _ _ _ h => h, fun _ _ _ _ h => h, subset_rfl⟩

theorem reopen (k : Work) (old fd : Fd) : k.Keeps (k.reopen old fd) :=
  ⟨rfl, rfl, fun _ => le_refl _, Set.subset_insert _ _, fun _ _ _ h => h, fun _ _ _ _ h => .inl h, subset_rfl⟩

theorem sawKey (k : Work) (fd : Fd) (key : Key) : k.Keeps (k.sawKey fd key) :=
  ⟨rfl, rfl, fun _ => le_refl _, subset_rfl, fun _ _ _ h => .inl h, fun _ _ _ _ h => h, subset_rfl⟩

theorem gain (k : Work) (fd : Fd) : k.Keeps (k.gain fd) :=
  ⟨rfl, rfl, fun _ => le_refl _, Set.subset_insert _ _, fun _ _ _ h => h, fun _ _ _ _ h => h, subset_rfl⟩

theorem found (k : Work) (a : Addr) : k.Keeps (k.found a) := by
  refine ⟨rfl, rfl, fun _ => Nat.le_add_right _ _, subset_rfl, fun _ _ held h => ⟨h, fun same => ?_⟩,
    fun _ _ _ held h => ⟨h, fun same => ?_⟩, subset_rfl⟩
  · cases same
    exact held
  · cases same
    exact held

/-- A descriptor that came after `k` is lost again. -/
theorem lose (h : k.Keeps k') (new : fd ∉ k.own) : k.Keeps (k'.lose fd) where
  request := h.request
  owed := h.owed
  shared := h.shared
  own := by
    intro fd' mem
    refine ⟨h.own mem, ?_⟩
    rintro rfl
    exact new mem
  stats := h.stats
  stands a fd' own held mem := by
    refine ⟨h.stands a fd' own held mem, ?_⟩
    rintro rfl
    exact new own
  streams := h.streams

/-- The descriptor of a file that was found goes to the cache. -/
theorem inserted (h : k.Keeps k') (new : fd ∉ k.own) (r : Inserted) : k.Keeps (k'.inserted fd r) := by
  have kept : k.Keeps ((if r.fresh then k'.lose fd else k').found r.addr) := by
    split
    · exact (h.lose new).trans (.found _ _)
    · exact h.trans (.found _ _)
  exact ⟨kept.request, kept.owed, kept.shared, kept.own, kept.stats,
    fun a fd' own held mem => .inl (kept.stands a fd' own held mem), kept.streams⟩

end Keeps

/-- One `shared_ptr` more to the inode at `a`. -/
structure Finds (k : Work) (a : Addr) (k' : Work) : Prop extends k.Keeps k' where
  held : ∀ b, k.shared b + (Pi.single a 1 : Addr → Nat) b ≤ k'.shared b

namespace Finds

theorem pos (h : k.Finds a k') : 0 < k'.shared a := by
  have held := h.held a
  rw [Pi.single_eq_same] at held
  omega

theorem keeps (h : k.Finds a k') (h' : k'.Keeps k'') : k.Finds a k'' :=
  ⟨h.toKeeps.trans h', fun b => (h.held b).trans (h'.shared b)⟩

/-- The `shared_ptr` dies. -/
theorem drop (h : k.Finds a k') : k.Keeps { k' with shared := k'.shared - Pi.single a 1 } where
  request := h.request
  owed := h.owed
  shared b := by
    have held := h.held b
    change _ ≤ k'.shared b - (Pi.single a 1 : Addr → Nat) b
    omega
  own := h.own
  stats := h.stats
  stands := h.stands
  streams := h.streams

end Finds

theorem mayName_of_stands {r : InodeRef} (stands : k.Stands fd r) : k.MayName fd := by
  rcases stands with known | ⟨owed, ino, named, open_, -⟩
  · exact .inr (.inl ⟨r, known⟩)
  · exact .inr (.inr (.inl ⟨owed, Request.mem_handles named open_⟩))

theorem reaches_getInode {ino : Addr} (owed : k.owed = true) (named : ino ∈ k.request.names) :
    k.Reaches (getInode ino) := by
  unfold getInode
  split
  · trivial
  · next ne => exact .inl ⟨owed, named, ne⟩

theorem stands_handle {ino : Addr} (owed : k.owed = true) (named : k.request.handleOf = some (ino, fd))
    (lent : k.request.released = none) : k.Stands fd (getInode ino) := .inr ⟨owed, ino, named, lent, rfl⟩

/-- What is known of a descriptor outlasts another reading. -/
theorem Stands.reads {r r' : InodeRef} (h : k.Stands fd r) (fd' : Fd) : (k.reads fd' r').Stands fd r := by
  rcases h with ⟨known, reaches⟩ | handle
  · exact .inl ⟨.inr known, (Keeps.reads k fd' r').reaches reaches⟩
  · exact .inr handle

namespace Allows

variable {c : Call}

theorem quiet (uses : c.uses = []) (serves : c.serves = false) (permits : k.Permits c) : k.Allows c where
  names fd mem := by rw [uses] at mem; cases mem
  asked h := by rw [serves] at h; cases h
  permits := permits

/-- A call that needs no descriptor. -/
theorem unnamed {c : Call} (uses : c.uses = []) (asked : Asked k.means k.request c) (permits : k.Permits c) :
    k.Allows c where
  names fd mem := by rw [uses] at mem; cases mem
  asked _ := asked
  permits := permits

theorem bare {req : FuseReq} {reply : Reply} (bare : reply.bare = true) : k.Allows (.fuseReply req reply) := by
  have params : reply.params = [] := by
    unfold Reply.params
    split
    all_goals first
      | rfl
      | exact absurd bare Bool.false_ne_true
  constructor
  · intro fd mem
    cases reply
    case data => exact absurd bare Bool.false_ne_true
    all_goals exact absurd mem List.not_mem_nil
  · intro serves
    cases reply
    case data => exact absurd bare Bool.false_ne_true
    all_goals exact absurd serves Bool.false_ne_true
  · refine ⟨fun param mem => ?_, ?_⟩
    · rw [params] at mem
      exact absurd mem List.not_mem_nil
    · cases reply
      case attr | openFile | create => exact absurd bare Bool.false_ne_true
      all_goals trivial

theorem serve {c : Sys} (may : ∀ fd ∈ c.uses, k.MayName fd) (asked : Asked k.means k.request (.sys c)) :
    k.Allows (.sys c) := ⟨may, fun _ => asked, trivial⟩

/-- A call on one descriptor. -/
theorem one {c : Sys} (uses : c.uses = [fd]) (may : k.MayName fd) (asked : Asked k.means k.request (.sys c)) :
    k.Allows (.sys c) := by
  refine serve (fun fd' mem => ?_) asked
  rw [uses, List.mem_singleton] at mem
  rw [mem]
  exact may

/-- A call on one descriptor, of a file that the request names. -/
theorem on {c : Sys} {r : InodeRef} (stands : k.Stands fd r) (uses : c.uses = [fd])
    (asked : Asked k.means k.request (.sys c)) : k.Allows (.sys c) :=
  one uses (mayName_of_stands stands) asked

theorem two {c : Sys} {fd' : Fd} {r r' : InodeRef} (stands : k.Stands fd r) (stands' : k.Stands fd' r')
    (uses : c.uses = [fd, fd']) (asked : Asked k.means k.request (.sys c)) : k.Allows (.sys c) := by
  refine serve (fun fd'' mem => ?_) asked
  rw [uses, List.mem_pair] at mem
  rcases mem with rfl | rfl
  · exact mayName_of_stands stands
  · exact mayName_of_stands stands'

end Allows

end Work

end Pafs
