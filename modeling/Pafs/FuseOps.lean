import Pafs.PageAlignFS

/-! `fuse_ops.h`: the callbacks that `AsFuseLowLevelOps` installs. Every callback checks its
pointers, makes a `FuseRequest`, calls one method of `T` and finishes in one of three ways. -/
namespace Pafs
open Resumption

/-- A request as libfuse delivers it; a `fuse_file_info *` may be null. -/
inductive Request where
  | lookup (parent : Addr) (name : String)
  | forget (ino : Addr) (nlookup : Nat)
  | getattr (ino : Addr) (fi : Option FileInfo)
  | setattr (ino : Addr) (attr : Stat) (toSet : Flags) (fi : Option FileInfo)
  | readlink (ino : Addr)
  | mknod (parent : Addr) (name : String) (mode : Nat) (rdev : Dev)
  | mkdir (parent : Addr) (name : String) (mode : Nat)
  | unlink (parent : Addr) (name : String)
  | rmdir (parent : Addr) (name : String)
  | symlink (link : String) (parent : Addr) (name : String)
  | rename (parent : Addr) (name : String) (newparent : Addr) (newname : String) (flags : Flags)
  | link (ino parent : Addr) (newname : String)
  | open_ (ino : Addr) (fi : Option FileInfo)
  | read (ino : Addr) (size : Nat) (off : Int) (fi : Option FileInfo)
  | write (ino : Addr) (buf : Bytes) (off : Int) (fi : Option FileInfo)
  | flush (ino : Addr) (fi : Option FileInfo)
  | release (ino : Addr) (fi : Option FileInfo)
  | fsync (ino : Addr) (datasync : Int) (fi : Option FileInfo)
  | opendir (ino : Addr) (fi : Option FileInfo)
  | readdir (ino : Addr) (size : Nat) (off : Int) (fi : Option FileInfo)
  | releasedir (ino : Addr) (fi : Option FileInfo)
  | fsyncdir (ino : Addr) (datasync : Int) (fi : Option FileInfo)
  | statfs (ino : Addr)
  | setxattr (ino : Addr) (name : String) (value : Bytes) (flags : Flags)
  | getxattr (ino : Addr) (name : String) (size : Nat)
  | listxattr (ino : Addr) (size : Nat)
  | removexattr (ino : Addr) (name : String)
  | access (ino : Addr) (mask : Flags)
  | create (ino : Addr) (name : String) (mode : Nat) (fi : Option FileInfo)
  | getlk (ino : Addr) (fi : Option FileInfo) (lock : FLock)
  | setlk (ino : Addr) (fi : Option FileInfo) (lock : FLock) (sleep : Int)
  | bmap (ino : Addr) (blocksize idx : Nat)
  | ioctl (ino : Addr) (cmd arg : Nat) (fi : Option FileInfo) (flags : Nat) (inBuf : Bytes)
      (outBufsz : Nat)
  | poll (ino : Addr) (fi : Option FileInfo) (ph : Option PollPtr)
  -- the wrapper of write_buf dereferences `fi` without a check
  | writeBuf (ino : Addr) (inBuf : FuseBufVec) (off : Int) (fi : FileInfo)
  | retrieveReply (cookie : Nat) (ino : Addr) (offset : Int) (bufv : FuseBufVec)
  | forgetMulti (forgets : List ForgetData)
  | flock (ino : Addr) (fi : Option FileInfo) (op : Flags)
  | fallocate (ino : Addr) (mode : Flags) (offset length : Int) (fi : Option FileInfo)
  | readdirplus (ino : Addr) (size : Nat) (off : Int) (fi : Option FileInfo)
  | copyFileRange (inoIn : Addr) (offIn : Int) (fiIn : Option FileInfo) (inoOut : Addr)
      (offOut : Int) (fiOut : Option FileInfo) (len : Nat) (flags : Flags)
  | lseek (ino : Addr) (off : Int) (whence : Flags) (fi : Option FileInfo)
  deriving DecidableEq

def Request.opcode : Request → Opcode
  | .lookup .. => .lookup
  | .forget .. => .forget
  | .getattr .. => .getattr
  | .setattr .. => .setattr
  | .readlink .. => .readlink
  | .mknod .. => .mknod
  | .mkdir .. => .mkdir
  | .unlink .. => .unlink
  | .rmdir .. => .rmdir
  | .symlink .. => .symlink
  | .rename .. => .rename
  | .link .. => .link
  | .open_ .. => .open_
  | .read .. => .read
  | .write .. => .write
  | .flush .. => .flush
  | .release .. => .release
  | .fsync .. => .fsync
  | .opendir .. => .opendir
  | .readdir .. => .readdir
  | .releasedir .. => .releasedir
  | .fsyncdir .. => .fsyncdir
  | .statfs .. => .statfs
  | .setxattr .. => .setxattr
  | .getxattr .. => .getxattr
  | .listxattr .. => .listxattr
  | .removexattr .. => .removexattr
  | .access .. => .access
  | .create .. => .create
  | .getlk .. => .getlk
  | .setlk .. => .setlk
  | .bmap .. => .bmap
  | .ioctl .. => .ioctl
  | .poll .. => .poll
  | .writeBuf .. => .writeBuf
  | .retrieveReply .. => .retrieveReply
  | .forgetMulti .. => .forgetMulti
  | .flock .. => .flock
  | .fallocate .. => .fallocate
  | .readdirplus .. => .readdirplus
  | .copyFileRange .. => .copyFileRange
  | .lseek .. => .lseek

abbrev Handler := Io FuseRequest Unit

/-- The methods of `T`; one that is missing leaves its `fuse_lowlevel_ops` member null. -/
structure FuseOps (T : Type) where
  lookup : Option (T → Addr → String → Handler) := none
  forget : Option (T → Addr → Nat → Handler) := none
  getAttr : Option (T → Addr → Handler) := none
  setAttr : Option (T → Addr → Stat → Flags → FileInfo → Handler) := none
  readLink : Option (T → Addr → Handler) := none
  mknod : Option (T → Addr → String → Nat → Dev → Handler) := none
  mkdir : Option (T → Addr → String → Nat → Handler) := none
  unlink : Option (T → Addr → String → Handler) := none
  rmdir : Option (T → Addr → String → Handler) := none
  symlink : Option (T → String → Addr → String → Handler) := none
  rename : Option (T → Addr → String → Addr → String → Flags → Handler) := none
  link : Option (T → Addr → Addr → String → Handler) := none
  open_ : Option (T → Addr → FileInfo → Handler) := none
  read : Option (T → Addr → Nat → Int → FileInfo → Handler) := none
  write : Option (T → Addr → Bytes → Int → FileInfo → Handler) := none
  flush : Option (T → Addr → FileInfo → Handler) := none
  release : Option (T → Addr → FileInfo → Handler) := none
  fSync : Option (T → Addr → Bool → FileInfo → Handler) := none
  openDir : Option (T → Addr → FileInfo → Handler) := none
  readDir : Option (T → Addr → Nat → Int → FileInfo → Handler) := none
  releaseDir : Option (T → Addr → FileInfo → Handler) := none
  fSyncDir : Option (T → Addr → Bool → FileInfo → Handler) := none
  statFS : Option (T → Addr → Handler) := none
  setXAttr : Option (T → Addr → String → Bytes → Flags → Handler) := none
  getXAttr : Option (T → Addr → String → Nat → Handler) := none
  listXAttr : Option (T → Addr → Nat → Handler) := none
  removeXAttr : Option (T → Addr → String → Handler) := none
  access : Option (T → Addr → Flags → Handler) := none
  create : Option (T → Addr → String → Nat → FileInfo → Handler) := none
  getLk : Option (T → Addr → FileInfo → FLock → Handler) := none
  setLk : Option (T → Addr → FileInfo → FLock → Bool → Handler) := none
  bMap : Option (T → Addr → Nat → Nat → Handler) := none
  iOCtl : Option (T → Addr → Nat → Nat → FileInfo → Nat → Bytes → Nat → Handler) := none
  poll : Option (T → Addr → FileInfo → Option PollPtr → Handler) := none
  writeBuf : Option (T → Addr → FuseBufVec → Int → FileInfo → Handler) := none
  retrieveReply : Option (T → Nat → Addr → Int → FuseBufVec → Handler) := none
  forgetMulti : Option (T → List ForgetData → Handler) := none
  fLock : Option (T → Addr → FileInfo → Flags → Handler) := none
  fAllocate : Option (T → Addr → Flags → Int → Int → FileInfo → Handler) := none
  readDirPlus : Option (T → Addr → Nat → Int → FileInfo → Handler) := none
  copyFileRange : Option (T → Addr → Int → FileInfo → Addr → Int → FileInfo → Nat → Flags →
    Handler) := none
  lSeek : Option (T → Addr → Int → Flags → FileInfo → Handler) := none

/-- How a callback finishes: `ReplyFailureAndLogIfNotOk`, `ReplyAlwaysAndLogIfNotOk`, or a
logged status and `ReplyNone`. -/
inductive Finish where
  | replyFailure
  | replyAlways
  | replyNone
  deriving DecidableEq, Repr

def Finish.run (P : Platform) (status : Status) : Finish → Handler
  | .replyFailure => FuseRequest.replyFailureAndLogIfNotOk P status
  | .replyAlways => FuseRequest.replyAlwaysAndLogIfNotOk P status
  | .replyNone => FuseRequest.replyNone

variable {σ T : Type}

/-- `CHECK_NE(p, nullptr)`. -/
def checkNotNull {α : Type} (site : CheckSite) : Option α → Io σ α
  | some a => pure a
  | none => do
      let impossible ← Routine.invoke (I := calls) (.abort site)
      nomatch impossible

section Callbacks
variable (P : Platform) (userdata : Option T) (req : FuseReq)

/-- What a callback still does once its method has returned: it finishes, and the
`FuseRequest` on its stack dies. -/
def epilogue (finish : Finish) (status : Status) : Handler := do
  finish.run P status
  FuseRequest.destroy P

/-- The lines that all callbacks share. -/
def callback (finish : Finish) (method : T → Handler) : Handler := do
  let t ← checkNotNull .userdata userdata
  Routine.setLocal { req := some req }
  let status ← (method t).attempt
  epilogue P finish status

def withFileInfo (fi : Option FileInfo) (body : FileInfo → Handler) : Handler := do
  let fi ← checkNotNull .fileInfo fi
  body fi

def getFuseLookupOp (method : T → Addr → String → Handler) (parent : Addr) (name : String) :
    Handler := callback P userdata req .replyFailure (method · parent name)

def getFuseForgetOp (method : T → Addr → Nat → Handler) (ino : Addr) (nlookup : Nat) : Handler :=
  callback P userdata req .replyNone (method · ino nlookup)

-- the `fuse_file_info` of getattr is not used
def getFuseGetAttrOp (method : T → Addr → Handler) (ino : Addr) (_ : Option FileInfo) : Handler :=
  callback P userdata req .replyFailure (method · ino)

def getFuseSetAttrOp (method : T → Addr → Stat → Flags → FileInfo → Handler) (ino : Addr)
    (attr : Stat) (toSet : Flags) (fi : Option FileInfo) : Handler :=
  withFileInfo fi fun fi => callback P userdata req .replyFailure (method · ino attr toSet fi)

def getFuseReadLinkOp (method : T → Addr → Handler) (ino : Addr) : Handler :=
  callback P userdata req .replyFailure (method · ino)

def getFuseMknodOp (method : T → Addr → String → Nat → Dev → Handler) (parent : Addr)
    (name : String) (mode : Nat) (rdev : Dev) : Handler :=
  callback P userdata req .replyFailure (method · parent name mode rdev)

def getFuseMkdirOp (method : T → Addr → String → Nat → Handler) (parent : Addr) (name : String)
    (mode : Nat) : Handler := callback P userdata req .replyFailure (method · parent name mode)

def getFuseUnlinkOp (method : T → Addr → String → Handler) (parent : Addr) (name : String) :
    Handler := callback P userdata req .replyAlways (method · parent name)

def getFuseRmdirOp (method : T → Addr → String → Handler) (parent : Addr) (name : String) :
    Handler := callback P userdata req .replyAlways (method · parent name)

def getFuseSymlinkOp (method : T → String → Addr → String → Handler) (link : String)
    (parent : Addr) (name : String) : Handler :=
  callback P userdata req .replyFailure (method · link parent name)

def getFuseRenameOp (method : T → Addr → String → Addr → String → Flags → Handler)
    (parent : Addr) (name : String) (newparent : Addr) (newname : String) (flags : Flags) :
    Handler :=
  callback P userdata req .replyAlways (method · parent name newparent newname flags)

def getFuseLinkOp (method : T → Addr → Addr → String → Handler) (ino parent : Addr)
    (newname : String) : Handler := callback P userdata req .replyFailure (method · ino parent newname)

def getFuseOpenOp (method : T → Addr → FileInfo → Handler) (ino : Addr) (fi : Option FileInfo) :
    Handler :=
  withFileInfo fi fun fi => callback P userdata req .replyFailure (method · ino fi)

def getFuseReadOp (method : T → Addr → Nat → Int → FileInfo → Handler) (ino : Addr) (size : Nat)
    (off : Int) (fi : Option FileInfo) : Handler :=
  withFileInfo fi fun fi => callback P userdata req .replyAlways (method · ino size off fi)

def getFuseWriteOp (method : T → Addr → Bytes → Int → FileInfo → Handler) (ino : Addr)
    (buf : Bytes) (off : Int) (fi : Option FileInfo) : Handler :=
  withFileInfo fi fun fi => callback P userdata req .replyAlways (method · ino buf off fi)

def getFuseFlushOp (method : T → Addr → FileInfo → Handler) (ino : Addr) (fi : Option FileInfo) :
    Handler :=
  withFileInfo fi fun fi => callback P userdata req .replyAlways (method · ino fi)

def getFuseReleaseOp (method : T → Addr → FileInfo → Handler) (ino : Addr)
    (fi : Option FileInfo) : Handler :=
  withFileInfo fi fun fi => callback P userdata req .replyAlways (method · ino fi)

def getFuseFSyncOp (method : T → Addr → Bool → FileInfo → Handler) (ino : Addr) (datasync : Int)
    (fi : Option FileInfo) : Handler :=
  withFileInfo fi fun fi => callback P userdata req .replyAlways (method · ino (datasync != 0) fi)

def getFuseOpenDirOp (method : T → Addr → FileInfo → Handler) (ino : Addr)
    (fi : Option FileInfo) : Handler :=
  withFileInfo fi fun fi => callback P userdata req .replyFailure (method · ino fi)

def getFuseReadDirOp (method : T → Addr → Nat → Int → FileInfo → Handler) (ino : Addr)
    (size : Nat) (off : Int) (fi : Option FileInfo) : Handler :=
  withFileInfo fi fun fi => callback P userdata req .replyAlways (method · ino size off fi)

def getFuseReleaseDirOp (method : T → Addr → FileInfo → Handler) (ino : Addr)
    (fi : Option FileInfo) : Handler :=
  withFileInfo fi fun fi => callback P userdata req .replyAlways (method · ino fi)

def getFuseFSyncDirOp (method : T → Addr → Bool → FileInfo → Handler) (ino : Addr)
    (datasync : Int) (fi : Option FileInfo) : Handler :=
  withFileInfo fi fun fi => callback P userdata req .replyAlways (method · ino (datasync != 0) fi)

def getFuseStatFSOp (method : T → Addr → Handler) (ino : Addr) : Handler :=
  callback P userdata req .replyFailure (method · ino)

def getFuseSetXAttrOp (method : T → Addr → String → Bytes → Flags → Handler) (ino : Addr)
    (name : String) (value : Bytes) (flags : Flags) : Handler :=
  callback P userdata req .replyAlways (method · ino name value flags)

def getFuseGetXAttrOp (method : T → Addr → String → Nat → Handler) (ino : Addr) (name : String)
    (size : Nat) : Handler := callback P userdata req .replyFailure (method · ino name size)

def getFuseListXAttrOp (method : T → Addr → Nat → Handler) (ino : Addr) (size : Nat) : Handler :=
  callback P userdata req .replyFailure (method · ino size)

def getFuseRemoveXAttrOp (method : T → Addr → String → Handler) (ino : Addr) (name : String) :
    Handler := callback P userdata req .replyAlways (method · ino name)

def getFuseAccessOp (method : T → Addr → Flags → Handler) (ino : Addr) (mask : Flags) : Handler :=
  callback P userdata req .replyAlways (method · ino mask)

def getFuseCreateOp (method : T → Addr → String → Nat → FileInfo → Handler) (ino : Addr)
    (name : String) (mode : Nat) (fi : Option FileInfo) : Handler :=
  withFileInfo fi fun fi => callback P userdata req .replyFailure (method · ino name mode fi)

def getFuseGetLkOp (method : T → Addr → FileInfo → FLock → Handler) (ino : Addr)
    (fi : Option FileInfo) (lock : FLock) : Handler :=
  withFileInfo fi fun fi => callback P userdata req .replyFailure (method · ino fi lock)

def getFuseSetLkOp (method : T → Addr → FileInfo → FLock → Bool → Handler) (ino : Addr)
    (fi : Option FileInfo) (lock : FLock) (sleep : Int) : Handler :=
  withFileInfo fi fun fi => callback P userdata req .replyFailure (method · ino fi lock (sleep != 0))

def getFuseBMapOp (method : T → Addr → Nat → Nat → Handler) (ino : Addr) (blocksize idx : Nat) :
    Handler := callback P userdata req .replyFailure (method · ino blocksize idx)

def getFuseIOCtlOp (method : T → Addr → Nat → Nat → FileInfo → Nat → Bytes → Nat → Handler)
    (ino : Addr) (cmd arg : Nat) (fi : Option FileInfo) (flags : Nat) (inBuf : Bytes)
    (outBufsz : Nat) : Handler :=
  withFileInfo fi fun fi =>
    callback P userdata req .replyFailure (method · ino cmd arg fi flags inBuf outBufsz)

def getFusePollOp (method : T → Addr → FileInfo → Option PollPtr → Handler) (ino : Addr)
    (fi : Option FileInfo) (ph : Option PollPtr) : Handler :=
  withFileInfo fi fun fi => callback P userdata req .replyFailure (method · ino fi ph)

def getFuseWriteBufOp (method : T → Addr → FuseBufVec → Int → FileInfo → Handler) (ino : Addr)
    (inBuf : FuseBufVec) (off : Int) (fi : FileInfo) : Handler :=
  callback P userdata req .replyNone (method · ino inBuf off fi)

def getFuseRetrieveReplyOp (method : T → Nat → Addr → Int → FuseBufVec → Handler) (cookie : Nat)
    (ino : Addr) (offset : Int) (bufv : FuseBufVec) : Handler :=
  callback P userdata req .replyNone (method · cookie ino offset bufv)

def getFuseForgetMultiOp (method : T → List ForgetData → Handler) (forgets : List ForgetData) :
    Handler := callback P userdata req .replyNone (method · forgets)

def getFuseFLockOp (method : T → Addr → FileInfo → Flags → Handler) (ino : Addr)
    (fi : Option FileInfo) (op : Flags) : Handler :=
  withFileInfo fi fun fi => callback P userdata req .replyAlways (method · ino fi op)

def getFuseFAllocateOp (method : T → Addr → Flags → Int → Int → FileInfo → Handler) (ino : Addr)
    (mode : Flags) (offset length : Int) (fi : Option FileInfo) : Handler :=
  withFileInfo fi fun fi =>
    callback P userdata req .replyAlways (method · ino mode offset length fi)

def getFuseReadDirPlusOp (method : T → Addr → Nat → Int → FileInfo → Handler) (ino : Addr)
    (size : Nat) (off : Int) (fi : Option FileInfo) : Handler :=
  withFileInfo fi fun fi => callback P userdata req .replyAlways (method · ino size off fi)

def getFuseCopyFileRangeOp
    (method : T → Addr → Int → FileInfo → Addr → Int → FileInfo → Nat → Flags → Handler)
    (inoIn : Addr) (offIn : Int) (fiIn : Option FileInfo) (inoOut : Addr) (offOut : Int)
    (fiOut : Option FileInfo) (len : Nat) (flags : Flags) : Handler :=
  withFileInfo fiIn fun fiIn => withFileInfo fiOut fun fiOut =>
    callback P userdata req .replyFailure
      (method · inoIn offIn fiIn inoOut offOut fiOut len flags)

def getFuseLSeekOp (method : T → Addr → Int → Flags → FileInfo → Handler) (ino : Addr)
    (off : Int) (whence : Flags) (fi : Option FileInfo) : Handler :=
  withFileInfo fi fun fi => callback P userdata req .replyFailure (method · ino off whence fi)

/-- The table built by `AsFuseLowLevelOps`, applied to a request. -/
def asFuseLowLevelOps (ops : FuseOps T) : Request → Option Handler
  | .lookup parent name => ops.lookup.map (getFuseLookupOp P userdata req · parent name)
  | .forget ino n => ops.forget.map (getFuseForgetOp P userdata req · ino n)
  | .getattr ino fi => ops.getAttr.map (getFuseGetAttrOp P userdata req · ino fi)
  | .setattr ino attr toSet fi =>
      ops.setAttr.map (getFuseSetAttrOp P userdata req · ino attr toSet fi)
  | .readlink ino => ops.readLink.map (getFuseReadLinkOp P userdata req · ino)
  | .mknod parent name mode rdev =>
      ops.mknod.map (getFuseMknodOp P userdata req · parent name mode rdev)
  | .mkdir parent name mode => ops.mkdir.map (getFuseMkdirOp P userdata req · parent name mode)
  | .unlink parent name => ops.unlink.map (getFuseUnlinkOp P userdata req · parent name)
  | .rmdir parent name => ops.rmdir.map (getFuseRmdirOp P userdata req · parent name)
  | .symlink link parent name =>
      ops.symlink.map (getFuseSymlinkOp P userdata req · link parent name)
  | .rename parent name newparent newname flags =>
      ops.rename.map (getFuseRenameOp P userdata req · parent name newparent newname flags)
  | .link ino parent newname => ops.link.map (getFuseLinkOp P userdata req · ino parent newname)
  | .open_ ino fi => ops.open_.map (getFuseOpenOp P userdata req · ino fi)
  | .read ino size off fi => ops.read.map (getFuseReadOp P userdata req · ino size off fi)
  | .write ino buf off fi => ops.write.map (getFuseWriteOp P userdata req · ino buf off fi)
  | .flush ino fi => ops.flush.map (getFuseFlushOp P userdata req · ino fi)
  | .release ino fi => ops.release.map (getFuseReleaseOp P userdata req · ino fi)
  | .fsync ino datasync fi => ops.fSync.map (getFuseFSyncOp P userdata req · ino datasync fi)
  | .opendir ino fi => ops.openDir.map (getFuseOpenDirOp P userdata req · ino fi)
  | .readdir ino size off fi => ops.readDir.map (getFuseReadDirOp P userdata req · ino size off fi)
  | .releasedir ino fi => ops.releaseDir.map (getFuseReleaseDirOp P userdata req · ino fi)
  | .fsyncdir ino datasync fi =>
      ops.fSyncDir.map (getFuseFSyncDirOp P userdata req · ino datasync fi)
  | .statfs ino => ops.statFS.map (getFuseStatFSOp P userdata req · ino)
  | .setxattr ino name value flags =>
      ops.setXAttr.map (getFuseSetXAttrOp P userdata req · ino name value flags)
  | .getxattr ino name size => ops.getXAttr.map (getFuseGetXAttrOp P userdata req · ino name size)
  | .listxattr ino size => ops.listXAttr.map (getFuseListXAttrOp P userdata req · ino size)
  | .removexattr ino name => ops.removeXAttr.map (getFuseRemoveXAttrOp P userdata req · ino name)
  | .access ino mask => ops.access.map (getFuseAccessOp P userdata req · ino mask)
  | .create ino name mode fi => ops.create.map (getFuseCreateOp P userdata req · ino name mode fi)
  | .getlk ino fi lock => ops.getLk.map (getFuseGetLkOp P userdata req · ino fi lock)
  | .setlk ino fi lock sleep => ops.setLk.map (getFuseSetLkOp P userdata req · ino fi lock sleep)
  | .bmap ino blocksize idx => ops.bMap.map (getFuseBMapOp P userdata req · ino blocksize idx)
  | .ioctl ino cmd arg fi flags inBuf outBufsz =>
      ops.iOCtl.map (getFuseIOCtlOp P userdata req · ino cmd arg fi flags inBuf outBufsz)
  | .poll ino fi ph => ops.poll.map (getFusePollOp P userdata req · ino fi ph)
  | .writeBuf ino inBuf off fi =>
      ops.writeBuf.map (getFuseWriteBufOp P userdata req · ino inBuf off fi)
  | .retrieveReply cookie ino offset bufv =>
      ops.retrieveReply.map (getFuseRetrieveReplyOp P userdata req · cookie ino offset bufv)
  | .forgetMulti forgets => ops.forgetMulti.map (getFuseForgetMultiOp P userdata req · forgets)
  | .flock ino fi op => ops.fLock.map (getFuseFLockOp P userdata req · ino fi op)
  | .fallocate ino mode offset length fi =>
      ops.fAllocate.map (getFuseFAllocateOp P userdata req · ino mode offset length fi)
  | .readdirplus ino size off fi =>
      ops.readDirPlus.map (getFuseReadDirPlusOp P userdata req · ino size off fi)
  | .copyFileRange inoIn offIn fiIn inoOut offOut fiOut len flags =>
      ops.copyFileRange.map
        (getFuseCopyFileRangeOp P userdata req · inoIn offIn fiIn inoOut offOut fiOut len flags)
  | .lseek ino off whence fi => ops.lSeek.map (getFuseLSeekOp P userdata req · ino off whence fi)

end Callbacks

end Pafs
