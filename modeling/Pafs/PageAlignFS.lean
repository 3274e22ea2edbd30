import Pafs.FuseRequest

/-! The handlers of `page_align_fs.cc` and the `Inode` methods they use. Locals with
destructors are written out: `andFinally` where an object dies on every path, `onError`
where a normal return hands it on. -/
namespace Pafs
open Resumption

variable {σ : Type}

def internalError (message : String) : Error :=
  { code := .internal, message, payloads := [], notOk := by decide }

def failedPreconditionError (message : String) : Error :=
  { code := .failedPrecondition, message, payloads := [], notOk := by decide }

/-- `if (condition) RETURN_IF_ERROR(...)`. -/
def doIf (condition : Bool) (m : Io σ Unit) : Io σ Unit := if condition then m else pure ()

def statFD (P : Platform) (fd : Fd) : Io σ Stat :=
  Syscalls.fstatat P fd "" (AT_EMPTY_PATH ||| AT_SYMLINK_NOFOLLOW)

/-- The status with which the failed call was returned. -/
def VersionError.status (P : Platform) : VersionError → Error
  | .openFailed fd e => errnoError P e ("open('" ++ (Path.procSelfFd fd).text ++ "')")
  | .ioctlFailed fd e => abslErrnoToStatus P e (Syscalls.ioctlMessage fd FS_IOC_GETVERSION)

/-- A version, or the status of the failure. -/
def versionStatus (P : Platform) : Except VersionError Nat → StatusOr Nat
  | .ok v => .ok v
  | .error err => .error (err.status P)

def getFileVersionFromPathFD (fd : Fd) : Io σ (Except VersionError Nat) := do
  let opened ← Routine.invoke (I := calls) (.sys (.open_ (.procSelfFd fd) (O_RDONLY ||| O_CLOEXEC)))
  match opened with
  | .error e => pure (.error (.openFailed fd e))
  | .ok myfd => do
      let version ← Routine.invoke (I := calls) (.sys (.ioctl myfd FS_IOC_GETVERSION))
      FileDescriptor.destroy myfd
      match version with
      | .error e => pure (.error (.ioctlFailed myfd e))
      | .ok v => pure (.ok v)

namespace Inode

def create (P : Platform) (path : String) (parentFd : Fd) : Io σ Inode := do
  let fd ← Syscalls.openat P parentFd path (O_PATH ||| O_NOFOLLOW ||| O_CLOEXEC) 0
  let st ← (statFD P fd).onError (FileDescriptor.destroy fd)
  pure { fd, num := st.stIno, srcDevNum := st.stDev, generation := none, pollHandle := none }

/-- `~Inode`: the poll handle, then the descriptor. -/
def destroy (i : Inode) : Io σ Unit := do
  match i.pollHandle with
    | some ph => Routine.invoke (I := calls) (.destroyPollHandle ph)
    | none => pure ()
  FileDescriptor.destroy i.fd

/-- `GetGeneration`: the memoised result, errors included, or a new one. -/
def getGeneration (P : Platform) (r : InodeRef) : Io σ Nat := do
  let memo ← Routine.invoke (I := calls) (.getGeneration r)
  match memo with
  | some v => Routine.ofExcept (versionStatus P v)
  | none => do
      let fd ← Routine.invoke (I := calls) (.getFD r)
      let v ← getFileVersionFromPathFD fd
      Routine.invoke (I := calls) (.setGeneration r v)
      Routine.ofExcept (versionStatus P v)

def addPollHandle (r : InodeRef) (handle : Option PollPtr) : Io σ Unit :=
  match handle with
  | none => pure ()
  | some ph => do
      -- the moves are swaps: the old handle dies with the parameter
      let old ← Routine.invoke (I := calls) (.addPollHandle r ph)
      match old with
      | none => pure ()
      | some o => Routine.invoke (I := calls) (.destroyPollHandle o)

def notifyPollEvent (P : Platform) (r : InodeRef) : Io σ Unit := do
  let present ← Routine.invoke (I := calls) (.pollHandle r)
  match present with
  | none => pure ()
  | some _ => do
      let handle ← Routine.invoke (I := calls) (.pollHandle r)
      match handle with
      | none => pure ()
      | some ph => do
          let rc ← Routine.invoke (I := calls) (.notifyPoll ph)
          Routine.ofExcept (errnoToStatus P rc "fuse_lowlevel_notify_poll")

end Inode

/-- The tail of `Unref`: what is done with each outcome of the cache operation. -/
def Unrefed.settle : Unrefed → Io σ Unit
  | .missing key => Routine.fail (internalError
      ("Was asked to unref inode " ++ toString key.2 ++ " tracking src device " ++
        toString key.1 ++ " which we don't have an entry for"))
  | .checkFailed => check .unrefCount false
  | .dropped none => pure ()
  | .dropped (some i) => i.destroy

namespace Inodes

def ref (r : InodeRef) (ntimes : Nat) : Io σ Unit := do
  let rc ← Routine.invoke (I := calls) (.ref r ntimes)
  match rc with
  | none => pure ()
  | some key => Routine.fail (internalError
      ("Was asked to ref inode " ++ toString key.2 ++ " tracking src device " ++
        toString key.1 ++ " which we don't have an entry for"))

def unref (site : UnrefSite) (r : InodeRef) (ntimes : Nat) : Io σ Unit := do
  let rc ← Routine.invoke (I := calls) (.unref site r ntimes)
  rc.settle

/-- The last copy of a `shared_ptr` made by `Insert` dies; its deleter logs a failed
`Unref` and goes on. -/
def dropShared (inode : Addr) : Io σ Unit := do
  let _ ← (do
    let rc ← Routine.invoke (I := calls) (.dropShared inode)
    rc.settle).attempt
  pure ()

def dropAllShared : List Addr → Io σ Unit
  | [] => pure ()
  | inode :: rest => do
      dropShared inode
      dropAllShared rest

/-- The cleanup of `ReadDirInternal`: one `Unref` per listed inode, failures logged. -/
def unrefAll : List Addr → Io σ Unit
  | [] => pure ()
  | inode :: rest => do
      let _ ← (unref .cleanup (.node inode) 1).attempt
      unrefAll rest

/-- `Insert` of an inode; on a hit the duplicate dies with the parameter. -/
def insert (inode : Inode) : Io σ Addr := do
  let r ← Routine.invoke (I := calls) (.insert inode)
  doIf (!r.fresh) inode.destroy
  pure r.addr

end Inodes

structure Options where
  kernelEntryTimeout : Duration
  kernelAttributeTimeout : Duration

/-- `PageAlignFS` less its mutable members `root_` and `inodes_`, which live in the world
that the calls act on. -/
structure PageAlignFS where
  platform : Platform
  opts : Options

def getInode (ino : Addr) : InodeRef := if ino = FUSE_ROOT_ID then .root else .node ino

namespace PageAlignFS
open Routine (invoke)

variable (fs : PageAlignFS)

def findOrCreateInode (parent : InodeRef) (path : String) : Io σ Addr := do
  let parentFd ← invoke (I := calls) (.getFD parent)
  let inode ← Inode.create fs.platform path parentFd
  Inodes.insert inode

def createFuseEntryParam (inode : Addr) (withGeneration : Bool) : Io σ EntryParam := do
  let fd ← invoke (I := calls) (.getFD (.node inode))
  let attr ← statFD fs.platform fd
  let param : EntryParam :=
    { ino := inode, generation := none, attr,
      attrTimeout := fs.opts.kernelAttributeTimeout, entryTimeout := fs.opts.kernelEntryTimeout }
  if withGeneration then do
    let generation ← Inode.getGeneration fs.platform (.node inode)
    pure { param with generation := some generation }
  else pure param

/-- The body that `ReplyWithCreate` and `ReplyWithLookup` share; they differ in the reply. -/
def replyWithEntry (parent : InodeRef) (name : String) (reply : EntryParam → Io FuseRequest Unit) :
    Io FuseRequest Unit := do
  let inode ← fs.findOrCreateInode parent name
  Routine.andFinally (do
    let parentDevice ← invoke (I := calls) (.getSourceDevice parent)
    let device ← invoke (I := calls) (.getSourceDevice (.node inode))
    if parentDevice ≠ device then
      Routine.fail (failedPreconditionError "PageAlignFS cannot span multiple source mounts")
    else do
      let param ← fs.createFuseEntryParam inode true
      Inodes.ref (.node inode) 1
      -- the cleanup that undoes the Ref is cancelled once the reply has been sent
      (reply param).onError (Inodes.unref .cleanup (.node inode) 1)) (Inodes.dropShared inode)

def replyWithCreate (parent : InodeRef) (name : String) (fi : FileInfo) : Io FuseRequest Unit :=
  fs.replyWithEntry parent name fun param => FuseRequest.replyCreate fs.platform param fi

def replyWithLookup (parent : InodeRef) (name : String) : Io FuseRequest Unit :=
  fs.replyWithEntry parent name fun param => FuseRequest.replyEntry fs.platform param

def replyWithAttrs (inode : InodeRef) : Io FuseRequest Unit := do
  let fd ← invoke (I := calls) (.getFD inode)
  let attrs ← statFD fs.platform fd
  FuseRequest.replyAttr fs.platform attrs fs.opts.kernelEntryTimeout

def forget (ino : Addr) (nlookup : Nat) : Io FuseRequest Unit := do
  let inode := getInode ino
  invoke (I := calls) (.logInode inode)
  Inodes.unref .forget inode nlookup

def forgetMulti : List ForgetData → Io FuseRequest Unit
  | [] => pure ()
  | forget :: forgets => do
      Inodes.unref .forget (getInode forget.ino) forget.nlookup
      forgetMulti forgets

def lookup (parent : Addr) (name : String) : Io FuseRequest Unit := do
  let parentIno := getInode parent
  invoke (I := calls) (.logInode parentIno)
  fs.replyWithLookup parentIno name

def getAttr (ino : Addr) : Io FuseRequest Unit := do
  let inode := getInode ino
  invoke (I := calls) (.logInode inode)
  fs.replyWithAttrs inode

def setMode (fd : Fd) (attr : Stat) (toSet : Flags) : Io σ Unit :=
  doIf (toSet.has FUSE_SET_ATTR_MODE) (Syscalls.fchmod fs.platform fd attr.stMode)

def setOwner (fd : Fd) (attr : Stat) (toSet : Flags) : Io σ Unit :=
  doIf (toSet.has (FUSE_SET_ATTR_UID ||| FUSE_SET_ATTR_GID))
    (Syscalls.fchownat fs.platform fd ""
      (if toSet.has FUSE_SET_ATTR_UID then attr.stUid else kKeepOwner)
      (if toSet.has FUSE_SET_ATTR_GID then attr.stGid else kKeepOwner)
      (AT_EMPTY_PATH ||| AT_SYMLINK_NOFOLLOW))

def setSize (fd : Fd) (attr : Stat) (toSet : Flags) : Io σ Unit :=
  doIf (toSet.has FUSE_SET_ATTR_SIZE) (Syscalls.ftruncate fs.platform fd attr.stSize)

/-- The `timespec` passed for one of the two times. -/
def chooseTime (now given : Bool) (time : Timespec) : Timespec :=
  if now then { tvSec := 0, tvNsec := UTIME_NOW }
  else if given then time
  else { tvSec := 0, tvNsec := UTIME_OMIT }

def setTimes (fd : Fd) (attr : Stat) (toSet : Flags) : Io σ Unit :=
  doIf (toSet.has (FUSE_SET_ATTR_ATIME ||| FUSE_SET_ATTR_MTIME))
    (Syscalls.futimens fs.platform fd
      (chooseTime (toSet.has FUSE_SET_ATTR_ATIME_NOW) (toSet.has FUSE_SET_ATTR_ATIME) attr.stAtim)
      (chooseTime (toSet.has FUSE_SET_ATTR_MTIME_NOW) (toSet.has FUSE_SET_ATTR_MTIME) attr.stMtim))

/-- `SetAttr` from the point where it has a descriptor. -/
def setAttrOn (inode : InodeRef) (fd : Fd) (attr : Stat) (toSet : Flags) : Io FuseRequest Unit := do
  fs.setMode fd attr toSet
  fs.setOwner fd attr toSet
  fs.setSize fd attr toSet
  fs.setTimes fd attr toSet
  fs.replyWithAttrs inode

def setAttr (ino : Addr) (attr : Stat) (toSet : Flags) (fi : FileInfo) : Io FuseRequest Unit := do
  let inode := getInode ino
  invoke (I := calls) (.logInode inode)
  if fi.fh = 0 then do
    let inodeFd ← invoke (I := calls) (.getFD inode)
    let myfd ← Syscalls.open_ fs.platform (.procSelfFd inodeFd) (O_RDONLY ||| O_CLOEXEC)
    (fs.setAttrOn inode myfd attr toSet).andFinally (FileDescriptor.destroy myfd)
  else fs.setAttrOn inode fi.fh attr toSet

def readLink (ino : Addr) : Io FuseRequest Unit := do
  let inode := getInode ino
  invoke (I := calls) (.logInode inode)
  let fd ← invoke (I := calls) (.getFD inode)
  let buf ← Syscalls.readlinkat fs.platform fd "" (PATH_MAX + 1)
  if buf.length = PATH_MAX + 1 then
    Routine.fail (errnoError fs.platform ⟨ENAMETOOLONG, by decide, by decide⟩ "Path too long")
  else FuseRequest.replyReadLink fs.platform buf

def openDir (ino : Addr) (fi : FileInfo) : Io FuseRequest Unit := do
  let inode := getInode ino
  invoke (I := calls) (.logInode inode)
  let fd ← invoke (I := calls) (.getFD inode)
  let dirfd ← Syscalls.openat fs.platform fd "." (O_DIRECTORY ||| O_NOFOLLOW ||| O_CLOEXEC) 0
  -- fdopendir is given a released descriptor, so nothing closes it when it fails
  let d ← Syscalls.fdopendir fs.platform dirfd
  let dir ← invoke (I := calls) (.newDirectory d)
  FuseRequest.replyOpen fs.platform { fi with fh := dir }

def releaseDir (ino : Addr) (fi : FileInfo) : Io FuseRequest Unit := do
  let inode := getInode ino
  invoke (I := calls) (.logInode inode)
  let d ← invoke (I := calls) (.deleteDirectory fi.fh.toNat)
  Directory.destroy d

/-- What one round of the loop in `ReadDirInternal` ends with: the loop is left, or an
entry was added, with the inode that was pushed to the vector of references. -/
inductive ReadDirRound (dirs : FuseDirsBuilder) where
  | stop
  | added (next : FuseDirsBuilder) (grows : dirs.Grows next) (inode : Option Addr)

def readDirRound (dirInode : InodeRef) (dir : DirPtr) (dirs : FuseDirsBuilder) :
    Io σ (ReadDirRound dirs) := do
  let entry ← Syscalls.readdir fs.platform dir
  match entry with
  | none => pure .stop
  | some entry => do
      let inode ← fs.findOrCreateInode dirInode entry.dName
      let next ← Routine.onError (do
        let param ← fs.createFuseEntryParam inode dirs.plus
        let next ← dirs.addDirEntry fs.platform entry.dName param entry.dOff
        match next with
        | none => pure none
        | some next => do
            doIf dirs.plus (Inodes.ref (.node inode) 1)
            pure (some next)) (Inodes.dropShared inode)
      match next with
      | none => do
          Inodes.dropShared inode
          pure .stop
      | some ⟨next, grows⟩ =>
          if dirs.plus then pure (.added next grows (some inode))
          else do
            Inodes.dropShared inode
            pure (.added next grows none)

/-- The loop of `ReadDirInternal`. Every added entry takes room in the buffer, so the room
that is left bounds the rounds. The vector `inodes` outlives an early return, which is
why it is part of the result. -/
def readDirLoop (dirInode : InodeRef) (dir : DirPtr) :
    (room : Nat) → (dirs : FuseDirsBuilder) → (inodes : List Addr) →
    dirs.maxsize - dirs.size < room → Io σ (StatusOr FuseDirsBuilder × List Addr)
  | 0, _, _, h => absurd h (Nat.not_lt_zero _)
  | room + 1, dirs, inodes, h => do
      let round ← (fs.readDirRound dirInode dir dirs).attempt
      match round with
      | .error e => pure (.error e, inodes)
      | .ok .stop => pure (.ok dirs, inodes)
      | .ok (.added next grows inode) =>
          readDirLoop dirInode dir room next (inodes ++ inode.toList)
            (by have := grows.maxsize; have := grows.more; have := grows.fits; omega)

def readDirInternal (dirInode : InodeRef) (size : Nat) (off : Int) (fi : FileInfo) (plus : Bool) :
    Io FuseRequest Unit := do
  let dir ← invoke (I := calls) (.derefDirectory fi.fh.toNat)
  Syscalls.seekdir dir off
  let dirs : FuseDirsBuilder := { plus, maxsize := size, buf := [] }
  let (listed, inodes) ← fs.readDirLoop dirInode dir (size + 1) dirs [] (Nat.lt_succ_of_le (Nat.sub_le _ _))
  Routine.andFinally
    (Routine.onError (do
      let dirs ← Routine.ofExcept listed
      dirs.reply fs.platform) (Inodes.unrefAll inodes))
    (Inodes.dropAllShared inodes)

def readDir (ino : Addr) (size : Nat) (off : Int) (fi : FileInfo) : Io FuseRequest Unit := do
  let inode := getInode ino
  invoke (I := calls) (.logInode inode)
  fs.readDirInternal inode size off fi false

def readDirPlus (ino : Addr) (size : Nat) (off : Int) (fi : FileInfo) : Io FuseRequest Unit := do
  let inode := getInode ino
  invoke (I := calls) (.logInode inode)
  fs.readDirInternal inode size off fi true

def mknod (parent : Addr) (name : String) (mode : Nat) (rdev : Dev) : Io FuseRequest Unit := do
  let parentIno := getInode parent
  invoke (I := calls) (.logInode parentIno)
  let fd ← invoke (I := calls) (.getFD parentIno)
  Syscalls.mknodat fs.platform fd name mode rdev
  fs.replyWithLookup parentIno name

def mkdir (parent : Addr) (name : String) (mode : Nat) : Io FuseRequest Unit := do
  let parentIno := getInode parent
  invoke (I := calls) (.logInode parentIno)
  let fd ← invoke (I := calls) (.getFD parentIno)
  Syscalls.mkdirat fs.platform fd name mode
  fs.replyWithLookup parentIno name

def unlink (ino : Addr) (name : String) : Io FuseRequest Unit := do
  let inode := getInode ino
  invoke (I := calls) (.logInode inode)
  let fd ← invoke (I := calls) (.getFD inode)
  Syscalls.unlinkat fs.platform fd name 0

def rmdir (ino : Addr) (name : String) : Io FuseRequest Unit := do
  let inode := getInode ino
  invoke (I := calls) (.logInode inode)
  let fd ← invoke (I := calls) (.getFD inode)
  Syscalls.unlinkat fs.platform fd name AT_REMOVEDIR

def symlink (link : String) (parent : Addr) (name : String) : Io FuseRequest Unit := do
  let parentIno := getInode parent
  invoke (I := calls) (.logInode parentIno)
  let fd ← invoke (I := calls) (.getFD parentIno)
  Syscalls.symlinkat fs.platform link fd name
  fs.replyWithLookup parentIno name

def rename (parent : Addr) (name : String) (newparent : Addr) (newname : String) (flags : Flags) :
    Io FuseRequest Unit := do
  let parentIno := getInode parent
  let newparentIno := getInode newparent
  invoke (I := calls) (.logInode parentIno)
  invoke (I := calls) (.logInode newparentIno)
  let fd ← invoke (I := calls) (.getFD parentIno)
  let newfd ← invoke (I := calls) (.getFD newparentIno)
  Syscalls.renameat2 fs.platform fd name newfd newname flags

def link (ino : Addr) (newparent : Addr) (newname : String) : Io FuseRequest Unit := do
  let inode := getInode ino
  let newparentIno := getInode newparent
  invoke (I := calls) (.logInode inode)
  invoke (I := calls) (.logInode newparentIno)
  let fd ← invoke (I := calls) (.getFD inode)
  let newfd ← invoke (I := calls) (.getFD newparentIno)
  Syscalls.linkat fs.platform fd "" newfd newname AT_EMPTY_PATH
  fs.replyWithLookup newparentIno newname

/-- The members that `Open` and `Create` fill in before they reply. -/
def openedInfo (fi : FileInfo) (fd : Fd) : FileInfo :=
  { fi with
    noflush := fi.flags &&& O_ACCMODE == O_RDONLY
    parallelDirectWrites := true
    fh := fd }

def open_ (ino : Addr) (fi : FileInfo) : Io FuseRequest Unit := do
  let inode := getInode ino
  invoke (I := calls) (.logInode inode)
  let inodeFd ← invoke (I := calls) (.getFD inode)
  let fd ← Syscalls.open_ fs.platform (.procSelfFd inodeFd)
    ((fi.flags ||| O_CLOEXEC) &&& ~~~O_NOFOLLOW)
  (FuseRequest.replyOpen fs.platform (openedInfo fi fd)).onError (FileDescriptor.destroy fd)

def release (ino : Addr) (fi : FileInfo) : Io FuseRequest Unit := do
  let inode := getInode ino
  invoke (I := calls) (.logInode inode)
  Syscalls.close fs.platform fi.fh

def read (ino : Addr) (size : Nat) (off : Int) (fi : FileInfo) : Io FuseRequest Unit := do
  let inode := getInode ino
  invoke (I := calls) (.logInode inode)
  FuseRequest.replyData fs.platform [{ size, fd := some fi.fh, pos := off }]

def writeBuf (ino : Addr) (inBuf : FuseBufVec) (off : Int) (fi : FileInfo) : Io FuseRequest Unit := do
  let inode := getInode ino
  let bufsiz := fuseBufSize inBuf
  invoke (I := calls) (.logInode inode)
  let outBuf : FuseBufVec := [{ size := bufsiz, fd := some fi.fh, pos := off }]
  let copied ← invoke (I := calls) (.fuseBufCopy outBuf inBuf)
  match copied with
  | .error e => Routine.fail (errnoError fs.platform e "fuse_buf_copy")
  | .ok nb => do
      let ret ← (FuseRequest.replyWrite fs.platform nb).attempt
      let _ ← (Inode.notifyPollEvent fs.platform inode).attempt
      Routine.ofExcept ret

def flush (ino : Addr) (fi : FileInfo) : Io FuseRequest Unit := do
  let inode := getInode ino
  invoke (I := calls) (.logInode inode)
  let fd ← Syscalls.dup fs.platform fi.fh
  Syscalls.close fs.platform fd

/-- `fdatasync` or `fsync`, as `FSync` and `FSyncDir` choose. -/
def syncFd (datasync : Bool) (fd : Fd) : Io σ Unit :=
  if datasync then Syscalls.fdatasync fs.platform fd else Syscalls.fsync fs.platform fd

def fSync (ino : Addr) (datasync : Bool) (fi : FileInfo) : Io FuseRequest Unit := do
  let inode := getInode ino
  invoke (I := calls) (.logInode inode)
  fs.syncFd datasync fi.fh

def fSyncDir (ino : Addr) (datasync : Bool) (fi : FileInfo) : Io FuseRequest Unit := do
  let inode := getInode ino
  invoke (I := calls) (.logInode inode)
  let dir ← invoke (I := calls) (.derefDirectory fi.fh.toNat)
  let dfd ← Syscalls.dirfd fs.platform dir
  fs.syncFd datasync dfd

def statFS (ino : Addr) : Io FuseRequest Unit := do
  let inode := getInode ino
  invoke (I := calls) (.logInode inode)
  let fd ← invoke (I := calls) (.getFD inode)
  let stbuf ← Syscalls.fstatvfs fs.platform fd
  FuseRequest.replyStatFS fs.platform stbuf

def setXAttr (ino : Addr) (name : String) (value : Bytes) (flags : Flags) : Io FuseRequest Unit := do
  let inode := getInode ino
  invoke (I := calls) (.logInode inode)
  let fd ← invoke (I := calls) (.getFD inode)
  Syscalls.setxattr fs.platform (.procSelfFd fd) name value flags

def getXAttr (ino : Addr) (name : String) (size : Nat) : Io FuseRequest Unit := do
  let inode := getInode ino
  invoke (I := calls) (.logInode inode)
  let fd ← invoke (I := calls) (.getFD inode)
  let buf ← Syscalls.getxattr fs.platform (.procSelfFd fd) name size
  check .getXAttrBuffer (buf.length ≤ size)
  FuseRequest.replyBuf fs.platform (.bytes buf)

def listXAttr (ino : Addr) (size : Nat) : Io FuseRequest Unit := do
  let inode := getInode ino
  invoke (I := calls) (.logInode inode)
  let fd ← invoke (I := calls) (.getFD inode)
  let r ← Syscalls.listxattr fs.platform (.procSelfFd fd) size
  -- the check comes before the resize, when `buf` still has the size it was made with
  check .listXAttrBuffer ((List.replicate size (0 : UInt8)).length ≤ size)
  FuseRequest.replyBuf fs.platform (.bytes (Syscalls.resized size r.written r.nb))

def removeXAttr (ino : Addr) (name : String) : Io FuseRequest Unit := do
  let inode := getInode ino
  invoke (I := calls) (.logInode inode)
  let fd ← invoke (I := calls) (.getFD inode)
  Syscalls.removexattr fs.platform (.procSelfFd fd) name

def access (ino : Addr) (mask : Flags) : Io FuseRequest Unit := do
  let inode := getInode ino
  invoke (I := calls) (.logInode inode)
  let fd ← invoke (I := calls) (.getFD inode)
  Syscalls.access fs.platform (.procSelfFd fd) mask

def create (ino : Addr) (name : String) (mode : Nat) (fi : FileInfo) : Io FuseRequest Unit := do
  let inode := getInode ino
  invoke (I := calls) (.logInode inode)
  let inodeFd ← invoke (I := calls) (.getFD inode)
  let fd ← Syscalls.openat fs.platform inodeFd name
    ((fi.flags ||| O_CLOEXEC ||| O_CREAT) &&& ~~~O_NOFOLLOW) mode
  (fs.replyWithCreate inode name (openedInfo fi fd)).onError (FileDescriptor.destroy fd)

def getLk (ino : Addr) (lock : FLock) : Io FuseRequest Unit := do
  let inode := getInode ino
  invoke (I := calls) (.logInode inode)
  let fd ← invoke (I := calls) (.getFD inode)
  let lock ← Syscalls.fcntl fs.platform fd F_GETLK lock
  FuseRequest.replyLock fs.platform lock

def setLk (ino : Addr) (lock : FLock) (sleep : Bool) : Io FuseRequest Unit := do
  let inode := getInode ino
  invoke (I := calls) (.logInode inode)
  let fd ← invoke (I := calls) (.getFD inode)
  let _ ← Syscalls.fcntl fs.platform fd (if sleep then F_SETLKW else F_SETLK) lock
  pure ()

def fLock (ino : Addr) (op : Flags) : Io FuseRequest Unit := do
  let inode := getInode ino
  invoke (I := calls) (.logInode inode)
  let fd ← invoke (I := calls) (.getFD inode)
  Syscalls.flock fs.platform fd op

def fAllocate (ino : Addr) (mode : Flags) (offset length : Int) : Io FuseRequest Unit := do
  let inode := getInode ino
  invoke (I := calls) (.logInode inode)
  let fd ← invoke (I := calls) (.getFD inode)
  Syscalls.fallocate fs.platform fd mode offset length

def copyFileRange (inoIn : Addr) (offIn : Int) (inoOut : Addr) (offOut : Int) (len : Nat)
    (flags : Flags) : Io FuseRequest Unit := do
  let inodeIn := getInode inoIn
  let inodeOut := getInode inoOut
  invoke (I := calls) (.logInode inodeIn)
  invoke (I := calls) (.logInode inodeOut)
  let fdIn ← invoke (I := calls) (.getFD inodeIn)
  let fdOut ← invoke (I := calls) (.getFD inodeOut)
  let nb ← Syscalls.copyFileRange fs.platform fdIn offIn fdOut offOut len flags
  FuseRequest.replyWrite fs.platform nb

def lSeek (ino : Addr) (off : Int) (whence : Flags) : Io FuseRequest Unit := do
  let inode := getInode ino
  invoke (I := calls) (.logInode inode)
  let fd ← invoke (I := calls) (.getFD inode)
  let nextOff ← Syscalls.lseek fs.platform fd off whence
  FuseRequest.replyLSeek fs.platform nextOff

/-- POLLIN | POLLPRI | POLLOUT | POLLRDHUP | POLLERR | POLLHUP | POLLNVAL. -/
def pollEvents : BitVec 16 := 0x203f

def poll (ino : Addr) (ph : Option PollPtr) : Io FuseRequest Unit := do
  let inode := getInode ino
  invoke (I := calls) (.logInode inode)
  Inode.addPollHandle inode ph
  let fd ← invoke (I := calls) (.getFD inode)
  let (readyFds, revents) ← Syscalls.poll fs.platform fd pollEvents
  check .pollCount (readyFds ≤ 1)
  FuseRequest.replyPoll fs.platform revents

end PageAlignFS

end Pafs
