import Pafs.Syscalls

/-! `FuseRequest` and `FuseDirsBuilder` of `fuse.cc`. A `FuseRequest` owns the duty to
answer one `fuse_req_t`; it is empty once it has answered or has been moved from. -/
namespace Pafs
open Resumption

structure FuseRequest where
  req : Option FuseReq
  deriving DecidableEq

namespace FuseRequest

/-- The common body of the reply methods: nothing if the request is gone; otherwise the
libfuse call, after which the request is gone whether or not it was sent. -/
def send (P : Platform) (what : String) (reply : Reply) : Io FuseRequest Unit := do
  let self ← Routine.getLocal
  match self.req with
  | none => pure ()
  | some req => do
      let rc ← Routine.invoke (I := calls) (.fuseReply req reply)
      Routine.setLocal { req := none }
      Routine.ofExcept (errnoToStatus P rc what)

section Rules
variable {L : Type} {D : Discipline calls L} {P : Platform} {l : L} {what : String} {reply : Reply}

@[simp] theorem follows_send_some (req : FuseReq) (Q : Status → FuseRequest → L → Prop) :
    Routine.Follows D (send P what reply) ⟨some req⟩ l Q ↔
      D.allows l (.fuseReply req reply) ∧ ∀ rc, D.answers l (.fuseReply req reply) rc →
        Q (errnoToStatus P rc what) ⟨none⟩ (D.after l (.fuseReply req reply) rc) := Iff.rfl

@[simp] theorem follows_send_none (Q : Status → FuseRequest → L → Prop) :
    Routine.Follows D (send P what reply) ⟨none⟩ l Q ↔ Q (.ok ()) ⟨none⟩ l := Iff.rfl

end Rules

variable (P : Platform)

def replyAttr (attr : Stat) (attrTimeout : Duration) : Io FuseRequest Unit :=
  send P "fuse_reply_attr" (.attr attr attrTimeout)

def replyOpen (fi : FileInfo) : Io FuseRequest Unit := send P "fuse_reply_open" (.openFile fi)

def replyCreate (entry : EntryParam) (fi : FileInfo) : Io FuseRequest Unit :=
  send P "fuse_reply_create" (.create entry fi)

def replyErrno (errnum : Int) : Io FuseRequest Unit := send P "fuse_reply_err" (.err errnum)

def replyBuf (buf : Buffer) : Io FuseRequest Unit := send P "fuse_reply_buf" (.buf buf)

def replyEntry (param : EntryParam) : Io FuseRequest Unit := send P "fuse_reply_entry" (.entry param)

-- `std::string(link).c_str()` ends at the first zero byte
def replyReadLink (link : Bytes) : Io FuseRequest Unit :=
  send P "fuse_reply_readlink" (.readlink (link.takeWhile (· ≠ 0)))

def replyData (bufv : FuseBufVec) : Io FuseRequest Unit := send P "fuse_reply_data" (.data bufv)

def replyWrite (bytesWritten : Nat) : Io FuseRequest Unit :=
  send P "fuse_reply_write" (.write bytesWritten)

def replyStatFS (stbuf : StatVfs) : Io FuseRequest Unit := send P "fuse_reply_statfs" (.statfs stbuf)

def replyLock (lock : FLock) : Io FuseRequest Unit := send P "fuse_reply_lock" (.lock lock)

def replyLSeek (off : Int) : Io FuseRequest Unit := send P "fuse_reply_lseek" (.lseek off)

def replyPoll (revents : BitVec 16) : Io FuseRequest Unit := send P "fuse_reply_poll" (.poll revents)

def replyNone : Io FuseRequest Unit := do
  let self ← Routine.getLocal
  match self.req with
  | none => pure ()
  | some req => do
      let _ ← Routine.invoke (I := calls) (.fuseReply req .nothing)
      Routine.setLocal { req := none }

def replyFailure (status : Status) : Io FuseRequest Unit :=
  match status with
  | .ok _ => check .replyFailure false
  | .error st => do
      let self ← Routine.getLocal
      match self.req with
      | none => pure ()
      | some _ => (replyErrno P (failureErrno P st)).andFinally (Routine.setLocal { req := none })

def replyFailureAndLogIfNotOk (status : Status) : Io FuseRequest Unit :=
  match status with
  | .ok _ => pure ()
  | .error _ => do
      let _ ← (replyFailure P status).attempt
      pure ()

def replyAlwaysAndLogIfNotOk (status : Status) : Io FuseRequest Unit := do
  let _ ← (match status with
    | .ok _ => replyErrno P 0
    | .error _ => replyFailure P status).attempt
  pure ()

/-- `~FuseRequest`. -/
def destroy : Io FuseRequest Unit := do
  let self ← Routine.getLocal
  match self.req with
  | none => pure ()
  | some _ => do
      let _ ← (replyErrno P ECOMM).attempt
      pure ()

end FuseRequest

/-- `FuseDirsBuilder`: `buf_` is the list of the entries encoded in it. -/
structure FuseDirsBuilder where
  plus : Bool
  maxsize : Nat
  buf : List DirRecord
  deriving DecidableEq

namespace FuseDirsBuilder

/-- `buf_.size()`. -/
def size (d : FuseDirsBuilder) : Nat := (d.buf.map DirRecord.size).sum

/-- What an added entry does to the builder; the loop over a directory ends by it. -/
structure Grows (d d' : FuseDirsBuilder) : Prop where
  plus : d'.plus = d.plus
  maxsize : d'.maxsize = d.maxsize
  more : d.size < d'.size
  fits : d'.size ≤ d'.maxsize

def push (d : FuseDirsBuilder) (r : DirRecord) : FuseDirsBuilder := { d with buf := d.buf ++ [r] }

@[simp] theorem push_size (d : FuseDirsBuilder) (r : DirRecord) :
    (d.push r).size = d.size + r.size := by
  simp [push, size]

theorem grows_push (d : FuseDirsBuilder) (r : DirRecord) (pos : 0 < r.size)
    (fits : r.size + d.size ≤ d.maxsize) : d.Grows (d.push r) := by
  refine ⟨rfl, rfl, ?_, ?_⟩
  · rw [push_size]
    omega
  · rw [push_size]
    change d.size + r.size ≤ d.maxsize
    omega

variable {σ : Type}

/-- `AddDirEntry`; no builder in the result means that the entry does not fit. -/
def addDirEntry (P : Platform) (d : FuseDirsBuilder) (name : String) (param : EntryParam)
    (offset : Int) : Io σ (Option { d' : FuseDirsBuilder // d.Grows d' }) :=
  let nextEntrySize := P.direntSize d.plus name 0
  if fits : nextEntrySize + d.size ≤ d.maxsize then do
    let added := P.direntSize d.plus name nextEntrySize
    check .direntSize (added == nextEntrySize)
    pure (some ⟨d.push { name, param, offset, size := nextEntrySize },
      grows_push d _ (P.direntSize_pos d.plus name 0) fits⟩)
  else pure none

def reply (P : Platform) (d : FuseDirsBuilder) : Io FuseRequest Unit := do
  check .dirsFit (d.size ≤ d.maxsize)
  FuseRequest.replyBuf P (.dirs d.plus d.buf)

end FuseDirsBuilder

end Pafs
