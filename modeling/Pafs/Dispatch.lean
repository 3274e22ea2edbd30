import Pafs.FuseOps

/-! The callbacks of `PageAlignFS`, and the normal form shared by all of them: once the
pointer checks have passed, a callback is `callback` at one finishing style and one method. -/
namespace Pafs
open Resumption

def pageAlignFSOps : FuseOps PageAlignFS where
  lookup := some PageAlignFS.lookup
  forget := some fun _ => PageAlignFS.forget
  getAttr := some PageAlignFS.getAttr
  setAttr := some PageAlignFS.setAttr
  readLink := some PageAlignFS.readLink
  mknod := some PageAlignFS.mknod
  mkdir := some PageAlignFS.mkdir
  unlink := some PageAlignFS.unlink
  rmdir := some PageAlignFS.rmdir
  symlink := some PageAlignFS.symlink
  rename := some PageAlignFS.rename
  link := some PageAlignFS.link
  open_ := some PageAlignFS.open_
  read := some PageAlignFS.read
  flush := some PageAlignFS.flush
  release := some PageAlignFS.release
  fSync := some PageAlignFS.fSync
  openDir := some PageAlignFS.openDir
  readDir := some PageAlignFS.readDir
  releaseDir := some fun _ => PageAlignFS.releaseDir
  fSyncDir := some PageAlignFS.fSyncDir
  statFS := some PageAlignFS.statFS
  setXAttr := some PageAlignFS.setXAttr
  getXAttr := some PageAlignFS.getXAttr
  listXAttr := some PageAlignFS.listXAttr
  removeXAttr := some PageAlignFS.removeXAttr
  access := some PageAlignFS.access
  create := some PageAlignFS.create
  -- the methods below leave their `fuse_file_info` unread
  getLk := some fun fs ino _ lock => fs.getLk ino lock
  setLk := some fun fs ino _ lock sleep => fs.setLk ino lock sleep
  poll := some fun fs ino _ ph => fs.poll ino ph
  fLock := some fun fs ino _ op => fs.fLock ino op
  fAllocate := some fun fs ino mode offset length _ => fs.fAllocate ino mode offset length
  copyFileRange := some fun fs inoIn offIn _ inoOut offOut _ len flags =>
    fs.copyFileRange inoIn offIn inoOut offOut len flags
  lSeek := some fun fs ino off whence _ => fs.lSeek ino off whence
  writeBuf := some PageAlignFS.writeBuf
  forgetMulti := some fun _ => PageAlignFS.forgetMulti
  readDirPlus := some PageAlignFS.readDirPlus

/-- What libfuse runs for a request on a mounted `PageAlignFS`. -/
def PageAlignFS.serve (fs : PageAlignFS) (req : FuseReq) (r : Request) : Option Handler :=
  asFuseLowLevelOps fs.platform (some fs) req pageAlignFSOps r

def Opcode.finish : Opcode → Finish
  | .lookup | .getattr | .setattr | .readlink | .mknod | .mkdir | .symlink | .link | .open_
  | .opendir | .statfs | .getxattr | .listxattr | .create | .getlk | .setlk | .bmap | .ioctl
  | .poll | .copyFileRange | .lseek => .replyFailure
  | .unlink | .rmdir | .rename | .read | .write | .flush | .release | .fsync | .readdir
  | .releasedir | .fsyncdir | .setxattr | .removexattr | .access | .flock | .fallocate
  | .readdirplus => .replyAlways
  | .forget | .writeBuf | .retrieveReply | .forgetMulti => .replyNone

/-- The `fuse_file_info` pointers that the callback of a request checks. -/
def Request.checkedInfos : Request → List (Option FileInfo)
  | .setattr _ _ _ fi | .open_ _ fi | .read _ _ _ fi | .write _ _ _ fi | .flush _ fi
  | .release _ fi | .fsync _ _ fi | .opendir _ fi | .readdir _ _ _ fi | .releasedir _ fi
  | .fsyncdir _ _ fi | .create _ _ _ fi | .getlk _ fi _ | .setlk _ fi _ _
  | .ioctl _ _ _ fi _ _ _ | .poll _ fi _ | .flock _ fi _ | .fallocate _ _ _ _ fi
  | .readdirplus _ _ _ fi | .lseek _ _ _ fi => [fi]
  | .copyFileRange _ _ fiIn _ _ fiOut _ _ => [fiIn, fiOut]
  | _ => []

variable {T : Type}

/-- The method call a callback makes; none if the method is missing or a pointer is null. -/
def FuseOps.invocation (ops : FuseOps T) : Request → Option (T → Handler)
  | .lookup parent name => ops.lookup.map fun m t => m t parent name
  | .forget ino n => ops.forget.map fun m t => m t ino n
  | .getattr ino _ => ops.getAttr.map fun m t => m t ino
  | .setattr ino attr toSet (some fi) => ops.setAttr.map fun m t => m t ino attr toSet fi
  | .readlink ino => ops.readLink.map fun m t => m t ino
  | .mknod parent name mode rdev => ops.mknod.map fun m t => m t parent name mode rdev
  | .mkdir parent name mode => ops.mkdir.map fun m t => m t parent name mode
  | .unlink parent name => ops.unlink.map fun m t => m t parent name
  | .rmdir parent name => ops.rmdir.map fun m t => m t parent name
  | .symlink link parent name => ops.symlink.map fun m t => m t link parent name
  | .rename parent name newparent newname flags =>
      ops.rename.map fun m t => m t parent name newparent newname flags
  | .link ino parent newname => ops.link.map fun m t => m t ino parent newname
  | .open_ ino (some fi) => ops.open_.map fun m t => m t ino fi
  | .read ino size off (some fi) => ops.read.map fun m t => m t ino size off fi
  | .write ino buf off (some fi) => ops.write.map fun m t => m t ino buf off fi
  | .flush ino (some fi) => ops.flush.map fun m t => m t ino fi
  | .release ino (some fi) => ops.release.map fun m t => m t ino fi
  | .fsync ino datasync (some fi) => ops.fSync.map fun m t => m t ino (datasync != 0) fi
  | .opendir ino (some fi) => ops.openDir.map fun m t => m t ino fi
  | .readdir ino size off (some fi) => ops.readDir.map fun m t => m t ino size off fi
  | .releasedir ino (some fi) => ops.releaseDir.map fun m t => m t ino fi
  | .fsyncdir ino datasync (some fi) => ops.fSyncDir.map fun m t => m t ino (datasync != 0) fi
  | .statfs ino => ops.statFS.map fun m t => m t ino
  | .setxattr ino name value flags => ops.setXAttr.map fun m t => m t ino name value flags
  | .getxattr ino name size => ops.getXAttr.map fun m t => m t ino name size
  | .listxattr ino size => ops.listXAttr.map fun m t => m t ino size
  | .removexattr ino name => ops.removeXAttr.map fun m t => m t ino name
  | .access ino mask => ops.access.map fun m t => m t ino mask
  | .create ino name mode (some fi) => ops.create.map fun m t => m t ino name mode fi
  | .getlk ino (some fi) lock => ops.getLk.map fun m t => m t ino fi lock
  | .setlk ino (some fi) lock sleep => ops.setLk.map fun m t => m t ino fi lock (sleep != 0)
  | .bmap ino blocksize idx => ops.bMap.map fun m t => m t ino blocksize idx
  | .ioctl ino cmd arg (some fi) flags inBuf outBufsz =>
      ops.iOCtl.map fun m t => m t ino cmd arg fi flags inBuf outBufsz
  | .poll ino (some fi) ph => ops.poll.map fun m t => m t ino fi ph
  | .writeBuf ino inBuf off fi => ops.writeBuf.map fun m t => m t ino inBuf off fi
  | .retrieveReply cookie ino offset bufv =>
      ops.retrieveReply.map fun m t => m t cookie ino offset bufv
  | .forgetMulti forgets => ops.forgetMulti.map fun m t => m t forgets
  | .flock ino (some fi) op => ops.fLock.map fun m t => m t ino fi op
  | .fallocate ino mode offset length (some fi) =>
      ops.fAllocate.map fun m t => m t ino mode offset length fi
  | .readdirplus ino size off (some fi) => ops.readDirPlus.map fun m t => m t ino size off fi
  | .copyFileRange inoIn offIn (some fiIn) inoOut offOut (some fiOut) len flags =>
      ops.copyFileRange.map fun m t => m t inoIn offIn fiIn inoOut offOut fiOut len flags
  | .lseek ino off whence (some fi) => ops.lSeek.map fun m t => m t ino off whence fi
  | _ => none

section NormalForm
variable {P : Platform} {userdata : Option T} {req : FuseReq} {ops : FuseOps T} {r : Request}

theorem asFuseLowLevelOps_of_invocation {method : T → Handler}
    (h : ops.invocation r = some method) :
    asFuseLowLevelOps P userdata req ops r =
      some (callback P userdata req r.opcode.finish method) := by
  unfold FuseOps.invocation at h
  split at h
  case h_43 => cases h
  all_goals
    obtain ⟨m, hm, rfl⟩ := Option.map_eq_some_iff.mp h
    rw [asFuseLowLevelOps, hm]
    rfl

/-- A callback that is given a null pointer stops at its first check. -/
theorem asFuseLowLevelOps_of_null {handler : Handler}
    (h : asFuseLowLevelOps P userdata req ops r = some handler)
    (null : none ∈ r.checkedInfos) (s : FuseRequest) :
    ∃ next, handler s = .call (.abort .fileInfo) next := by
  unfold asFuseLowLevelOps at h
  split at h
  all_goals
    obtain ⟨m, -, rfl⟩ := Option.map_eq_some_iff.mp h
    simp only [Request.checkedInfos, List.mem_cons, List.not_mem_nil, or_false] at null
  case h_41 fiIn _ _ fiOut _ _ =>
      cases fiIn with
      | none => exact ⟨_, rfl⟩
      | some _ =>
          cases fiOut with
          | none => exact ⟨_, rfl⟩
          | some _ => simp at null
  all_goals
    subst null
    exact ⟨_, rfl⟩

theorem invocation_or_null {handler : Handler}
    (h : asFuseLowLevelOps P userdata req ops r = some handler) :
    (∃ method, ops.invocation r = some method) ∨ none ∈ r.checkedInfos := by
  cases r
  case copyFileRange fiIn _ _ fiOut _ _ =>
      obtain ⟨m, hm, -⟩ := Option.map_eq_some_iff.mp h
      cases fiIn with
      | none => exact .inr (by simp [Request.checkedInfos])
      | some _ =>
          cases fiOut with
          | none => exact .inr (by simp [Request.checkedInfos])
          | some _ => exact .inl ⟨_, Option.map_eq_some_iff.mpr ⟨m, hm, rfl⟩⟩
  all_goals
    obtain ⟨m, hm, -⟩ := Option.map_eq_some_iff.mp h
    first
    | exact .inl ⟨_, Option.map_eq_some_iff.mpr ⟨m, hm, rfl⟩⟩
    | cases ‹Option FileInfo› with
      | none => exact .inr (by simp [Request.checkedInfos])
      | some _ => exact .inl ⟨_, Option.map_eq_some_iff.mpr ⟨m, hm, rfl⟩⟩

end NormalForm

end Pafs
