import Pafs.Attributes
import Pafs.Resumption.Hiding

/-! What the daemon is for. Seen from outside, an operation is a few calls on the source
directory: the first one that fails decides the reply, and if none fails the reply is made
of what they returned. -/
namespace Pafs
open Resumption
open Routine (invoke)

/-- An operation without the daemon. -/
abbrev Plan := Routine calls Unit Errno Reply

namespace Plan

def host (c : Sys) : Routine calls Unit Errno c.Ret := do
  let rc ← invoke (I := calls) (.sys c)
  match rc with
  | .error e => Routine.fail e
  | .ok v => pure v

/-- A call of which only the success is reported. -/
def obey (m : Routine calls Unit Errno Unit) : Plan := do
  m
  pure (.err 0)

def ask {α : Type} (m : Routine calls Unit Errno α) (answer : α → Reply) : Plan := do
  let v ← m
  pure (answer v)

end Plan

/-- What an outcome is reported as. -/
def Finish.report (P : Platform) (finish : Finish) : Except Errno Reply → Reply
  | .ok reply => reply
  | .error e => finish.reply P (.error (errnoError P e ""))

/-- The reply to a failed call has the number of its error. -/
theorem Finish.report_named {P : Platform} {finish : Finish} {e : Errno} (named : RoundTrips P e.num)
    (answers : finish ≠ .replyNone) : finish.report P (.error e) = .err e.num := by
  have same : failureErrno P (errnoError P e "") = e.num := failureErrno_errnoError P e "" named
  cases finish with
  | replyNone => exact absurd rfl answers
  | replyAlways => exact congrArg Reply.err same
  | replyFailure => exact congrArg Reply.err same

/-- The plan, and the one reply that reports its outcome. -/
def Plan.report (p : Plan) (P : Platform) (req : FuseReq) (finish : Finish) : Prog calls Unit :=
  (p ()).bind fun r => .call (.fuseReply req (finish.report P r.1)) fun _ => .done ()

section Plans
open Plan

theorem ENAMETOOLONG_ne : ENAMETOOLONG ≠ 0 := by decide

theorem ENAMETOOLONG_inInt : -2147483648 ≤ ENAMETOOLONG ∧ ENAMETOOLONG < 2147483648 := by decide

variable (fdOf : InodeRef → Fd) (dirOf : Addr → DirPtr)

/-- The operations that need no new inode. -/
def Request.plan : Request → Option Plan
  | .readlink ino => some do
      let target ← host (.readlinkat (fdOf (getInode ino)) "" (PATH_MAX + 1))
      -- a target that fills the buffer may have been cut off
      if target.length = PATH_MAX + 1 then Routine.fail ⟨ENAMETOOLONG, ENAMETOOLONG_ne, ENAMETOOLONG_inInt⟩
      else pure (.readlink (target.takeWhile (· ≠ 0)))
  | .unlink parent name => some (obey (host (.unlinkat (fdOf (getInode parent)) name 0)))
  | .rmdir parent name => some (obey (host (.unlinkat (fdOf (getInode parent)) name AT_REMOVEDIR)))
  | .rename parent name newparent newname flags => some (obey (host
      (.renameat2 (fdOf (getInode parent)) name (fdOf (getInode newparent)) newname flags)))
  | .open_ ino (some fi) => some (ask
      (host (.open_ (.procSelfFd (fdOf (getInode ino))) ((fi.flags ||| O_CLOEXEC) &&& ~~~O_NOFOLLOW)))
      fun fd => .openFile (PageAlignFS.openedInfo fi fd))
  | .read _ size off (some fi) => some (pure (.data [{ size, fd := some fi.fh, pos := off }]))
  | .writeBuf _ inBuf off fi => some do
      let copied ← invoke (I := calls)
        (.fuseBufCopy [{ size := fuseBufSize inBuf, fd := some fi.fh, pos := off }] inBuf)
      let nb ← Routine.ofExcept copied
      pure (.write nb)
  | .flush _ (some fi) => some do
      let fd ← host (.dup fi.fh)
      obey (host (.close fd false))
  | .release _ (some fi) => some (obey (host (.close fi.fh false)))
  | .fsync _ datasync (some fi) => some (obey
      (if datasync != 0 then host (.fdatasync fi.fh) else host (.fsync fi.fh)))
  | .opendir ino (some fi) => some do
      let fd ← host (.openat (fdOf (getInode ino)) "." (O_DIRECTORY ||| O_NOFOLLOW ||| O_CLOEXEC) 0)
      let d ← host (.fdopendir fd)
      let dir ← invoke (I := calls) (.newDirectory d)
      pure (.openFile { fi with fh := dir })
  | .releasedir _ (some fi) => some do
      -- closedir(3) lets the stream go even when it fails
      let _ ← invoke (I := calls) (.sys (.closedir (dirOf fi.fh.toNat)))
      pure (.err 0)
  | .fsyncdir _ datasync (some fi) => some do
      let fd ← host (.dirfd (dirOf fi.fh.toNat))
      obey (if datasync != 0 then host (.fdatasync fd) else host (.fsync fd))
  | .statfs ino => some (ask (host (.fstatvfs (fdOf (getInode ino)))) .statfs)
  | .setxattr ino name value flags =>
      some (obey (host (.setxattr (.procSelfFd (fdOf (getInode ino))) name value flags)))
  | .getxattr ino name size => some (ask (host (.getxattr (.procSelfFd (fdOf (getInode ino))) name size))
      fun r => .buf (.bytes (Syscalls.resized size r.written r.nb)))
  | .listxattr ino size => some (ask (host (.listxattr (.procSelfFd (fdOf (getInode ino))) size))
      fun r => .buf (.bytes (Syscalls.resized size r.written r.nb)))
  | .removexattr ino name => some (obey (host (.removexattr (.procSelfFd (fdOf (getInode ino))) name)))
  | .access ino mask => some (obey (host (.access (.procSelfFd (fdOf (getInode ino))) mask)))
  | .getlk ino _ lock => some (ask (host (.fcntl (fdOf (getInode ino)) F_GETLK lock)) .lock)
  | .flock ino _ op => some (obey (host (.flock (fdOf (getInode ino)) op)))
  | .fallocate ino mode offset length _ =>
      some (obey (host (.fallocate (fdOf (getInode ino)) mode offset length)))
  | .copyFileRange inoIn offIn _ inoOut offOut _ len flags => some (ask
      (host (.copyFileRange (fdOf (getInode inoIn)) offIn (fdOf (getInode inoOut)) offOut len flags)) .write)
  | .lseek ino off whence _ => some (ask (host (.lseek (fdOf (getInode ino)) off whence)) .lseek)
  | .poll ino _ _ => some (ask (host (.poll (fdOf (getInode ino)) PageAlignFS.pollEvents))
      fun polled => .poll polled.2)
  | _ => none

/-- The call by which an operation makes a directory entry, and where it makes it. -/
def Request.creation : Request → Option (Sys × Addr × String)
  | .mknod parent name mode rdev => some (.mknodat (fdOf (getInode parent)) name mode rdev, parent, name)
  | .mkdir parent name mode => some (.mkdirat (fdOf (getInode parent)) name mode, parent, name)
  | .symlink target parent name => some (.symlinkat target (fdOf (getInode parent)) name, parent, name)
  | .link ino parent newname => some
      (.linkat (fdOf (getInode ino)) "" (fdOf (getInode parent)) newname AT_EMPTY_PATH, parent, newname)
  | _ => none

/-- The entry is made; then all goes on as in `next`. -/
def creating {α : Type} (P : Platform) (req : FuseReq) (make : Sys) (next : Prog calls α) : Prog calls Unit :=
  .call (.sys make) fun
    | .error e => .call (.fuseReply req (Finish.replyFailure.report P (.error e))) fun _ => .done ()
    | .ok _ => next.bind fun _ => .done ()

/-- From outside one sees system calls, copies and replies, but not the destructors of
descriptors. The descriptors of the inodes and the streams of the open directories are given. -/
def outward : Window calls where
  shown
    | .sys (.close _ byDestructor) => !byDestructor
    | .sys _ | .fuseBufCopy _ _ | .fuseReply _ _ | .newDirectory _ => true
    | _ => false
  known
    | .getFD r, fd => fd = fdOf r
    | .derefDirectory a, d | .deleteDirectory a, d => d = dirOf a
    | _, _ => True

/-- What is left to be done of a handler, up to the end of its callback, shows what `q` shows. -/
def Shows (P : Platform) (req : FuseReq) (finish : Finish) (m : Handler) (q : Prog calls Unit) : Prop :=
  Prog.Refines (outward fdOf dirOf) ((m ⟨some req⟩).bind fun r => epilogue P finish r.1 r.2) q fun _ _ => True

abbrev Serves (P : Platform) (req : FuseReq) (finish : Finish) (m : Handler) (p : Plan) : Prop :=
  Shows fdOf dirOf P req finish m (p.report P req finish)

/-- The same result, or the same failure. -/
def Same {α : Type} (P : Platform) : Except Error α → Except Errno α → Prop
  | .ok v, .ok v' => v = v'
  | .error st, .error e => ∃ message, st = errnoError P e message
  | _, _ => False

end Plans

section Rules
variable {fdOf : InodeRef → Fd} {dirOf : Addr → DirPtr} {P : Platform} {fs : PageAlignFS} {req : FuseReq}
  {finish : Finish} {m : Handler} {p : Plan} {q : Prog calls Unit} {what message : String} {ino : Addr}

namespace Shows

/-- The end of a callback whose handler has not replied. -/
theorem failed {e : Errno} : Prog.Refines (outward fdOf dirOf)
    (epilogue P finish (.error (errnoError P e message)) ⟨some req⟩)
    (.call (.fuseReply req (finish.report P (.error e))) fun _ => .done ()) fun _ _ => True := by
  have same : finish.reply P (.error (errnoError P e message)) = finish.report P (.error e) := by
    have num : failureErrno P (errnoError P e message) = failureErrno P (errnoError P e "") := by
      rw [failureErrno_eq_sentErrno, failureErrno_eq_sentErrno]
    cases finish with
    | replyNone => rfl
    | replyAlways => exact congrArg Reply.err num
    | replyFailure => exact congrArg Reply.err num
  rw [epilogue_owed, same]
  exact .both fun _ => .done trivial

theorem hidden {c : Call} {f : c.Ret → Handler} (unseen : (outward fdOf dirOf).shown c = false)
    (rest : ∀ r, (outward fdOf dirOf).known c r → Shows fdOf dirOf P req finish (f r) q) :
    Shows fdOf dirOf P req finish (invoke (I := calls) c >>= f) q := by
  apply Prog.Refines.hidden unseen
  intro r known
  exact rest r known

theorem logged {ref : InodeRef} (rest : Shows fdOf dirOf P req finish m q) :
    Shows fdOf dirOf P req finish (do
      invoke (I := calls) (.logInode ref)
      m) q := hidden rfl fun _ _ => rest

theorem withFD {ref : InodeRef} {f : Fd → Handler} (rest : Shows fdOf dirOf P req finish (f (fdOf ref)) q) :
    Shows fdOf dirOf P req finish (invoke (I := calls) (.getFD ref) >>= f) q := by
  apply hidden rfl
  intro fd known
  rw [known]
  exact rest

/-- An entry is made, and looked up as by `Lookup`. -/
theorem made {c : Sys} {parent : Addr} {name : String} : Shows fdOf dirOf fs.platform req .replyFailure
    (syscall fs.platform c message >>= fun _ => fs.replyWithLookup (getInode parent) name)
    (creating fs.platform req c
      ((fs.lookup parent name ⟨some req⟩).bind fun r => epilogue fs.platform .replyFailure r.1 r.2)) := by
  apply Prog.Refines.both
  intro rc
  cases rc with
  | error e => exact failed
  | ok _ =>
      apply Prog.Refines.hidden_right rfl ()
      exact .result _ fun _ => trivial

theorem creation {r : Request} {method : PageAlignFS → Handler} {make : Sys} {parent : Addr} {name : String}
    (invoked : pageAlignFSOps.invocation r = some method) (creates : r.creation fdOf = some (make, parent, name)) :
    Shows fdOf dirOf fs.platform req .replyFailure (method fs) (creating fs.platform req make
      ((fs.lookup parent name ⟨some req⟩).bind fun r => epilogue fs.platform .replyFailure r.1 r.2)) := by
  cases r with
  | mknod _ _ _ _ | mkdir _ _ _ | symlink _ _ _ =>
      cases invoked
      cases creates
      exact logged (withFD made)
  | link _ _ _ =>
      cases invoked
      cases creates
      exact logged (logged (withFD (withFD made)))
  | _ => cases creates

end Shows

namespace Serves
open Shows

/-- One call, made by the daemon as the plan says. -/
theorem sys {c : Sys} {f : c.Ret → Handler} {g : c.Ret → Plan}
    (rest : ∀ v, Serves fdOf dirOf P req finish (f v) (g v)) :
    Serves fdOf dirOf P req finish (syscall P c message >>= f) (Plan.host c >>= g) := by
  apply Prog.Refines.both
  intro rc
  cases rc with
  | error e => exact failed
  | ok v => exact rest v

theorem syscall_host {c : Sys} {σ : Type} (s : σ) :
    Prog.Refines (outward fdOf dirOf) (syscall P c message s) (Plan.host c ()) fun r o => r.2 = s ∧ Same P r.1 o.1 := by
  apply Prog.Refines.both
  intro rc
  cases rc with
  | error e => exact .done ⟨rfl, message, rfl⟩
  | ok v => exact .done ⟨rfl, rfl⟩

/-- The status of the last call is the outcome. -/
theorem last {q : Routine calls Unit Errno Unit} (always : finish = .replyAlways)
    (h : Prog.Refines (outward fdOf dirOf) (m ⟨some req⟩) (q ()) fun r o => r.2 = ⟨some req⟩ ∧ Same P r.1 o.1) :
    Serves fdOf dirOf P req finish m (Plan.obey q) := by
  unfold Serves Plan.report Plan.obey
  subst always
  change Prog.Refines _ _ (((q ()).bind _).bind _) _
  rw [Prog.bind_assoc]
  refine h.bind fun r o same => ?_
  obtain ⟨status, s⟩ := r
  obtain ⟨outcome, _⟩ := o
  obtain ⟨rfl, same⟩ := same
  cases status with
  | error st =>
      cases outcome with
      | error e =>
          obtain ⟨message, rfl⟩ := same
          exact failed
      | ok _ => cases same
  | ok _ =>
      cases outcome with
      | error e => cases same
      | ok _ =>
          rw [epilogue_owed]
          exact .both fun _ => .done trivial

theorem send {reply : Reply} : Serves fdOf dirOf P req finish (FuseRequest.send P what reply) (pure reply) := by
  apply Prog.Refines.both
  intro rc
  change Prog.Refines _ (epilogue P finish _ ⟨none⟩) _ _
  rw [epilogue_gone]
  exact .done trivial

theorem fail {e : Errno} :
    Serves fdOf dirOf P req finish (Routine.fail (errnoError P e message)) (Routine.fail e) := failed

/-- A check that fails has no end. -/
theorem check {site : CheckSite} {holds : Bool} {f : Unit → Handler}
    (rest : Serves fdOf dirOf P req finish (f ()) p) :
    Serves fdOf dirOf P req finish (check site holds >>= f) p := by
  cases holds with
  | true => exact rest
  | false =>
      apply Prog.Refines.stuck
      intro impossible
      cases impossible

/-- The check is made inside a function that returns. -/
theorem checked {α : Type} {site : CheckSite} {holds : Bool} {v : α} {f : α → Handler}
    (rest : Serves fdOf dirOf P req finish (f v) p) :
    Serves fdOf dirOf P req finish ((do
      Pafs.check site holds
      pure v) >>= f) p := by
  cases holds with
  | true => exact rest
  | false =>
      apply Prog.Refines.stuck
      intro impossible
      cases impossible

theorem getXAttr {name : String} {size : Nat} : Serves fdOf dirOf fs.platform req finish (fs.getXAttr ino name size)
    (Plan.ask (Plan.host (.getxattr (.procSelfFd (fdOf (getInode ino))) name size))
      fun r => .buf (.bytes (Syscalls.resized size r.written r.nb))) := by
  refine logged (withFD ?_)
  apply Prog.Refines.both
  intro rc
  cases rc with
  | error e => exact failed
  | ok r =>
      have rest (buf : Bytes) : Serves fdOf dirOf fs.platform req finish (do
          Pafs.check .getXAttrBuffer (buf.length ≤ size)
          FuseRequest.replyBuf fs.platform (.bytes buf)) (pure (.buf (.bytes buf))) := check send
      exact checked (f := fun buf => do
        Pafs.check .getXAttrBuffer (buf.length ≤ size)
        FuseRequest.replyBuf fs.platform (.bytes buf)) (rest _)

theorem syncFd (always : finish = .replyAlways) {datasync : Int} {fd : Fd} :
    Serves fdOf dirOf fs.platform req finish (fs.syncFd (datasync != 0) fd)
      (Plan.obey (if datasync != 0 then Plan.host (.fdatasync fd) else Plan.host (.fsync fd))) := by
  apply last always
  unfold PageAlignFS.syncFd
  cases datasync != 0 with
  | true => exact syscall_host _
  | false => exact syscall_host _

theorem readLink : Serves fdOf dirOf fs.platform req finish (fs.readLink ino) (do
      let target ← Plan.host (.readlinkat (fdOf (getInode ino)) "" (PATH_MAX + 1))
      if target.length = PATH_MAX + 1 then Routine.fail ⟨ENAMETOOLONG, ENAMETOOLONG_ne, ENAMETOOLONG_inInt⟩
      else pure (.readlink (target.takeWhile (· ≠ 0)))) := by
  refine logged (withFD (sys fun target => ?_))
  by_cases full : target.length = PATH_MAX + 1
  · rw [if_pos full, if_pos full]
    exact fail
  · rw [if_neg full, if_neg full]
    exact send

/-- A descriptor whose reply could not be sent is closed, unseen. -/
theorem open_ {fi : FileInfo} : Serves fdOf dirOf fs.platform req finish (fs.open_ ino fi) (Plan.ask
      (Plan.host (.open_ (.procSelfFd (fdOf (getInode ino))) ((fi.flags ||| O_CLOEXEC) &&& ~~~O_NOFOLLOW)))
      fun fd => .openFile (PageAlignFS.openedInfo fi fd)) := by
  refine logged (withFD (sys fun fd => ?_))
  apply Prog.Refines.both
  intro rc
  cases rc with
  | none =>
      change Prog.Refines _ (epilogue fs.platform finish _ ⟨none⟩) _ _
      rw [epilogue_gone]
      exact .done trivial
  | some e =>
      apply Prog.Refines.hidden rfl
      intro _ _
      change Prog.Refines _ (epilogue fs.platform finish _ ⟨none⟩) _ _
      rw [epilogue_gone]
      exact .done trivial

theorem poll {ph : Option PollPtr} : Serves fdOf dirOf fs.platform req finish (fs.poll ino ph)
    (Plan.ask (Plan.host (.poll (fdOf (getInode ino)) PageAlignFS.pollEvents)) fun polled => .poll polled.2) := by
  have polled : Serves fdOf dirOf fs.platform req finish (do
      let fd ← invoke (I := calls) (.getFD (getInode ino))
      let polled ← Syscalls.poll fs.platform fd PageAlignFS.pollEvents
      Pafs.check .pollCount (polled.1 ≤ 1)
      FuseRequest.replyPoll fs.platform polled.2)
      (Plan.ask (Plan.host (.poll (fdOf (getInode ino)) PageAlignFS.pollEvents)) fun polled => .poll polled.2) :=
    withFD (sys fun _ => check send)
  refine logged ?_
  cases ph with
  | none => exact polled
  | some ph =>
      apply Prog.Refines.hidden rfl
      intro old _
      cases old with
      | none => exact polled
      | some o =>
          apply Prog.Refines.hidden rfl
          intro _ _
          exact polled

/-- Pollers are notified unseen, after the reply. -/
theorem writeBuf {inBuf : FuseBufVec} {off : Int} {fi : FileInfo} :
    Serves fdOf dirOf fs.platform req finish (fs.writeBuf ino inBuf off fi) (do
      let copied ← invoke (I := calls)
        (.fuseBufCopy [{ size := fuseBufSize inBuf, fd := some fi.fh, pos := off }] inBuf)
      let nb ← Routine.ofExcept copied
      pure (.write nb)) := by
  refine logged ?_
  apply Prog.Refines.both
  intro copied
  cases copied with
  | error e => exact failed
  | ok nb =>
      apply Prog.Refines.both
      intro sent
      have gone (status : Status) : Prog.Refines (outward fdOf dirOf)
          (epilogue fs.platform finish status ⟨none⟩) (.done ()) fun _ _ => True := by
        rw [epilogue_gone]
        exact .done trivial
      apply Prog.Refines.hidden rfl
      intro present _
      cases present with
      | none => exact gone _
      | some _ =>
          apply Prog.Refines.hidden rfl
          intro handle _
          cases handle with
          | none => exact gone _
          | some ph =>
              apply Prog.Refines.hidden rfl
              intro rc _
              cases rc with
              | none => exact gone _
              | some e => exact gone _

theorem openDir {fi : FileInfo} : Serves fdOf dirOf fs.platform req finish (fs.openDir ino fi) (do
      let fd ← Plan.host (.openat (fdOf (getInode ino)) "." (O_DIRECTORY ||| O_NOFOLLOW ||| O_CLOEXEC) 0)
      let d ← Plan.host (.fdopendir fd)
      let dir ← invoke (I := calls) (.newDirectory d)
      pure (.openFile { fi with fh := dir })) := by
  refine logged (withFD (sys fun fd => sys fun d => ?_))
  apply Prog.Refines.both
  intro dir
  exact send

theorem releaseDir {fi : FileInfo} (always : finish = .replyAlways) :
    Serves fdOf dirOf P req finish (PageAlignFS.releaseDir ino fi) (do
      let _ ← invoke (I := calls) (.sys (.closedir (dirOf fi.fh.toNat)))
      pure (.err 0)) := by
  refine logged (hidden rfl fun d known => ?_)
  obtain rfl : d = dirOf fi.fh.toNat := known
  apply Prog.Refines.both
  intro rc
  change Prog.Refines _ (epilogue P finish (.ok ()) ⟨some req⟩) _ _
  rw [always, epilogue_owed]
  exact .both fun _ => .done trivial

theorem fSyncDir {datasync : Int} {fi : FileInfo} (always : finish = .replyAlways) :
    Serves fdOf dirOf fs.platform req finish (fs.fSyncDir ino (datasync != 0) fi) (do
      let fd ← Plan.host (.dirfd (dirOf fi.fh.toNat))
      Plan.obey (if datasync != 0 then Plan.host (.fdatasync fd) else Plan.host (.fsync fd))) := by
  refine logged (hidden rfl fun d known => ?_)
  obtain rfl : d = dirOf fi.fh.toNat := known
  exact sys fun fd => syncFd always

theorem method : {r : Request} → {method : PageAlignFS → Handler} → {p : Plan} →
    pageAlignFSOps.invocation r = some method → r.plan fdOf dirOf = some p →
    Serves fdOf dirOf fs.platform req r.opcode.finish (method fs) p
  | .readlink _, _, _, rfl, rfl => readLink
  | .unlink _ _, _, _, rfl, rfl | .rmdir _ _, _, _, rfl, rfl | .setxattr _ _ _ _, _, _, rfl, rfl
  | .removexattr _ _, _, _, rfl, rfl | .access _ _, _, _, rfl, rfl | .flock _ (some _) _, _, _, rfl, rfl
  | .fallocate _ _ _ _ (some _), _, _, rfl, rfl => logged (withFD (last rfl (syscall_host _)))
  | .rename _ _ _ _ _, _, _, rfl, rfl => logged (logged (withFD (withFD (last rfl (syscall_host _)))))
  | .open_ _ (some _), _, _, rfl, rfl => open_
  | .read _ _ _ (some _), _, _, rfl, rfl => logged send
  | .writeBuf _ _ _ _, _, _, rfl, rfl => writeBuf
  | .flush _ (some _), _, _, rfl, rfl => logged (sys fun _ => last rfl (syscall_host _))
  | .release _ (some _), _, _, rfl, rfl => logged (last rfl (syscall_host _))
  | .fsync _ _ (some _), _, _, rfl, rfl => logged (syncFd rfl)
  | .opendir _ (some _), _, _, rfl, rfl => openDir
  | .releasedir _ (some _), _, _, rfl, rfl => releaseDir rfl
  | .fsyncdir _ _ (some _), _, _, rfl, rfl => fSyncDir rfl
  | .statfs _, _, _, rfl, rfl | .getlk _ (some _) _, _, _, rfl, rfl | .lseek _ _ _ (some _), _, _, rfl, rfl =>
      logged (withFD (sys fun _ => send))
  | .getxattr _ _ _, _, _, rfl, rfl => getXAttr
  | .listxattr _ _, _, _, rfl, rfl => logged (withFD (sys fun _ => check send))
  | .copyFileRange _ _ (some _) _ _ (some _) _ _, _, _, rfl, rfl =>
      logged (logged (withFD (withFD (sys fun _ => send))))
  | .poll _ (some _) _, _, _, rfl, rfl => poll

end Serves

end Rules

section Callbacks
variable {fdOf : InodeRef → Fd} {dirOf : Addr → DirPtr} {fs : PageAlignFS} {req : FuseReq} {r : Request}
  {handler : Handler}

/-- A callback that is given a null pointer never returns. -/
theorem refines_of_null {q : Prog calls Unit} (served : fs.serve req r = some handler)
    (null : none ∈ r.checkedInfos) (s : FuseRequest) :
    Prog.Refines (outward fdOf dirOf) (handler s) q fun _ _ => True := by
  obtain ⟨next, stops⟩ := asFuseLowLevelOps_of_null served null s
  rw [stops]
  apply Prog.Refines.stuck
  intro impossible
  cases impossible

/-- Seen from outside, a callback makes the calls of the plan, one reply that reports their
outcome, and nothing else. -/
theorem relayed {p : Plan} (served : fs.serve req r = some handler) (planned : r.plan fdOf dirOf = some p)
    (s : FuseRequest) :
    Prog.Refines (outward fdOf dirOf) (handler s) (p.report fs.platform req r.opcode.finish) fun _ _ => True := by
  obtain ⟨method, invoked⟩ | null := invocation_or_null served
  · rw [PageAlignFS.serve, asFuseLowLevelOps_of_invocation invoked] at served
    cases served
    rw [callback_eq]
    exact Serves.method invoked planned
  · exact refines_of_null served null s

/-- A link is read in full. -/
theorem relayed_readlink : ∃ handler p,
    PageAlignFS.onLinux.serve ⟨2, .readlink⟩ (.readlink FUSE_ROOT_ID) = some handler ∧
      (Request.readlink FUSE_ROOT_ID).plan (fun _ => 3) (fun _ => 0) = some p ∧
      Prog.Refines (outward (fun _ => 3) fun _ => 0) (handler ⟨none⟩)
        (p.report linux ⟨2, .readlink⟩ .replyFailure) fun _ _ => True := by
  have served : PageAlignFS.onLinux.serve ⟨2, .readlink⟩ (.readlink FUSE_ROOT_ID) = some _ := rfl
  have planned : (Request.readlink FUSE_ROOT_ID).plan (fun _ => 3) (fun _ => 0) = some _ := rfl
  exact ⟨_, _, served, planned, relayed served planned _⟩

theorem finish_of_creation {make : Sys} {parent : Addr} {name : String}
    (creates : r.creation fdOf = some (make, parent, name)) : r.opcode.finish = .replyFailure := by
  cases r with
  | mknod _ _ _ _ | mkdir _ _ _ | symlink _ _ _ | link _ _ _ => rfl
  | _ => cases creates

/-- Seen from outside, a callback that makes an entry makes it, and then does what the callback
of a `Lookup` of the new entry does. -/
theorem created {make : Sys} {parent : Addr} {name : String} (served : fs.serve req r = some handler)
    (creates : r.creation fdOf = some (make, parent, name)) (s : FuseRequest) :
    ∃ looking, fs.serve req (.lookup parent name) = some looking ∧
      Prog.Refines (outward fdOf dirOf) (handler s) (creating fs.platform req make (looking s)) fun _ _ => True := by
  refine ⟨callback fs.platform (some fs) req .replyFailure (·.lookup parent name), rfl, ?_⟩
  obtain ⟨method, invoked⟩ | null := invocation_or_null served
  · rw [PageAlignFS.serve, asFuseLowLevelOps_of_invocation invoked, finish_of_creation creates] at served
    cases served
    rw [callback_eq, callback_eq]
    have shows : Shows fdOf dirOf fs.platform req .replyFailure (method fs) (creating fs.platform req make
        ((fs.lookup parent name ⟨some req⟩).bind fun r => epilogue fs.platform .replyFailure r.1 r.2)) :=
      .creation invoked creates
    exact shows
  · exact refines_of_null served null s

theorem created_mkdir : ∃ handler looking,
    PageAlignFS.onLinux.serve ⟨2, .mkdir⟩ (.mkdir FUSE_ROOT_ID "d" 0o755) = some handler ∧
      PageAlignFS.onLinux.serve ⟨2, .mkdir⟩ (.lookup FUSE_ROOT_ID "d") = some looking ∧
      Prog.Refines (outward (fun _ => 3) fun _ => 0) (handler ⟨none⟩)
        (creating linux ⟨2, .mkdir⟩ (.mkdirat 3 "d" 0o755) (looking ⟨none⟩)) fun _ _ => True := by
  have served : PageAlignFS.onLinux.serve ⟨2, .mkdir⟩ (.mkdir FUSE_ROOT_ID "d" 0o755) = some _ := rfl
  have creates : (Request.mkdir FUSE_ROOT_ID "d" 0o755).creation (fun _ => 3) =
      some (.mkdirat 3 "d" 0o755, FUSE_ROOT_ID, "d") := rfl
  obtain ⟨looking, served', refines⟩ := created served creates ⟨none⟩
  exact ⟨_, looking, served, served', refines⟩

end Callbacks

end Pafs
