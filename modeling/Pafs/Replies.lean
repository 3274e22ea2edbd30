import Pafs.Answers
import Pafs.Linux

/-! What the kernel is sent for a request, read off complete executions of the callbacks. -/
namespace Pafs
open Resumption

/-- The reply that the epilogue sends for a request nobody has answered. -/
def Finish.reply (P : Platform) : Finish → Status → Reply
  | .replyNone, _ => .nothing
  | .replyAlways, .ok _ => .err 0
  -- nothing is sent before `~FuseRequest`
  | .replyFailure, .ok _ => .err ECOMM
  | .replyAlways, .error st => .err (failureErrno P st)
  | .replyFailure, .error st => .err (failureErrno P st)

theorem epilogue_owed (P : Platform) (finish : Finish) (status : Status) (req : FuseReq) :
    epilogue P finish status ⟨some req⟩ =
      .call (.fuseReply req (finish.reply P status)) fun _ => .done (.ok (), ⟨none⟩) := by
  rcases finish <;> rcases status with st | _
  all_goals rfl

theorem epilogue_gone (P : Platform) (finish : Finish) (status : Status) :
    epilogue P finish status ⟨none⟩ = .done (.ok (), ⟨none⟩) := by
  rcases finish <;> rcases status with st | _
  all_goals rfl

/-- One complete callback: the handler returned `status` after the events `before`, and the
rest of the callback made the events `after`. -/
def Runs (fs : PageAlignFS) (req : FuseReq) (r : Request) (status : Status)
    (before after : List (Event calls)) : Prop :=
  ∃ method s out, pageAlignFSOps.invocation r = some method ∧
    Exec (method fs ⟨some req⟩) before (status, s) ∧
    Exec (epilogue fs.platform r.opcode.finish status s) after out

variable {fs : PageAlignFS} {req : FuseReq} {r : Request} {status : Status}
  {before after t : List (Event calls)}

theorem callback_eq {T : Type} (P : Platform) (self : T) (finish : Finish) (method : T → Handler)
    (s : FuseRequest) : callback P (some self) req finish method s =
      (method self ⟨some req⟩).bind fun p => epilogue P finish p.1 p.2 := by
  change ((method self ⟨some req⟩).bind fun p => .done (Except.ok p.1, p.2)).bind _ = _
  rw [Prog.bind_assoc]
  rfl

theorem follows_callback {T L : Type} {D : Discipline calls L} {l : L} {Q : Status → FuseRequest → L → Prop}
    {P : Platform} (self : T) {finish : Finish} {method : T → Handler} (s : FuseRequest) :
    Routine.Follows D (callback P (some self) req finish method) s l Q ↔
      Routine.Follows D (method self) ⟨some req⟩ l fun status s' l' =>
        Routine.Follows D (epilogue P finish status) s' l' Q := by
  unfold Routine.Follows
  rw [callback_eq, Prog.follows_bind]

/-- The complete executions of what libfuse calls are the runs, cut where the handler
returns. -/
theorem exec_serve_iff {s : FuseRequest} :
    (∃ handler out, fs.serve req r = some handler ∧ Exec (handler s) t out) ↔
      ∃ status before after, t = before ++ after ∧ Runs fs req r status before after := by
  constructor
  · rintro ⟨handler, out, served, run⟩
    obtain ⟨method, invoked⟩ | null := invocation_or_null served
    · rw [PageAlignFS.serve, asFuseLowLevelOps_of_invocation invoked] at served
      cases served
      rw [callback_eq] at run
      obtain ⟨before, after, ⟨status, s'⟩, rfl, first, rest⟩ := run.bind_inv
      exact ⟨status, before, after, rfl, method, s', out, invoked, first, rest⟩
    · obtain ⟨next, stops⟩ := asFuseLowLevelOps_of_null served null s
      rw [stops] at run
      cases run with
      | step impossible _ => exact nomatch impossible
  · rintro ⟨status, before, after, rfl, method, s', out, invoked, first, rest⟩
    refine ⟨_, out, asFuseLowLevelOps_of_invocation invoked, ?_⟩
    rw [callback_eq]
    exact first.bind rest

/-- The handler made the one reply. -/
structure HandlerAnswers (req : FuseReq) (o : Opcode) (before after : List (Event calls)) : Prop where
  reply : ∃ reply, reply.Suits o ∧ repliesIn before = [(req, reply)]
  rest : after = []
  failures : failuresIn before = []

/-- The handler made no reply, and the epilogue the only one. -/
structure CallbackAnswers (fs : PageAlignFS) (req : FuseReq) (r : Request) (status : Status)
    (before after : List (Event calls)) : Prop where
  quiet : repliesIn before = []
  reply : repliesIn after = [(req, r.opcode.finish.reply fs.platform status)]
  rest : failuresIn after = []
  ok : status = .ok () → r.opcode.silent = true ∧ failuresIn before = []
  error : ∀ st, status = .error st → Grounds fs.platform st ⟨repliesIn before, failuresIn before⟩

theorem Runs.answers (h : Runs fs req r status before after) :
    (HandlerAnswers req r.opcode before after ∧ (status = .ok () → r.opcode.silent = false)) ∨
      CallbackAnswers fs req r status before after := by
  obtain ⟨method, s, out, hm, handler, rest⟩ := h
  have answers : Answers fs.platform req r.opcode (method fs) := answers_invocation hm
  have outcome := Prog.Follows.exec answers handler (record_admits _ _)
  rw [record_run] at outcome
  have gone (h : Answered req r.opcode s ⟨repliesIn before, failuresIn before⟩) :
      HandlerAnswers req r.opcode before after := by
    rw [h.gone, epilogue_gone] at rest
    exact ⟨h.replies, (Exec.done_iff.mp rest).1, h.failures⟩
  have owed (h : Unanswered req s ⟨repliesIn before, failuresIn before⟩) :
      repliesIn after = [(req, r.opcode.finish.reply fs.platform status)] ∧
        failuresIn after = [] := by
    rw [h.owed, epilogue_owed] at rest
    cases rest with
    | step rc rest =>
        obtain ⟨rfl, -⟩ := Exec.done_iff.mp rest
        exact ⟨rfl, rfl⟩
  cases status with
  | ok _ =>
      cases silent : r.opcode.silent with
      | true =>
          simp only [Record.start, List.nil_append, Outcome, silent, if_true] at outcome
          refine .inr ⟨outcome.1.replies, (owed outcome.1).1, (owed outcome.1).2,
            fun _ => ⟨silent, outcome.2⟩, ?_⟩
          intro st failed
          cases failed
      | false =>
          simp only [Record.start, List.nil_append, Outcome, silent, Bool.false_eq_true,
            if_false] at outcome
          exact .inl ⟨gone outcome, fun _ => rfl⟩
  | error st =>
      obtain ⟨unanswered, grounds⟩ | answered := outcome
      · refine .inr ⟨unanswered.replies, (owed unanswered).1, (owed unanswered).2, ?_, ?_⟩
        · intro returned
          cases returned
        · rintro _ ⟨⟩
          exact grounds
      · refine .inl ⟨gone answered, ?_⟩
        intro returned
        cases returned

/-- A request whose handler failed without an answer is answered with an errno. -/
def FailuresAnswered (fs : PageAlignFS) (req : FuseReq) (r : Request) : Prop :=
  ∀ st before after, Runs fs req r (.error st) before after → repliesIn before = [] →
    ∃ n, n ≠ 0 ∧ repliesIn after = [(req, .err n)]

theorem finish_eq_replyNone_iff : r.opcode.finish = .replyNone ↔ r.opcode = .forget ∨
    r.opcode = .writeBuf ∨ r.opcode = .retrieveReply ∨ r.opcode = .forgetMulti := by
  cases r.opcode <;> decide

theorem Runs.not_retrieveReply (h : Runs fs req r status before after) :
    r.opcode ≠ .retrieveReply := by
  obtain ⟨method, s, out, hm, -, -⟩ := h
  intro opcode
  cases r <;> cases opcode
  cases hm

theorem eq_writeBuf_of_opcode (h : r.opcode = .writeBuf) :
    ∃ ino inBuf off fi, r = .writeBuf ino inBuf off fi := by
  cases r <;> cases h
  exact ⟨_, _, _, _, rfl⟩

/-- What happens when `fuse_buf_copy` fails. -/
theorem runs_writeBuf_failed (fs : PageAlignFS) (req : FuseReq) (ino : Addr) (inBuf : FuseBufVec)
    (off : Int) (fi : FileInfo) (e : Errno) :
    Runs fs req (.writeBuf ino inBuf off fi) (.error (errnoError fs.platform e "fuse_buf_copy"))
      [⟨.logInode (getInode ino), ()⟩,
        ⟨.fuseBufCopy [{ size := fuseBufSize inBuf, fd := some fi.fh, pos := off }] inBuf, .error e⟩]
      [⟨.fuseReply req .nothing, none⟩] :=
  ⟨_, ⟨some req⟩, (.ok (), ⟨none⟩), rfl, .step _ (.step _ (.refl _)), .step _ (.refl _)⟩

theorem failures_answered_iff (notForget : r.opcode ≠ .forget)
    (notForgetMulti : r.opcode ≠ .forgetMulti) :
    FailuresAnswered fs req r ↔ r.opcode ≠ .writeBuf := by
  constructor
  · intro answered opcode
    obtain ⟨ino, inBuf, off, fi, rfl⟩ := eq_writeBuf_of_opcode opcode
    obtain ⟨n, -, replied⟩ := answered _ _ _
      (runs_writeBuf_failed fs req ino inBuf off fi ⟨5, by decide, by decide⟩) rfl
    cases replied
  · intro notWriteBuf st before after run none
    have finish : r.opcode.finish ≠ .replyNone := by
      rw [ne_eq, finish_eq_replyNone_iff]
      simp [notForget, notForgetMulti, notWriteBuf, run.not_retrieveReply]
    obtain ⟨answered, -⟩ | answered := run.answers
    · obtain ⟨reply, -, replies⟩ := answered.reply
      rw [none] at replies
      cases replies
    · refine ⟨failureErrno fs.platform st, (answered.error st rfl).ne_zero, ?_⟩
      rw [answered.reply]
      cases hf : r.opcode.finish with
      | replyNone => exact absurd hf finish
      | replyAlways => rfl
      | replyFailure => rfl

/-- `PageAlignFS` with its default options, on Linux. -/
def PageAlignFS.onLinux : PageAlignFS where
  platform := linux
  opts := { kernelEntryTimeout := 0, kernelAttributeTimeout := 0 }

theorem failures_answered_statfs :
    FailuresAnswered .onLinux ⟨2, .statfs⟩ (.statfs FUSE_ROOT_ID) :=
  (failures_answered_iff (by decide) (by decide)).mpr (by decide)

/-- `fuse_buf_copy` fails with EIO: the writer is sent nothing and waits forever. -/
theorem writeBuf_failure_not_answered :
    ¬ FailuresAnswered .onLinux ⟨2, .writeBuf⟩
      (.writeBuf FUSE_ROOT_ID [{ size := 1, fd := none, pos := 0 }] 0 ⟨1, 5, false, true⟩) := by
  intro answered
  obtain ⟨n, -, replied⟩ := answered _ _ _
    (runs_writeBuf_failed _ _ _ _ _ _ ⟨5, by decide, by decide⟩) rfl
  cases replied

/-- A request whose handler succeeded gets one reply, and it reports success. -/
def SuccessReported (fs : PageAlignFS) (req : FuseReq) (r : Request) : Prop :=
  ∀ before after, Runs fs req r (.ok ()) before after →
    ∃ reply, repliesIn (before ++ after) = [(req, reply)] ∧ (reply.Suits r.opcode ∨ reply = .err 0)

theorem silent_cases {o : Opcode} (h : o.silent = true) :
    o = .forget ∨ o = .forgetMulti ∨ o = .setlk ∨ o.finish = .replyAlways := by
  cases o <;> cases h <;> decide

theorem Runs.setlk_info (h : Runs fs req r status before after) (opcode : r.opcode = .setlk) :
    ∃ ino fi lock sleep, r = .setlk ino (some fi) lock sleep := by
  obtain ⟨method, s, out, hm, -, -⟩ := h
  cases r <;> cases opcode
  case setlk ino fi lock sleep =>
      cases fi with
      | none => cases hm
      | some fi => exact ⟨ino, fi, lock, sleep, rfl⟩

/-- What happens when `fcntl` grants the lock. -/
theorem runs_setlk_granted (fs : PageAlignFS) (req : FuseReq) (ino : Addr) (fi : FileInfo)
    (lock : FLock) (sleep : Int) (fd : Fd) :
    Runs fs req (.setlk ino (some fi) lock sleep) (.ok ())
      [⟨.logInode (getInode ino), ()⟩, ⟨.getFD (getInode ino), fd⟩,
        ⟨.sys (.fcntl fd (if sleep != 0 then F_SETLKW else F_SETLK) lock), .ok lock⟩]
      [⟨.fuseReply req (.err ECOMM), none⟩] :=
  ⟨_, ⟨some req⟩, (.ok (), ⟨none⟩), rfl, .step _ (.step _ (.step _ (.refl _))), .step _ (.refl _)⟩

theorem repliesIn_append (t t' : List (Event calls)) :
    repliesIn (t ++ t') = repliesIn t ++ repliesIn t' := List.filterMap_append

theorem success_reported_iff (notForget : r.opcode ≠ .forget)
    (notForgetMulti : r.opcode ≠ .forgetMulti) :
    SuccessReported fs req r ↔ ∀ ino fi lock sleep, r ≠ .setlk ino (some fi) lock sleep := by
  constructor
  · rintro reported ino fi lock sleep rfl
    obtain ⟨reply, replies, success⟩ := reported _ _
      (runs_setlk_granted fs req ino fi lock sleep 3)
    cases replies
    obtain data | zero := success
    · exact data
    · cases zero
  · intro notSetLk before after run
    have notSetLk : r.opcode ≠ .setlk := by
      intro opcode
      obtain ⟨ino, fi, lock, sleep, rfl⟩ := run.setlk_info opcode
      exact notSetLk ino fi lock sleep rfl
    rw [repliesIn_append]
    obtain ⟨answered, -⟩ | answered := run.answers
    · obtain ⟨reply, data, replies⟩ := answered.reply
      rw [replies, answered.rest]
      exact ⟨reply, rfl, .inl data⟩
    · have finish : r.opcode.finish = .replyAlways := by
        simpa [notForget, notForgetMulti, notSetLk] using silent_cases (answered.ok rfl).1
      rw [answered.quiet, answered.reply, finish]
      exact ⟨.err 0, rfl, .inr rfl⟩

theorem success_reported_getlk : SuccessReported .onLinux ⟨2, .getlk⟩
    (.getlk FUSE_ROOT_ID (some ⟨0, 5, false, true⟩) ⟨1, 0, 0, 0, 7⟩) :=
  (success_reported_iff (by decide) (by decide)).mpr (by intros; simp)

/-- The lock is granted, and the caller is told ECOMM. -/
theorem setlk_success_not_reported : ¬ SuccessReported .onLinux ⟨2, .setlk⟩
    (.setlk FUSE_ROOT_ID (some ⟨0, 5, false, true⟩) ⟨1, 0, 0, 0, 7⟩ 0) := by
  intro reported
  obtain ⟨reply, replies, success⟩ := reported _ _ (runs_setlk_granted _ _ _ _ _ _ 3)
  cases replies
  obtain data | zero := success
  · exact data
  · cases zero

/-- The errno sent back for a failed system call that survives its encoding as a name. -/
theorem Failure.Explains.errno {P : Platform} {f : Failure} {st : Error} (h : f.Explains P st)
    (named : RoundTrips P f.errno.num) : failureErrno P st =
      if f.viaIoctl then statusCodeToErrno (P.abslErrnoToStatusCode f.errno.num)
      else f.errno.num := by
  obtain ⟨message, rfl⟩ := h
  cases f.viaIoctl with
  | true => exact failureErrno_abslErrnoToStatus P f.errno message
  | false => exact failureErrno_errnoError P f.errno message named

theorem failuresIn_append (t t' : List (Event calls)) :
    failuresIn (t ++ t') = failuresIn t ++ failuresIn t' := List.filterMap_append

/-- An error reply next to a failed system call carries the status of that call. -/
theorem Runs.error_reply {f : Failure} {n : Int} (run : Runs fs req r status before after)
    (failed : f ∈ failuresIn (before ++ after)) (replied : (req, .err n) ∈ repliesIn (before ++ after)) :
    ∃ st, f.Explains fs.platform st ∧ n = failureErrno fs.platform st := by
  rw [failuresIn_append] at failed
  rw [repliesIn_append] at replied
  obtain ⟨answered, -⟩ | answered := run.answers
  · rw [answered.failures, answered.rest] at failed
    cases failed
  · rw [answered.rest, List.append_nil] at failed
    rw [answered.quiet, answered.reply, List.nil_append, List.mem_singleton] at replied
    cases status with
    | ok _ =>
        rw [(answered.ok rfl).2] at failed
        cases failed
    | error st =>
        cases answered.error st rfl with
        | own none _ =>
            change failuresIn before = [] at none
            rw [none] at failed
            cases failed
        | call g only explains =>
            change failuresIn before = [g] at only
            rw [only, List.mem_singleton] at failed
            subst failed
            refine ⟨st, explains, ?_⟩
            cases hf : r.opcode.finish with
            | replyNone => rw [hf] at replied; cases replied
            | replyAlways => rw [hf] at replied; cases replied; rfl
            | replyFailure => rw [hf] at replied; cases replied; rfl

theorem errno_fidelity_iff {s : FuseRequest} {handler : Handler} {out : Status × FuseRequest}
    {f : Failure} {n : Int} (served : fs.serve req r = some handler) (run : Exec (handler s) t out)
    (failed : f ∈ failuresIn t) (replied : (req, .err n) ∈ repliesIn t)
    (named : RoundTrips fs.platform f.errno.num) :
    n = f.errno.num ↔ f.viaIoctl = false ∨
      statusCodeToErrno (fs.platform.abslErrnoToStatusCode f.errno.num) = f.errno.num := by
  obtain ⟨status, before, after, rfl, runs⟩ := exec_serve_iff.mp ⟨handler, out, served, run⟩
  obtain ⟨st, explains, rfl⟩ := runs.error_reply failed replied
  rw [explains.errno named]
  cases f.viaIoctl with
  | true => simp
  | false => simp

/-- `mkdir` of a name that is taken is answered with EEXIST. -/
theorem errno_fidelity_mkdir : ∃ handler t out,
    PageAlignFS.onLinux.serve ⟨2, .mkdir⟩ (.mkdir FUSE_ROOT_ID "d" 0o755) = some handler ∧
    Exec (handler ⟨none⟩) t out ∧ (⟨2, .mkdir⟩, .err EEXIST) ∈ repliesIn t ∧
    (EEXIST = EEXIST ↔ false = false ∨ statusCodeToErrno (abslCode EEXIST) = EEXIST) := by
  have served : PageAlignFS.onLinux.serve ⟨2, .mkdir⟩ (.mkdir FUSE_ROOT_ID "d" 0o755) =
      some (callback linux (some .onLinux) ⟨2, .mkdir⟩ .replyFailure
        fun fs : PageAlignFS => fs.mkdir FUSE_ROOT_ID "d" 0o755) := rfl
  have run : Exec (callback linux (some .onLinux) ⟨2, .mkdir⟩ .replyFailure
      (fun fs : PageAlignFS => fs.mkdir FUSE_ROOT_ID "d" 0o755) ⟨none⟩)
      [⟨.logInode .root, ()⟩, ⟨.getFD .root, (4 : Int)⟩,
        ⟨.sys (.mkdirat 4 "d" 0o755), .error ⟨EEXIST, by decide, by decide⟩⟩,
        ⟨.fuseReply ⟨2, .mkdir⟩ (.err EEXIST), none⟩] (.ok (), ⟨none⟩) :=
    .step _ (.step _ (.step _ (.step _ (.refl _))))
  refine ⟨_, _, _, served, run, by decide, ?_⟩
  exact errno_fidelity_iff (f := ⟨⟨EEXIST, by decide, by decide⟩, false⟩) served run
    (by decide) (by decide) (by decide +kernel)

/-- On a file system without FS_IOC_GETVERSION a lookup is answered with EINVAL although the
call that failed said ENOTTY. -/
theorem errno_fidelity_ioctl_fails : ∃ handler t out f,
    PageAlignFS.onLinux.serve ⟨2, .lookup⟩ (.lookup FUSE_ROOT_ID "f") = some handler ∧
    Exec (handler ⟨none⟩) t out ∧ f ∈ failuresIn t ∧ RoundTrips linux f.errno.num ∧
    (⟨2, .lookup⟩, .err EINVAL) ∈ repliesIn t ∧ EINVAL ≠ f.errno.num := by
  let failed : Errno := ⟨ENOTTY, by decide, by decide⟩
  let st : Stat := ⟨8, 77, 0o100644, 0, 0, 0, ⟨0, 0⟩, ⟨0, 0⟩⟩
  let inode : Inode := ⟨9, 77, 8, none, none⟩
  refine ⟨_, [⟨.logInode .root, ()⟩, ⟨.getFD .root, (4 : Int)⟩,
    ⟨.sys (.openat 4 "f" (O_PATH ||| O_NOFOLLOW ||| O_CLOEXEC) 0), .ok (9 : Int)⟩,
    ⟨.sys (.fstatat 9 "" (AT_EMPTY_PATH ||| AT_SYMLINK_NOFOLLOW)), .ok st⟩,
    ⟨.insert inode, { addr := 4096, fresh := true }⟩,
    ⟨.getSourceDevice .root, (8 : Nat)⟩, ⟨.getSourceDevice (.node 4096), (8 : Nat)⟩,
    ⟨.getFD (.node 4096), (9 : Int)⟩,
    ⟨.sys (.fstatat 9 "" (AT_EMPTY_PATH ||| AT_SYMLINK_NOFOLLOW)), .ok st⟩,
    ⟨.getGeneration (.node 4096), none⟩, ⟨.getFD (.node 4096), (9 : Int)⟩,
    ⟨.sys (.open_ (.procSelfFd 9) (O_RDONLY ||| O_CLOEXEC)), .ok (10 : Int)⟩,
    ⟨.sys (.ioctl 10 FS_IOC_GETVERSION), .error failed⟩,
    ⟨.sys (.close 10 true), .ok ()⟩,
    ⟨.setGeneration (.node 4096) (.error (.ioctlFailed 10 failed)), ()⟩,
    ⟨.dropShared 4096, .dropped (some inode)⟩,
    ⟨.sys (.close 9 true), .ok ()⟩,
    ⟨.fuseReply ⟨2, .lookup⟩ (.err EINVAL), none⟩], (.ok (), ⟨none⟩), ⟨failed, true⟩, rfl, ?_,
    by decide, by decide +kernel, by decide, by decide⟩
  exact .step _ (.step _ (.step _ (.step _ (.step _ (.step _ (.step _ (.step _ (.step _
    (.step _ (.step _ (.step _ (.step _ (.step _ (.step _ (.step _ (.step _ (.step _
    (.refl _))))))))))))))))))

end Pafs
