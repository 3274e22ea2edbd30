import Pafs.Replies

/-! A method that is handed a `FuseRequest &` may reply on it, move it between objects of
its own, and return any status. Whatever it does, the callback around it makes one reply. -/
namespace Pafs
open Resumption

/-- The reply methods of `FuseRequest`, with their arguments. -/
inductive ReplyMethod where
  | attr (attr : Stat) (timeout : Duration)
  | openFile (fi : FileInfo)
  | create (entry : EntryParam) (fi : FileInfo)
  | errno (errnum : Int)
  | failure (status : Status)
  | alwaysAndLogIfNotOk (status : Status)
  | failureAndLogIfNotOk (status : Status)
  | buf (buf : Buffer)
  | entry (param : EntryParam)
  | readLink (link : Bytes)
  | nothing
  | data (bufv : FuseBufVec)
  | write (bytesWritten : Nat)
  | statFS (stbuf : StatVfs)
  | lock (lock : FLock)
  | lSeek (off : Int)
  | poll (revents : BitVec 16)

def ReplyMethod.run (P : Platform) : ReplyMethod → Io FuseRequest Unit
  | .attr st timeout => FuseRequest.replyAttr P st timeout
  | .openFile fi => FuseRequest.replyOpen P fi
  | .create param fi => FuseRequest.replyCreate P param fi
  | .errno n => FuseRequest.replyErrno P n
  | .failure status => FuseRequest.replyFailure P status
  | .alwaysAndLogIfNotOk status => FuseRequest.replyAlwaysAndLogIfNotOk P status
  | .failureAndLogIfNotOk status => FuseRequest.replyFailureAndLogIfNotOk P status
  | .buf b => FuseRequest.replyBuf P b
  | .entry param => FuseRequest.replyEntry P param
  | .readLink link => FuseRequest.replyReadLink P link
  | .nothing => FuseRequest.replyNone
  | .data bufv => FuseRequest.replyData P bufv
  | .write n => FuseRequest.replyWrite P n
  | .statFS stbuf => FuseRequest.replyStatFS P stbuf
  | .lock fl => FuseRequest.replyLock P fl
  | .lSeek off => FuseRequest.replyLSeek P off
  | .poll revents => FuseRequest.replyPoll P revents

/-- What a method does with the request it was handed, when `n` further `FuseRequest`s are
alive on its stack. Object 0 is the callback's; the others die in the reverse order. -/
inductive Behaviour : Nat → Type where
  | ret {n : Nat} (status : Status) : Behaviour n
  | reply {n : Nat} (object : Fin (n + 1)) (method : ReplyMethod) (next : Status → Behaviour n) :
      Behaviour n
  | assign {n : Nat} (dst src : Fin (n + 1)) (next : Behaviour n) : Behaviour n
  | declare {n : Nat} (next : Behaviour (n + 1)) : Behaviour n
  | leave {n : Nat} (next : Behaviour n) : Behaviour (n + 1)
  | call {n : Nat} (c : Call) (other : replyOf c = none) (next : c.Ret → Behaviour n) : Behaviour n

abbrev Objects (n : Nat) := Fin (n + 1) → FuseRequest

/-- `FuseRequest::operator=(FuseRequest &&)` is a swap; the move constructor assigns to a
default constructed object. -/
def Objects.assign {n : Nat} (s : Objects n) (dst src : Fin (n + 1)) : Objects n :=
  s ∘ Equiv.swap dst src

def Objects.declare {n : Nat} (s : Objects n) : Objects (n + 1) := Fin.snoc s ⟨none⟩

def Objects.rest {n : Nat} (s : Objects (n + 1)) : Objects n := fun i => s i.castSucc

def destroyLocals (P : Platform) : (n : Nat) → Objects n → Prog calls FuseRequest
  | 0, s => .done (s 0)
  | n + 1, s => (FuseRequest.destroy P (s (Fin.last (n + 1)))).bind fun _ => destroyLocals P n s.rest

def Behaviour.run (P : Platform) : {n : Nat} → Behaviour n → Objects n → Prog calls (Status × FuseRequest)
  | n, .ret status, s => (destroyLocals P n s).bind fun fr => .done (status, fr)
  | _, .reply object method next, s =>
      (method.run P (s object)).bind fun p => (next p.1).run P (Function.update s object p.2)
  | _, .assign dst src next, s => next.run P (s.assign dst src)
  | _, .declare next, s => next.run P s.declare
  | _, .leave next, s => (FuseRequest.destroy P (s (Fin.last _))).bind fun _ => next.run P s.rest
  | _, .call c _ next, s => .call c fun r => (next r).run P s

def Behaviour.handler (P : Platform) (b : Behaviour 0) : Handler := fun fr => b.run P fun _ => fr

/-- A class of file systems whose methods behave as `T` says, for every operation. -/
def scripted (P : Platform) : FuseOps (Request → Behaviour 0) where
  lookup := some fun t parent name => (t (.lookup parent name)).handler P
  forget := some fun t ino n => (t (.forget ino n)).handler P
  getAttr := some fun t ino => (t (.getattr ino none)).handler P
  setAttr := some fun t ino attr toSet fi => (t (.setattr ino attr toSet (some fi))).handler P
  readLink := some fun t ino => (t (.readlink ino)).handler P
  mknod := some fun t parent name mode rdev => (t (.mknod parent name mode rdev)).handler P
  mkdir := some fun t parent name mode => (t (.mkdir parent name mode)).handler P
  unlink := some fun t parent name => (t (.unlink parent name)).handler P
  rmdir := some fun t parent name => (t (.rmdir parent name)).handler P
  symlink := some fun t link parent name => (t (.symlink link parent name)).handler P
  rename := some fun t parent name newparent newname flags =>
    (t (.rename parent name newparent newname flags)).handler P
  link := some fun t ino parent newname => (t (.link ino parent newname)).handler P
  open_ := some fun t ino fi => (t (.open_ ino (some fi))).handler P
  read := some fun t ino size off fi => (t (.read ino size off (some fi))).handler P
  write := some fun t ino buf off fi => (t (.write ino buf off (some fi))).handler P
  flush := some fun t ino fi => (t (.flush ino (some fi))).handler P
  release := some fun t ino fi => (t (.release ino (some fi))).handler P
  fSync := some fun t ino datasync fi => (t (.fsync ino datasync.toInt (some fi))).handler P
  openDir := some fun t ino fi => (t (.opendir ino (some fi))).handler P
  readDir := some fun t ino size off fi => (t (.readdir ino size off (some fi))).handler P
  releaseDir := some fun t ino fi => (t (.releasedir ino (some fi))).handler P
  fSyncDir := some fun t ino datasync fi => (t (.fsyncdir ino datasync.toInt (some fi))).handler P
  statFS := some fun t ino => (t (.statfs ino)).handler P
  setXAttr := some fun t ino name value flags => (t (.setxattr ino name value flags)).handler P
  getXAttr := some fun t ino name size => (t (.getxattr ino name size)).handler P
  listXAttr := some fun t ino size => (t (.listxattr ino size)).handler P
  removeXAttr := some fun t ino name => (t (.removexattr ino name)).handler P
  access := some fun t ino mask => (t (.access ino mask)).handler P
  create := some fun t ino name mode fi => (t (.create ino name mode (some fi))).handler P
  getLk := some fun t ino fi lock => (t (.getlk ino (some fi) lock)).handler P
  setLk := some fun t ino fi lock sleep => (t (.setlk ino (some fi) lock sleep.toInt)).handler P
  bMap := some fun t ino blocksize idx => (t (.bmap ino blocksize idx)).handler P
  iOCtl := some fun t ino cmd arg fi flags inBuf outBufsz =>
    (t (.ioctl ino cmd arg (some fi) flags inBuf outBufsz)).handler P
  poll := some fun t ino fi ph => (t (.poll ino (some fi) ph)).handler P
  writeBuf := some fun t ino inBuf off fi => (t (.writeBuf ino inBuf off fi)).handler P
  retrieveReply := some fun t cookie ino offset bufv =>
    (t (.retrieveReply cookie ino offset bufv)).handler P
  forgetMulti := some fun t forgets => (t (.forgetMulti forgets)).handler P
  fLock := some fun t ino fi op => (t (.flock ino (some fi) op)).handler P
  fAllocate := some fun t ino mode offset length fi =>
    (t (.fallocate ino mode offset length (some fi))).handler P
  readDirPlus := some fun t ino size off fi => (t (.readdirplus ino size off (some fi))).handler P
  copyFileRange := some fun t inoIn offIn fiIn inoOut offOut fiOut len flags =>
    (t (.copyFileRange inoIn offIn (some fiIn) inoOut offOut (some fiOut) len flags)).handler P
  lSeek := some fun t ino off whence fi => (t (.lseek ino off whence (some fi))).handler P

/-- A method call on one object: it left the object alone, or it answered the request the
object was holding. -/
def Consumes (fr : FuseRequest) (l : Record) (fr' : FuseRequest) (l' : Record) : Prop :=
  (fr' = fr ∧ l'.replies = l.replies) ∨
    ∃ req reply, fr = ⟨some req⟩ ∧ fr' = ⟨none⟩ ∧ l'.replies = l.replies ++ [(req, reply)]

variable {P : Platform} {req : FuseReq} {n : Nat}

theorem consumes_send (what : String) (reply : Reply) (fr : FuseRequest) (l : Record) :
    Routine.Follows record (FuseRequest.send P what reply) fr l fun _ => Consumes fr l := by
  obtain ⟨_ | req⟩ := fr
  · exact .inl ⟨rfl, rfl⟩
  · exact ⟨trivial, fun _ _ => .inr ⟨req, reply, rfl, rfl, rfl⟩⟩

theorem consumes_failure (status : Status) (fr : FuseRequest) (l : Record) :
    Routine.Follows record (FuseRequest.replyFailure P status) fr l fun _ => Consumes fr l := by
  obtain ⟨_ | req⟩ := fr <;> rcases status with st | _
  · exact .inl ⟨rfl, rfl⟩
  · exact ⟨trivial, fun impossible => nomatch impossible⟩
  · exact ⟨trivial, fun _ _ => .inr ⟨req, _, rfl, rfl, rfl⟩⟩
  · exact ⟨trivial, fun impossible => nomatch impossible⟩

theorem follows_ignored {m : Handler} {fr : FuseRequest} {l : Record}
    {Q : FuseRequest → Record → Prop} (h : Routine.Follows record m fr l fun _ => Q) :
    Routine.Follows record (do
      let _ ← m.attempt
      pure ()) fr l fun _ => Q := by
  rw [Routine.follows_bind, Routine.follows_attempt]
  exact h

theorem consumes_method (method : ReplyMethod) (fr : FuseRequest) (l : Record) :
    Routine.Follows record (method.run P) fr l fun _ => Consumes fr l := by
  cases method with
  | failure status => exact consumes_failure status fr l
  | alwaysAndLogIfNotOk status =>
      cases status with
      | ok _ => exact follows_ignored (consumes_send _ _ fr l)
      | error st => exact follows_ignored (consumes_failure _ fr l)
  | failureAndLogIfNotOk status =>
      cases status with
      | ok _ => exact .inl ⟨rfl, rfl⟩
      | error st => exact follows_ignored (consumes_failure _ fr l)
  | nothing =>
      obtain ⟨_ | req⟩ := fr
      · exact .inl ⟨rfl, rfl⟩
      · exact ⟨trivial, fun _ _ => .inr ⟨req, _, rfl, rfl, rfl⟩⟩
  | _ => exact consumes_send _ _ fr l

theorem consumes_destroy (fr : FuseRequest) (l : Record) :
    Routine.Follows record (FuseRequest.destroy P) fr l fun _ fr' l' =>
      fr' = ⟨none⟩ ∧ Consumes fr l fr' l' := by
  obtain ⟨_ | req⟩ := fr
  · exact ⟨rfl, .inl ⟨rfl, rfl⟩⟩
  · exact ⟨trivial, fun _ _ => ⟨rfl, .inr ⟨req, _, rfl, rfl, rfl⟩⟩⟩

/-- The request is held by one object and unanswered, or held by none and answered once. -/
inductive OneHolder (req : FuseReq) (s : Objects n) (l : Record) : Prop
  | owed (i : Fin (n + 1)) (holds : s i = ⟨some req⟩) (others : ∀ j, j ≠ i → s j = ⟨none⟩)
      (quiet : l.replies = [])
  | answered (reply : Reply) (gone : ∀ j, s j = ⟨none⟩) (only : l.replies = [(req, reply)])

namespace OneHolder

variable {s : Objects n} {l l' : Record}

theorem update {k : Fin (n + 1)} {fr : FuseRequest} (h : OneHolder req s l)
    (step : Consumes (s k) l fr l') : OneHolder req (Function.update s k fr) l' := by
  obtain ⟨rfl, same⟩ | ⟨held, reply, holding, rfl, sent⟩ := step
  · rw [Function.update_eq_self]
    cases h with
    | owed i holds others quiet => exact .owed i holds others (same.trans quiet)
    | answered reply gone only => exact .answered reply gone (same.trans only)
  · cases h with
    | owed i holds others quiet =>
        have here : k = i := by
          by_contra elsewhere
          rw [others k elsewhere] at holding
          cases holding
        subst here
        rw [holds] at holding
        cases holding
        refine .answered reply (fun j => ?_) (by rw [sent, quiet, List.nil_append])
        by_cases hj : j = k
        · rw [hj, Function.update_self]
        · rw [Function.update_of_ne hj, others j hj]
    | answered reply gone only =>
        rw [gone k] at holding
        cases holding

theorem assign (dst src : Fin (n + 1)) (h : OneHolder req s l) :
    OneHolder req (s.assign dst src) l := by
  cases h with
  | owed i holds others quiet =>
      refine .owed (Equiv.swap dst src i) ?_ (fun j hj => others _ fun h => hj ?_) quiet
      · simp [Objects.assign, holds]
      · rw [← h, Equiv.swap_apply_self]
  | answered reply gone only => exact .answered reply (fun j => gone _) only

theorem declare (h : OneHolder req s l) : OneHolder req s.declare l := by
  cases h with
  | owed i holds others quiet =>
      refine .owed i.castSucc ?_ (fun j hj => ?_) quiet
      · simp [Objects.declare, holds]
      · refine Fin.lastCases ?_ (fun j hj => ?_) j hj
        · intro _
          simp [Objects.declare]
        · have other : j ≠ i := fun h => hj (by rw [h])
          simp [Objects.declare, others j other]
  | answered reply gone only =>
      refine .answered reply (fun j => ?_) only
      refine Fin.lastCases ?_ (fun j => ?_) j
      · simp [Objects.declare]
      · simp [Objects.declare, gone j]

/-- The last object dies. -/
theorem leave {s : Objects (n + 1)} (h : OneHolder req s l)
    (step : Consumes (s (Fin.last (n + 1))) l ⟨none⟩ l') : OneHolder req s.rest l' := by
  have after := h.update step
  have rest (j : Fin (n + 1)) : Function.update s (Fin.last (n + 1)) ⟨none⟩ j.castSucc = s.rest j :=
    Function.update_of_ne (Fin.castSucc_ne_last j) _ _
  cases after with
  | owed i holds others quiet =>
      have inner : i ≠ Fin.last (n + 1) := by
        rintro rfl
        rw [Function.update_self] at holds
        cases holds
      obtain ⟨i, rfl⟩ := Fin.exists_castSucc_eq.mpr inner
      refine .owed i (by rw [← rest, holds]) (fun j hj => ?_) quiet
      rw [← rest, others _ fun h => hj (Fin.castSucc_injective _ h)]
  | answered reply gone only => exact .answered reply (fun j => by rw [← rest, gone]) only

end OneHolder

theorem follows_destroyLocals (s : Objects n) (l : Record) (h : OneHolder req s l) :
    (destroyLocals P n s).Follows record l fun fr l' => OneHolder req (fun _ : Fin 1 => fr) l' := by
  induction n generalizing l with
  | zero =>
      have same : (fun _ : Fin 1 => s 0) = s := funext fun i => by rw [Fin.fin_one_eq_zero i]
      rw [destroyLocals, Prog.follows_done, same]
      exact h
  | succ n ih =>
      rw [destroyLocals, Prog.follows_bind]
      refine Prog.Follows.mono (consumes_destroy _ l) fun p l' step => ?_
      obtain ⟨gone, step⟩ := step
      rw [gone] at step
      exact ih _ _ (h.leave step)

theorem follows_behaviour (b : Behaviour n) (s : Objects n) (l : Record) (h : OneHolder req s l) :
    (b.run P s).Follows record l fun p l' => OneHolder req (fun _ : Fin 1 => p.2) l' := by
  induction b generalizing l with
  | ret status =>
      rw [Behaviour.run, Prog.follows_bind]
      exact follows_destroyLocals s l h
  | reply object method next ih =>
      rw [Behaviour.run, Prog.follows_bind]
      refine Prog.Follows.mono (consumes_method method _ l) fun p l' step => ?_
      exact ih p.1 _ l' (h.update step)
  | assign dst src next ih => exact ih _ l (h.assign dst src)
  | declare next ih => exact ih _ l h.declare
  | leave next ih =>
      rw [Behaviour.run, Prog.follows_bind]
      refine Prog.Follows.mono (consumes_destroy _ l) fun p l' step => ?_
      obtain ⟨gone, step⟩ := step
      rw [gone] at step
      exact ih _ l' (h.leave step)
  | call c other next ih =>
      refine ⟨trivial, fun r _ => ih r s _ ?_⟩
      have same : (record.after l c r).replies = l.replies := by simp [other]
      cases h with
      | owed i holds others quiet => exact .owed i holds others (same.trans quiet)
      | answered reply gone only => exact .answered reply gone (same.trans only)

theorem scripted_invocation (methods : Request → Behaviour 0) {r : Request}
    {method : (Request → Behaviour 0) → Handler} (h : (scripted P).invocation r = some method) :
    ∃ b : Behaviour 0, method methods = b.handler P := by
  unfold FuseOps.invocation at h
  split at h
  case h_43 => cases h
  all_goals
    cases h
    exact ⟨_, rfl⟩

theorem follows_scripted_callback (b : Behaviour 0) (finish : Finish) :
    ((b.handler P ⟨some req⟩).bind fun p => epilogue P finish p.1 p.2).Follows record .start
      fun p l => (∃ reply, l.replies = [(req, reply)]) ∧ p.2 = ⟨none⟩ := by
  have owed : OneHolder req (fun _ : Fin 1 => (⟨some req⟩ : FuseRequest)) .start :=
    .owed 0 rfl (fun j hj => absurd (Fin.fin_one_eq_zero j) hj) rfl
  rw [Prog.follows_bind]
  refine Prog.Follows.mono (follows_behaviour b _ _ owed) fun p l holder => ?_
  cases holder with
  | owed i holds others quiet =>
      rw [show p.2 = ⟨some req⟩ from holds, epilogue_owed]
      exact ⟨trivial, fun _ _ => ⟨⟨finish.reply P p.1, by simp [quiet, replyOf]⟩, rfl⟩⟩
  | answered reply gone only =>
      rw [show p.2 = ⟨none⟩ from gone 0, epilogue_gone]
      exact ⟨⟨reply, only⟩, rfl⟩

/-- Every callback of `AsFuseLowLevelOps` answers its request once, whatever the method it
wraps does, and nothing is left that could answer it again. -/
theorem exactly_one_reply (methods : Request → Behaviour 0) {r : Request} {handler : Handler}
    {t : List (Event calls)} {out : Status × FuseRequest}
    (served : asFuseLowLevelOps P (some methods) req (scripted P) r = some handler)
    (run : Exec (handler ⟨none⟩) t out) :
    (∃ reply, repliesIn t = [(req, reply)]) ∧ out.2 = ⟨none⟩ := by
  obtain ⟨method, invoked⟩ | null := invocation_or_null served
  · rw [asFuseLowLevelOps_of_invocation invoked] at served
    cases served
    obtain ⟨b, isScript⟩ := scripted_invocation methods invoked
    rw [callback_eq, isScript] at run
    have once := (follows_scripted_callback b r.opcode.finish).exec run (record_admits _ t)
    rw [record_run] at once
    exact once
  · obtain ⟨next, stops⟩ := asFuseLowLevelOps_of_null served null ⟨none⟩
    rw [stops] at run
    cases run with
    | step impossible _ => exact nomatch impossible

/-- `Flush` that moves the request away, answers on the new object and returns OK. -/
def movesAndAnswers : Request → Behaviour 0 := fun _ =>
  .declare (.assign 1 0 (.reply 1 (.errno 0) .ret))

theorem exactly_one_reply_moved : ∃ handler t out,
    asFuseLowLevelOps linux (some movesAndAnswers) ⟨2, .flush⟩ (scripted linux)
      (.flush FUSE_ROOT_ID (some ⟨0, 5, false, true⟩)) = some handler ∧
    Exec (handler ⟨none⟩) t out ∧
    (∃ reply, repliesIn t = [(⟨2, .flush⟩, reply)]) ∧ out.2 = ⟨none⟩ := by
  have run : Exec (callback linux (some movesAndAnswers) ⟨2, .flush⟩ .replyAlways
      (fun t => (t (.flush FUSE_ROOT_ID (some ⟨0, 5, false, true⟩))).handler linux) ⟨none⟩)
      [⟨.fuseReply ⟨2, .flush⟩ (.err 0), none⟩] (.ok (), ⟨none⟩) := .step _ (.refl _)
  have served : asFuseLowLevelOps linux (some movesAndAnswers) ⟨2, .flush⟩ (scripted linux)
      (.flush FUSE_ROOT_ID (some ⟨0, 5, false, true⟩)) =
        some (callback linux (some movesAndAnswers) ⟨2, .flush⟩ .replyAlways
          fun t => (t (.flush FUSE_ROOT_ID (some ⟨0, 5, false, true⟩))).handler linux) := rfl
  exact ⟨_, _, _, served, run, exactly_one_reply movesAndAnswers served run⟩

end Pafs
