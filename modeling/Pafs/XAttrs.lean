import Pafs.Checks

/-! Extended attributes. The kernel asks for an attribute (or for the list of names) with the
size of its buffer, and with size 0 for the length alone. -/
namespace Pafs
open Resumption

/-- What `getxattr(2)` and `listxattr(2)` return when they find `v`. -/
def xattrRead (v : Bytes) (size : Nat) : Except Errno XattrRead :=
  if size = 0 then .ok { nb := v.length, written := [] }
  else if v.length ≤ size then .ok { nb := v.length, written := v }
  else .error ⟨ERANGE, by decide, by decide⟩

/-- Attributes that stay as they are, and the descriptors of the inodes. -/
structure XAttrs where
  fd : InodeRef → Fd
  value : Fd → String → Bytes
  names : Fd → Bytes

/-- What a request asks for. -/
def XAttrs.wanted (E : XAttrs) : Request → Option (Bytes × Nat)
  | .getxattr ino name size => some (E.value (E.fd (getInode ino)) name, size)
  | .listxattr ino size => some (E.names (E.fd (getInode ino)), size)
  | _ => none

/-- No check may fail. The ledger lists the replies. -/
def XAttrs.environment (E : XAttrs) : Discipline calls (List Reply) where
  allows _ c :=
    match c with
    | .abort _ => False
    | _ => True
  answers _ c r :=
    match c, r with
    | .getFD ref, fd => fd = E.fd ref
    | .sys (.getxattr (.procSelfFd fd) name size), rc => rc = xattrRead (E.value fd name) size
    | .sys (.listxattr (.procSelfFd fd) size), rc => rc = xattrRead (E.names fd) size
    | _, _ => True
  after replies c _ :=
    match c with
    | .fuseReply _ reply => replies ++ [reply]
    | _ => replies

/-- The replies that libfuse documents for the buffer size `s`. -/
structure SizeProtocol (v : Bytes) (s : Nat) (replies : List Reply) : Prop where
  probe : s = 0 → replies = [.xattr v.length]
  fits : 0 < v.length → v.length ≤ s → replies = [.buf (.bytes v)]
  short : 0 < s → s < v.length → replies = [.err ERANGE]

/-- What the daemon replies to a buffer size when no check fails. -/
def xattrReplies (P : Platform) (what : String) (v : Bytes) (size : Nat) : List Reply :=
  match xattrRead v size with
  | .error e => [.err (failureErrno P (errnoError P e what))]
  | .ok r => [.buf (.bytes (Syscalls.resized size r.written r.nb))]

/-- The request is served without a failed check, and its replies satisfy `Q`. -/
def XAttrs.Answers (E : XAttrs) (fs : PageAlignFS) (req : FuseReq) (r : Request)
    (Q : List Reply → Prop) : Prop :=
  ∃ handler, fs.serve req r = some handler ∧
    ∀ s, Routine.Follows E.environment handler s [] fun _ _ replies => Q replies

namespace XAttrs
open Routine (Follows)

variable {E : XAttrs} {fs : PageAlignFS} {req : FuseReq} {P : Platform} {Q : List Reply → Prop}
  {replies : List Reply}

theorem follows_replied (status : Status) :
    Follows E.environment (epilogue P .replyFailure status) ⟨none⟩ replies (fun _ _ l => Q l) ↔
      Q replies := by
  cases status <;> rfl

theorem follows_failed (e : Error) :
    Follows E.environment (epilogue P .replyFailure (.error e)) ⟨some req⟩ replies (fun _ _ l => Q l) ↔
      Q (replies ++ [.err (failureErrno P e)]) := by
  constructor
  · intro follows
    exact (follows.2 none trivial)
  · intro q
    exact ⟨trivial, fun rc _ => by cases rc <;> exact q⟩

/-- A buffer that was sent leaves nothing to be replied. -/
theorem follows_replyBuf (data : Buffer) :
    Follows E.environment (FuseRequest.replyBuf P data) ⟨some req⟩ [] (fun status s' l =>
      Follows E.environment (epilogue P .replyFailure status) s' l fun _ _ l' => Q l') ↔ Q [.buf data] := by
  unfold FuseRequest.replyBuf
  rw [FuseRequest.follows_send_some]
  constructor
  · intro follows
    exact (follows_replied _).mp (follows.2 none trivial)
  · intro q
    exact ⟨trivial, fun rc _ => (follows_replied _).mpr q⟩

theorem resized_whole {v : Bytes} {size : Nat} (fits : v.length ≤ size) :
    Syscalls.resized size v v.length = v := by
  simp [Syscalls.resized, List.take_append, fits]

/-- The descriptor of the inode, before which only a log line is written. -/
theorem follows_withFD {σ α : Type} {ref : InodeRef} {f : Fd → Io σ α} {s : σ}
    {Q : StatusOr α → σ → List Reply → Prop} :
    Follows E.environment (do
      Routine.invoke (I := calls) (.logInode ref)
      let fd ← Routine.invoke (I := calls) (.getFD ref)
      f fd) s replies Q ↔ Follows E.environment (f (E.fd ref)) s replies Q := by
  rw [Routine.follows_bind, Routine.follows_invoke]
  constructor
  · intro follows
    exact (Routine.follows_invoke_known trivial fun _ => Iff.rfl).mp (follows.2 () trivial)
  · intro follows
    exact ⟨trivial, fun _ _ => (Routine.follows_invoke_known trivial fun _ => Iff.rfl).mpr follows⟩

/-- What `GetXAttr` replies: nothing at all where a check fails. -/
theorem follows_getXAttr (ino : Addr) (name : String) (size : Nat) (s : FuseRequest) :
    Follows E.environment (callback fs.platform (some fs) req .replyFailure (·.getXAttr ino name size)) s []
      (fun _ _ l => Q l) ↔
    (∀ r, xattrRead (E.value (E.fd (getInode ino)) name) size = .ok r → r.nb ≤ size) ∧
      Q (xattrReplies fs.platform "getxattr" (E.value (E.fd (getInode ino)) name) size) := by
  rw [follows_callback]
  unfold PageAlignFS.getXAttr Syscalls.getxattr xattrReplies
  dsimp only
  rw [follows_withFD, Routine.follows_bind, Routine.follows_bind, follows_syscall_known trivial fun _ => Iff.rfl]
  cases xattrRead (E.value (E.fd (getInode ino)) name) size with
  | error e =>
      simp only [reduceCtorEq, false_implies, implies_true, true_and]
      exact follows_failed _
  | ok r =>
      simp only [Except.ok.injEq, forall_eq']
      rw [Routine.follows_bind, follows_check]
      by_cases fits : r.nb ≤ size
      · have whole : (Syscalls.resized size r.written r.nb).length ≤ size :=
          (Checked.resized_length _ _ _).trans_le fits
        simp only [fits, decide_true, Bool.true_eq_false, false_implies, and_true, true_and,
          forall_const]
        rw [Routine.follows_pure]
        dsimp only
        rw [Routine.follows_bind, follows_check]
        simp only [whole, decide_true, Bool.true_eq_false, false_implies, and_true, forall_const]
        exact follows_replyBuf _
      · simp only [fits, decide_false, Bool.false_eq_true, false_implies, true_and, forall_const, false_and]
        exact Iff.rfl

theorem follows_listXAttr (ino : Addr) (size : Nat) (s : FuseRequest) :
    Follows E.environment (callback fs.platform (some fs) req .replyFailure (·.listXAttr ino size)) s []
      (fun _ _ l => Q l) ↔
    Q (xattrReplies fs.platform "listxattr" (E.names (E.fd (getInode ino))) size) := by
  rw [follows_callback]
  unfold PageAlignFS.listXAttr Syscalls.listxattr xattrReplies
  dsimp only
  rw [follows_withFD, Routine.follows_bind, follows_syscall_known trivial fun _ => Iff.rfl]
  cases xattrRead (E.names (E.fd (getInode ino))) size with
  | error e => exact follows_failed _
  | ok r =>
      dsimp only
      rw [Routine.follows_bind, follows_check]
      simp only [List.length_replicate, le_refl, decide_true, Bool.true_eq_false, false_implies, and_true,
        forall_const]
      exact follows_replyBuf _

theorem answers_iff {r : Request} {handler : Handler} (served : fs.serve req r = some handler) :
    E.Answers fs req r Q ↔ ∀ s, Follows E.environment handler s [] fun _ _ l => Q l := by
  constructor
  · rintro ⟨handler', served', follows⟩
    rw [served] at served'
    cases served'
    exact follows
  · intro follows
    exact ⟨handler, served, follows⟩

theorem answers_getxattr (ino : Addr) (name : String) (size : Nat) :
    E.Answers fs req (.getxattr ino name size) Q ↔
      (∀ r, xattrRead (E.value (E.fd (getInode ino)) name) size = .ok r → r.nb ≤ size) ∧
        Q (xattrReplies fs.platform "getxattr" (E.value (E.fd (getInode ino)) name) size) := by
  rw [answers_iff rfl]
  constructor
  · intro follows
    exact (follows_getXAttr ino name size ⟨none⟩).mp (follows _)
  · intro replied s
    exact (follows_getXAttr ino name size s).mpr replied

theorem answers_listxattr (ino : Addr) (size : Nat) :
    E.Answers fs req (.listxattr ino size) Q ↔
      Q (xattrReplies fs.platform "listxattr" (E.names (E.fd (getInode ino))) size) := by
  rw [answers_iff rfl]
  constructor
  · intro follows
    exact (follows_listXAttr ino size ⟨none⟩).mp (follows _)
  · intro replied s
    exact (follows_listXAttr ino size s).mpr replied

end XAttrs

section SizeProtocol
variable {P : Platform} {what : String} {v : Bytes} {size : Nat}

theorem xattrReplies_zero : xattrReplies P what v 0 = [.buf (.bytes (Syscalls.resized 0 [] v.length))] := by
  simp [xattrReplies, xattrRead]

theorem sizeProtocol_of_pos (names : ∀ e, P.strerrornameNp e = linuxErrnoNames.lookup e) (pos : size ≠ 0) :
    SizeProtocol v size (xattrReplies P what v size) := by
  have decoded : RoundTrips P ERANGE := (roundTrips_iff names (by decide) (by decide)).mpr (by decide)
  unfold xattrReplies xattrRead
  rw [if_neg pos]
  split_ifs with fits
  · refine ⟨fun zero => absurd zero pos, fun _ _ => ?_, fun _ short => absurd fits (Nat.not_le.mpr short)⟩
    simp only [XAttrs.resized_whole fits]
  · refine ⟨fun zero => absurd zero pos, fun _ fits' => absurd fits' fits, fun _ _ => ?_⟩
    simp only [failureErrno_errnoError P ⟨ERANGE, by decide, by decide⟩ what decoded]

/-- A reply without a length is none of the protocol's. -/
theorem not_sizeProtocol_buf {data : Buffer} : ¬ SizeProtocol v 0 [.buf data] := by
  intro protocol
  cases protocol.probe rfl

end SizeProtocol

theorem xattrRead_nb_le (pos : size ≠ 0) {r : XattrRead} (h : xattrRead v size = .ok r) : r.nb ≤ size := by
  unfold xattrRead at h
  rw [if_neg pos] at h
  split_ifs at h with fits
  cases h
  exact fits

/-- Exactly the size 0 is not served as documented, and no such request is told a length. -/
theorem xattr_iff (fs : PageAlignFS) (names : ∀ e, fs.platform.strerrornameNp e = linuxErrnoNames.lookup e)
    (E : XAttrs) (req : FuseReq) {r : Request} {v : Bytes} {size : Nat}
    (wanted : E.wanted r = some (v, size)) :
    (E.Answers fs req r (SizeProtocol v size) ↔ size ≠ 0) ∧
      (size = 0 → ∀ n, ¬ E.Answers fs req r fun replies => replies = [.xattr n]) := by
  have told : ∀ what, size = 0 → ∃ data, xattrReplies fs.platform what v size = [.buf data] := by
    rintro what rfl
    exact ⟨_, xattrReplies_zero⟩
  cases r
  case getxattr ino name size' =>
      cases wanted
      simp only [XAttrs.answers_getxattr]
      refine ⟨⟨?_, ?_⟩, ?_⟩
      · rintro ⟨-, protocol⟩ zero
        obtain ⟨data, replied⟩ := told "getxattr" zero
        rw [replied, zero] at protocol
        exact not_sizeProtocol_buf protocol
      · intro pos
        exact ⟨fun r => xattrRead_nb_le pos, sizeProtocol_of_pos names pos⟩
      · rintro zero n ⟨-, replied⟩
        obtain ⟨data, replied'⟩ := told "getxattr" zero
        rw [replied'] at replied
        cases replied
  case listxattr ino size' =>
      cases wanted
      simp only [XAttrs.answers_listxattr]
      refine ⟨⟨?_, ?_⟩, ?_⟩
      · intro protocol zero
        obtain ⟨data, replied⟩ := told "listxattr" zero
        rw [replied, zero] at protocol
        exact not_sizeProtocol_buf protocol
      · intro pos
        exact sizeProtocol_of_pos names pos
      · intro zero n replied
        obtain ⟨data, replied'⟩ := told "listxattr" zero
        rw [replied'] at replied
        cases replied
  all_goals cases wanted

namespace Sample

/-- Every file has one byte of `user.comment`. -/
def commented : XAttrs where
  fd _ := 3
  value _ _ := [65]
  names _ := [117, 0]

end Sample

theorem xattr_getfattr : Sample.commented.Answers .onLinux ⟨4, .getxattr⟩
    (.getxattr FUSE_ROOT_ID "user.comment" 1) (SizeProtocol [65] 1) :=
  (xattr_iff .onLinux (fun _ => rfl) Sample.commented ⟨4, .getxattr⟩ rfl).1.mpr (by decide)

/-- `getfattr` first asks for the size. -/
theorem xattr_probe_unanswered : ¬ ∀ fs : PageAlignFS,
    (∀ e, fs.platform.strerrornameNp e = linuxErrnoNames.lookup e) →
    ∀ (E : XAttrs) (req : FuseReq) (r : Request) (v : Bytes) (size : Nat),
      E.wanted r = some (v, size) → E.Answers fs req r (SizeProtocol v size) := by
  intro always
  have answers := always .onLinux (fun _ => rfl) Sample.commented ⟨4, .listxattr⟩ (.listxattr FUSE_ROOT_ID 0)
    [117, 0] 0 rfl
  have protocol := (XAttrs.answers_listxattr FUSE_ROOT_ID 0).mp answers
  rw [xattrReplies_zero] at protocol
  exact not_sizeProtocol_buf protocol

end Pafs
