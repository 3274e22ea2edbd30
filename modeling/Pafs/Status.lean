import Mathlib

/-! Statuses and errno numbers: `status.h`, `status.cc`, `errno.cc` and the code-to-errno
table of `fuse.cc`. What the daemon links against but does not contain (glibc, abseil,
libfuse's entry encoder) is one parameter, the `Platform`, with the documented behaviour
the code relies on as its fields. -/
namespace Pafs

/-- What `errno` can hold after a failed call: a non-zero C `int`. -/
structure Errno where
  num : Int
  nonzero : num ≠ 0
  inInt : -2147483648 ≤ num ∧ num < 2147483648
  deriving DecidableEq

/-- `absl::StatusCode`. -/
inductive StatusCode where
  | ok | cancelled | unknown | invalidArgument | deadlineExceeded | notFound | alreadyExists
  | permissionDenied | resourceExhausted | failedPrecondition | aborted | outOfRange
  | unimplemented | internal | unavailable | dataLoss | unauthenticated
  deriving DecidableEq, Repr

/-- A non-OK `absl::Status`. -/
structure Error where
  code : StatusCode
  message : String
  payloads : List (String × String)
  notOk : code ≠ .ok
  deriving DecidableEq

/-- `absl::Status`; the OK status is `.ok ()`. -/
abbrev Status := Except Error Unit

/-- `absl::StatusOr`. -/
abbrev StatusOr (α : Type) := Except Error α

def Error.getPayload (st : Error) (url : String) : Option String := st.payloads.lookup url

def Error.setPayload (st : Error) (url value : String) : Error :=
  { st with payloads := (url, value) :: st.payloads.filter (·.1 ≠ url) }

def EPERM : Int := 1
def ENOENT : Int := 2
def EAGAIN : Int := 11
def EBUSY : Int := 16
def EEXIST : Int := 17
def EINVAL : Int := 22
def ENOTTY : Int := 25
def ENOSPC : Int := 28
def ERANGE : Int := 34
def EDEADLK : Int := 35
def ENAMETOOLONG : Int := 36
def ENOSYS : Int := 38
def ECOMM : Int := 70
def EPROTO : Int := 71
def ELIBBAD : Int := 80
def ETIMEDOUT : Int := 110
def ECANCELED : Int := 125
def ENOTRECOVERABLE : Int := 131

/-- The text `ErrnoToErrorName` puts around a number without a name. -/
def unknownPrefix : String := "UNKNOWN ("

/-- The libraries the daemon is linked against. -/
structure Platform where
  /-- glibc: the symbolic name of an errno, if the platform defines it. -/
  strerrornameNp : Int → Option String
  strError : Int → String
  /-- abseil: `absl::ErrnoToStatusCode`. -/
  abslErrnoToStatusCode : Int → StatusCode
  simpleAtoi : String → Option Int
  /-- libfuse: what `fuse_add_direntry` (`fuse_add_direntry_plus`) returns for an entry
  of this name when it is given a buffer of this many bytes. -/
  direntSize : Bool → String → Nat → Nat
  code_ok_iff : ∀ e, abslErrnoToStatusCode e = .ok ↔ e = 0
  name_symbolic : ∀ e n, strerrornameNp e = some n →
    n ≠ "OK" ∧ ¬ unknownPrefix.toList <+: n.toList
  simpleAtoi_decimal : ∀ n : Int, -2147483648 ≤ n → n < 2147483648 →
    simpleAtoi (toString n) = some n
  direntSize_pos : ∀ plus name n, 0 < direntSize plus name n
  direntSize_same : ∀ plus name n, direntSize plus name n = direntSize plus name 0

def kErrnoTypeUrl : String := "rus.har.mn/pafs/status/errno"

def errnoToErrorName (P : Platform) (errorNumber : Int) : String :=
  if errorNumber = 0 then "OK"
  else match P.strerrornameNp errorNumber with
    | some n => n
    | none => unknownPrefix ++ toString errorNumber ++ ")"

/-- The static table of `ErrorNameToErrno`, in the order of the source. -/
def kNamesToErrors : List (String × Int) :=
  [("OK", 0), ("EINVAL", 22), ("ENAMETOOLONG", 36), ("E2BIG", 7), ("EDESTADDRREQ", 89),
   ("EDOM", 33), ("EFAULT", 14), ("EILSEQ", 84), ("ENOPROTOOPT", 92), ("ENOSTR", 60),
   ("ENOTSOCK", 88), ("ENOTTY", 25), ("EPROTOTYPE", 91), ("ESPIPE", 29), ("ETIMEDOUT", 110),
   ("ETIME", 62), ("ENODEV", 19), ("ENOENT", 2), ("ENOMEDIUM", 123), ("ENXIO", 6), ("ESRCH", 3),
   ("EEXIST", 17), ("EADDRNOTAVAIL", 99), ("EALREADY", 114), ("ENOTUNIQ", 76), ("EPERM", 1),
   ("EACCES", 13), ("ENOKEY", 126), ("EROFS", 30), ("ENOTEMPTY", 39), ("EISDIR", 21),
   ("ENOTDIR", 20), ("EADDRINUSE", 98), ("EBADF", 9), ("EBADFD", 77), ("EBUSY", 16),
   ("ECHILD", 10), ("EISCONN", 106), ("EISNAM", 120), ("ENOTBLK", 15), ("ENOTCONN", 107),
   ("EPIPE", 32), ("ESHUTDOWN", 108), ("ETXTBSY", 26), ("EUNATCH", 49), ("ENOSPC", 28),
   ("EDQUOT", 122), ("EMFILE", 24), ("EMLINK", 31), ("ENFILE", 23), ("ENOBUFS", 105),
   ("ENODATA", 61), ("ENOMEM", 12), ("ENOSR", 63), ("EUSERS", 87), ("ECHRNG", 44), ("EFBIG", 27),
   ("EOVERFLOW", 75), ("ERANGE", 34), ("ENOPKG", 65), ("ENOSYS", 38), ("ENOTSUP", 95),
   ("EAFNOSUPPORT", 97), ("EPFNOSUPPORT", 96), ("EPROTONOSUPPORT", 93), ("ESOCKTNOSUPPORT", 94),
   ("EXDEV", 18), ("EAGAIN", 11), ("ECOMM", 70), ("ECONNREFUSED", 111), ("ECONNABORTED", 103),
   ("ECONNRESET", 104), ("EINTR", 4), ("EHOSTDOWN", 112), ("EHOSTUNREACH", 113),
   ("ENETDOWN", 100), ("ENETRESET", 102), ("ENETUNREACH", 101), ("ENOLCK", 37), ("ENOLINK", 67),
   ("ENONET", 64), ("EDEADLK", 35), ("ESTALE", 116), ("ECANCELED", 125)]

/-- `ConsumePrefix` and `ConsumeSuffix`: what stands inside `UNKNOWN (...)`. -/
def insideUnknown (errorName : String) : Option String :=
  match errorName.toList.dropPrefix? unknownPrefix.toList with
  | none => none
  | some rest => (rest.dropSuffix? [')']).map String.ofList

def notFoundError (message : String) : Error :=
  { code := .notFound, message, payloads := [], notOk := by decide }

def errorNameToErrno (P : Platform) (errorName : String) : StatusOr Int :=
  match (insideUnknown errorName).bind P.simpleAtoi with
  | some err => .ok err
  | none => match kNamesToErrors.lookup errorName with
    | some err => .ok err
    | none => .error (notFoundError ("No such errno for " ++ errorName))

/-- `absl::ErrnoToStatus` of a failed call: a code and a message, no payload. -/
def abslErrnoToStatus (P : Platform) (e : Errno) (message : String) : Error :=
  { code := P.abslErrnoToStatusCode e.num
    message := message ++ ": " ++ P.strError e.num
    payloads := []
    notOk := fun h => e.nonzero ((P.code_ok_iff e.num).mp h) }

/-- `pafs::ErrnoToStatus` of a failed call. -/
def errnoError (P : Platform) (e : Errno) (message : String) : Error :=
  (abslErrnoToStatus P e message).setPayload kErrnoTypeUrl (errnoToErrorName P e.num)

/-- `pafs::ErrnoToStatus` of a return code that is an errno, or nothing on success;
`SetPayload` leaves an OK status alone. -/
def errnoToStatus (P : Platform) (rc : Option Errno) (message : String) : Status :=
  match rc with
  | none => .ok ()
  | some e => .error (errnoError P e message)

def getErrnoFromStatus (P : Platform) (st : Error) : StatusOr Int :=
  match st.getPayload kErrnoTypeUrl with
  | none => .error (notFoundError "No payload")
  | some payload => errorNameToErrno P payload

def statusCodeToErrno : StatusCode → Int
  | .ok => 0
  | .invalidArgument => EINVAL
  | .deadlineExceeded => ETIMEDOUT
  | .notFound => ENOENT
  | .alreadyExists => EEXIST
  | .permissionDenied | .unauthenticated => EPERM
  | .outOfRange => ERANGE
  | .failedPrecondition => EBUSY
  | .resourceExhausted => ENOSPC
  | .cancelled => ECANCELED
  | .aborted => EDEADLK
  | .unimplemented => ENOSYS
  | .unavailable => EAGAIN
  | .dataLoss => ENOTRECOVERABLE
  | .internal => ELIBBAD
  | .unknown => EPROTO

/-- The errno that `FuseRequest::ReplyFailure` sends for a status. -/
def failureErrno (P : Platform) (st : Error) : Int :=
  match getErrnoFromStatus P st with
  | .ok n => n
  | .error _ => statusCodeToErrno st.code

/-- The errnos that survive the encoding as a name and the decoding of that name. -/
def RoundTrips (P : Platform) (e : Int) : Prop :=
  errorNameToErrno P (errnoToErrorName P e) = .ok e

instance (P : Platform) (e : Int) : Decidable (RoundTrips P e) :=
  inferInstanceAs (Decidable (_ = _))

@[simp] theorem getPayload_errnoError (P : Platform) (e : Errno) (message : String) :
    (errnoError P e message).getPayload kErrnoTypeUrl = some (errnoToErrorName P e.num) := by
  simp [errnoError, Error.getPayload, Error.setPayload]

@[simp] theorem getPayload_abslErrnoToStatus (P : Platform) (e : Errno) (message url : String) :
    (abslErrnoToStatus P e message).getPayload url = none := rfl

theorem getErrnoFromStatus_errnoError (P : Platform) (e : Errno) (message : String) :
    getErrnoFromStatus P (errnoError P e message) =
      errorNameToErrno P (errnoToErrorName P e.num) := by
  simp [getErrnoFromStatus]

/-- An errno that round trips is sent back as it came. -/
theorem failureErrno_errnoError (P : Platform) (e : Errno) (message : String)
    (h : RoundTrips P e.num) : failureErrno P (errnoError P e message) = e.num := by
  have hs : errorNameToErrno P (errnoToErrorName P e.num) = .ok e.num := h
  simp only [failureErrno, getErrnoFromStatus_errnoError, hs]

/-- Without the payload only the code is left. -/
theorem failureErrno_abslErrnoToStatus (P : Platform) (e : Errno) (message : String) :
    failureErrno P (abslErrnoToStatus P e message) =
      statusCodeToErrno (P.abslErrnoToStatusCode e.num) := rfl

theorem statusCodeToErrno_ne_zero {c : StatusCode} (h : c ≠ .ok) : statusCodeToErrno c ≠ 0 := by
  cases c <;> first | exact absurd rfl h | decide

theorem lookup_kNamesToErrors_ne_zero {n : String} {e : Int}
    (h : kNamesToErrors.lookup n = some e) (hn : n ≠ "OK") : e ≠ 0 := by
  have mem : (n, e) ∈ kNamesToErrors := by
    rw [List.lookup_eq_some_iff] at h
    obtain ⟨pre, post, eq, -⟩ := h
    rw [eq]
    simp
  have all : ∀ p ∈ kNamesToErrors, p.2 = 0 → p.1 = "OK" := by decide
  exact fun h0 => hn (all _ mem h0)

theorem insideUnknown_unknown (n : Int) :
    insideUnknown (unknownPrefix ++ toString n ++ ")") = some (toString n) := by
  have hp : (unknownPrefix ++ toString n ++ ")").toList.dropPrefix? unknownPrefix.toList =
      some ((toString n).toList ++ [')']) := by
    rw [List.dropPrefix?_eq_some_iff]
    exact ⟨unknownPrefix.toList, by simp, by simp⟩
  have hs : ((toString n).toList ++ [')']).dropSuffix? [')'] = some (toString n).toList := by
    rw [List.dropSuffix?_eq_some_iff]
    exact ⟨[')'], rfl, by simp⟩
  simp only [insideUnknown, hp, hs, Option.map_some, String.ofList_toList]

theorem insideUnknown_of_not_prefix {n : String} (h : ¬ unknownPrefix.toList <+: n.toList) :
    insideUnknown n = none := by
  have hp : n.toList.dropPrefix? unknownPrefix.toList = none := by
    cases hd : n.toList.dropPrefix? unknownPrefix.toList with
    | none => rfl
    | some rest =>
        obtain ⟨pre, eq, beq⟩ := List.dropPrefix?_eq_some_iff.mp hd
        exact absurd ⟨rest, by rw [eq, eq_of_beq beq]⟩ h
  simp [insideUnknown, hp]

/-- No failed call is encoded as the name of success. -/
theorem errorNameToErrno_ne_zero {P : Platform} {e : Errno} {n : Int}
    (h : errorNameToErrno P (errnoToErrorName P e.num) = .ok n) : n ≠ 0 := by
  unfold errnoToErrorName at h
  rw [if_neg e.nonzero] at h
  cases hn : P.strerrornameNp e.num with
  | none =>
      simp only [hn, errorNameToErrno, insideUnknown_unknown, Option.bind_some,
        P.simpleAtoi_decimal e.num e.inInt.1 e.inInt.2] at h
      cases h
      exact e.nonzero
  | some name =>
      obtain ⟨notOk, notUnknown⟩ := P.name_symbolic _ _ hn
      simp only [hn, errorNameToErrno, insideUnknown_of_not_prefix notUnknown,
        Option.bind_none] at h
      cases hl : kNamesToErrors.lookup name with
      | none => simp [hl] at h
      | some err =>
          simp only [hl, Except.ok.injEq] at h
          exact h ▸ lookup_kNamesToErrors_ne_zero hl notOk

theorem failureErrno_errnoError_ne_zero (P : Platform) (e : Errno) (message : String) :
    failureErrno P (errnoError P e message) ≠ 0 := by
  unfold failureErrno
  rw [getErrnoFromStatus_errnoError]
  cases h : errorNameToErrno P (errnoToErrorName P e.num) with
  | ok n => exact errorNameToErrno_ne_zero h
  | error _ => exact statusCodeToErrno_ne_zero (errnoError P e message).notOk

/-- A status that never had a payload is answered from its code. -/
theorem failureErrno_ne_zero_of_no_payload (P : Platform) {st : Error}
    (h : st.payloads = []) : failureErrno P st ≠ 0 := by
  have hp : st.getPayload kErrnoTypeUrl = none := by simp [Error.getPayload, h]
  simp only [failureErrno, getErrnoFromStatus, hp]
  exact statusCodeToErrno_ne_zero st.notOk

end Pafs
