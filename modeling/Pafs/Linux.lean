import Pafs.Status

/-! The platform the daemon is built for: glibc's names of the Linux errnos, abseil's table
of canonical codes, and libfuse's encoding of a directory entry. -/
namespace Pafs

/-- The names known to `strerrorname_np`. -/
def linuxErrnoNames : List (Int × String) :=
  [(1, "EPERM"), (2, "ENOENT"), (3, "ESRCH"), (4, "EINTR"), (5, "EIO"), (6, "ENXIO"),
   (7, "E2BIG"), (8, "ENOEXEC"), (9, "EBADF"), (10, "ECHILD"), (11, "EAGAIN"), (12, "ENOMEM"),
   (13, "EACCES"), (14, "EFAULT"), (15, "ENOTBLK"), (16, "EBUSY"), (17, "EEXIST"), (18, "EXDEV"),
   (19, "ENODEV"), (20, "ENOTDIR"), (21, "EISDIR"), (22, "EINVAL"), (23, "ENFILE"),
   (24, "EMFILE"), (25, "ENOTTY"), (26, "ETXTBSY"), (27, "EFBIG"), (28, "ENOSPC"),
   (29, "ESPIPE"), (30, "EROFS"), (31, "EMLINK"), (32, "EPIPE"), (33, "EDOM"), (34, "ERANGE"),
   (35, "EDEADLK"), (36, "ENAMETOOLONG"), (37, "ENOLCK"), (38, "ENOSYS"), (39, "ENOTEMPTY"),
   (40, "ELOOP"), (42, "ENOMSG"), (43, "EIDRM"), (44, "ECHRNG"), (45, "EL2NSYNC"),
   (46, "EL3HLT"), (47, "EL3RST"), (48, "ELNRNG"), (49, "EUNATCH"), (50, "ENOCSI"),
   (51, "EL2HLT"), (52, "EBADE"), (53, "EBADR"), (54, "EXFULL"), (55, "ENOANO"),
   (56, "EBADRQC"), (57, "EBADSLT"), (59, "EBFONT"), (60, "ENOSTR"), (61, "ENODATA"),
   (62, "ETIME"), (63, "ENOSR"), (64, "ENONET"), (65, "ENOPKG"), (66, "EREMOTE"),
   (67, "ENOLINK"), (68, "EADV"), (69, "ESRMNT"), (70, "ECOMM"), (71, "EPROTO"),
   (72, "EMULTIHOP"), (73, "EDOTDOT"), (74, "EBADMSG"), (75, "EOVERFLOW"), (76, "ENOTUNIQ"),
   (77, "EBADFD"), (78, "EREMCHG"), (79, "ELIBACC"), (80, "ELIBBAD"), (81, "ELIBSCN"),
   (82, "ELIBMAX"), (83, "ELIBEXEC"), (84, "EILSEQ"), (85, "ERESTART"), (86, "ESTRPIPE"),
   (87, "EUSERS"), (88, "ENOTSOCK"), (89, "EDESTADDRREQ"), (90, "EMSGSIZE"),
   (91, "EPROTOTYPE"), (92, "ENOPROTOOPT"), (93, "EPROTONOSUPPORT"), (94, "ESOCKTNOSUPPORT"),
   (95, "EOPNOTSUPP"), (96, "EPFNOSUPPORT"), (97, "EAFNOSUPPORT"), (98, "EADDRINUSE"),
   (99, "EADDRNOTAVAIL"), (100, "ENETDOWN"), (101, "ENETUNREACH"), (102, "ENETRESET"),
   (103, "ECONNABORTED"), (104, "ECONNRESET"), (105, "ENOBUFS"), (106, "EISCONN"),
   (107, "ENOTCONN"), (108, "ESHUTDOWN"), (109, "ETOOMANYREFS"), (110, "ETIMEDOUT"),
   (111, "ECONNREFUSED"), (112, "EHOSTDOWN"), (113, "EHOSTUNREACH"), (114, "EALREADY"),
   (115, "EINPROGRESS"), (116, "ESTALE"), (117, "EUCLEAN"), (118, "ENOTNAM"), (119, "ENAVAIL"),
   (120, "EISNAM"), (121, "EREMOTEIO"), (122, "EDQUOT"), (123, "ENOMEDIUM"),
   (124, "EMEDIUMTYPE"), (125, "ECANCELED"), (126, "ENOKEY"), (127, "EKEYEXPIRED"),
   (128, "EKEYREVOKED"), (129, "EKEYREJECTED"), (130, "EOWNERDEAD"), (131, "ENOTRECOVERABLE"),
   (132, "ERFKILL"), (133, "EHWPOISON")]

/-- The documented table of `absl::ErrnoToStatusCode`. -/
def abslCodes : List (StatusCode × List Int) :=
  [(.ok, [0]),
   (.invalidArgument, [22, 36, 7, 89, 33, 14, 84, 92, 60, 88, 25, 91, 29]),
   (.deadlineExceeded, [110, 62]),
   (.notFound, [19, 2, 123, 6, 3]),
   (.alreadyExists, [17, 99, 114, 76]),
   (.permissionDenied, [1, 13, 126, 30]),
   (.failedPrecondition, [39, 21, 20, 98, 9, 77, 16, 10, 106, 120, 15, 107, 32, 108, 26, 49]),
   (.resourceExhausted, [28, 122, 24, 31, 23, 105, 61, 12, 63, 87]),
   (.outOfRange, [44, 27, 75, 34]),
   (.unimplemented, [65, 38, 95, 97, 96, 93, 94, 18]),
   (.unavailable, [11, 70, 111, 103, 104, 4, 112, 113, 100, 102, 101, 37, 67, 64]),
   (.aborted, [35, 116]),
   (.cancelled, [125])]

def abslCode (e : Int) : StatusCode :=
  ((abslCodes.find? fun row => e ∈ row.2).map Prod.fst).getD .unknown

/-- The size of a `fuse_dirent` (after a `fuse_entry_out` of 128 bytes) with its name,
rounded up to eight bytes. -/
def linuxDirentSize (plus : Bool) (name : String) : Nat :=
  (if plus then 128 else 0) + (24 + name.utf8ByteSize + 7) / 8 * 8

theorem linuxErrnoNames_symbolic : ∀ p ∈ linuxErrnoNames,
    p.2 ≠ "OK" ∧ ¬ unknownPrefix.toList <+: p.2.toList := by decide +kernel

theorem abslCode_ok_iff (e : Int) : abslCode e = .ok ↔ e = 0 := by
  constructor
  · intro h
    unfold abslCode at h
    cases found : abslCodes.find? fun row => e ∈ row.2 with
    | none => simp [found] at h
    | some row =>
        simp only [found, Option.map_some, Option.getD_some] at h
        have only : ∀ row ∈ abslCodes, row.1 = .ok → row.2 = [0] := by decide
        have member := only row (List.mem_of_find?_eq_some found) h
        simpa [member] using List.find?_some found
  · rintro rfl
    decide

def linux : Platform where
  strerrornameNp e := linuxErrnoNames.lookup e
  strError e := "error " ++ toString e
  abslErrnoToStatusCode := abslCode
  simpleAtoi := String.toInt?
  direntSize plus name _ := linuxDirentSize plus name
  code_ok_iff := abslCode_ok_iff
  name_symbolic := by
    intro e n h
    obtain ⟨pre, post, eq, -⟩ := List.lookup_eq_some_iff.mp h
    exact linuxErrnoNames_symbolic (e, n) (by simp [eq])
  simpleAtoi_decimal := fun n _ _ => Int.toInt?_repr n
  direntSize_pos := by
    intro plus name _
    unfold linuxDirentSize
    omega
  direntSize_same := fun _ _ _ => rfl

/-- The errnos that glibc names and the table of `ErrorNameToErrno` lacks. For 95 glibc says
"EOPNOTSUPP" and the table "ENOTSUP". -/
def undecodedErrnos : List Int :=
  [5, 8, 40, 42, 43, 45, 46, 47, 48, 50, 51, 52, 53, 54, 55, 56, 57, 59, 66, 68, 69, 71, 72, 73,
   74, 78, 79, 80, 81, 82, 83, 85, 86, 90, 95, 109, 115, 117, 118, 119, 121, 124, 127, 128, 129,
   130, 131, 132, 133]

theorem lookup_linuxErrnoNames {e : Int} {name : String} (h : linuxErrnoNames.lookup e = some name) :
    (kNamesToErrors.lookup name = some e ↔ e ∉ undecodedErrnos) ∧ insideUnknown name = none := by
  have rows : ∀ p ∈ linuxErrnoNames, kNamesToErrors.lookup p.2 = some p.1 ↔ p.1 ∉ undecodedErrnos := by
    decide +kernel
  obtain ⟨pre, post, eq, -⟩ := List.lookup_eq_some_iff.mp h
  have mem : (e, name) ∈ linuxErrnoNames := by simp [eq]
  exact ⟨rows _ mem, insideUnknown_of_not_prefix (linuxErrnoNames_symbolic _ mem).2⟩

theorem undecodedErrnos_named {e : Int} (h : linuxErrnoNames.lookup e = none) : e ∉ undecodedErrnos := by
  have named : ∀ e ∈ undecodedErrnos, linuxErrnoNames.lookup e ≠ none := by decide +kernel
  exact fun mem => named e mem h

section Codec
variable {P : Platform} (names : ∀ e, P.strerrornameNp e = linuxErrnoNames.lookup e)
include names

/-- Which C `int`s come back when their name is read. -/
theorem roundTrips_iff {n : Int} (low : -2147483648 ≤ n) (high : n < 2147483648) :
    RoundTrips P n ↔ n ∉ undecodedErrnos := by
  unfold RoundTrips errnoToErrorName
  by_cases zero : n = 0
  · subst zero
    have inside : insideUnknown "OK" = none := insideUnknown_of_not_prefix (by decide)
    have found : kNamesToErrors.lookup "OK" = some 0 := rfl
    rw [if_pos rfl, errorNameToErrno, inside, Option.bind_none, found]
    exact iff_of_true rfl (by decide)
  · rw [if_neg zero, names]
    cases named : linuxErrnoNames.lookup n with
    | none =>
        -- the number is printed in decimal and parsed back
        rw [errorNameToErrno, insideUnknown_unknown, Option.bind_some, P.simpleAtoi_decimal n low high]
        exact iff_of_true rfl (undecodedErrnos_named named)
    | some name =>
        obtain ⟨decoded, inside⟩ := lookup_linuxErrnoNames named
        rw [← decoded]
        simp only [errorNameToErrno, inside, Option.bind_none]
        cases found : kNamesToErrors.lookup name with
        | none => simp
        | some err => simp

/-- The codec is exact on the errnos outside the list, for every message. -/
theorem codec_exact_iff (e : Errno) :
    ((∀ message, getErrnoFromStatus P (errnoError P e message) = .ok e.num) ↔ e.num ∉ undecodedErrnos) ∧
      (errorNameToErrno P (errnoToErrorName P e.num) = .ok e.num ↔ e.num ∉ undecodedErrnos) ∧
      errorNameToErrno P (errnoToErrorName P 0) = .ok 0 := by
  have decoded := roundTrips_iff names e.inInt.1 e.inInt.2
  refine ⟨?_, decoded, (roundTrips_iff names (by decide) (by decide)).mpr (by decide)⟩
  simp only [getErrnoFromStatus_errnoError]
  exact ⟨fun h => decoded.mp (h ""), fun h _ => decoded.mpr h⟩

end Codec

/-- Numbers with a name and without one, the least one included. -/
theorem codec_exact_on_linux :
    getErrnoFromStatus linux (errnoError linux ⟨2, by decide, by decide⟩ "open") = .ok 2 ∧
      getErrnoFromStatus linux (errnoError linux ⟨-2147483648, by decide, by decide⟩ "") =
        .ok (-2147483648) :=
  ⟨(codec_exact_iff (fun _ => rfl) _).1.mpr (by decide) _,
    (codec_exact_iff (fun _ => rfl) _).1.mpr (by decide) _⟩

/-- EIO is encoded as a name that is not decoded. -/
theorem codec_loses_eio : ¬ ∀ (e : Errno) (message : String),
    getErrnoFromStatus linux (errnoError linux e message) = .ok e.num := by
  intro always
  have lost := always ⟨5, by decide, by decide⟩ "read"
  revert lost
  decide +kernel

end Pafs
