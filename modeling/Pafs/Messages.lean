import Pafs.Linux

/-! `Prepend` and `Append` of `status.cc`, and what a chain of them makes of a status. -/
namespace Pafs

/-- The loop of `CopyPayload`. -/
def Error.setPayloads (payloads : List (String × String)) (target : Error) : Error :=
  payloads.foldl (fun st p => st.setPayload p.1 p.2) target

/-- `CopyPayload`: the target is passed by value, so the payloads are set on a copy. -/
def copyPayload (source target : Error) : Unit :=
  let _ := target.setPayloads source.payloads
  ()

def prepend (st : Status) (message joiner : String) : Status :=
  match st with
  -- a status made with the code OK has no message
  | .ok _ => .ok ()
  | .error st =>
      let newStatus : Error :=
        { code := st.code, message := message ++ joiner ++ st.message, payloads := [], notOk := st.notOk }
      let () := copyPayload st newStatus
      .error newStatus

def append (st : Status) (message joiner : String) : Status :=
  match st with
  | .ok _ => .ok ()
  | .error st =>
      let newStatus : Error :=
        { code := st.code, message := st.message ++ joiner ++ message, payloads := [], notOk := st.notOk }
      let () := copyPayload st newStatus
      .error newStatus

inductive Addendum where
  | prepend (message joiner : String)
  | append (message joiner : String)

namespace Addendum

def apply (st : Status) : Addendum → Status
  | .prepend message joiner => Pafs.prepend st message joiner
  | .append message joiner => Pafs.append st message joiner

/-- What comes to stand before the message. -/
def before : Addendum → String
  | .prepend message joiner => message ++ joiner
  | .append _ _ => ""

def after : Addendum → String
  | .prepend _ _ => ""
  | .append message joiner => joiner ++ message

end Addendum

def annotate (st : Status) (chain : List Addendum) : Status := chain.foldl Addendum.apply st

/-- The prepended messages, the last one first. -/
def opening : List Addendum → String
  | [] => ""
  | a :: chain => opening chain ++ a.before

/-- The appended messages in their order. -/
def closing : List Addendum → String
  | [] => ""
  | a :: chain => a.after ++ closing chain

theorem apply_error (a : Addendum) (s : Error) : a.apply (.error s) = .error
    { code := s.code, message := a.before ++ s.message ++ a.after, payloads := [], notOk := s.notOk } := by
  cases a with
  | prepend message joiner => simp [Addendum.apply, prepend, Addendum.before, Addendum.after]
  | append message joiner =>
      simp [Addendum.apply, append, Addendum.before, Addendum.after, String.append_assoc]

/-- The code and the messages survive a chain, the payloads do not survive its first link. -/
theorem annotate_error (chain : List Addendum) (s : Error) : annotate (.error s) chain = .error
    { code := s.code
      message := opening chain ++ s.message ++ closing chain
      payloads := if chain = [] then s.payloads else []
      notOk := s.notOk } := by
  induction chain generalizing s with
  | nil => simp [annotate, opening, closing]
  | cons a chain ih =>
      change annotate (a.apply (.error s)) chain = _
      rw [apply_error, ih]
      simp [opening, closing, String.append_assoc]

/-- What annotating a status is meant to keep of it. -/
structure Annotated (P : Platform) (s : Error) (chain : List Addendum) (st : Error) : Prop where
  code : st.code = s.code
  payloads : st.payloads = s.payloads
  errno : getErrnoFromStatus P st = getErrnoFromStatus P s
  message : st.message = opening chain ++ s.message ++ closing chain

theorem annotated_iff (P : Platform) (s : Error) (chain : List Addendum) :
    (∃ st, annotate (.error s) chain = .error st ∧ Annotated P s chain st) ↔
      chain = [] ∨ s.payloads = [] := by
  rw [annotate_error]
  constructor
  · rintro ⟨st, same, kept⟩
    cases same
    have payloads := kept.payloads
    by_cases empty : chain = []
    · exact .inl empty
    · rw [if_neg empty] at payloads
      exact .inr payloads.symm
  · intro unlinked
    have payloads : (if chain = [] then s.payloads else []) = s.payloads := by
      rcases unlinked with empty | none
      · rw [if_pos empty]
      · rw [none, ite_self]
    refine ⟨_, rfl, rfl, payloads, ?_, rfl⟩
    simp only [getErrnoFromStatus, Error.getPayload, payloads]

/-- The status of a failed open(2), annotated once. -/
theorem prepend_loses_errno : ¬ ∀ (P : Platform) (s : Error) (chain : List Addendum),
    ∃ st, annotate (.error s) chain = .error st ∧ Annotated P s chain st := by
  intro always
  obtain ⟨st, same, kept⟩ :=
    always linux (errnoError linux ⟨ENOENT, by decide, by decide⟩ "open('f')") [.prepend "Lookup" "; "]
  cases same
  have payloads : [] = [(kErrnoTypeUrl, errnoToErrorName linux ENOENT)] := kept.payloads
  cases payloads

end Pafs
