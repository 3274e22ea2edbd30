import Mathlib

/-! Programs as resumptions. A program is a tree of calls to its environment; the
environment chooses every answer. One `Discipline` says which calls a program may make
and how a ledger follows them, and `Follows` is the weakest precondition it induces.
Nothing here knows which calls there are. -/
namespace Resumption

/-- The calls a program can make, each with the type of its answers. -/
structure Interface where
  Call : Type
  Ret : Call → Type

inductive Prog (I : Interface) (α : Type) : Type where
  | done (a : α)
  | call (c : I.Call) (next : I.Ret c → Prog I α)

/-- One call together with the answer it received. -/
abbrev Event (I : Interface) := Sigma I.Ret

variable {I : Interface} {L α β : Type}

def Prog.bind : Prog I α → (α → Prog I β) → Prog I β
  | .done a, f => f a
  | .call c next, f => .call c fun r => (next r).bind f

@[simp] theorem Prog.done_bind (a : α) (f : α → Prog I β) : (Prog.done a).bind f = f a := rfl

@[simp] theorem Prog.call_bind (c : I.Call) (next : I.Ret c → Prog I α) (f : α → Prog I β) :
    (Prog.call c next).bind f = .call c fun r => (next r).bind f := rfl

theorem Prog.bind_assoc {γ : Type} (p : Prog I α) (f : α → Prog I β) (g : β → Prog I γ) :
    (p.bind f).bind g = p.bind fun a => (f a).bind g := by
  induction p with
  | done a => rfl
  | call c next ih => exact congrArg (Prog.call c) (funext ih)

/-- `Steps p t q`: answering the calls of `p` as recorded in `t` leaves `q` to be run. -/
inductive Steps : Prog I α → List (Event I) → Prog I α → Prop
  | refl (p : Prog I α) : Steps p [] p
  | step {c : I.Call} {next : I.Ret c → Prog I α} (r : I.Ret c) {t : List (Event I)}
      {q : Prog I α} : Steps (next r) t q → Steps (.call c next) (⟨c, r⟩ :: t) q

/-- A complete execution with its result. -/
abbrev Exec (p : Prog I α) (t : List (Event I)) (a : α) : Prop := Steps p t (.done a)

theorem Exec.done_iff {a b : α} {t : List (Event I)} :
    Exec (I := I) (.done a) t b ↔ t = [] ∧ a = b := by
  constructor
  · intro h
    cases h
    exact ⟨rfl, rfl⟩
  · rintro ⟨rfl, rfl⟩
    exact .refl _

theorem Steps.append {p q r : Prog I α} {t t' : List (Event I)} (first : Steps p t q) (second : Steps q t' r) :
    Steps p (t ++ t') r := by
  induction first with
  | refl _ => exact second
  | step r _ ih => exact .step r (ih second)

theorem Steps.bind {p q : Prog I α} {t : List (Event I)} (h : Steps p t q) (f : α → Prog I β) :
    Steps (p.bind f) t (q.bind f) := by
  induction h with
  | refl p => exact .refl _
  | step r _ ih => exact .step r ih

/-- A sequence that has been run for a while is still in its first part, or is through with it. -/
theorem Steps.bind_inv {p : Prog I α} {f : α → Prog I β} {t : List (Event I)} {q : Prog I β}
    (h : Steps (p.bind f) t q) :
    (∃ c next, Steps p t (.call c next) ∧ q = .call c fun r => (next r).bind f) ∨
      ∃ t₁ t₂ a, t = t₁ ++ t₂ ∧ Exec p t₁ a ∧ Steps (f a) t₂ q := by
  induction p generalizing t with
  | done a => exact .inr ⟨[], t, a, rfl, .refl _, h⟩
  | call c next ih =>
      cases h with
      | refl => exact .inl ⟨c, next, .refl _, rfl⟩
      | step r rest =>
          obtain ⟨c', next', run, rfl⟩ | ⟨t₁, t₂, a, rfl, first, second⟩ := ih r rest
          · exact .inl ⟨c', next', .step r run, rfl⟩
          · exact .inr ⟨⟨c, r⟩ :: t₁, t₂, a, rfl, .step r first, second⟩

/-- An execution of a sequence is an execution of its first part, then of the rest. -/
theorem Exec.bind_inv {p : Prog I α} {f : α → Prog I β} {t : List (Event I)} {b : β}
    (h : Exec (p.bind f) t b) :
    ∃ t₁ t₂ a, t = t₁ ++ t₂ ∧ Exec p t₁ a ∧ Exec (f a) t₂ b := by
  obtain ⟨c, next, -, impossible⟩ | through := Steps.bind_inv h
  · cases impossible
  · exact through

theorem Exec.bind {p : Prog I α} {f : α → Prog I β} {t₁ t₂ : List (Event I)} {a : α} {b : β}
    (first : Exec p t₁ a) (second : Exec (f a) t₂ b) : Exec (p.bind f) (t₁ ++ t₂) b :=
  (Steps.bind first f).append second

/-- What a program may do in a given ledger: the calls it may make (`allows`), the
answers the environment may give (`answers`), and the ledger afterwards. -/
structure Discipline (I : Interface) (L : Type) where
  allows : L → I.Call → Prop
  answers : L → (c : I.Call) → I.Ret c → Prop
  after : L → (c : I.Call) → I.Ret c → L

/-- Every call made from ledger `l` is allowed, whatever is answered, and every result
together with the last ledger satisfies `Q`. -/
def Prog.Follows (D : Discipline I L) : Prog I α → L → (α → L → Prop) → Prop
  | .done a, l, Q => Q a l
  | .call c next, l, Q =>
      D.allows l c ∧ ∀ r, D.answers l c r → (next r).Follows D (D.after l c r) Q

variable {D : Discipline I L}

@[simp] theorem Prog.follows_done (a : α) (l : L) (Q : α → L → Prop) :
    (Prog.done (I := I) a).Follows D l Q ↔ Q a l := Iff.rfl

@[simp] theorem Prog.follows_call (c : I.Call) (next : I.Ret c → Prog I α) (l : L)
    (Q : α → L → Prop) : (Prog.call c next).Follows D l Q ↔
      D.allows l c ∧ ∀ r, D.answers l c r → (next r).Follows D (D.after l c r) Q := Iff.rfl

theorem Prog.follows_bind (p : Prog I α) (f : α → Prog I β) (l : L) (Q : β → L → Prop) :
    (p.bind f).Follows D l Q ↔ p.Follows D l fun a l' => (f a).Follows D l' Q := by
  induction p generalizing l with
  | done a => rfl
  | call c next ih => simp only [Prog.call_bind, Prog.follows_call, ih]

theorem Prog.Follows.mono {p : Prog I α} {l : L} {Q Q' : α → L → Prop}
    (h : p.Follows D l Q) (weaker : ∀ a l', Q a l' → Q' a l') : p.Follows D l Q' := by
  induction p generalizing l with
  | done a => exact weaker a l h
  | call c next ih => exact ⟨h.1, fun r hr => ih r (h.2 r hr)⟩

/-- Every call that is allowed gets an answer. -/
def Discipline.Answered (D : Discipline I L) : Prop := ∀ l c, D.allows l c → ∃ r, D.answers l c r

/-- What decides `Q` at every end of a program decides whether all its ends satisfy `Q`. -/
theorem Prog.Follows.decided {p : Prog I α} {l : L} {Q : α → L → Prop} {T : Prop} (answered : D.Answered)
    (h : p.Follows D l fun a l' => (Q a l' ↔ T)) : p.Follows D l Q ↔ T := by
  induction p generalizing l with
  | done a => exact h
  | call c next ih =>
      obtain ⟨allowed, h⟩ := h
      constructor
      · intro follows
        obtain ⟨r, answer⟩ := answered l c allowed
        exact (ih r (h r answer)).mp (follows.2 r answer)
      · intro t
        exact ⟨allowed, fun r answer => (ih r (h r answer)).mpr t⟩

/-- The ledger after a list of answered calls. -/
def Discipline.run (D : Discipline I L) (l : L) (t : List (Event I)) : L :=
  t.foldl (fun l e => D.after l e.1 e.2) l

theorem Discipline.run_concat (D : Discipline I L) (l : L) (t : List (Event I)) (e : Event I) :
    D.run l (t ++ [e]) = D.after (D.run l t) e.1 e.2 := by
  unfold run
  rw [List.foldl_append]
  rfl

/-- Every answer in the list is one the discipline expects. -/
def Discipline.Admits (D : Discipline I L) : L → List (Event I) → Prop
  | _, [] => True
  | l, e :: t => D.answers l e.1 e.2 ∧ D.Admits (D.after l e.1 e.2) t

/-- Adequacy: along a real execution the discipline is still followed at the end. -/
theorem Prog.Follows.steps {p q : Prog I α} {l : L} {Q : α → L → Prop} {t : List (Event I)}
    (h : p.Follows D l Q) (run : Steps p t q) (ok : D.Admits l t) :
    q.Follows D (D.run l t) Q := by
  induction run generalizing l with
  | refl p => exact h
  | step r rest ih => exact ih (h.2 r ok.1) ok.2

theorem Prog.Follows.exec {p : Prog I α} {l : L} {Q : α → L → Prop} {t : List (Event I)}
    {a : α} (h : p.Follows D l Q) (run : Exec p t a) (ok : D.Admits l t) : Q a (D.run l t) :=
  h.steps run ok

end Resumption
