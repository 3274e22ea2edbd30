import Pafs.Resumption.Pool
import Pafs.Resumption.Resting

/-! Two interfaces side by side, a program that runs alone against a world, and scopes: the
resources of a program are released in the opposite order of their acquisition. -/
namespace Resumption

variable {I J : Interface} {W T L R σ ε α β : Type}

def Interface.sum (I J : Interface) : Interface where
  Call := I.Call ⊕ J.Call
  Ret := Sum.elim I.Ret J.Ret

def Prog.inl : Prog I α → Prog (I.sum J) α
  | .done a => .done a
  | .call c next => .call (Sum.inl c) fun r => (next r).inl

/-- What a discipline for both interfaces asks of the first. -/
def Discipline.inl (D : Discipline (I.sum J) L) : Discipline I L where
  allows l c := D.allows l (Sum.inl c)
  answers l c r := D.answers l (Sum.inl c) r
  after l c r := D.after l (Sum.inl c) r

/-- A discipline that expects any answer. -/
theorem Discipline.admits {D : Discipline I L} (expects : ∀ l c r, D.answers l c r) (l : L)
    (t : List (Event I)) : D.Admits l t := by
  induction t generalizing l with
  | nil => trivial
  | cons e t ih => exact ⟨expects l e.1 e.2, ih _⟩

theorem Prog.follows_inl {D : Discipline (I.sum J) L} (p : Prog I α) (l : L) (Q : α → L → Prop) :
    p.inl.Follows D l Q ↔ p.Follows D.inl l Q := by
  induction p generalizing l with
  | done a => rfl
  | call c next ih =>
      apply and_congr Iff.rfl
      apply forall_congr'
      intro r
      apply imp_congr Iff.rfl
      exact ih r _

namespace Routine

def inl (m : Routine I σ ε α) : Routine (I.sum J) σ ε α := fun s => (m s).inl

@[simp] theorem follows_inl {D : Discipline (I.sum J) L} (m : Routine I σ ε α) (s : σ) (l : L)
    (Q : Except ε α → σ → L → Prop) : Follows D m.inl s l Q ↔ Follows D.inl m s l Q :=
  Prog.follows_inl _ _ _

/-- A discipline that takes no notice of the first interface. -/
theorem Rests.inl {D : Discipline (I.sum J) L} {l : L} (allows : ∀ c, D.allows l (Sum.inl c))
    (same : ∀ c r, D.after l (Sum.inl c) r = l) (m : Routine I σ ε α) : Rests D l (m.inl (J := J)) := by
  have idle (p : Prog I (Except ε α × σ)) : p.Follows D.inl l fun _ l' => l' = l := by
    induction p with
    | done a => rfl
    | call c next ih =>
        refine ⟨allows c, fun r _ => ?_⟩
        have unmoved : D.inl.after l c r = l := same c r
        rw [unmoved]
        exact ih r
  intro s
  rw [follows_inl]
  exact idle (m s)

/-- Code that leaves the ledger alone comes first; what follows decides, unless it fails. -/
theorem Rests.first {D : Discipline I L} {l : L} {s : σ} {m : Routine I σ ε α} {f : α → Routine I σ ε β}
    {Q : Except ε β → L → Prop} (h : Rests D l m) (early : ∀ e, Q (.error e) l)
    (rest : ∀ a s, Follows D (f a) s l fun r _ l' => Q r l') :
    Follows D (m >>= f) s l fun r _ l' => Q r l' := by
  rw [follows_bind]
  apply (h s).mono
  rintro r s l' rfl
  cases r with
  | ok a => exact rest a s
  | error e => exact early e

/-- A destructor that leaves the ledger alone comes last and has no say. -/
theorem Rests.last {D : Discipline I L} {l : L} {s : σ} {m : Routine I σ ε α} {destroy : Routine I σ ε Unit}
    {Q : Except ε α → L → Prop} (h : Follows D m s l fun r _ l' => Q r l') (destroys : ∀ l', Rests D l' destroy) :
    Follows D (m.andFinally destroy) s l fun r _ l' => Q r l' := by
  rw [follows_andFinally]
  apply h.mono
  intro r s l' kept
  apply (destroys l' s).mono
  rintro r' s' l'' rfl
  exact kept

/-- Code that carries one ledger to another, however it ends. -/
def Carries (D : Discipline I L) (l l' : L) (m : Routine I σ ε α) : Prop :=
  ∀ s, Follows D m s l fun _ _ l'' => l'' = l'

theorem Carries.bind {D : Discipline I L} {l l' : L} {m : Routine I σ ε α} {f : α → Routine I σ ε β}
    (first : Carries D l l' m) (rest : ∀ a, Rests D l' (f a)) : Carries D l l' (m >>= f) := by
  intro s
  rw [follows_bind]
  apply (first s).mono
  rintro r s' l'' rfl
  cases r with
  | ok a => exact rest a s'
  | error e => rfl

/-- A call that may acquire something, and code that gives it back. -/
theorem Rests.acquire {D : Discipline I L} {l : L} {c : I.Call} {f : I.Ret c → Routine I σ ε β}
    (allows : D.allows l c) (rest : ∀ r, D.answers l c r → Carries D (D.after l c r) l (f r)) :
    Rests D l (Routine.invoke c >>= f) := by
  intro s
  rw [follows_bind, follows_invoke]
  exact ⟨allows, fun r answers => rest r answers s⟩

/-- A destructor that gives something back. -/
theorem Rests.release {D : Discipline I L} {l l' : L} {m : Routine I σ ε α} {destroy : Routine I σ ε Unit}
    (h : Rests D l m) (gives : Carries D l l' destroy) : Carries D l l' (m.andFinally destroy) := by
  intro s
  rw [follows_andFinally]
  apply (h s).mono
  rintro r s' l'' rfl
  exact gives s'

end Routine

/-- The invariant rule for one program that runs alone: what every allowed call keeps holds to
the end. -/
theorem Prog.Follows.performs {M : Machine I W T β} {D : Discipline I L} {P : W → L → Prop} {p q : Prog I α}
    {t : List (Event I)} {w w' : W} {l : L} {Q : α → L → Prop} (h : p.Follows D l Q) (steps : Steps p t q)
    (performs : M.Performs w t w') (now : P w l)
    (act : ∀ {w w' l c r}, D.allows l c → M.perform w c r w' → P w l →
      D.answers l c r ∧ P w' (D.after l c r)) :
    ∃ l', q.Follows D l' Q ∧ P w' l' := by
  induction steps generalizing w l with
  | refl p =>
      cases performs
      exact ⟨l, h, now⟩
  | step r rest ih =>
      obtain ⟨w₁, perform, performs⟩ := performs
      obtain ⟨answers, now⟩ := act h.1 perform now
      exact ih (h.2 r answers) performs now

/-- What the calls of an interface do with resources. -/
structure Tenure (I : Interface) (R : Type) where
  needs : I.Call → List R
  opens : (c : I.Call) → I.Ret c → Option R
  closes : I.Call → Option R

namespace Tenure

variable {T : Tenure I R} {held : List R} {e e' : Event I} {r : R} {t t' : List (Event I)}

/-- While `held` is held, every call has what it needs, and whatever is acquired is released
again, once and before anything that was acquired earlier. -/
inductive Nested (T : Tenure I R) : List R → List (Event I) → Prop
  | nil {held : List R} : T.Nested held []
  | plain {held : List R} {e : Event I} {t : List (Event I)} :
      T.opens e.1 e.2 = none → T.closes e.1 = none → T.needs e.1 ⊆ held → T.Nested held t →
      T.Nested held (e :: t)
  | scope {held : List R} {e e' : Event I} {r : R} {t t' : List (Event I)} :
      T.opens e.1 e.2 = some r → T.closes e.1 = none → T.needs e.1 ⊆ held → T.Nested (r :: held) t →
      T.closes e'.1 = some r → T.needs e'.1 ⊆ r :: held → T.Nested held t' →
      T.Nested held (e :: t ++ e' :: t')

/-- The resources that are held, the last one first. -/
def scoping (T : Tenure I R) : Discipline I (List R) where
  allows held c := T.needs c ⊆ held ∧ ∀ r, T.closes c = some r → held.head? = some r
  answers _ _ _ := True
  after held c ret :=
    match T.closes c with
    | some _ => held.tail
    | none => (T.opens c ret).toList ++ held

theorem after_plain {c : I.Call} {ret : I.Ret c} (opens : T.opens c ret = none) (closes : T.closes c = none) :
    T.scoping.after held c ret = held := by
  simp [scoping, closes, opens]

theorem after_opens {c : I.Call} {ret : I.Ret c} (opens : T.opens c ret = some r) (closes : T.closes c = none) :
    T.scoping.after held c ret = r :: held := by
  simp [scoping, closes, opens]

theorem after_closes {c : I.Call} {ret : I.Ret c} (closes : T.closes c = some r) :
    T.scoping.after held c ret = held.tail := by
  simp [scoping, closes]

/-- A run that gives back everything it is given. -/
inductive Unwinds (T : Tenure I R) : List R → List (Event I) → Prop
  | settled {t : List (Event I)} : T.Nested [] t → T.Unwinds [] t
  | release {held : List R} {e : Event I} {r : R} {t t' : List (Event I)} :
      T.Nested (r :: held) t → T.closes e.1 = some r → T.needs e.1 ⊆ r :: held → T.Unwinds held t' →
      T.Unwinds (r :: held) (t ++ e :: t')

namespace Unwinds

theorem plain (opens : T.opens e.1 e.2 = none) (closes : T.closes e.1 = none) (needs : T.needs e.1 ⊆ held)
    (h : T.Unwinds held t) : T.Unwinds held (e :: t) := by
  cases h with
  | settled nested => exact .settled (.plain opens closes needs nested)
  | release nested last has rest => exact .release (.plain opens closes needs nested) last has rest

theorem scope (opens : T.opens e.1 e.2 = some r) (closes : T.closes e.1 = none) (needs : T.needs e.1 ⊆ held)
    (nested : T.Nested (r :: held) t) (last : T.closes e'.1 = some r) (has : T.needs e'.1 ⊆ r :: held)
    (h : T.Unwinds held t') : T.Unwinds held (e :: t ++ e' :: t') := by
  cases h with
  | settled nested' => exact .settled (.scope opens closes needs nested last has nested')
  | @release held e'' r' t₁ t₂ nested' last' has' rest =>
      have inner : T.Nested (r' :: held) (e :: t ++ e' :: t₁) := .scope opens closes needs nested last has nested'
      have outer : T.Unwinds (r' :: held) ((e :: t ++ e' :: t₁) ++ e'' :: t₂) := .release inner last' has' rest
      rw [List.append_assoc] at outer
      exact outer

end Unwinds

theorem unwinds {p : Prog I α} {a : α} (follows : p.Follows T.scoping held fun _ held' => held' = [])
    (run : Exec p t a) : T.Unwinds held t := by
  obtain ⟨q, same⟩ : ∃ q : Prog I α, q = .done a := ⟨_, rfl⟩
  rw [Exec, ← same] at run
  induction run generalizing held with
  | refl p =>
      subst same
      have nothing : held = [] := follows
      subst nothing
      exact .settled .nil
  | @step c next ret t q rest ih =>
      obtain ⟨⟨needs, top⟩, follows⟩ := follows
      have after := ih (follows ret trivial) same
      cases closes : T.closes c with
      | some r =>
          obtain ⟨held, rfl⟩ := List.head?_eq_some_iff.mp (top r closes)
          rw [after_closes closes] at after
          exact .release .nil closes needs after
      | none =>
          cases opens : T.opens c ret with
          | none =>
              rw [after_plain opens closes] at after
              exact after.plain opens closes needs
          | some r =>
              rw [after_opens opens closes] at after
              cases after with
              | release nested last has after => exact after.scope opens closes needs nested last has

/-- A program that ends with nothing in its hands has well-nested scopes. -/
theorem nested {p : Prog I α} {a : α} (follows : p.Follows T.scoping [] fun _ held' => held' = [])
    (run : Exec p t a) : T.Nested [] t := by
  cases unwinds follows run with
  | settled nested => exact nested

end Tenure

end Resumption
