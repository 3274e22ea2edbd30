import Pafs.Resumption.Prog

/-! Routines: programs with one mutable local object of type `σ` that may return early
with an `ε`. This is the shape of C++ code written with early-return macros and
destructors; the rules below run such code symbolically under a discipline. -/
namespace Resumption

def Routine (I : Interface) (σ ε α : Type) : Type := σ → Prog I (Except ε α × σ)

variable {I : Interface} {L σ τ ε α β : Type}

namespace Routine

protected def pure (a : α) : Routine I σ ε α := fun s => .done (.ok a, s)

protected def bind (m : Routine I σ ε α) (f : α → Routine I σ ε β) : Routine I σ ε β :=
  fun s => (m s).bind fun
    | (.ok a, s') => f a s'
    | (.error e, s') => .done (.error e, s')

instance : Monad (Routine I σ ε) where
  pure := Routine.pure
  bind := Routine.bind

/-- Return early. -/
def fail (e : ε) : Routine I σ ε α := fun s => .done (.error e, s)

def invoke (c : I.Call) : Routine I σ ε (I.Ret c) := fun s => .call c fun r => .done (.ok r, s)

/-- A result that is already there: a value, or the early return it stands for. -/
def ofExcept (r : Except ε α) : Routine I σ ε α := fun s => .done (r, s)

def getLocal : Routine I σ ε σ := fun s => .done (.ok s, s)

def setLocal (s : σ) : Routine I σ ε Unit := fun _ => .done (.ok (), s)

/-- Run to the end and hand over the result, early return included. -/
def attempt (m : Routine I σ ε α) : Routine I σ ε (Except ε α) :=
  fun s => (m s).bind fun p => .done (.ok p.1, p.2)

/-- Leave the scope of an object: its destructor runs whatever the result was, and an
early return inside the destructor is dropped. -/
def andFinally (m : Routine I σ ε α) (destroy : Routine I σ ε Unit) : Routine I σ ε α :=
  fun s => (m s).bind fun p => (destroy p.2).bind fun q => .done (p.1, q.2)

/-- A cleanup that is cancelled when `m` returns normally. -/
def onError (m : Routine I σ ε α) (cleanup : Routine I σ ε Unit) : Routine I σ ε α :=
  fun s => (m s).bind fun
    | (.ok a, s') => .done (.ok a, s')
    | (.error e, s') => (cleanup s').bind fun q => .done (.error e, q.2)

/-- Run on one component of a larger local object. -/
def zoom (get : τ → σ) (set : σ → τ → τ) (m : Routine I σ ε α) : Routine I τ ε α :=
  fun t => (m (get t)).bind fun p => .done (p.1, set p.2 t)

def Follows (D : Discipline I L) (m : Routine I σ ε α) (s : σ) (l : L)
    (Q : Except ε α → σ → L → Prop) : Prop :=
  (m s).Follows D l fun p l' => Q p.1 p.2 l'

variable {D : Discipline I L} {s : σ} {l : L}

@[simp] theorem follows_pure (a : α) (Q : Except ε α → σ → L → Prop) :
    Follows (I := I) D (pure a) s l Q ↔ Q (.ok a) s l := Iff.rfl

@[simp] theorem follows_fail (e : ε) (Q : Except ε α → σ → L → Prop) :
    Follows (I := I) D (fail e) s l Q ↔ Q (.error e) s l := Iff.rfl

@[simp] theorem follows_ofExcept (r : Except ε α) (Q : Except ε α → σ → L → Prop) :
    Follows (I := I) D (ofExcept r) s l Q ↔ Q r s l := Iff.rfl

@[simp] theorem follows_getLocal (Q : Except ε σ → σ → L → Prop) :
    Follows (I := I) D getLocal s l Q ↔ Q (.ok s) s l := Iff.rfl

@[simp] theorem follows_setLocal (s' : σ) (Q : Except ε Unit → σ → L → Prop) :
    Follows (I := I) D (setLocal s') s l Q ↔ Q (.ok ()) s' l := Iff.rfl

@[simp] theorem follows_invoke (c : I.Call) (Q : Except ε (I.Ret c) → σ → L → Prop) :
    Follows (α := no_index (I.Ret c)) D (invoke c) s l Q ↔
      D.allows l c ∧ ∀ r, D.answers l c r → Q (.ok r) s (D.after l c r) := Iff.rfl

@[simp] theorem follows_bind (m : Routine I σ ε α) (f : α → Routine I σ ε β)
    (Q : Except ε β → σ → L → Prop) :
    Follows D (m >>= f) s l Q ↔ Follows D m s l fun r s' l' =>
      match r with
      | .ok a => Follows D (f a) s' l' Q
      | .error e => Q (.error e) s' l' := by
  change ((m s).bind _).Follows D l _ ↔ _
  rw [Prog.follows_bind]
  refine iff_of_eq (congrArg _ ?_)
  funext p l'
  rcases p with ⟨_ | _, _⟩ <;> rfl

/-- A call to which only one answer is expected. -/
theorem follows_invoke_known {c : I.Call} {r : I.Ret c} {f : I.Ret c → Routine I σ ε β}
    {Q : Except ε β → σ → L → Prop} (allowed : D.allows l c) (known : ∀ r', D.answers l c r' ↔ r' = r) :
    Follows D (invoke c >>= f) s l Q ↔ Follows D (f r) s (D.after l c r) Q := by
  rw [follows_bind, follows_invoke]
  constructor
  · intro follows
    exact follows.2 r ((known r).mpr rfl)
  · intro follows
    refine ⟨allowed, fun r' answer => ?_⟩
    obtain rfl := (known r').mp answer
    exact follows

@[simp] theorem follows_attempt (m : Routine I σ ε α)
    (Q : Except ε (Except ε α) → σ → L → Prop) :
    Follows D (attempt m) s l Q ↔ Follows D m s l fun r s' l' => Q (.ok r) s' l' :=
  Prog.follows_bind _ _ _ _

@[simp] theorem follows_andFinally (m : Routine I σ ε α) (destroy : Routine I σ ε Unit)
    (Q : Except ε α → σ → L → Prop) :
    Follows D (m.andFinally destroy) s l Q ↔
      Follows D m s l fun r s' l' => Follows D destroy s' l' fun _ s'' l'' => Q r s'' l'' := by
  unfold andFinally Follows
  simp only [Prog.follows_bind, Prog.follows_done]

@[simp] theorem follows_onError (m : Routine I σ ε α) (cleanup : Routine I σ ε Unit)
    (Q : Except ε α → σ → L → Prop) :
    Follows D (m.onError cleanup) s l Q ↔ Follows D m s l fun r s' l' =>
      match r with
      | .ok a => Q (.ok a) s' l'
      | .error e => Follows D cleanup s' l' fun _ s'' l'' => Q (.error e) s'' l'' := by
  unfold onError Follows
  rw [Prog.follows_bind]
  refine iff_of_eq (congrArg _ ?_)
  funext p l'
  rcases p with ⟨_ | _, _⟩
  · simp only [Prog.follows_bind, Prog.follows_done]
  · rfl

@[simp] theorem follows_zoom (get : τ → σ) (set : σ → τ → τ) (m : Routine I σ ε α) (t : τ)
    (Q : Except ε α → τ → L → Prop) :
    Follows D (zoom get set m) t l Q ↔ Follows D m (get t) l fun r s' l' => Q r (set s' t) l' :=
  Prog.follows_bind _ _ _ _

@[simp] theorem follows_ite (c : Prop) [Decidable c] (m n : Routine I σ ε α)
    (Q : Except ε α → σ → L → Prop) :
    Follows D (if c then m else n) s l Q ↔
      (c → Follows D m s l Q) ∧ (¬ c → Follows D n s l Q) := by
  split <;> simp [*]

theorem Follows.mono {m : Routine I σ ε α} {Q Q' : Except ε α → σ → L → Prop}
    (h : Follows D m s l Q) (weaker : ∀ r s' l', Q r s' l' → Q' r s' l') :
    Follows D m s l Q' :=
  Prog.Follows.mono h fun p l' => weaker p.1 p.2 l'

/-- The discipline is followed whatever the local object and the ledger are. -/
def Safe (D : Discipline I L) (m : Routine I σ ε α) : Prop :=
  ∀ s l, Follows D m s l fun _ _ _ => True

namespace Safe

theorem pure (a : α) : Safe D (pure a : Routine I σ ε α) := fun _ _ => trivial

theorem fail (e : ε) : Safe D (fail e : Routine I σ ε α) := fun _ _ => trivial

theorem ofExcept (r : Except ε α) : Safe D (ofExcept r : Routine I σ ε α) := fun _ _ => trivial

theorem getLocal : Safe D (getLocal : Routine I σ ε σ) := fun _ _ => trivial

theorem setLocal (s : σ) : Safe D (setLocal s : Routine I σ ε Unit) := fun _ _ => trivial

theorem invoke {c : I.Call} (h : ∀ l, D.allows l c) :
    Safe D (invoke c : Routine I σ ε (I.Ret c)) := fun _ l => ⟨h l, fun _ _ => trivial⟩

theorem bind {m : Routine I σ ε α} {f : α → Routine I σ ε β} (first : Safe D m)
    (rest : ∀ a, Safe D (f a)) : Safe D (m >>= f) := by
  intro s l
  rw [follows_bind]
  refine (first s l).mono fun r s' l' _ => ?_
  cases r with
  | ok a => exact rest a s' l'
  | error e => trivial

theorem attempt {m : Routine I σ ε α} (h : Safe D m) : Safe D (attempt m) := by
  intro s l
  rw [follows_attempt]
  exact h s l

theorem onError {m : Routine I σ ε α} {cleanup : Routine I σ ε Unit} (h : Safe D m)
    (after : Safe D cleanup) : Safe D (m.onError cleanup) := by
  intro s l
  rw [follows_onError]
  refine (h s l).mono fun r s' l' _ => ?_
  cases r with
  | ok a => trivial
  | error e => exact after s' l'

theorem andFinally {m : Routine I σ ε α} {destroy : Routine I σ ε Unit} (h : Safe D m)
    (after : Safe D destroy) : Safe D (m.andFinally destroy) := by
  intro s l
  rw [follows_andFinally]
  exact (h s l).mono fun _ s' l' _ => after s' l'

end Safe

end Routine

/-- Answers that are a value or an error are checked case by case. -/
@[simp] theorem forall_except {P : Except ε α → Prop} :
    (∀ r, P r) ↔ (∀ e, P (.error e)) ∧ ∀ a, P (.ok a) :=
  ⟨fun h => ⟨fun e => h (.error e), fun a => h (.ok a)⟩,
    fun h r => by cases r with
      | error e => exact h.1 e
      | ok a => exact h.2 a⟩

end Resumption
