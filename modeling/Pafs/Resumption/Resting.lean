import Pafs.Resumption.Routine

/-! Code that comes back to the ledger it starts from, whatever it does in between and
however it ends. -/
namespace Resumption.Routine

variable {I : Interface} {L σ ε α β : Type} {D : Discipline I L} {l : L}

def Rests (D : Discipline I L) (l : L) (m : Routine I σ ε α) : Prop :=
  ∀ s, Follows D m s l fun _ _ l' => l' = l

namespace Rests

theorem pure (a : α) : Rests D l (pure a : Routine I σ ε α) := fun _ => rfl

theorem fail (e : ε) : Rests D l (fail e : Routine I σ ε α) := fun _ => rfl

theorem ofExcept (r : Except ε α) : Rests D l (ofExcept r : Routine I σ ε α) := fun _ => rfl

theorem getLocal : Rests D l (getLocal : Routine I σ ε σ) := fun _ => rfl

theorem setLocal (s : σ) : Rests D l (setLocal s : Routine I σ ε Unit) := fun _ => rfl

theorem invoke {c : I.Call} (allows : D.allows l c) (same : ∀ r, D.answers l c r → D.after l c r = l) :
    Rests D l (invoke c : Routine I σ ε (I.Ret c)) := fun _ => ⟨allows, same⟩

theorem bind {m : Routine I σ ε α} {f : α → Routine I σ ε β} (first : Rests D l m)
    (rest : ∀ a, Rests D l (f a)) : Rests D l (m >>= f) := by
  intro s
  rw [follows_bind]
  apply (first s).mono
  rintro r s' l' rfl
  cases r with
  | ok a => exact rest a s'
  | error e => rfl

theorem attempt {m : Routine I σ ε α} (h : Rests D l m) : Rests D l (attempt m) := by
  intro s
  rw [follows_attempt]
  exact h s

theorem onError {m : Routine I σ ε α} {cleanup : Routine I σ ε Unit} (h : Rests D l m)
    (after : Rests D l cleanup) : Rests D l (m.onError cleanup) := by
  intro s
  rw [follows_onError]
  apply (h s).mono
  rintro r s' l' rfl
  cases r with
  | ok a => rfl
  | error e => exact after s'

theorem andFinally {m : Routine I σ ε α} {destroy : Routine I σ ε Unit} (h : Rests D l m)
    (after : Rests D l destroy) : Rests D l (m.andFinally destroy) := by
  intro s
  rw [follows_andFinally]
  apply (h s).mono
  rintro r s' l' rfl
  exact after s'

end Rests

end Resumption.Routine
