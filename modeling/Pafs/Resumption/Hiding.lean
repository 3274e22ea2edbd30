import Pafs.Resumption.Routine

/-! Programs seen from outside. Some calls are shown and the others are hidden; one program
refines another if all it shows is what the other one may show. The environment may be
assumed to answer as `known` says. -/
namespace Resumption

variable {I : Interface} {α β γ α' β' : Type}

/-- What is seen of an execution. -/
def shownIn (shown : I.Call → Bool) (t : List (Event I)) : List (Event I) := t.filter fun e => shown e.1

theorem shownIn_append (shown : I.Call → Bool) (t t' : List (Event I)) :
    shownIn shown (t ++ t') = shownIn shown t ++ shownIn shown t' := List.filter_append t t'

theorem shownIn_hidden {shown : I.Call → Bool} {c : I.Call} (hidden : shown c = false) (r : I.Ret c)
    (t : List (Event I)) : shownIn shown (⟨c, r⟩ :: t) = shownIn shown t := by
  apply List.filter_cons_of_neg
  simp [hidden]

theorem shownIn_cons {shown : I.Call → Bool} {c : I.Call} {r : I.Ret c} {t t' : List (Event I)}
    (same : shownIn shown t = shownIn shown t') :
    shownIn shown (⟨c, r⟩ :: t) = shownIn shown (⟨c, r⟩ :: t') := by
  unfold shownIn at same ⊢
  rw [List.filter_cons, List.filter_cons, same]

/-- Which calls are shown, and which answers the environment gives. -/
structure Window (I : Interface) where
  shown : I.Call → Bool
  known : (c : I.Call) → I.Ret c → Prop

/-- As far as `p` has been run, `q` can be run so that it has shown the same; and when `p` is
done, `q` is done with a result that `R` relates to it. -/
def Prog.Refines (V : Window I) (p : Prog I α) (q : Prog I β) (R : α → β → Prop) : Prop :=
  ∀ t p', Steps p t p' → (∀ e ∈ t, V.known e.1 e.2) →
    ∃ t' q', Steps q t' q' ∧ shownIn V.shown t' = shownIn V.shown t ∧ ∀ a, p' = .done a → ∃ b, q' = .done b ∧ R a b

namespace Prog.Refines

variable {V : Window I} {p : Prog I α} {q : Prog I β} {R : α → β → Prop}

/-- What `p` shows when it runs to an end, `q` shows when it runs to an end. -/
theorem exec (h : Prog.Refines V p q R) {t : List (Event I)} {a : α} (run : Exec p t a)
    (known : ∀ e ∈ t, V.known e.1 e.2) : ∃ t' b, Exec q t' b ∧ shownIn V.shown t' = shownIn V.shown t ∧ R a b := by
  obtain ⟨t', q', run', same, finished⟩ := h t _ run known
  obtain ⟨b, rfl, related⟩ := finished a rfl
  exact ⟨t', b, run', same, related⟩

theorem done {a : α} {b : β} (h : R a b) : Prog.Refines V (.done a) (.done b) R := by
  intro t p' run _
  cases run
  refine ⟨[], .done b, .refl _, rfl, ?_⟩
  rintro a' ⟨⟩
  exact ⟨b, rfl, h⟩

/-- As long as nothing has been done, nothing is shown. -/
theorem idle {c : I.Call} {next : I.Ret c → Prog I α} :
    ∃ t' q', Steps q t' q' ∧ shownIn V.shown t' = shownIn V.shown [] ∧
      ∀ a, Prog.call c next = .done a → ∃ b, q' = .done b ∧ R a b := by
  refine ⟨[], q, .refl q, rfl, fun a impossible => ?_⟩
  cases impossible

/-- The same call on both sides. -/
theorem both {c : I.Call} {next : I.Ret c → Prog I α} {next' : I.Ret c → Prog I β}
    (h : ∀ r, Prog.Refines V (next r) (next' r) R) : Prog.Refines V (.call c next) (.call c next') R := by
  intro t p' run known
  cases run with
  | refl => exact idle
  | @step _ _ r t _ rest =>
      obtain ⟨t', q', run', same, finished⟩ := h r t p' rest fun e mem => known e (List.mem_cons_of_mem _ mem)
      exact ⟨⟨c, r⟩ :: t', q', .step r run', shownIn_cons same, finished⟩

/-- A call that nobody sees. -/
theorem hidden {c : I.Call} {next : I.Ret c → Prog I α} (unseen : V.shown c = false)
    (h : ∀ r, V.known c r → Prog.Refines V (next r) q R) : Prog.Refines V (.call c next) q R := by
  intro t p' run known
  cases run with
  | refl => exact idle
  | @step _ _ r t _ rest =>
      have here : V.known c r := known ⟨c, r⟩ List.mem_cons_self
      obtain ⟨t', q', run', same, finished⟩ := h r here t p' rest fun e mem => known e (List.mem_cons_of_mem _ mem)
      refine ⟨t', q', run', ?_, finished⟩
      rw [shownIn_hidden unseen, same]

theorem hidden_right {c : I.Call} {next : I.Ret c → Prog I β} (unseen : V.shown c = false) (r : I.Ret c)
    (h : Prog.Refines V p (next r) R) : Prog.Refines V p (.call c next) R := by
  intro t p' run known
  obtain ⟨t', q', run', same, finished⟩ := h t p' run known
  refine ⟨⟨c, r⟩ :: t', q', .step r run', ?_, finished⟩
  rw [shownIn_hidden unseen, same]

/-- A call that is never answered. -/
theorem stuck {c : I.Call} {next : I.Ret c → Prog I α} (never : I.Ret c → False) :
    Prog.Refines V (.call c next) q R := by
  intro t p' run _
  cases run with
  | refl => exact idle
  | step r _ => exact (never r).elim

theorem bind {f : α → Prog I α'} {g : β → Prog I β'} {R' : α' → β' → Prop} (first : Prog.Refines V p q R)
    (rest : ∀ a b, R a b → Prog.Refines V (f a) (g b) R') : Prog.Refines V (p.bind f) (q.bind g) R' := by
  intro t p' run known
  obtain ⟨c, next, run₁, rfl⟩ | ⟨t₁, t₂, a₁, rfl, run₁, run₂⟩ := run.bind_inv
  · obtain ⟨t', q', run', same, -⟩ := first t _ run₁ known
    refine ⟨t', q'.bind g, run'.bind g, same, fun a impossible => ?_⟩
    cases impossible
  · obtain ⟨t₁', b₁, run₁', same₁, related⟩ := first.exec run₁ fun e mem => known e (List.mem_append_left _ mem)
    obtain ⟨t₂', q', run₂', same₂, finished⟩ :=
      rest a₁ b₁ related t₂ p' run₂ fun e mem => known e (List.mem_append_right _ mem)
    refine ⟨t₁' ++ t₂', q', (Steps.bind run₁' g).append run₂', ?_, finished⟩
    rw [shownIn_append, shownIn_append, same₁, same₂]

/-- The same program, of which another result is kept. -/
theorem result (p : Prog I α) {f : α → β} (h : ∀ a, R a (f a)) :
    Prog.Refines V p (p.bind fun a => .done (f a)) R := by
  intro t p' run _
  refine ⟨t, _, run.bind _, rfl, ?_⟩
  rintro a rfl
  exact ⟨f a, rfl, h a⟩

end Prog.Refines

end Resumption
