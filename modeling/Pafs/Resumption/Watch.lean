import Pafs.Resumption.Pool

/-! One thread watched while all threads of a machine run. The steps of the others are what
it has to reckon with: if they keep an invariant of the world, and the invariant gives the
answers a discipline expects, then the thread follows the discipline to its end. -/
namespace Resumption

variable {I : Interface} {W T L α : Type}

/-- Steps that `ok` admits lead from one configuration to another. -/
def Machine.Onward (M : Machine I W T α) (ok : W → Label I T → Prop) :
    Config I W T α → Config I W T α → Prop :=
  Relation.ReflTransGen fun s s' => ∃ label, M.Step s label s' ∧ ok s.world label

/-- A thread with this tag has come after `s`; `t` is what it has done, and `p` is what it
has left to do. -/
inductive Machine.Watch (M : Machine I W T α) (ok : W → Label I T → Prop) (tag : T) (s : Config I W T α) :
    List (Event I) → Prog I α → Config I W T α → Prop
  | arrive {w : W} {p : Prog I α} : M.Step s (.arrive tag) ⟨w, ⟨tag, p⟩ :: s.threads⟩ →
      ok s.world (.arrive tag) → M.Watch ok tag s [] p ⟨w, ⟨tag, p⟩ :: s.threads⟩
  | act {t : List (Event I)} {w w' : W} {c : I.Call} {r : I.Ret c} {next : I.Ret c → Prog I α}
      {pre post : List (Thread I T α)} :
      M.Watch ok tag s t (.call c next) ⟨w, pre ++ ⟨tag, .call c next⟩ :: post⟩ →
      M.perform w c r w' → ok w (.act tag ⟨c, r⟩) →
      M.Watch ok tag s (t ++ [⟨c, r⟩]) (next r) ⟨w', pre ++ ⟨tag, next r⟩ :: post⟩
  | other {t : List (Event I)} {p : Prog I α} {s₁ s₂ : Config I W T α} {label : Label I T} :
      M.Watch ok tag s t p s₁ → M.Step s₁ label s₂ → ok s₁.world label → ⟨tag, p⟩ ∈ s₂.threads →
      M.Watch ok tag s t p s₂

/-- A property of the world that the admitted steps keep. -/
def Machine.Stable (M : Machine I W T α) (ok : W → Label I T → Prop) (J : W → Prop) : Prop :=
  ∀ s label s', M.Step s label s' → ok s.world label → J s.world → J s'.world

variable {M : Machine I W T α} {ok : W → Label I T → Prop} {J : W → Prop} {s s' : Config I W T α}

theorem Machine.Onward.stable (h : M.Onward ok s s') (stable : M.Stable ok J) (now : J s.world) :
    J s'.world := by
  induction h with
  | refl => exact now
  | tail _ step ih =>
      obtain ⟨label, step, admitted⟩ := step
      exact stable _ label _ step admitted ih

theorem Machine.Onward.step {s₁ : Config I W T α} {label : Label I T} (h : M.Onward ok s s₁)
    (step : M.Step s₁ label s') (admitted : ok s₁.world label) : M.Onward ok s s' :=
  Relation.ReflTransGen.tail h ⟨label, step, admitted⟩

/-- One thread runs for a while and the others wait. -/
theorem Machine.Onward.run {w w' : W} {tag : T} {p q : Prog I α} {ts : List (Thread I T α)}
    {t : List (Event I)} (h : M.Onward ok s ⟨w, ⟨tag, p⟩ :: ts⟩) (steps : Steps p t q)
    (performs : M.Performs w t w') (now : J w)
    (keeps : ∀ w₁ w₂, ∀ e ∈ t, J w₁ → M.perform w₁ e.1 e.2 w₂ → J w₂)
    (admitted : ∀ w, J w → ∀ e ∈ t, ok w (.act tag e)) : M.Onward ok s ⟨w', ⟨tag, q⟩ :: ts⟩ := by
  induction steps generalizing w with
  | refl p =>
      cases performs
      exact h
  | @step c next r t q rest ih =>
      obtain ⟨w₁, perform, performs⟩ := performs
      have now₁ : J w₁ := keeps w w₁ ⟨c, r⟩ List.mem_cons_self now perform
      have here := h.step (.act_head perform) (admitted w now _ List.mem_cons_self)
      exact ih here performs now₁ (fun w₁ w₂ e mem => keeps w₁ w₂ e (List.mem_cons_of_mem _ mem))
        fun w now e mem => admitted w now e (List.mem_cons_of_mem _ mem)

theorem Machine.Watch.run {w w' : W} {tag : T} {p q : Prog I α} {ts : List (Thread I T α)}
    {t₀ t : List (Event I)} (h : M.Watch ok tag s t₀ p ⟨w, ⟨tag, p⟩ :: ts⟩) (steps : Steps p t q)
    (performs : M.Performs w t w') (now : J w)
    (keeps : ∀ w₁ w₂, ∀ e ∈ t, J w₁ → M.perform w₁ e.1 e.2 w₂ → J w₂)
    (admitted : ∀ w, J w → ∀ e ∈ t, ok w (.act tag e)) :
    M.Watch ok tag s (t₀ ++ t) q ⟨w', ⟨tag, q⟩ :: ts⟩ := by
  induction steps generalizing w t₀ with
  | refl p =>
      cases performs
      rw [List.append_nil]
      exact h
  | @step c next r t q rest ih =>
      obtain ⟨w₁, perform, performs⟩ := performs
      have now₁ : J w₁ := keeps w w₁ ⟨c, r⟩ List.mem_cons_self now perform
      have first : M.Watch ok tag s t₀ (.call c next) ⟨w, [] ++ ⟨tag, .call c next⟩ :: ts⟩ := h
      have here : M.Watch ok tag s (t₀ ++ [⟨c, r⟩]) (next r) ⟨w₁, [] ++ ⟨tag, next r⟩ :: ts⟩ :=
        first.act perform (admitted w now _ List.mem_cons_self)
      rw [List.append_cons]
      exact ih here performs now₁ (fun w₁ w₂ e mem => keeps w₁ w₂ e (List.mem_cons_of_mem _ mem))
        fun w now e mem => admitted w now e (List.mem_cons_of_mem _ mem)

/-- The rule for a thread among others. -/
theorem Machine.Watch.follows {D : Discipline I L} {l : L} {tag : T} {t : List (Event I)} {p : Prog I α}
    {Q : α → L → Prop} (h : M.Watch ok tag s t p s') (stable : M.Stable ok J) (now : J s.world)
    (starts : ∀ w p w', M.starts w tag p w' → p.Follows D l Q)
    (answers : ∀ w l c r w', J w → ok w (.act tag ⟨c, r⟩) → M.perform w c r w' → D.answers l c r) :
    J s'.world ∧ p.Follows D (D.run l t) Q := by
  induction h with
  | arrive step admitted =>
      refine ⟨stable _ _ _ step admitted now, ?_⟩
      cases step with
      | arrive start => exact starts _ _ _ start
  | @act t w w' c r next pre post _ perform admitted ih =>
      obtain ⟨here, follows⟩ := ih
      refine ⟨stable _ _ _ (.act perform) admitted here, ?_⟩
      rw [Discipline.run, List.foldl_append]
      exact follows.2 r (answers w _ c r w' here admitted perform)
  | other _ step admitted _ ih => exact ⟨stable _ _ _ step admitted ih.1, ih.2⟩

end Resumption
