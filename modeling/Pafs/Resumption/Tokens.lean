import Pafs.Resumption.Routine

/-! Tokens that change hands. Every live token is in one place or in one hand; a hand holds at
most one token, and so does a place. -/
namespace Resumption

section Tokens
open Classical

variable {ι τ : Type}

structure Placed (place : ι → Option τ) (hands : Multiset (Option τ)) (live : Set τ) : Prop where
  once : ∀ t, hands.count (some t) + (if ∃ i, place i = some t then 1 else 0) =
    if t ∈ live then 1 else 0
  apart : ∀ i j t, place i = some t → place j = some t → i = j

namespace Placed

variable {place place' : ι → Option τ} {hands : Multiset (Option τ)} {live : Set τ} {t : τ} {o : Option τ}

theorem empty (nothing : ∀ i, place i = none) : Placed place 0 (∅ : Set τ) := by
  constructor
  · intro t
    simp [nothing]
  · intro i j t here
    rw [nothing] at here
    cases here

/-- An empty hand comes or goes. -/
theorem idle_iff : Placed place (none ::ₘ hands) live ↔ Placed place hands live := by
  have same (t : τ) : (none ::ₘ hands).count (some t) = hands.count (some t) := by
    rw [Multiset.count_cons, if_neg (Option.some_ne_none t), Nat.add_zero]
  constructor
  · intro h
    exact ⟨fun t => by rw [← same]; exact h.once t, h.apart⟩
  · intro h
    exact ⟨fun t => by rw [same]; exact h.once t, h.apart⟩

/-- A new token comes to a hand. -/
theorem receive (h : Placed place hands live) (new : t ∉ live) :
    Placed place (some t ::ₘ hands) (insert t live) := by
  refine ⟨fun u => ?_, h.apart⟩
  have before := h.once u
  rw [Multiset.count_cons]
  by_cases same : u = t
  · subst same
    rw [if_neg new] at before
    rw [if_pos rfl, if_pos (Set.mem_insert _ _)]
    omega
  · have other : some u ≠ some t := fun eq => same (Option.some.inj eq)
    rw [if_neg other, Nat.add_zero, before]
    simp [same]

/-- The token in a hand is used up. -/
theorem discard (h : Placed place (some t ::ₘ hands) live) : Placed place (none ::ₘ hands) (live \ {t}) := by
  rw [idle_iff]
  refine ⟨fun u => ?_, h.apart⟩
  have before := h.once u
  rw [Multiset.count_cons] at before
  by_cases same : u = t
  · subst same
    have gone : u ∉ live \ {u} := fun mem => mem.2 rfl
    rw [if_pos rfl] at before
    rw [if_neg gone]
    split_ifs at before ⊢
    all_goals omega
  · have other : some u ≠ some t := fun eq => same (Option.some.inj eq)
    rw [if_neg other, Nat.add_zero] at before
    rw [before]
    simp [same]

/-- A token in a hand is live, and in no place. -/
theorem held (h : Placed place (some t ::ₘ hands) live) : t ∈ live ∧ ∀ i, place i ≠ some t := by
  have once := h.once t
  rw [Multiset.count_cons, if_pos rfl] at once
  constructor
  · by_contra dead
    rw [if_neg dead] at once
    omega
  · intro i here
    rw [if_pos ⟨i, here⟩] at once
    split_ifs at once
    all_goals omega

/-- A token in a place is live. -/
theorem kept (h : Placed place hands live) {i : ι} (here : place i = some t) : t ∈ live := by
  have once := h.once t
  rw [if_pos ⟨i, here⟩] at once
  by_contra dead
  rw [if_neg dead] at once
  omega

/-- No two hands hold the same token. -/
theorem held_once {o' : Option τ} (h : Placed place (some t ::ₘ o' ::ₘ hands) live) : o' ≠ some t := by
  rintro rfl
  have once := h.once t
  rw [Multiset.count_cons, Multiset.count_cons, if_pos rfl] at once
  split_ifs at once
  all_goals omega

/-- What is in the hand and what is in the place change round; either may be nothing. -/
theorem exchange [DecidableEq ι] (h : Placed place (o ::ₘ hands) live) (i : ι) :
    Placed (Function.update place i o) (place i ::ₘ hands) live := by
  have fresh {t : τ} (held : o = some t) : ∀ j, place j ≠ some t := by
    subst held
    exact h.held.2
  have elsewhere {t : τ} {j : ι} : Function.update place i o j = some t ↔
      (j = i ∧ o = some t) ∨ (j ≠ i ∧ place j = some t) := by
    rw [Function.update_apply]
    split
    · next same => simp [same]
    · next other => simp [other]
  constructor
  · intro t
    have before := h.once t
    rw [Multiset.count_cons] at before ⊢
    rw [← before]
    by_cases mine : o = some t
    · have now : ∃ j, Function.update place i o j = some t := ⟨i, elsewhere.mpr (.inl ⟨rfl, mine⟩)⟩
      have nowhere : ¬ ∃ j, place j = some t := fun ⟨j, here⟩ => fresh mine j here
      have other : some t ≠ place i := fun eq => fresh mine i eq.symm
      rw [if_pos now, if_neg nowhere, if_pos mine.symm, if_neg other]
    · have empty : some t ≠ o := fun eq => mine eq.symm
      rw [if_neg empty]
      by_cases here : place i = some t
      · have nowhere : ¬ ∃ j, Function.update place i o j = some t := by
          rintro ⟨j, there⟩
          rcases elsewhere.mp there with ⟨-, held⟩ | ⟨other, there⟩
          · exact mine held
          · exact other (h.apart j i t there here)
        rw [if_pos here.symm, if_neg nowhere, if_pos ⟨i, here⟩]
      · have other : some t ≠ place i := fun eq => here eq.symm
        have same : (∃ j, Function.update place i o j = some t) ↔ ∃ j, place j = some t := by
          apply exists_congr
          intro j
          rw [elsewhere]
          constructor
          · rintro (⟨-, held⟩ | ⟨-, there⟩)
            · exact absurd held mine
            · exact there
          · intro there
            refine .inr ⟨?_, there⟩
            rintro rfl
            exact here there
        rw [if_neg other]
        simp only [same]
  · intro j k t first second
    rcases elsewhere.mp first with ⟨rfl, held⟩ | ⟨-, there⟩
    · rcases elsewhere.mp second with ⟨rfl, -⟩ | ⟨-, there⟩
      · rfl
      · exact absurd there (fresh held k)
    · rcases elsewhere.mp second with ⟨-, held⟩ | ⟨-, there'⟩
      · exact absurd there (fresh held j)
      · exact h.apart j k t there there'

/-- Whatever is in some of the places is taken out, each into a hand of its own. -/
theorem collect [DecidableEq ι] {is : List ι} (h : Placed place hands live) (once : is.Nodup) :
    Placed (fun i => if i ∈ is then none else place i) ((is.map place : List (Option τ)) + hands) live := by
  induction is with
  | nil =>
      rw [List.map_nil, Multiset.coe_nil, zero_add]
      have same : (fun i => if i ∈ ([] : List ι) then none else place i) = place := by
        funext i
        exact if_neg List.not_mem_nil
      rw [same]
      exact h
  | cons i is ih =>
      obtain ⟨new, once⟩ := List.nodup_cons.mp once
      have taken := (idle_iff.mpr (ih once)).exchange i
      rw [if_neg new] at taken
      have same : Function.update (fun j => if j ∈ is then none else place j) i none =
          fun j => if j ∈ i :: is then none else place j := by
        funext j
        rw [Function.update_apply]
        by_cases eq : j = i
        · simp [eq]
        · simp [eq]
      rw [same] at taken
      rw [List.map_cons, ← Multiset.cons_coe, Multiset.cons_add]
      exact taken

/-- When all hands are empty, the live tokens are those in the places. -/
theorem live_iff (h : Placed place 0 live) (t : τ) : t ∈ live ↔ ∃ i, place i = some t := by
  have once := h.once t
  rw [Multiset.count_zero, Nat.zero_add] at once
  constructor
  · intro mem
    by_contra nowhere
    rw [if_pos mem, if_neg nowhere] at once
    cases once
  · intro here
    by_contra dead
    rw [if_neg dead, if_pos here] at once
    cases once

end Placed

end Tokens

end Resumption
