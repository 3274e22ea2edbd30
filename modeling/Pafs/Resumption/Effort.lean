import Pafs.Resumption.Routine
import Pafs.Resumption.Watch

/-! How long programs run. A program that makes a bounded number of calls makes no more of them
among other threads, and threads that all do so come to an end when no more of them arrive. -/
namespace Resumption

variable {I : Interface} {W T σ ε α β : Type}

/-- One unit is spent on every call. -/
def countdown (I : Interface) : Discipline I Nat where
  allows n _ := 0 < n
  answers _ _ _ := True
  after n _ _ := n - 1

/-- The program makes at most `n` calls, whatever is answered. -/
def Prog.Within (p : Prog I α) (n : Nat) : Prop := p.Follows (countdown I) n fun _ _ => True

theorem Prog.Within.call {c : I.Call} {next : I.Ret c → Prog I α} {n : Nat} (h : (Prog.call c next).Within n)
    (r : I.Ret c) : ∃ k, n = k + 1 ∧ (next r).Within k := by
  cases n with
  | zero => exact absurd h.1 (Nat.lt_irrefl 0)
  | succ k => exact ⟨k, rfl, h.2 r trivial⟩

theorem Prog.Within.mono {p : Prog I α} {n k : Nat} (h : p.Within n) (le : n ≤ k) : p.Within k := by
  induction p generalizing n k with
  | done a => trivial
  | call c next ih =>
      obtain ⟨pos, rest⟩ := h
      have pos' : 0 < k := lt_of_lt_of_le pos le
      exact ⟨pos', fun r _ => ih r (rest r trivial) (Nat.sub_le_sub_right le 1)⟩

/-! Code that spends at most `n` of what it is given. -/

namespace Routine

def Spends (n : Nat) (m : Routine I σ ε α) : Prop :=
  ∀ s k, n ≤ k → Follows (countdown I) m s k fun _ _ k' => k ≤ k' + n

namespace Spends

variable {n k : Nat}

theorem mono {m : Routine I σ ε α} (h : Spends n m) (le : n ≤ k) : Spends k m := by
  intro s j enough
  apply (h s j (le.trans enough)).mono
  intro r s' j' spent
  omega

theorem pure (a : α) : Spends 0 (pure a : Routine I σ ε α) := fun _ k _ => le_refl k

theorem fail (e : ε) : Spends 0 (fail e : Routine I σ ε α) := fun _ k _ => le_refl k

theorem ofExcept (r : Except ε α) : Spends 0 (ofExcept r : Routine I σ ε α) := fun _ k _ => le_refl k

theorem getLocal : Spends 0 (getLocal : Routine I σ ε σ) := fun _ k _ => le_refl k

theorem setLocal (s : σ) : Spends 0 (setLocal s : Routine I σ ε Unit) := fun _ k _ => le_refl k

theorem invoke (c : I.Call) : Spends 1 (invoke c : Routine I σ ε (I.Ret c)) := by
  intro s k enough
  refine ⟨enough, fun r _ => ?_⟩
  change k ≤ k - 1 + 1
  omega

theorem bind {m : Routine I σ ε α} {f : α → Routine I σ ε β} (first : Spends n m)
    (rest : ∀ a, Spends k (f a)) : Spends (n + k) (m >>= f) := by
  intro s j enough
  rw [follows_bind]
  apply (first s j (by omega)).mono
  intro r s' j' spent
  cases r with
  | ok a =>
      apply (rest a s' j' (by omega)).mono
      intro r s'' j'' spent'
      omega
  | error e =>
      dsimp only
      omega

theorem attempt {m : Routine I σ ε α} (h : Spends n m) : Spends n (attempt m) := by
  intro s j enough
  rw [follows_attempt]
  exact h s j enough

theorem onError {m : Routine I σ ε α} {cleanup : Routine I σ ε Unit} (h : Spends n m)
    (after : Spends k cleanup) : Spends (n + k) (m.onError cleanup) := by
  intro s j enough
  rw [follows_onError]
  apply (h s j (by omega)).mono
  intro r s' j' spent
  cases r with
  | ok a =>
      dsimp only
      omega
  | error e =>
      apply (after s' j' (by omega)).mono
      intro _ s'' j'' spent'
      omega

theorem andFinally {m : Routine I σ ε α} {destroy : Routine I σ ε Unit} (h : Spends n m)
    (after : Spends k destroy) : Spends (n + k) (m.andFinally destroy) := by
  intro s j enough
  rw [follows_andFinally]
  apply (h s j (by omega)).mono
  intro r s' j' spent
  apply (after s' j' (by omega)).mono
  intro _ s'' j'' spent'
  omega

end Spends

end Routine

/-! Threads. -/

def Label.Arrives (label : Label I T) : Prop := ∃ tag, label = .arrive tag

/-- From one configuration to a later one; the labels of the steps, the last one first. -/
inductive Machine.Continues (M : Machine I W T α) (s : Config I W T α) :
    List (Label I T) → Config I W T α → Prop
  | refl : M.Continues s [] s
  | step {t : List (Label I T)} {s₁ s₂ : Config I W T α} {label : Label I T} :
      M.Continues s t s₁ → M.Step s₁ label s₂ → M.Continues s (label :: t) s₂

/-- The threads can take at most `n` more steps; to leave is one of them. -/
def Config.Within (s : Config I W T α) (n : Nat) : Prop :=
  ∃ ps : List (Thread I T α × Nat), ps.map Prod.fst = s.threads ∧ (∀ p ∈ ps, p.1.prog.Within p.2) ∧
    (ps.map fun p => p.2 + 1).sum ≤ n

variable {M : Machine I W T α} {ok : W → Label I T → Prop} {start : W} {s s' : Config I W T α} {n : Nat}
  {cost : T → Nat}

theorem Config.Within.split {w : W} {pre post : List (Thread I T α)} {t : Thread I T α}
    (h : Config.Within ⟨w, pre ++ t :: post⟩ n) :
    ∃ (before after : List (Thread I T α × Nat)) (k : Nat), before.map Prod.fst = pre ∧ after.map Prod.fst = post ∧
      (∀ p ∈ before ++ after, p.1.prog.Within p.2) ∧ t.prog.Within k ∧
      (before.map fun p => p.2 + 1).sum + (k + 1) + (after.map fun p => p.2 + 1).sum ≤ n := by
  obtain ⟨ps, threads, within, le⟩ := h
  obtain ⟨before, rest, rfl, hpre, hrest⟩ := List.map_eq_append_iff.mp threads
  obtain ⟨⟨t', k⟩, after, rfl, rfl, hpost⟩ := List.map_eq_cons_iff.mp hrest
  refine ⟨before, after, k, hpre, hpost, ?_, ?_, ?_⟩
  · intro p mem
    apply within
    simp only [List.mem_append, List.mem_cons] at mem ⊢
    tauto
  · exact within (t', k) (by simp)
  · rw [List.map_append, List.sum_append, List.map_cons, List.sum_cons] at le
    omega

/-- Every step that is not an arrival uses up one. -/
theorem Config.Within.step {label : Label I T} (h : s.Within n) (step : M.Step s label s')
    (stays : ¬ label.Arrives) : ∃ k, s'.Within k ∧ k + 1 ≤ n := by
  cases step with
  | arrive starts => exact absurd ⟨_, rfl⟩ stays
  | @act w w' tag c r next pre post perform =>
      obtain ⟨before, after, k, rfl, rfl, within, own, le⟩ := h.split
      obtain ⟨j, rfl, rest⟩ := own.call r
      refine ⟨n - 1, ⟨before ++ (⟨tag, next r⟩, j) :: after, by simp, ?_, ?_⟩, by omega⟩
      · intro p mem
        simp only [List.mem_append, List.mem_cons] at mem
        rcases mem with mem | rfl | mem
        · exact within p (List.mem_append_left _ mem)
        · exact rest
        · exact within p (List.mem_append_right _ mem)
      · rw [List.map_append, List.sum_append, List.map_cons, List.sum_cons]
        omega
  | @leave w tag a pre post =>
      obtain ⟨before, after, k, rfl, rfl, within, own, le⟩ := h.split
      refine ⟨n - 1, ⟨before ++ after, by simp, within, ?_⟩, by omega⟩
      rw [List.map_append, List.sum_append]
      omega

theorem Machine.Continues.length_le {t : List (Label I T)} (h : M.Continues s t s') (within : s.Within n)
    (stays : ∀ label ∈ t, ¬ label.Arrives) : ∃ k, s'.Within k ∧ t.length + k ≤ n := by
  induction h with
  | refl => exact ⟨n, within, by simp⟩
  | step _ step ih =>
      obtain ⟨k, here, le⟩ := ih fun label mem => stays label (List.mem_cons_of_mem _ mem)
      obtain ⟨j, there, less⟩ := here.step step (stays _ List.mem_cons_self)
      refine ⟨j, there, ?_⟩
      rw [List.length_cons]
      omega

theorem Machine.Continues.reach {t : List (Label I T)} (h : M.Continues s t s')
    (reached : M.Reach (fun _ _ => True) start s) : M.Reach (fun _ _ => True) start s' := by
  induction h with
  | refl => exact reached
  | step _ step ih => exact ih.step step trivial

/-- What a thread has left to do is no more than what it had to do when it came. -/
theorem Machine.Reach.within (h : M.Reach ok start s)
    (starts : ∀ w tag p w', M.starts w tag p w' → p.Within (cost tag)) :
    ∀ t ∈ s.threads, t.prog.Within (cost t.tag) := by
  induction h with
  | init =>
      intro t mem
      cases mem
  | step _ step _ ih =>
      cases step with
      | arrive start =>
          intro t mem
          rcases List.mem_cons.mp mem with rfl | mem
          · exact starts _ _ _ _ start
          · exact ih t mem
      | @act w w' tag c r next pre post perform =>
          intro t mem
          simp only [List.mem_append, List.mem_cons] at mem ih
          rcases mem with mem | rfl | mem
          · exact ih t (.inl mem)
          · obtain ⟨k, more, rest⟩ := (ih _ (.inr (.inl rfl))).call r
            exact rest.mono (by dsimp only at more ⊢; omega)
          · exact ih t (.inr (.inr mem))
      | leave =>
          intro t mem
          apply ih t
          simp only [List.mem_append, List.mem_cons] at mem ⊢
          tauto

theorem Config.within_of_each (each : ∀ t ∈ s.threads, t.prog.Within (cost t.tag)) :
    s.Within (s.threads.map fun t => cost t.tag + 1).sum := by
  refine ⟨s.threads.map fun t => (t, cost t.tag), by simp [Function.comp_def], ?_, ?_⟩
  · intro p mem
    obtain ⟨t, here, rfl⟩ := List.mem_map.mp mem
    exact each t here
  · rw [List.map_map]
    exact le_refl _

/-- One thread among others makes no more calls than it would alone. -/
theorem Machine.Watch.within {tag : T} {t : List (Event I)} {p : Prog I α} (h : M.Watch ok tag s t p s')
    (starts : ∀ w p w', M.starts w tag p w' → p.Within n) : ∃ k, p.Within k ∧ t.length + k ≤ n := by
  induction h with
  | arrive step _ =>
      cases step with
      | arrive start => exact ⟨n, starts _ _ _ start, by simp⟩
  | @act t w w' c r next pre post _ _ _ ih =>
      obtain ⟨k, here, le⟩ := ih
      obtain ⟨j, rfl, rest⟩ := here.call r
      refine ⟨j, rest, ?_⟩
      rw [List.length_append, List.length_singleton]
      omega
  | other _ _ _ _ ih => exact ih

end Resumption
