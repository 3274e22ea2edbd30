import Mathlib

/-! Objects that own one resource each and whose moves are swaps. A program makes, moves and
destroys such objects in any order; a class whose destructor disposes of what the object owns
then disposes of every resource once. -/
namespace Ownership

/-- A class with one raw member. `null` stands for owning nothing. Destructors are given fuel,
for they may destroy further objects, and yield the values they dispose of. -/
structure HandleClass (V : Type) where
  null : V
  destructor : Nat → V → Option (List V)
  /-- a function that is handed an object by value -/
  consume : Option (Nat → V → Option (List V))
  /-- there is a `Release` -/
  releases : Bool

variable {V O : Type}

namespace HandleClass

/-- Move assignment swaps the two members. -/
def moveAssign (self other : V) : V × V := (other, self)

/-- Move construction assigns to an empty object. -/
def moveConstruct (C : HandleClass V) (other : V) : V × V := moveAssign C.null other

/-- What `Release` returns, and what it leaves. -/
def release (C : HandleClass V) (self : V) : V × V := (self, C.null)

end HandleClass

inductive Event (V : Type) where
  | opened (v : V)
  | closed (v : V)
  | released (v : V)
  deriving DecidableEq

/-- The members of the live objects, and what became of the resources. -/
structure State (O V : Type) where
  mem : O → Option V
  log : List (Event V)

inductive Op (O V : Type) where
  | construct (x : O)
  | adopt (x : O) (v : V)
  | moveConstruct (x other : O)
  | moveAssign (x other : O)
  | release (x : O)
  | consume (x : O)
  | destroy (x : O)

open Function (update)

/-- One operation. A resource that is adopted is fresh: no live object owns it. -/
inductive Step [DecidableEq O] (C : HandleClass V) : State O V → Op O V → State O V → Prop
  | construct {s : State O V} {x : O} : s.mem x = none →
      Step C s (.construct x) { s with mem := update s.mem x (some C.null) }
  | adopt {s : State O V} {x : O} {v : V} : s.mem x = none → v ≠ C.null → (∀ y, s.mem y ≠ some v) →
      Step C s (.adopt x v) ⟨update s.mem x (some v), s.log ++ [.opened v]⟩
  | moveConstruct {s : State O V} {x other : O} {v : V} : s.mem x = none → s.mem other = some v →
      Step C s (.moveConstruct x other) { s with
        mem := update (update s.mem x (some (C.moveConstruct v).1)) other (some (C.moveConstruct v).2) }
  | moveAssign {s : State O V} {x other : O} {u v : V} : s.mem x = some u → s.mem other = some v →
      Step C s (.moveAssign x other) { s with
        mem := update (update s.mem x (some (HandleClass.moveAssign u v).1)) other
          (some (HandleClass.moveAssign u v).2) }
  | release {s : State O V} {x : O} {v : V} : C.releases = true → s.mem x = some v →
      Step C s (.release x)
        ⟨update s.mem x (some (C.release v).2), s.log ++ [.released (C.release v).1]⟩
  | consume {s : State O V} {x : O} {v : V} {function : Nat → V → Option (List V)} {fuel : Nat}
      {disposed : List V} : C.consume = some function → s.mem x = some v →
      function fuel (C.moveConstruct v).1 = some disposed →
      Step C s (.consume x)
        ⟨update s.mem x (some (C.moveConstruct v).2), s.log ++ disposed.map .closed⟩
  | destroy {s : State O V} {x : O} {v : V} {fuel : Nat} {disposed : List V} : s.mem x = some v →
      C.destructor fuel v = some disposed →
      Step C s (.destroy x) ⟨update s.mem x none, s.log ++ disposed.map .closed⟩

/-- A finite program, from a state without objects. -/
inductive Runs [DecidableEq O] (C : HandleClass V) : List (Op O V) → State O V → Prop
  | nil : Runs C [] ⟨fun _ => none, []⟩
  | step {p : List (Op O V)} {s s' : State O V} {op : Op O V} :
      Runs C p s → Step C s op s' → Runs C (p ++ [op]) s'

/-- Destructors and consumers come to an end, having disposed of what they were given. -/
structure Disposes [DecidableEq V] (C : HandleClass V) : Prop where
  destructs : ∀ v, ∃ fuel disposed, C.destructor fuel v = some disposed
  destructor : ∀ {fuel v disposed}, C.destructor fuel v = some disposed →
    disposed = if v = C.null then [] else [v]
  consumes : ∀ {function}, C.consume = some function →
    ∀ v, ∃ fuel disposed, function fuel v = some disposed
  consume : ∀ {function}, C.consume = some function → ∀ {fuel v disposed},
    function fuel v = some disposed → disposed = [v]

/-- How often a resource was closed or released. -/
def disposals [DecidableEq V] (v : V) (log : List (Event V)) : Nat :=
  log.count (.closed v) + log.count (.released v)

/-- The account of one resource: which object owns it, that it is owned as long as its last
opening was not disposed of, and that it was never otherwise. -/
structure Account [DecidableEq V] (v : V) (s : State O V) (owner : Option O) : Prop where
  owns : ∀ x, s.mem x = some v ↔ owner = some x
  balance : s.log.count (.opened v) = disposals v s.log + owner.toList.length
  always : ∀ t, t <+: s.log →
    disposals v t ≤ t.count (.opened v) ∧ t.count (.opened v) ≤ disposals v t + 1

namespace Account

section Owns
variable {mem : O → Option V} {owner : Option O} {v : V} {x : O} {w : Option V}

theorem passes [DecidableEq O] (owns : ∀ z, mem z = some v ↔ owner = some z) (old : mem x ≠ some v)
    (new : w ≠ some v) : ∀ z, update mem x w z = some v ↔ owner = some z := by
  intro z
  rw [Function.update_apply]
  split
  · next here =>
      subst here
      exact iff_of_false new fun same => old ((owns z).mpr same)
  · exact owns z

theorem loses [DecidableEq O] (owns : ∀ z, mem z = some v ↔ owner = some z) (old : mem x = some v)
    (new : w ≠ some v) : ∀ z, update mem x w z = some v ↔ none = some z := by
  intro z
  rw [Function.update_apply]
  split
  · exact iff_of_false new nofun
  · next other =>
      refine iff_of_false (fun here => other ?_) nofun
      exact Option.some.inj (((owns z).mp here).symm.trans ((owns x).mp old))

theorem gains [DecidableEq O] (owns : ∀ z, mem z = some v ↔ none = some z) :
    ∀ z, update mem x (some v) z = some v ↔ some x = some z := by
  intro z
  rw [Function.update_apply]
  split
  · next here => simp [here]
  · next other =>
      refine iff_of_false (fun here => ?_) fun same => other (Option.some.inj same).symm
      cases (owns z).mp here

theorem swaps [DecidableEq O] (owns : ∀ z, mem z = some v ↔ owner = some z) (y : O) :
    ∀ z, (mem ∘ Equiv.swap y x) z = some v ↔ owner.map (Equiv.swap y x) = some z := by
  intro z
  rw [Function.comp_apply, owns, Option.map_eq_some_iff]
  constructor
  · intro here
    exact ⟨_, here, Equiv.swap_apply_self y x z⟩
  · rintro ⟨o, here, rfl⟩
    rw [Equiv.swap_apply_self]
    exact here

end Owns

variable [DecidableEq V] {C : HandleClass V} {s s' : State O V} {owner : Option O} {v u : V} {x : O}
  {op : Op O V}

/-- The members were changed and nothing was logged. -/
theorem unlogged (h : Account v s owner) {mem : O → Option V} {owner' : Option O}
    (owns : ∀ x, mem x = some v ↔ owner' = some x)
    (same : owner'.toList.length = owner.toList.length) : Account v { s with mem := mem } owner' :=
  ⟨owns, by rw [h.balance, same], h.always⟩

/-- The members were changed and one event was logged. -/
theorem logged (h : Account v s owner) {mem : O → Option V} {owner' : Option O} {e : Event V}
    (owns : ∀ x, mem x = some v ↔ owner' = some x)
    (balance : (s.log ++ [e]).count (.opened v) = disposals v (s.log ++ [e]) + owner'.toList.length) :
    Account v ⟨mem, s.log ++ [e]⟩ owner' := by
  refine ⟨owns, balance, fun t before => ?_⟩
  obtain rfl | before := List.prefix_concat_iff.mp before
  · have one : owner'.toList.length ≤ 1 := by cases owner' <;> simp
    omega
  · exact h.always t before

variable [DecidableEq O]

/-- Both members change hands. -/
theorem swap (h : Account v s owner) {y : O} :
    Account v { s with mem := s.mem ∘ Equiv.swap y x } (owner.map (Equiv.swap y x)) :=
  h.unlogged (swaps h.owns y) (by cases owner <;> rfl)

theorem construct (h : Account v s owner) (free : s.mem x = none) {w : Option V} (new : w ≠ some v) :
    Account v { s with mem := update s.mem x w } owner :=
  h.unlogged (passes h.owns (by rw [free]; exact nofun) new) rfl

/-- An object takes a fresh resource over. -/
theorem adopt (h : Account v s owner) (free : s.mem x = none) (fresh : ∀ y, s.mem y ≠ some u) :
    Account v ⟨update s.mem x (some u), s.log ++ [.opened u]⟩ (if u = v then some x else owner) := by
  have balance := h.balance
  by_cases same : u = v
  · subst same
    have unowned : owner = none := by
      cases owner with
      | none => rfl
      | some y => exact absurd ((h.owns y).mpr rfl) (fresh y)
    subst unowned
    rw [if_pos rfl]
    refine h.logged (gains h.owns) ?_
    simp [disposals] at balance ⊢
    omega
  · rw [if_neg same]
    refine h.logged (passes h.owns (by rw [free]; exact nofun) fun h => same (Option.some.inj h)) ?_
    simpa [disposals, same] using balance

/-- An object loses its value `u`, which is logged as disposed of. -/
theorem disposed {w : Option V} {e : Event V} (h : Account v s owner) (here : s.mem x = some u)
    (new : w ≠ some v) (e_eq : e = .closed u ∨ e = .released u) :
    Account v ⟨update s.mem x w, s.log ++ [e]⟩ (if u = v then none else owner) := by
  have balance := h.balance
  have opened : [e].count (.opened v) = 0 := by
    rcases e_eq with rfl | rfl <;> simp
  have once : disposals v [e] = if u = v then 1 else 0 := by
    rcases e_eq with rfl | rfl <;> simp [disposals, List.count_singleton]
  have sum : disposals v (s.log ++ [e]) = disposals v s.log + disposals v [e] := by
    simp only [disposals, List.count_append]
    omega
  split at once
  · next same =>
      subst same
      rw [if_pos rfl]
      refine h.logged (loses h.owns here new) ?_
      rw [(h.owns x).mp here] at balance
      simp only [List.count_append, sum, Option.toList_some, Option.toList_none, List.length_singleton,
        List.length_nil] at balance ⊢
      omega
  · next other =>
      rw [if_neg other]
      refine h.logged (passes h.owns (fun same => other (Option.some.inj (here.symm.trans same))) new) ?_
      simp only [List.count_append, sum]
      omega

/-- One operation. -/
theorem step (disposes : Disposes C) (proper : v ≠ C.null) (h : Account v s owner)
    (step : Step C s op s') : ∃ owner', Account v s' owner' := by
  have null : some C.null ≠ some v := fun same => proper (Option.some.inj same).symm
  cases step with
  | construct free => exact ⟨_, h.construct free null⟩
  | adopt free _ fresh => exact ⟨_, h.adopt free fresh⟩
  | @moveConstruct x other u free here =>
      have apart : other ≠ x := by
        rintro rfl
        rw [free] at here
        cases here
      have swapped := (h.construct free null).swap (x := x) (y := other)
      dsimp only at swapped
      rw [Equiv.comp_swap_eq_update, Function.update_of_ne apart, Function.update_self, here,
        Function.update_idem] at swapped
      exact ⟨_, swapped⟩
  | @moveAssign x other a b left right =>
      have swapped := h.swap (x := x) (y := other)
      rw [Equiv.comp_swap_eq_update, left, right] at swapped
      exact ⟨_, swapped⟩
  | release _ here => exact ⟨_, h.disposed here null (.inr rfl)⟩
  | consume consumer here done =>
      rw [disposes.consume consumer done]
      exact ⟨_, h.disposed here null (.inl rfl)⟩
  | @destroy x u fuel disposed here done =>
      rw [disposes.destructor done]
      split
      · next empty =>
          subst empty
          have gone := h.unlogged (passes h.owns (x := x) (w := none) (by rw [here]; exact null) nofun) rfl
          rw [List.map_nil, List.append_nil]
          exact ⟨_, gone⟩
      · exact ⟨_, h.disposed here nofun (.inl rfl)⟩

/-- A whole program. -/
theorem runs (disposes : Disposes C) (proper : v ≠ C.null) {p : List (Op O V)} (run : Runs C p s) :
    ∃ owner, Account v s owner := by
  induction run with
  | nil =>
      refine ⟨none, fun x => iff_of_false nofun nofun, rfl, fun t before => ?_⟩
      rw [List.prefix_nil.mp before]
      exact ⟨le_rfl, Nat.zero_le _⟩
  | step _ op ih =>
      obtain ⟨owner, h⟩ := ih
      exact h.step disposes proper op

end Account

/-- Linear ownership over the programs that use any number of objects. -/
structure Linear [DecidableEq V] (C : HandleClass V) (O : Type) [DecidableEq O] : Prop where
  /-- at most one live object owns a resource -/
  unique : ∀ {p : List (Op O V)} {s}, Runs C p s → ∀ {v x y}, v ≠ C.null →
    s.mem x = some v → s.mem y = some v → x = y
  /-- a resource is disposed of after each opening and not again before the next one -/
  alternates : ∀ {p : List (Op O V)} {s}, Runs C p s → ∀ {v}, v ≠ C.null → ∀ t, t <+: s.log →
    disposals v t ≤ t.count (.opened v) ∧ t.count (.opened v) ≤ disposals v t + 1
  /-- what was not disposed of is owned -/
  owned : ∀ {p : List (Op O V)} {s}, Runs C p s → ∀ {v}, v ≠ C.null →
    (disposals v s.log < s.log.count (.opened v) ↔ ∃ x, s.mem x = some v)
  /-- once all objects are destroyed nothing is left over -/
  once : ∀ {p : List (Op O V)} {s}, Runs C p s → (∀ x, s.mem x = none) → ∀ {v}, v ≠ C.null →
    disposals v s.log = s.log.count (.opened v)
  /-- destructors return -/
  destroys : ∀ {p : List (Op O V)} {s}, Runs C p s → ∀ {x v}, s.mem x = some v →
    ∃ s', Step C s (.destroy x) s'
  consumes : ∀ {p : List (Op O V)} {s}, Runs C p s → C.consume ≠ none → ∀ {x v}, s.mem x = some v →
    ∃ s', Step C s (.consume x) s'

theorem Disposes.linear [DecidableEq O] [DecidableEq V] {C : HandleClass V} (disposes : Disposes C) :
    Linear C O where
  unique := by
    intro p s run v x y proper here there
    obtain ⟨owner, h⟩ := Account.runs disposes proper run
    exact Option.some.inj (((h.owns x).mp here).symm.trans ((h.owns y).mp there))
  alternates := by
    intro p s run v proper
    obtain ⟨owner, h⟩ := Account.runs disposes proper run
    exact h.always
  owned := by
    intro p s run v proper
    obtain ⟨owner, h⟩ := Account.runs disposes proper run
    have balance := h.balance
    cases owner with
    | none =>
        refine iff_of_false (by simp [balance]) ?_
        rintro ⟨x, here⟩
        cases (h.owns x).mp here
    | some x => exact iff_of_true (by simp [balance]) ⟨x, (h.owns x).mpr rfl⟩
  once := by
    intro p s run dead v proper
    obtain ⟨owner, h⟩ := Account.runs disposes proper run
    cases owner with
    | none => exact h.balance.symm
    | some x =>
        have here := (h.owns x).mpr rfl
        rw [dead x] at here
        cases here
  destroys := by
    intro p s _ x v here
    obtain ⟨fuel, disposed, done⟩ := disposes.destructs v
    exact ⟨_, .destroy here done⟩
  consumes := by
    intro p s _ offered x v here
    obtain ⟨function, consumer⟩ := Option.ne_none_iff_exists'.mp offered
    obtain ⟨fuel, disposed, done⟩ := disposes.consumes consumer (C.moveConstruct v).1
    exact ⟨_, .consume consumer here done⟩

end Ownership
