import Pafs.Alone

/-! `ForgetMulti` and `Forget` on the cache. Where every pair finds its entry and no check
fails, processing a list takes from every entry what the pairs sum to, in any order. -/
namespace Pafs
open Resumption

/-- A node after `g` references were dropped. -/
def Node.left (n : Node) (g : Nat) : Option Node :=
  if n.refcnt ≤ g then none else some { n with refcnt := n.refcnt - g }

theorem Node.eq_zero_of_left {n : Node} {g : Nat} (pos : 0 < n.refcnt) (h : n.left g = n.left 0) : g = 0 := by
  have less : ¬ n.refcnt ≤ 0 := Nat.not_le.mpr pos
  unfold Node.left at h
  rw [if_neg less] at h
  split_ifs at h with gone
  have refcnt : n.refcnt - g = n.refcnt - 0 := congrArg Node.refcnt (Option.some.inj h)
  omega

namespace InodeCache

/-- `c'` is what `c` becomes when `g` references are dropped. -/
def Drained (c c' : InodeCache) (g : Addr → Nat) : Prop :=
  ∀ a, c'.heap a = (c.heap a).bind fun n => n.left (g a)

def Counted (c : InodeCache) : Prop := ∀ a n, c.heap a = some n → 0 < n.refcnt

variable {c c₁ c₂ : InodeCache} {g h : Addr → Nat} {a : Addr} {n : Node}

namespace Drained

theorem refl (counted : c.Counted) : Drained c c 0 := by
  intro a
  cases here : c.heap a with
  | none => rfl
  | some n =>
      have pos : n.refcnt ≠ 0 := (counted a n here).ne'
      simp [Node.left, pos]

theorem heap_of_left (d : Drained c c₁ g) (here : c.heap a = some n) : c₁.heap a = n.left (g a) := by
  rw [d a, here]
  rfl

/-- What is still there was there, and has lost its references. -/
theorem of_present {n₁ : Node} (d : Drained c c₁ g) (here : c₁.heap a = some n₁) :
    ∃ n, c.heap a = some n ∧ g a < n.refcnt ∧ n₁ = { n with refcnt := n.refcnt - g a } := by
  rw [d a] at here
  obtain ⟨n, old, left⟩ := Option.bind_eq_some_iff.mp here
  unfold Node.left at left
  split_ifs at left with gone
  cases left
  exact ⟨n, old, Nat.not_le.mp gone, rfl⟩

theorem counted (d : Drained c c₁ g) : c₁.Counted := by
  intro a n₁ here
  obtain ⟨n, -, less, rfl⟩ := d.of_present here
  exact Nat.sub_pos_of_lt less

/-- What the second round takes matters only where something is left. -/
theorem trans {h' : Addr → Nat} (first : Drained c c₁ g) (second : Drained c₁ c₂ h)
    (same : ∀ a n₁, c₁.heap a = some n₁ → h a = h' a) : Drained c c₂ (g + h') := by
  intro a
  rw [second a]
  cases here : c.heap a with
  | none =>
      rw [first a, here]
      rfl
  | some n =>
      rw [first.heap_of_left here]
      unfold Node.left
      split_ifs with gone
      · have gone' : n.refcnt ≤ g a + h' a := le_trans gone (Nat.le_add_right _ _)
        simp [gone']
      · have left : c₁.heap a = some { n with refcnt := n.refcnt - g a } := by
          rw [first.heap_of_left here, Node.left, if_neg gone]
        simp only [Option.bind_some, same a _ left, Pi.add_apply]
        have split : n.refcnt - g a ≤ h' a ↔ n.refcnt ≤ g a + h' a := by omega
        simp only [split, Nat.sub_sub]

/-- Only the entries that are there count. -/
theorem congr (drained : Drained c c₁ g) (same : ∀ a n, c.heap a = some n → n.left (g a) = n.left (h a)) :
    Drained c c₁ h := by
  intro a
  cases here : c.heap a with
  | none =>
      rw [drained a, here]
      rfl
  | some n => rw [drained.heap_of_left here, same a n here, Option.bind_some]

theorem unique (first : Drained c c₁ g) (second : Drained c c₂ g) : c₁ = c₂ := by
  apply eq_of_heap
  funext a
  rw [first a, second a]

end Drained

end InodeCache

/-- The inode that an id stands for. -/
def holder (root : Inode) (c : InodeCache) (ino : Addr) : Option Inode :=
  if ino = FUSE_ROOT_ID then some root else (c.heap ino).map Node.inode

/-- What one forget leaves of the cache. -/
def forgetOne (root : Inode) (c : InodeCache) (d : ForgetData) : InodeCache :=
  match holder root c d.ino with
  | none => c
  | some i => (c.unref i.key d.nlookup).2

/-- What a batch leaves: the first `Unref` that fails ends it. -/
def batch (root : Inode) : InodeCache → List ForgetData → InodeCache
  | c, [] => c
  | c, d :: ds =>
      match holder root c d.ino with
      | none => c
      | some i =>
          match c.unref i.key d.nlookup with
          | (.dropped _, c') => batch root c' ds
          | (_, c') => c'

/-- The entry that an id takes references from; the root has one if its key was looked up. -/
def target (root : Inode) (c : InodeCache) (ino : Addr) : Option Addr :=
  if ino = FUSE_ROOT_ID then c.table root.key else some ino

/-- What one pair takes from each entry. -/
def share (root : Inode) (c : InodeCache) (d : ForgetData) (a : Addr) : Nat :=
  if target root c d.ino = some a then d.nlookup else 0

/-- What a list of pairs takes from each entry. -/
def owed (root : Inode) (c : InodeCache) (ds : List ForgetData) (a : Addr) : Nat :=
  (ds.map fun d => share root c d a).sum

/-- What the pairs of one id sum to. -/
def listedFor (ds : List ForgetData) (ino : Addr) : Nat :=
  (ds.map fun d => if d.ino = ino then d.nlookup else 0).sum

/-- A pair that asks its entry for more than its count: `CHECK_GE` ends the daemon there. -/
def Overdraws (root : Inode) (c : InodeCache) (d : ForgetData) : Prop :=
  ∃ a n, target root c d.ino = some a ∧ c.heap a = some n ∧ n.refcnt < d.nlookup

/-- Each pair names the root or an entry that is still in the cache when it is reached. -/
def StillThere (root : Inode) : InodeCache → List ForgetData → Prop
  | _, [] => True
  | c, d :: ds => (d.ino = FUSE_ROOT_ID ∨ c.heap d.ino ≠ none) ∧
      (¬ Overdraws root c d → StillThere root (forgetOne root c d) ds)

/-- The pairs of one id sum to at most its count; those of the root may sum to anything. -/
def Covered (c : InodeCache) (ds : List ForgetData) : Prop :=
  ∀ a n, a ≠ FUSE_ROOT_ID → c.heap a = some n → listedFor ds a ≤ n.refcnt

/-- No pair asks its entry for more than its count. -/
def Fits (root : Inode) : InodeCache → List ForgetData → Prop
  | _, [] => True
  | c, d :: ds => ¬ Overdraws root c d ∧ Fits root (forgetOne root c d) ds

/-- In no order does a pair ask an entry for more than the pairs before it have left. -/
def Measured (root : Inode) (c : InodeCache) (ds : List ForgetData) : Prop :=
  ∀ a n, c.heap a = some n → ∀ before d after, (before ++ d :: after).Perm ds →
    owed root c before a < n.refcnt → owed root c before a + share root c d a ≤ n.refcnt

section Cache
open InodeCache (Drained Counted)
variable {root : Inode} {c c₁ : InodeCache} {d : ForgetData} {ds : List ForgetData} {a : Addr} {n : Node}
  {g : Addr → Nat}

theorem owed_cons : owed root c (d :: ds) = share root c d + owed root c ds := rfl

theorem owed_append {ds' : List ForgetData} (a : Addr) :
    owed root c (ds ++ ds') a = owed root c ds a + owed root c ds' a := by
  simp [owed]

theorem owed_perm {ds' : List ForgetData} (perm : ds'.Perm ds) : owed root c ds' = owed root c ds := by
  funext a
  exact (perm.map _).sum_eq

theorem listedFor_append {ds' : List ForgetData} (a : Addr) :
    listedFor (ds ++ ds') a = listedFor ds a + listedFor ds' a := by
  simp [listedFor]

theorem listedFor_perm {ds' : List ForgetData} (perm : ds'.Perm ds) (a : Addr) : listedFor ds' a = listedFor ds a :=
  (perm.map _).sum_eq

theorem target_root (isRoot : d.ino = FUSE_ROOT_ID) : target root c d.ino = c.table root.key := if_pos isRoot

theorem target_other (notRoot : d.ino ≠ FUSE_ROOT_ID) : target root c d.ino = some d.ino := if_neg notRoot

/-- An entry loses what the pairs of its id sum to, if the root takes nothing from it. -/
theorem owed_eq_listedFor (notRoot : a ≠ FUSE_ROOT_ID)
    (other : ∀ d ∈ ds, d.ino = FUSE_ROOT_ID → c.table root.key ≠ some a) : owed root c ds a = listedFor ds a := by
  refine congrArg List.sum (List.map_congr_left fun d mem => ?_)
  by_cases isRoot : d.ino = FUSE_ROOT_ID
  · have apart : d.ino ≠ a := fun same => notRoot (same.symm.trans isRoot)
    rw [share, target_root isRoot, if_neg (other d mem isRoot), if_neg apart]
  · rw [share, target_other isRoot]
    simp

/-- A pair either finds the entry it takes from, or names the root and finds none. -/
theorem holder_cases (root : Inode) (there : d.ino = FUSE_ROOT_ID ∨ c.heap d.ino ≠ none) :
    (d.ino = FUSE_ROOT_ID ∧ c.table root.key = none ∧ holder root c d.ino = some root) ∨
      ∃ a n i, target root c d.ino = some a ∧ c.heap a = some n ∧ holder root c d.ino = some i ∧
        i.key = n.inode.key := by
  by_cases isRoot : d.ino = FUSE_ROOT_ID
  · have held : holder root c d.ino = some root := if_pos isRoot
    cases known : c.table root.key with
    | none => exact .inl ⟨isRoot, rfl, held⟩
    | some a =>
        obtain ⟨n, here, key⟩ := (c.owns root.key a).mp known
        exact .inr ⟨a, n, root, (if_pos isRoot).trans known, here, held, key.symm⟩
  · obtain ⟨n, here⟩ := Option.ne_none_iff_exists'.mp (there.resolve_left isRoot)
    refine .inr ⟨d.ino, n, n.inode, if_neg isRoot, here, ?_, rfl⟩
    rw [holder, if_neg isRoot, here]
    rfl

/-- A pair with an entry finds it. -/
theorem there_of_target (targets : target root c d.ino = some a) (here : c.heap a = some n) :
    d.ino = FUSE_ROOT_ID ∨ c.heap d.ino ≠ none := by
  by_cases isRoot : d.ino = FUSE_ROOT_ID
  · exact .inl isRoot
  · rw [target_other isRoot] at targets
    rw [Option.some.inj targets, here]
    exact .inr (Option.some_ne_none n)

theorem unref_missing (absent : c.table root.key = none) (ntimes : Nat) :
    c.unref root.key ntimes = (.missing root.key, c) := by
  unfold InodeCache.unref
  split
  · rfl
  · next found =>
      rw [InodeCache.find_eq_none_iff.mpr absent] at found
      cases found

theorem share_of_target (h : target root c d.ino = some a) : share root c d = Pi.single a d.nlookup := by
  funext b
  rw [share, h, Pi.single_apply]
  by_cases same : b = a
  · simp [same]
  · simp [same, Ne.symm same]

theorem nlookup_le (within : ¬ Overdraws root c d) (targets : target root c d.ino = some a)
    (here : c.heap a = some n) : d.nlookup ≤ n.refcnt := by
  by_contra more
  exact within ⟨a, n, targets, here, Nat.not_le.mp more⟩

/-- The cache operation takes exactly its number of references. -/
theorem drained_unref (counted : c.Counted) (here : c.heap a = some n) {ntimes : Nat}
    (le : ntimes ≤ n.refcnt) : Drained c (c.unref n.inode.key ntimes).2 (Pi.single a ntimes) := by
  obtain ⟨-, heap⟩ := InodeCache.unref_of_heap here le
  intro b
  rw [heap, Function.update_apply]
  split_ifs with same last
  · subst same
    simp [here, Node.left, last]
  · subst same
    have more : ¬ n.refcnt ≤ ntimes := by omega
    simp [here, Node.left, more]
  · have rest := Drained.refl counted b
    rw [Pi.single_eq_of_ne same]
    exact rest

theorem drained_forgetOne (counted : c.Counted) (there : d.ino = FUSE_ROOT_ID ∨ c.heap d.ino ≠ none)
    (within : ¬ Overdraws root c d) : Drained c (forgetOne root c d) (share root c d) := by
  unfold forgetOne
  obtain ⟨isRoot, absent, held⟩ | ⟨a, n, i, targets, here, held, key⟩ := holder_cases root there
  · have nothing : share root c d = 0 := by
      funext a
      simp [share, target, isRoot, absent]
    rw [held, nothing]
    dsimp only
    rw [unref_missing absent]
    exact .refl counted
  · have enough := nlookup_le within targets here
    rw [share_of_target targets, held]
    dsimp only
    rw [key]
    exact drained_unref counted here enough

/-- As long as an entry is there, the same ids stand for it. -/
theorem target_of_present (drained : Drained c c₁ g) {n₁ : Node} (here : c₁.heap a = some n₁) (ino : Addr) :
    target root c₁ ino = some a ↔ target root c ino = some a := by
  obtain ⟨n, old, -, rfl⟩ := drained.of_present here
  unfold target
  split_ifs
  · rw [c₁.owns, c.owns, here, old]
    simp
  · rfl

theorem share_of_present (drained : Drained c c₁ g) {n₁ : Node} (here : c₁.heap a = some n₁)
    (d : ForgetData) : share root c₁ d a = share root c d a := by
  simp only [share, target_of_present drained here]

theorem owed_of_present (drained : Drained c c₁ g) {n₁ : Node} (here : c₁.heap a = some n₁)
    (ds : List ForgetData) : owed root c₁ ds a = owed root c ds a := by
  simp only [owed, share_of_present drained here]

namespace Measured

theorem perm {ds' : List ForgetData} (measured : Measured root c ds) (perm : ds'.Perm ds) :
    Measured root c ds' :=
  fun a n here before d after split => measured a n here before d after (split.trans perm)

/-- An entry that can answer for all of the list can answer for each pair. -/
theorem of_le (le : ∀ a n, c.heap a = some n → owed root c ds a ≤ n.refcnt) : Measured root c ds := by
  intro a n here before d after perm _
  have enough := le a n here
  rw [← owed_perm perm, owed_append, owed_cons, Pi.add_apply] at enough
  omega

theorem within (measured : Measured root c (d :: ds)) (counted : c.Counted) : ¬ Overdraws root c d := by
  rintro ⟨a, n, targets, here, less⟩
  have enough : owed root c [] a + share root c d a ≤ n.refcnt :=
    measured a n here [] d ds (.refl _) (counted a n here)
  rw [share_of_target targets, Pi.single_eq_same, owed, List.map_nil, List.sum_nil, Nat.zero_add] at enough
  exact absurd less (Nat.not_lt.mpr enough)

/-- What is left of an entry measures up to the rest of the list. -/
theorem tail (measured : Measured root c (d :: ds)) (drained : Drained c c₁ (share root c d)) :
    Measured root c₁ ds := by
  intro a n₁ here before e after perm less
  rw [owed_of_present drained here] at less ⊢
  rw [share_of_present drained here]
  obtain ⟨n, old, some_left, rfl⟩ := drained.of_present here
  change owed root c before a < n.refcnt - share root c d a at less
  have enough := measured a n old (d :: before) e after (perm.cons d)
  rw [owed_cons, Pi.add_apply] at enough
  have enough := enough (by omega)
  change owed root c before a + share root c e a ≤ n.refcnt - share root c d a
  omega

/-- A list that measures up runs into no check. -/
theorem fits (measured : Measured root c ds) (counted : c.Counted) (there : StillThere root c ds) :
    Fits root c ds := by
  induction ds generalizing c with
  | nil => trivial
  | cons d ds ih =>
      have within := measured.within counted
      have first := drained_forgetOne counted there.1 within
      exact ⟨within, ih (measured.tail first) first.counted (there.2 within)⟩

end Measured

theorem StillThere.initial {done rest : List ForgetData} (there : StillThere root c (done ++ rest)) :
    StillThere root c done := by
  induction done generalizing c with
  | nil => trivial
  | cons d done ih => exact ⟨there.1, fun within => ih (there.2 within)⟩

theorem Fits.initial {done rest : List ForgetData} (fits : Fits root c (done ++ rest)) : Fits root c done := by
  induction done generalizing c with
  | nil => trivial
  | cons d done ih => exact ⟨fits.1, ih fits.2⟩

/-- The forgets one by one. -/
theorem drained_foldl (counted : c.Counted) (there : StillThere root c ds) (fits : Fits root c ds) :
    Drained c (ds.foldl (forgetOne root) c) (owed root c ds) := by
  induction ds generalizing c with
  | nil => exact .refl counted
  | cons d ds ih =>
      have first := drained_forgetOne counted there.1 fits.1
      have rest := ih first.counted (there.2 fits.1) fits.2
      exact first.trans rest fun a n₁ here => owed_of_present first here ds

theorem batch_found {i : Inode} (here : c.heap a = some n) (held : holder root c d.ino = some i)
    (key : i.key = n.inode.key) (enough : d.nlookup ≤ n.refcnt) :
    batch root c (d :: ds) = batch root (forgetOne root c d) ds := by
  obtain ⟨dropped, -⟩ := InodeCache.unref_of_heap here enough
  simp only [batch, forgetOne, held, key]
  rw [← Prod.mk.eta (p := c.unref n.inode.key d.nlookup), dropped]

/-- The batch carries out a first part of the list, and stops only at a pair of the root. -/
theorem batch_cases (counted : c.Counted) (there : StillThere root c ds) (fits : Fits root c ds) :
    ∃ done rest, ds = done ++ rest ∧ batch root c ds = done.foldl (forgetOne root) c ∧
      (rest = [] ∨ ∃ d ds', rest = d :: ds' ∧ d.ino = FUSE_ROOT_ID ∧
        (batch root c ds).table root.key = none) := by
  induction ds generalizing c with
  | nil => exact ⟨[], [], rfl, rfl, .inl rfl⟩
  | cons d ds ih =>
      have first := drained_forgetOne counted there.1 fits.1
      obtain ⟨isRoot, absent, held⟩ | ⟨a, n, i, targets, here, held, key⟩ := holder_cases root there.1
      · refine ⟨[], d :: ds, rfl, ?_, .inr ⟨d, ds, rfl, isRoot, ?_⟩⟩
        · simp [batch, held, unref_missing absent]
        · simpa [batch, held, unref_missing absent] using absent
      · have enough := nlookup_le fits.1 targets here
        have step : batch root c (d :: ds) = batch root (forgetOne root c d) ds :=
          batch_found here held key enough
        obtain ⟨done, rest, split, folded, stopped⟩ := ih first.counted (there.2 fits.1) fits.2
        refine ⟨d :: done, rest, ?_, ?_, ?_⟩
        · rw [split]
          rfl
        · rw [step, folded]
          rfl
        · rw [step]
          exact stopped

/-- A batch does not get past a pair of the root once no entry has the root's key. -/
theorem batch_stops {z : ForgetData} (rest : List ForgetData) (isRoot : z.ino = FUSE_ROOT_ID)
    (counted : c.Counted) (there : StillThere root c ds) (fits : Fits root c ds)
    (absent : (ds.foldl (forgetOne root) c).table root.key = none) :
    ∃ done, done <+: ds ∧ batch root c (ds ++ z :: rest) = done.foldl (forgetOne root) c := by
  induction ds generalizing c with
  | nil =>
      have held : holder root c z.ino = some root := if_pos isRoot
      have missing : c.table root.key = none := absent
      exact ⟨[], List.prefix_rfl, by simp [batch, held, unref_missing missing]⟩
  | cons d ds ih =>
      have first := drained_forgetOne counted there.1 fits.1
      obtain ⟨-, missing, held⟩ | ⟨a, n, i, targets, here, held, key⟩ := holder_cases root there.1
      · exact ⟨[], List.nil_prefix, by simp [batch, held, unref_missing missing]⟩
      · have enough := nlookup_le fits.1 targets here
        rw [List.cons_append, batch_found here held key enough]
        obtain ⟨done, before, folded⟩ := ih first.counted (there.2 fits.1) fits.2 absent
        exact ⟨d :: done, List.cons_prefix_cons.mpr ⟨rfl, before⟩, folded⟩

theorem share_le_owed (mem : d ∈ ds) (a : Addr) : share root c d a ≤ owed root c ds a :=
  List.single_le_sum (fun _ _ => Nat.zero_le _) _ (List.mem_map_of_mem mem)

theorem owed_eq_zero (h : ∀ d ∈ ds, share root c d a = 0) : owed root c ds a = 0 := by
  rw [owed, List.sum_eq_zero_iff]
  intro m mapped
  obtain ⟨d, mem, rfl⟩ := List.mem_map.mp mapped
  exact h d mem

theorem present_of_stillThere (counted : c.Counted) (there : StillThere root c ds)
    (fits : Fits root c ds) : ∀ d ∈ ds, d.ino ≠ FUSE_ROOT_ID → ∃ n, c.heap d.ino = some n := by
  induction ds generalizing c with
  | nil =>
      intro d mem
      cases mem
  | cons d ds ih =>
      have first := drained_forgetOne counted there.1 fits.1
      intro e mem notRoot
      rcases List.mem_cons.mp mem with rfl | mem
      · exact Option.ne_none_iff_exists'.mp (there.1.resolve_left notRoot)
      · obtain ⟨n₁, here⟩ := ih first.counted (there.2 fits.1) fits.2 e mem notRoot
        obtain ⟨n, old, -⟩ := first.of_present here
        exact ⟨n, old⟩

/-- A pair finds its entry if the pairs before it have left something. -/
theorem stillThere_of_left (counted : c.Counted)
    (left : ∀ before d after, ds = before ++ d :: after → d.ino ≠ FUSE_ROOT_ID →
      ∃ n, c.heap d.ino = some n ∧ owed root c before d.ino < n.refcnt) : StillThere root c ds := by
  induction ds generalizing c with
  | nil => trivial
  | cons d ds ih =>
      have there : d.ino = FUSE_ROOT_ID ∨ c.heap d.ino ≠ none := by
        by_cases isRoot : d.ino = FUSE_ROOT_ID
        · exact .inl isRoot
        · obtain ⟨n, here, -⟩ := left [] d ds rfl isRoot
          exact .inr (by simp [here])
      refine ⟨there, fun within => ?_⟩
      have first := drained_forgetOne counted there within
      refine ih first.counted ?_
      rintro before e after rfl notRoot
      obtain ⟨n, here, less⟩ := left (d :: before) e after rfl notRoot
      rw [owed_cons, Pi.add_apply] at less
      have more : ¬ n.refcnt ≤ share root c d e.ino := by omega
      have here₁ : (forgetOne root c d).heap e.ino =
          some { n with refcnt := n.refcnt - share root c d e.ino } := by
        rw [first.heap_of_left here, Node.left, if_neg more]
      refine ⟨_, here₁, ?_⟩
      rw [owed_of_present first here₁]
      change owed root c before e.ino < n.refcnt - share root c d e.ino
      omega

/-- Once the entry with the root's key is gone, no other has that key. -/
theorem table_of_drained (drained : Drained c c₁ g) :
    c₁.table root.key = none ↔ ∀ a n, c.table root.key = some a → c.heap a = some n → n.refcnt ≤ g a := by
  constructor
  · intro absent a n known here
    by_contra more
    have left : c₁.heap a = some { n with refcnt := n.refcnt - g a } := by
      rw [drained.heap_of_left here, Node.left, if_neg more]
    obtain ⟨m, here', key⟩ := (c.owns root.key a).mp known
    rw [here] at here'
    cases here'
    have known₁ := (c₁.owns root.key a).mpr ⟨_, left, key⟩
    rw [absent] at known₁
    cases known₁
  · intro drawn
    cases known₁ : c₁.table root.key with
    | none => rfl
    | some a =>
        obtain ⟨n₁, here₁, key⟩ := (c₁.owns root.key a).mp known₁
        obtain ⟨n, here, less, rfl⟩ := drained.of_present here₁
        have known := (c.owns root.key a).mpr ⟨n, here, key⟩
        exact absurd (drawn a n known here) (Nat.not_le.mpr less)

/-- When a batch cannot be cut short to any effect: it has no pair of the root; or all it
takes, it takes from the entry with the root's key, and without a failed check; or that entry
outlives the pairs of the root. -/
def BatchSafe (root : Inode) (c : InodeCache) (ds : List ForgetData) : Prop :=
  (∀ d ∈ ds, d.ino ≠ FUSE_ROOT_ID) ∨
    ((∀ d ∈ ds, d.ino ≠ FUSE_ROOT_ID → c.table root.key ≠ some d.ino → d.nlookup = 0) ∧
      Measured root c ds) ∨
    ∃ a n, c.table root.key = some a ∧ c.heap a = some n ∧ (owed root c ds a < n.refcnt ∨
      owed root c ds a = n.refcnt ∧ ∀ d ∈ ds, d.ino = FUSE_ROOT_ID → d.nlookup ≠ 0)

theorem Covered.perm {ds' : List ForgetData} (covered : Covered c ds) (perm : ds'.Perm ds) : Covered c ds' := by
  intro a n notRoot here
  rw [listedFor_perm perm]
  exact covered a n notRoot here

theorem Covered.owed_le (covered : Covered c ds)
    (other : ∀ d ∈ ds, d.ino = FUSE_ROOT_ID → c.table root.key ≠ some a) (here : c.heap a = some n) :
    owed root c ds a ≤ n.refcnt := by
  by_cases isRoot : a = FUSE_ROOT_ID
  · -- no pair but one of the root has this id, and those take from elsewhere
    have nothing : owed root c ds a = 0 := by
      refine owed_eq_zero fun d mem => ?_
      by_cases isRoot' : d.ino = FUSE_ROOT_ID
      · rw [share, target_root isRoot', if_neg (other d mem isRoot')]
      · have apart : some d.ino ≠ some a := fun same => isRoot' ((Option.some.inj same).trans isRoot)
        rw [share, target_other isRoot', if_neg apart]
    omega
  · rw [owed_eq_listedFor isRoot other]
    exact covered a n isRoot here

theorem BatchSafe.measured (safe : BatchSafe root c ds) (covered : Covered c ds) : Measured root c ds := by
  rcases safe with rootless | ⟨-, measured⟩ | ⟨b, m, known, here', total⟩
  · exact .of_le fun a n here => covered.owed_le (fun d mem isRoot => absurd isRoot (rootless d mem)) here
  · exact measured
  · refine .of_le fun a n here => ?_
    by_cases same : c.table root.key = some a
    · rw [known] at same
      cases same
      rw [here'] at here
      cases here
      rcases total with less | ⟨total, -⟩
      · exact less.le
      · exact total.le
    · exact covered.owed_le (fun _ _ _ => same) here

/-- A part of the list that is left over takes nothing that is still there. -/
theorem BatchSafe.rest_takes_nothing {done rest : List ForgetData} (safe : BatchSafe root c (done ++ d :: rest))
    (isRoot : d.ino = FUSE_ROOT_ID)
    (drawn : ∀ a n, c.table root.key = some a → c.heap a = some n → n.refcnt ≤ owed root c done a)
    (here : c.heap a = some n) : n.left (owed root c done a) = n.left (owed root c (done ++ d :: rest) a) := by
  have mem : d ∈ done ++ d :: rest := List.mem_append_right _ List.mem_cons_self
  rcases safe with rootless | ⟨others, -⟩ | ⟨b, m, known, here', outlives⟩
  · exact absurd isRoot (rootless d mem)
  · by_cases known : c.table root.key = some a
    · have gone := drawn a n known here
      have gone' : n.refcnt ≤ owed root c (done ++ d :: rest) a := by
        rw [owed_append]
        omega
      rw [Node.left, Node.left, if_pos gone, if_pos gone']
    · have nothing : owed root c (d :: rest) a = 0 := by
        refine owed_eq_zero fun e mem => ?_
        rw [share]
        split
        · next targets =>
            have notRoot : e.ino ≠ FUSE_ROOT_ID := by
              intro isRoot'
              rw [target_root isRoot'] at targets
              exact known targets
            rw [target_other notRoot] at targets
            refine others e (List.mem_append_right _ mem) notRoot ?_
            rw [Option.some.inj targets]
            exact known
        · rfl
      rw [owed_append, nothing, Nat.add_zero]
  · have gone := drawn b m known here'
    rw [owed_append, owed_cons, Pi.add_apply] at outlives
    rcases outlives with less | ⟨total, positive⟩
    · omega
    · have some_taken := positive d mem isRoot
      have taken : share root c d b = d.nlookup := by
        rw [share, target_root isRoot, if_pos known]
      omega

theorem BatchSafe.batch_eq (safe : BatchSafe root c ds) (counted : c.Counted) (there : StillThere root c ds)
    (fits : Fits root c ds) : batch root c ds = ds.foldl (forgetOne root) c := by
  obtain ⟨done, rest, rfl, folded, whole | ⟨d, ds', rfl, isRoot, absent⟩⟩ := batch_cases counted there fits
  · subst whole
    simpa using folded
  · have drained := drained_foldl counted there.initial fits.initial
    rw [folded] at absent ⊢
    have drawn := (table_of_drained drained).mp absent
    refine (drained.congr fun a n here => ?_).unique (drained_foldl counted there fits)
    exact safe.rest_takes_nothing isRoot drawn here

theorem BatchSafe.perm {ds' : List ForgetData} (safe : BatchSafe root c ds) (perm : ds'.Perm ds) :
    BatchSafe root c ds' := by
  have measured : Measured root c ds → Measured root c ds' := fun measured => measured.perm perm
  unfold BatchSafe at safe ⊢
  simp only [perm.mem_iff, owed_perm perm]
  rcases safe with rootless | ⟨others, within⟩ | outlives
  · exact .inl rootless
  · exact .inr (.inl ⟨others, measured within⟩)
  · exact .inr (.inr outlives)

/-- Pairs of one entry that leave some of its count, and one that then asks for more. -/
theorem overdrawn_of_target {before : List ForgetData} (counted : c.Counted)
    (targets : ∀ e ∈ before, target root c e.ino = some a) (last : target root c d.ino = some a)
    (here : c.heap a = some n) (less : owed root c before a < n.refcnt)
    (more : n.refcnt < owed root c before a + share root c d a) (after : List ForgetData) :
    StillThere root c (before ++ d :: after) ∧ ¬ Fits root c (before ++ d :: after) := by
  induction before generalizing c n with
  | nil =>
      have exceeds : Overdraws root c d := by
        rw [share_of_target last, Pi.single_eq_same, owed, List.map_nil, List.sum_nil, Nat.zero_add] at more
        exact ⟨a, n, last, here, more⟩
      exact ⟨⟨there_of_target last here, fun within => absurd exceeds within⟩, fun fits => fits.1 exceeds⟩
  | cons e before ih =>
      have first_target := targets e List.mem_cons_self
      have there := there_of_target first_target here
      rw [owed_cons, Pi.add_apply] at less more
      have within : ¬ Overdraws root c e := by
        rintro ⟨b, m, targets', here', exceeds⟩
        rw [first_target] at targets'
        cases targets'
        rw [here] at here'
        cases here'
        rw [share_of_target first_target, Pi.single_eq_same] at less
        omega
      have drained := drained_forgetOne counted there within
      have rest : ¬ n.refcnt ≤ share root c e a := by omega
      have here₁ : (forgetOne root c e).heap a = some { n with refcnt := n.refcnt - share root c e a } := by
        rw [drained.heap_of_left here, Node.left, if_neg rest]
      obtain ⟨there₁, exceeds₁⟩ := ih drained.counted
        (fun e' mem => (target_of_present drained here₁ e'.ino).mpr (targets e' (List.mem_cons_of_mem e mem)))
        ((target_of_present drained here₁ d.ino).mpr last) here₁
        (by
          rw [owed_of_present drained here₁]
          change owed root c before a < n.refcnt - share root c e a
          omega)
        (by
          rw [owed_of_present drained here₁, share_of_present drained here₁]
          change n.refcnt - share root c e a < owed root c before a + share root c d a
          omega)
      exact ⟨⟨there, fun _ => there₁⟩, fun fits => exceeds₁ fits.2⟩

/-- A list that runs into no check in any order measures up. -/
theorem measured_of_fits (counted : c.Counted)
    (fits : ∀ ds' : List ForgetData, ds'.Perm ds → StillThere root c ds' → Fits root c ds') :
    Measured root c ds := by
  intro a n here before d after perm less
  by_contra more
  -- the pairs before it that take from this entry, alone
  let takes : ForgetData → Bool := fun e => target root c e.ino = some a
  have split := List.filter_append_perm takes before
  have rest : owed root c (before.filter (!takes ·)) a = 0 := by
    refine owed_eq_zero fun e mem => ?_
    have other : target root c e.ino ≠ some a := by
      simpa [takes] using (List.mem_filter.mp mem).2
    rw [share, if_neg other]
  have same : owed root c (before.filter takes) a = owed root c before a := by
    rw [← owed_perm split, owed_append, rest, Nat.add_zero]
  have last : target root c d.ino = some a := by
    by_contra other
    rw [share, if_neg other] at more
    omega
  have targets : ∀ e ∈ before.filter takes, target root c e.ino = some a := by
    intro e mem
    simpa [takes] using (List.mem_filter.mp mem).2
  obtain ⟨there, exceeds⟩ := overdrawn_of_target counted targets last here (by rwa [same])
    (by rw [same]; omega) (before.filter (!takes ·) ++ after)
  refine exceeds (fits _ ?_ there)
  refine List.Perm.trans ?_ perm
  refine List.Perm.trans ?_ (split.append_right _)
  rw [List.append_assoc]
  exact List.Perm.append_left _ List.perm_middle.symm

/-- The pairs that take nothing, those that name the entry with the root's key, those of the
root, and the rest. -/
theorem exists_order (root : Inode) (c : InodeCache) (ds : List ForgetData) :
    ∃ idle named roots others : List ForgetData, (idle ++ (named ++ (roots ++ others))).Perm ds ∧
      (∀ d ∈ idle, d.ino ≠ FUSE_ROOT_ID ∧ d.nlookup = 0) ∧
      (∀ d ∈ named, d.ino ≠ FUSE_ROOT_ID ∧ c.table root.key = some d.ino ∧ d.nlookup ≠ 0) ∧
      (∀ d ∈ roots, d.ino = FUSE_ROOT_ID) ∧
      ∀ d ∈ others, d.nlookup ≠ 0 ∧ d.ino ≠ FUSE_ROOT_ID ∧ c.table root.key ≠ some d.ino := by
  let isIdle : ForgetData → Bool := fun d => d.ino ≠ FUSE_ROOT_ID ∧ d.nlookup = 0
  let isNamed : ForgetData → Bool := fun d => d.ino ≠ FUSE_ROOT_ID ∧ c.table root.key = some d.ino
  let isRoot : ForgetData → Bool := fun d => d.ino = FUSE_ROOT_ID
  refine ⟨ds.filter isIdle, (ds.filter (!isIdle ·)).filter isNamed,
    ((ds.filter (!isIdle ·)).filter (!isNamed ·)).filter isRoot,
    ((ds.filter (!isIdle ·)).filter (!isNamed ·)).filter (!isRoot ·), ?_, ?_, ?_, ?_, ?_⟩
  · have three := List.filter_append_perm isRoot ((ds.filter (!isIdle ·)).filter (!isNamed ·))
    have two := List.filter_append_perm isNamed (ds.filter (!isIdle ·))
    have one := List.filter_append_perm isIdle ds
    exact (((three.append_left _).trans two).append_left _).trans one
  · intro d mem
    simpa [isIdle] using (List.mem_filter.mp mem).2
  · intro d mem
    simp only [List.mem_filter, isNamed, isIdle, Bool.not_eq_true', decide_eq_false_iff_not,
      decide_eq_true_eq] at mem
    obtain ⟨⟨-, notIdle⟩, notRoot, known⟩ := mem
    exact ⟨notRoot, known, fun nothing => notIdle ⟨notRoot, nothing⟩⟩
  · intro d mem
    simpa [isRoot] using (List.mem_filter.mp mem).2
  · intro d mem
    simp only [List.mem_filter, isRoot, isNamed, isIdle, Bool.not_eq_true', decide_eq_false_iff_not] at mem
    obtain ⟨⟨⟨-, notIdle⟩, notNamed⟩, notRoot⟩ := mem
    exact ⟨fun nothing => notIdle ⟨notRoot, nothing⟩, notRoot, fun known => notNamed ⟨notRoot, known⟩⟩

theorem mem_front_of_split {front back before after : List ForgetData}
    (split : front ++ back = before ++ d :: after) (notBack : d ∉ back) {e : ForgetData} (mem : e ∈ before) :
    e ∈ front := by
  rcases List.append_eq_append_iff.mp split with ⟨more, rfl, split'⟩ | ⟨more, rfl, split'⟩
  · rw [split'] at notBack
    exact absurd (List.mem_append_right _ List.mem_cons_self) notBack
  · exact List.mem_append_left _ mem

/-- In that order every pair finds its entry. -/
theorem stillThere_of_order {idle named back : List ForgetData} (counted : c.Counted)
    (covered : Covered c (idle ++ (named ++ back)))
    (isIdle : ∀ d ∈ idle, d.ino ≠ FUSE_ROOT_ID ∧ d.nlookup = 0)
    (isNamed : ∀ d ∈ named, d.ino ≠ FUSE_ROOT_ID ∧ c.table root.key = some d.ino ∧ d.nlookup ≠ 0)
    (isBack : ∀ d ∈ back, d.ino = FUSE_ROOT_ID ∨ d.nlookup ≠ 0 ∧ c.table root.key ≠ some d.ino)
    (present : ∀ d ∈ idle ++ (named ++ back), d.ino ≠ FUSE_ROOT_ID → ∃ n, c.heap d.ino = some n) :
    StillThere root c (idle ++ (named ++ back)) := by
  refine stillThere_of_left counted fun before d after split notRoot => ?_
  have mem : d ∈ idle ++ (named ++ back) := by
    rw [split]
    exact List.mem_append_right _ List.mem_cons_self
  obtain ⟨n, here⟩ := present d mem notRoot
  refine ⟨n, here, ?_⟩
  by_cases zero : d.nlookup = 0
  · -- such a pair has only its like before it
    have notLater : d ∉ named ++ back := by
      intro mem
      rcases List.mem_append.mp mem with mem | mem
      · exact (isNamed d mem).2.2 zero
      · exact (isBack d mem).elim notRoot fun takes => takes.1 zero
    have nothing : owed root c before d.ino = 0 := by
      refine owed_eq_zero fun e mem => ?_
      simp [share, (isIdle e (mem_front_of_split split notLater mem)).2]
    rw [nothing]
    exact counted _ n here
  · have rootless : ∀ e ∈ before, e.ino = FUSE_ROOT_ID → c.table root.key ≠ some d.ino := by
      intro e mem isRoot known
      have notLater : d ∉ back := fun mem =>
        (isBack d mem).elim notRoot fun other => other.2 known
      rw [← List.append_assoc] at split
      rcases List.mem_append.mp (mem_front_of_split split notLater mem) with mem | mem
      · exact (isIdle e mem).1 isRoot
      · exact (isNamed e mem).1 isRoot
    have enough := covered d.ino n notRoot here
    rw [split, listedFor_append, ← owed_eq_listedFor notRoot rootless] at enough
    have own : d.nlookup ≤ listedFor (d :: after) d.ino := by
      simp [listedFor]
    omega

theorem batchSafe_of_alike (counted : c.Counted) (there : StillThere root c ds) (covered : Covered c ds)
    (alike : ∀ ds' : List ForgetData, ds'.Perm ds → StillThere root c ds' →
      Fits root c ds' ∧ batch root c ds' = ds.foldl (forgetOne root) c) : BatchSafe root c ds := by
  have measured : Measured root c ds := measured_of_fits counted fun ds' perm there' => (alike ds' perm there').1
  have fits := measured.fits counted there
  by_contra cut
  simp only [BatchSafe, not_or, not_forall, not_exists, not_and] at cut
  obtain ⟨⟨r, rMem, rRoot⟩, others_take, spent⟩ := cut
  rw [not_not] at rRoot
  obtain ⟨e, eMem, eOther, eKey, eTakes⟩ : ∃ e ∈ ds, e.ino ≠ FUSE_ROOT_ID ∧ c.table root.key ≠ some e.ino ∧
      e.nlookup ≠ 0 := by
    by_contra none
    exact others_take (fun d mem notRoot other => by_contra fun takes => none ⟨d, mem, notRoot, other, takes⟩)
      measured
  -- a pair of the root that meets no entry once all other pairs of it are carried out
  obtain ⟨z, zMem, zRoot, zLast⟩ : ∃ z ∈ ds, z.ino = FUSE_ROOT_ID ∧ ∀ a n, c.table root.key = some a →
      c.heap a = some n → owed root c ds a = n.refcnt → z.nlookup = 0 := by
    cases known : c.table root.key with
    | none =>
        refine ⟨r, rMem, rRoot, fun a n impossible => ?_⟩
        cases impossible
    | some a =>
        obtain ⟨n, here, -⟩ := (c.owns root.key a).mp known
        by_cases total : owed root c ds a = n.refcnt
        · obtain ⟨z, zMem, zRoot, zero⟩ := (spent a n known here).2 total
          rw [not_not] at zero
          exact ⟨z, zMem, zRoot, fun _ _ _ _ _ => zero⟩
        · refine ⟨r, rMem, rRoot, fun a' n' same here' total' => ?_⟩
          cases same
          rw [here] at here'
          cases here'
          exact absurd total' total
  obtain ⟨idle, named, roots, others, perm, isIdle, isNamed, isRoot, isOther⟩ := exists_order root c (ds.erase z)
  -- the pair comes after all pairs that take from the entry with the root's key
  have perm : (idle ++ (named ++ (roots ++ z :: others))).Perm ds := by
    refine List.Perm.trans ?_ (List.perm_cons_erase zMem).symm
    refine List.Perm.trans ?_ (perm.cons z)
    simp only [← List.append_assoc]
    exact List.perm_middle
  have there' : StillThere root c (idle ++ (named ++ (roots ++ z :: others))) := by
    refine stillThere_of_order counted (covered.perm perm) isIdle isNamed ?_ ?_
    · intro d mem
      rcases List.mem_append.mp mem with mem | mem
      · exact .inl (isRoot d mem)
      · rcases List.mem_cons.mp mem with rfl | mem
        · exact .inl zRoot
        · exact .inr ⟨(isOther d mem).1, (isOther d mem).2.2⟩
    · intro d mem notRoot
      exact present_of_stillThere counted there fits d (perm.mem_iff.mp mem) notRoot
  have fits' := (measured.perm perm).fits counted there'
  have whole := (alike _ perm there').2
  have assoc : idle ++ (named ++ (roots ++ z :: others)) = (idle ++ (named ++ roots)) ++ z :: others := by
    simp only [List.append_assoc]
  rw [assoc] at there' fits' whole perm
  have drained := drained_foldl counted there'.initial fits'.initial
  have absent : ((idle ++ (named ++ roots)).foldl (forgetOne root) c).table root.key = none := by
    rw [table_of_drained drained]
    intro a n known here
    by_contra more
    have enough := measured a n here _ z others perm (Nat.not_le.mp more)
    have rest : owed root c others a = 0 := by
      refine owed_eq_zero fun d mem => ?_
      obtain ⟨-, notRoot, other⟩ := isOther d mem
      have apart : d.ino ≠ a := by
        rintro rfl
        exact other known
      simp [share, target_other notRoot, apart]
    have total : owed root c ds a = owed root c (idle ++ (named ++ roots)) a + share root c z a := by
      rw [← owed_perm perm, owed_append, owed_cons, Pi.add_apply, rest, Nat.add_zero]
    have spent := (spent a n known here).1
    have zero := zLast a n known here (by omega)
    have nothing : share root c z a = 0 := by simp [share, zero]
    omega
  obtain ⟨done, done_le, folded⟩ := batch_stops others zRoot counted there'.initial fits'.initial absent
  rw [folded] at whole
  obtain ⟨n, here⟩ := present_of_stillThere counted there fits e eMem eOther
  have taken : owed root c done e.ino = 0 := by
    refine owed_eq_zero fun d mem => ?_
    have mem := done_le.subset mem
    simp only [List.mem_append] at mem
    rcases mem with mem | mem | mem
    · simp [share, (isIdle d mem).2]
    · obtain ⟨notRoot, known, -⟩ := isNamed d mem
      have apart : d.ino ≠ e.ino := by
        intro same
        rw [same] at known
        exact eKey known
      simp [share, target_other notRoot, apart]
    · simp [share, target_root (isRoot d mem), eKey]
  have takes : share root c e e.ino ≤ owed root c ds e.ino := share_le_owed eMem e.ino
  rw [share, target_other eOther, if_pos rfl] at takes
  obtain ⟨rest, split⟩ := done_le
  rw [← split] at there' fits'
  have fromDone := (drained_foldl counted there'.initial.initial fits'.initial.initial).heap_of_left here
  have fromAll := (drained_foldl counted there fits).heap_of_left here
  rw [← whole, fromDone, taken] at fromAll
  exact eTakes (Nat.le_zero.mp (takes.trans (Node.eq_zero_of_left (counted _ n here) fromAll.symm).le))

theorem batchSafe_iff (counted : c.Counted) (there : StillThere root c ds) (covered : Covered c ds) :
    (∀ ds' : List ForgetData, ds'.Perm ds → StillThere root c ds' → Fits root c ds' ∧
      batch root c ds' = ds.foldl (forgetOne root) c ∧
        ds'.foldl (forgetOne root) c = ds.foldl (forgetOne root) c) ↔ BatchSafe root c ds := by
  constructor
  · intro alike
    refine batchSafe_of_alike counted there covered fun ds' perm there' => ?_
    obtain ⟨fits, same, -⟩ := alike ds' perm there'
    exact ⟨fits, same⟩
  · intro safe ds' perm there'
    have measured := safe.measured covered
    have fits' := (measured.perm perm).fits counted there'
    have same : ds'.foldl (forgetOne root) c = ds.foldl (forgetOne root) c := by
      have drained := drained_foldl counted there' fits'
      rw [owed_perm perm] at drained
      exact drained.unique (drained_foldl counted there (measured.fits counted there))
    exact ⟨fits', ((safe.perm perm).batch_eq counted there' fits').trans same, same⟩

end Cache

/-- One thread has the cache to itself, and no check fails. -/
def solo (counts : String → Bool) : Discipline calls World where
  allows _ c := ∀ site, c ≠ .abort site
  answers := World.Answers
  after w c r := w.effect counts c r

/-- The pairs of a list as requests of their own. -/
def forgetEach (fs : PageAlignFS) (req : FuseReq) : List ForgetData → Handler
  | [] => pure ()
  | d :: ds => do
      let _ ← (getFuseForgetOp fs.platform (some fs) req (fun _ => PageAlignFS.forget) d.ino d.nlookup).attempt
      forgetEach fs req ds

/-- The handler comes to an end with this cache; after a failed check there is none. -/
def Leaves (counts : String → Bool) (w : World) (m : Handler) (c' : InodeCache) : Prop :=
  ∀ s, Routine.Follows (solo counts) m s w fun _ _ w' => w'.inodes = c'

/-- The batch and the single forgets, in any order in which each pair finds its entry, leave
the same cache. -/
def ForgetsAlike (fs : PageAlignFS) (counts : String → Bool) (req : FuseReq) (w : World)
    (ds : List ForgetData) : Prop :=
  ∃ c', Leaves counts w (forgetEach fs req ds) c' ∧
    ∀ ds' : List ForgetData, ds'.Perm ds → StillThere w.root w.inodes ds' →
      (∃ handler, fs.serve req (.forgetMulti ds') = some handler ∧ Leaves counts w handler c') ∧
        Leaves counts w (forgetEach fs req ds') c'

namespace Solo
open Routine (Follows)

variable {fs : PageAlignFS} {counts : String → Bool} {req : FuseReq} {w : World} {σ : Type} {s : σ}
  {r : InodeRef} {i : Inode} {site : UnrefSite} {ntimes : Nat} {ds : List ForgetData}
  {Q : InodeCache → Prop}

theorem inodeAt_getInode (w : World) (ino : Addr) :
    w.inodeAt (getInode ino) = holder w.root w.inodes ino := by
  unfold getInode holder
  split_ifs <;> rfl

theorem effect_unref (counts : String → Bool) (site : UnrefSite) (ntimes : Nat) (here : w.inodeAt r = some i)
    (answer : Unrefed) :
    (w.effect counts (.unref site r ntimes) answer).root = w.root ∧
      (w.effect counts (.unref site r ntimes) answer).inodes = (w.inodes.unref i.key ntimes).2 := by
  have unref : (w.unref r ntimes answer).root = w.root ∧
      (w.unref r ntimes answer).inodes = (w.inodes.unref i.key ntimes).2 := by
    unfold World.unref
    rw [here]
    unfold World.takeErased
    dsimp only
    split <;> exact ⟨rfl, rfl⟩
  cases site with
  | cleanup => exact unref
  | forget => cases r <;> exact unref

/-- The destructor changes neither the root nor the cache. -/
theorem follows_destroy {R : Status → σ → World → Prop} {T : Prop} {i' : Inode}
    (same : ∀ w₁, w₁.root = w.root → w₁.inodes = w.inodes → (R (.ok ()) s w₁ ↔ T)) :
    Follows (solo counts) i'.destroy s w R ↔ T := by
  have closes : Follows (solo counts) (FileDescriptor.destroy i'.fd) s w R ↔ T := by
    rw [follows_closeFd]
    constructor
    · intro follows
      exact (same (w.own i'.fd none) rfl rfl).mp (follows.2 (.ok ()) trivial)
    · intro t
      refine ⟨(by intro site h; cases h), fun rc _ => ?_⟩
      exact (same (w.own i'.fd none) rfl rfl).mpr t
  unfold Inode.destroy
  cases i'.pollHandle with
  | none => exact closes
  | some ph =>
      rw [Routine.follows_bind, Routine.follows_invoke]
      constructor
      · intro follows
        exact closes.mp (follows.2 () trivial)
      · intro t
        exact ⟨(by intro site h; cases h), fun _ _ => closes.mpr t⟩

theorem follows_unref (counts : String → Bool) (site : UnrefSite) (ntimes : Nat)
    (R : Status → σ → World → Prop) (here : w.inodeAt r = some i) :
    ∃ w₁ : World, w₁.root = w.root ∧ w₁.inodes = (w.inodes.unref i.key ntimes).2 ∧
      (Follows (solo counts) (Inodes.unref site r ntimes) s w R ↔
        Follows (solo counts) (w.inodes.unref i.key ntimes).1.settle s w₁ R) := by
  have known : ∀ answer : Unrefed, (solo counts).answers w (.unref site r ntimes) answer ↔
      answer = (w.inodes.unref i.key ntimes).1 := by
    intro answer
    change w.Reads r _ answer ↔ _
    rw [World.Reads, here]
  obtain ⟨root, inodes⟩ := effect_unref counts site ntimes here (w.inodes.unref i.key ntimes).1
  refine ⟨_, root, inodes, ?_⟩
  exact Routine.follows_invoke_known (by intro site h; cases h) known

/-- `Unref` without an entry fails and leaves the cache as it was. -/
theorem follows_unref_missing {R : Status → σ → World → Prop} {T : Prop} {k : Key}
    (here : w.inodeAt r = some i) (missing : w.inodes.unref i.key ntimes = (.missing k, w.inodes))
    (fails : ∀ e w₁, w₁.root = w.root → w₁.inodes = w.inodes → (R (.error e) s w₁ ↔ T)) :
    Follows (solo counts) (Inodes.unref site r ntimes) s w R ↔ T := by
  obtain ⟨w₁, root, inodes, step⟩ := follows_unref (s := s) counts site ntimes R here
  rw [step, missing]
  rw [missing] at inodes
  exact fails _ _ root inodes

theorem follows_unref_found {R : Status → σ → World → Prop} {T : Prop} {erased : Option Inode}
    (here : w.inodeAt r = some i) (found : (w.inodes.unref i.key ntimes).1 = .dropped erased)
    (returns : ∀ w₁, w₁.root = w.root → w₁.inodes = (w.inodes.unref i.key ntimes).2 →
      (R (.ok ()) s w₁ ↔ T)) :
    Follows (solo counts) (Inodes.unref site r ntimes) s w R ↔ T := by
  obtain ⟨w₁, root, inodes, step⟩ := follows_unref (s := s) counts site ntimes R here
  rw [step, found]
  cases erased with
  | none => exact returns _ root inodes
  | some i' =>
      refine follows_destroy fun w₂ root₂ inodes₂ => ?_
      exact returns _ (root₂.trans root) (inodes₂.trans inodes)

/-- `Unref` by a pair of a list, once the pairs before it were carried out. -/
theorem follows_unref_pair {R : Status → σ → World → Prop} {T : Prop} {d : ForgetData}
    (within : ¬ Overdraws w.root w.inodes d) (there : d.ino = FUSE_ROOT_ID ∨ w.inodes.heap d.ino ≠ none)
    (ends : ∀ st w₁, w₁.root = w.root → w₁.inodes = forgetOne w.root w.inodes d → (R st s w₁ ↔ T)) :
    Follows (solo counts) (Inodes.unref .forget (getInode d.ino) d.nlookup) s w R ↔ T := by
  obtain ⟨-, absent, held⟩ | ⟨a, n, i, targets, here, held, key⟩ := holder_cases w.root there
  · have missing := unref_missing absent d.nlookup
    have same : w.inodes = forgetOne w.root w.inodes d := by
      rw [forgetOne, held]
      exact (congrArg Prod.snd missing).symm
    refine follows_unref_missing ((inodeAt_getInode w d.ino).trans held) missing fun e w₁ root inodes => ?_
    exact ends _ _ root (inodes.trans same)
  · have dropped := InodeCache.unref_of_heap here (nlookup_le within targets here)
    rw [← key] at dropped
    refine follows_unref_found ((inodeAt_getInode w d.ino).trans held) dropped.1 fun w₁ root inodes => ?_
    refine ends _ _ root (inodes.trans ?_)
    rw [forgetOne, held]

/-- A pair that asks for too much does not come back from `Unref`. -/
theorem follows_unref_overdrawn {R : Status → σ → World → Prop} {d : ForgetData}
    (beyond : Overdraws w.root w.inodes d) :
    ¬ Follows (solo counts) (Inodes.unref .forget (getInode d.ino) d.nlookup) s w R := by
  obtain ⟨a, n, targets, here, less⟩ := beyond
  obtain ⟨isRoot, absent, -⟩ | ⟨b, m, i, targets', here', held, key⟩ :=
    holder_cases w.root (there_of_target targets here)
  · rw [target_root isRoot, absent] at targets
    cases targets
  · rw [targets] at targets'
    cases targets'
    rw [here] at here'
    cases here'
    have stops := InodeCache.unref_of_less here less
    rw [← key] at stops
    obtain ⟨w₁, -, -, step⟩ := follows_unref (s := s) counts .forget d.nlookup R
      ((inodeAt_getInode w d.ino).trans held)
    rw [step, stops, Unrefed.settle, follows_check]
    intro follows
    exact follows.2 rfl .unrefCount rfl

theorem follows_forgetMulti {R : Status → FuseRequest → World → Prop} {s : FuseRequest}
    (finishes : ∀ st w₁, R st s w₁ ↔ Q w₁.inodes) (counted : w.inodes.Counted)
    (there : StillThere w.root w.inodes ds) (fits : Fits w.root w.inodes ds) :
    Follows (solo counts) (PageAlignFS.forgetMulti ds) s w R ↔ Q (batch w.root w.inodes ds) := by
  induction ds generalizing w with
  | nil => exact finishes _ _
  | cons d ds ih =>
      have first := drained_forgetOne counted there.1 fits.1
      rw [PageAlignFS.forgetMulti, Routine.follows_bind]
      obtain ⟨-, absent, held⟩ | ⟨a, n, i, targets, here, held, key⟩ := holder_cases w.root there.1
      · -- the batch returns early
        have missing := unref_missing absent d.nlookup
        have stop : batch w.root w.inodes (d :: ds) = w.inodes := by
          simp [batch, held, missing]
        rw [stop]
        refine follows_unref_missing ((inodeAt_getInode w d.ino).trans held) missing fun e w₁ _ inodes => ?_
        rw [← inodes]
        exact finishes _ _
      · have enough := nlookup_le fits.1 targets here
        have dropped := InodeCache.unref_of_heap here enough
        rw [← key] at dropped
        rw [batch_found here held key enough]
        refine follows_unref_found ((inodeAt_getInode w d.ino).trans held) dropped.1 fun w₁ root inodes => ?_
        have inodes₁ : w₁.inodes = forgetOne w.root w.inodes d := by
          rw [inodes, forgetOne, held]
        rw [← inodes₁, ← root]
        refine ih ?_ ?_ ?_
        · rw [inodes₁]
          exact first.counted
        · rw [root, inodes₁]
          exact there.2 fits.1
        · rw [root, inodes₁]
          exact fits.2

/-- The epilogue of a forget replies nothing. -/
theorem follows_replyNone {R : Status → FuseRequest → World → Prop} {T : Prop} {status : Status}
    (same : ∀ st s w₁, w₁.root = w.root → w₁.inodes = w.inodes → (R st s w₁ ↔ T)) :
    Follows (solo counts) (epilogue fs.platform .replyNone status) ⟨some req⟩ w R ↔ T := by
  have replied : ∀ rc, (w.effect counts (.fuseReply req .nothing) rc).root = w.root ∧
      (w.effect counts (.fuseReply req .nothing) rc).inodes = w.inodes := by
    intro rc
    cases rc <;> exact ⟨rfl, rfl⟩
  constructor
  · intro follows
    have last := follows.2 none trivial
    exact (same _ _ _ (replied none).1 (replied none).2).mp last
  · intro t
    refine ⟨(by intro site h; cases h), fun rc _ => ?_⟩
    exact (same _ _ _ (replied rc).1 (replied rc).2).mpr t

/-- One forget: what follows goes on from the cache it leaves, whether or not it failed; a
failed check ends all. -/
theorem follows_forget {R : Status → FuseRequest → World → Prop} {T : Prop} {d : ForgetData} {s : FuseRequest}
    (there : d.ino = FUSE_ROOT_ID ∨ w.inodes.heap d.ino ≠ none)
    (ends : ∀ st s' w₁, w₁.root = w.root → w₁.inodes = forgetOne w.root w.inodes d → (R st s' w₁ ↔ T)) :
    Follows (solo counts)
      (getFuseForgetOp fs.platform (some fs) req (fun _ => PageAlignFS.forget) d.ino d.nlookup) s w R ↔
        ¬ Overdraws w.root w.inodes d ∧ T := by
  have unref : Follows (solo counts) (Inodes.unref .forget (getInode d.ino) d.nlookup) ⟨some req⟩ w
      (fun st s' w' => Follows (solo counts) (epilogue fs.platform .replyNone st) s' w' R) ↔
        ¬ Overdraws w.root w.inodes d ∧ T := by
    by_cases beyond : Overdraws w.root w.inodes d
    · exact iff_of_false (follows_unref_overdrawn beyond) fun both => both.1 beyond
    · rw [and_iff_right beyond]
      refine follows_unref_pair beyond there fun st w₁ root inodes => ?_
      refine follows_replyNone fun st' s' w₂ root₂ inodes₂ => ?_
      exact ends _ _ _ (root₂.trans root) (inodes₂.trans inodes)
  rw [getFuseForgetOp, follows_callback, PageAlignFS.forget, Routine.follows_bind, Routine.follows_invoke]
  constructor
  · intro follows
    exact unref.mp (follows.2 () trivial)
  · intro t
    exact ⟨(by intro site h; cases h), fun _ _ => unref.mpr t⟩

theorem follows_forgetEach {s : FuseRequest} (counted : w.inodes.Counted)
    (there : StillThere w.root w.inodes ds) :
    Follows (solo counts) (forgetEach fs req ds) s w (fun _ _ w' => Q w'.inodes) ↔
      Fits w.root w.inodes ds ∧ Q (ds.foldl (forgetOne w.root) w.inodes) := by
  induction ds generalizing w s with
  | nil => exact (and_iff_right trivial).symm
  | cons d ds ih =>
      rw [forgetEach, Routine.follows_bind, Routine.follows_attempt, List.foldl_cons, Fits, and_assoc]
      by_cases beyond : Overdraws w.root w.inodes d
      · refine iff_of_false (fun follows => ?_) fun all => all.1 beyond
        have returns : Follows (solo counts) _ s w fun _ _ _ => True := follows.mono fun _ _ _ _ => trivial
        exact ((follows_forget (T := True) there.1 fun _ _ _ _ _ => Iff.rfl).mp returns).1 beyond
      · have first := drained_forgetOne counted there.1 beyond
        refine follows_forget there.1 fun st s' w₁ root inodes => ?_
        rw [← inodes, ← root]
        refine ih ?_ ?_
        · rw [inodes]
          exact first.counted
        · rw [root, inodes]
          exact there.2 beyond

theorem leaves_forgetMulti {c' : InodeCache} (counted : w.inodes.Counted)
    (there : StillThere w.root w.inodes ds) (fits : Fits w.root w.inodes ds) :
    (∃ handler, fs.serve req (.forgetMulti ds) = some handler ∧ Leaves counts w handler c') ↔
      batch w.root w.inodes ds = c' := by
  have spec : ∀ s, Follows (solo counts)
      (callback fs.platform (some fs) req .replyNone fun _ => PageAlignFS.forgetMulti ds) s w
      (fun _ _ w' => w'.inodes = c') ↔ batch w.root w.inodes ds = c' := by
    intro s
    rw [follows_callback]
    refine follows_forgetMulti (Q := fun inodes => inodes = c') (fun st w₁ => ?_) counted there fits
    exact follows_replyNone fun _ _ w₂ _ inodes => by rw [inodes]
  constructor
  · rintro ⟨handler, served, leaves⟩
    cases served
    exact (spec ⟨none⟩).mp (leaves _)
  · intro same
    exact ⟨_, rfl, fun s => (spec s).mpr same⟩

theorem leaves_forgetEach {c' : InodeCache} (counted : w.inodes.Counted)
    (there : StillThere w.root w.inodes ds) : Leaves counts w (forgetEach fs req ds) c' ↔
      Fits w.root w.inodes ds ∧ ds.foldl (forgetOne w.root) w.inodes = c' := by
  constructor
  · intro leaves
    exact (follows_forgetEach (Q := fun inodes => inodes = c') counted there).mp (leaves ⟨none⟩)
  · intro same s
    exact (follows_forgetEach (Q := fun inodes => inodes = c') counted there).mpr same

end Solo

section Batch
variable {fs : PageAlignFS} {counts : String → Bool} {root : Inode} {pipes : Fd → Bool} {w : World}
  {ok : World → Label calls (FuseReq × Request) → Prop}

/-- In every reachable cache, for every list whose pairs find their entries and, id by id, do
not exceed the counts. -/
theorem forgetsAlike_iff (run : (daemon fs counts).Reach ok (.initial root pipes) ⟨w, []⟩) (req : FuseReq)
    (ds : List ForgetData) (there : StillThere w.root w.inodes ds) (covered : Covered w.inodes ds) :
    ForgetsAlike fs counts req w ds ↔ BatchSafe w.root w.inodes ds := by
  have counted : w.inodes.Counted := (atRest_of_reach run).live
  rw [← batchSafe_iff counted there covered]
  constructor
  · rintro ⟨c', each, alike⟩ ds' perm there'
    obtain ⟨-, each⟩ := (Solo.leaves_forgetEach counted there).mp each
    obtain ⟨multi, each'⟩ := alike ds' perm there'
    obtain ⟨fits', each'⟩ := (Solo.leaves_forgetEach counted there').mp each'
    rw [Solo.leaves_forgetMulti counted there' fits'] at multi
    exact ⟨fits', multi.trans each.symm, each'.trans each.symm⟩
  · intro alike
    have fits := (alike ds (.refl _) there).1
    refine ⟨_, (Solo.leaves_forgetEach counted there).mpr ⟨fits, rfl⟩, fun ds' perm there' => ?_⟩
    obtain ⟨fits', multi, each⟩ := alike ds' perm there'
    exact ⟨(Solo.leaves_forgetMulti counted there' fits').mpr multi,
      (Solo.leaves_forgetEach counted there').mpr ⟨fits', each⟩⟩

end Batch

namespace Sample

/-- The file that was looked up is the only entry, and its count is one. -/
theorem heap_lookedUp {a : Addr} {n : Node} (here : lookedUp.inodes.heap a = some n) :
    a = 4096 ∧ n.refcnt = 1 := by
  by_cases same : a = 4096
  · subst same
    have one : (lookedUp.inodes.heap 4096).map Node.refcnt = some 1 := rfl
    rw [here] at one
    exact ⟨rfl, Option.some.inj one⟩
  · have other : lookedUp.inodes.heap a = none := by
      change Function.update (Function.update (Function.update (Function.update (fun _ => none) 4096 _)
        4096 _) 4096 _) 4096 _ a = none
      simp [same]
    rw [other] at here
    cases here

theorem covered_lookedUp {ds : List ForgetData} (le : listedFor ds 4096 ≤ 1) : Covered lookedUp.inodes ds := by
  intro a n _ here
  obtain ⟨rfl, one⟩ := heap_lookedUp here
  rw [one]
  exact le

theorem counted_lookedUp : lookedUp.inodes.Counted := by
  intro a n here
  rw [(heap_lookedUp here).2]
  exact Nat.one_pos

/-- The file, after the root, which has no entry. -/
def rootThenFile : List ForgetData := [⟨FUSE_ROOT_ID, 1⟩, ⟨4096, 1⟩]

theorem stillThere_rootThenFile : StillThere lookedUp.root lookedUp.inodes rootThenFile := by
  refine ⟨.inl rfl, fun _ => ⟨.inr ?_, fun _ => trivial⟩⟩
  decide

end Sample

theorem forgetsAlike_lookup : ForgetsAlike .onLinux countsName ⟨9, .forgetMulti⟩ Sample.lookedUp [⟨4096, 1⟩] :=
  (forgetsAlike_iff Sample.reached_lookedUp ⟨9, .forgetMulti⟩ [⟨4096, 1⟩]
    ⟨.inr (by decide), fun _ => trivial⟩
    (Sample.covered_lookedUp (by decide))).mpr (.inl (by decide))

/-- The batch returns at the root's pair, and the file keeps its reference. -/
theorem batch_stops_at_root : ¬ ∀ (fs : PageAlignFS) (counts : String → Bool) (root : Inode) (pipes : Fd → Bool)
    (ok : World → Label calls (FuseReq × Request) → Prop) (w : World) (req : FuseReq) (ds : List ForgetData),
    (daemon fs counts).Reach ok (.initial root pipes) ⟨w, []⟩ → StillThere w.root w.inodes ds →
      Covered w.inodes ds → ForgetsAlike fs counts req w ds := by
  intro always
  have covered : Covered Sample.lookedUp.inodes Sample.rootThenFile := Sample.covered_lookedUp (by decide)
  have counted := Sample.counted_lookedUp
  have there := Sample.stillThere_rootThenFile
  obtain ⟨c', each, alike⟩ := always _ _ _ _ _ _ ⟨9, .forgetMulti⟩ _ Sample.reached_lookedUp there covered
  rw [Solo.leaves_forgetEach counted there] at each
  obtain ⟨fits, each⟩ := each
  obtain ⟨multi, -⟩ := alike _ (List.Perm.refl _) there
  rw [Solo.leaves_forgetMulti counted there fits] at multi
  have same : (batch Sample.lookedUp.root Sample.lookedUp.inodes Sample.rootThenFile).heap 4096 =
      (Sample.rootThenFile.foldl (forgetOne Sample.lookedUp.root) Sample.lookedUp.inodes).heap 4096 := by
    rw [multi, each]
  have kept : (batch Sample.lookedUp.root Sample.lookedUp.inodes Sample.rootThenFile).heap 4096 ≠ none := by decide
  have dropped : (Sample.rootThenFile.foldl (forgetOne Sample.lookedUp.root) Sample.lookedUp.inodes).heap 4096 =
      none := by decide
  exact kept (same.trans dropped)

end Pafs
