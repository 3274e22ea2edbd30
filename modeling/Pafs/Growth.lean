import Pafs.InodeCache

/-! How the cache grows. A cache is compared with an earlier one by the references that
were added to every key since; when they are all gone it is the earlier one again. -/
namespace Pafs

variable {c c' c'' : InodeCache} {a b : Addr} {k : Key} {n m : Node} {i : Inode} {d : Key → Nat}

theorem InodeCache.eq_of_heap (h : c'.heap = c.heap) : c' = c := by
  obtain ⟨table, heap, owns⟩ := c
  obtain ⟨table', heap', owns'⟩ := c'
  dsimp only at h
  subst h
  have same : table' = table := by
    funext k
    refine Option.ext fun a => ?_
    rw [owns, owns']
  subst same
  rfl

/-- The cache `c'` is `c` with `d k` references more for every key `k`. -/
structure Grown (c c' : InodeCache) (d : Key → Nat) : Prop where
  kept : ∀ a n, c.heap a = some n → c'.heap a = some { n with refcnt := n.refcnt + d n.inode.key }
  added : ∀ a n, c'.heap a = some n → c.heap a = none → n.refcnt = d n.inode.key ∧ 0 < n.refcnt
  all : ∀ k, 0 < d k → ∃ a n, c'.heap a = some n ∧ n.inode.key = k

namespace Grown

theorem refl (c : InodeCache) : Grown c c 0 where
  kept _ _ h := h
  added a n h free := by
    rw [h] at free
    cases free
  all _ pos := absurd pos (Nat.lt_irrefl 0)

theorem eq_of_zero (h : Grown c c' 0) : c' = c := by
  apply InodeCache.eq_of_heap
  funext a
  cases old : c.heap a with
  | some n => exact h.kept a n old
  | none =>
      cases new : c'.heap a with
      | none => rfl
      | some n =>
          obtain ⟨none, pos⟩ := h.added a n new old
          rw [none] at pos
          exact absurd pos (Nat.lt_irrefl 0)

/-- An entry counts the references it had at first and those that were added. -/
theorem refcnt (h : Grown c c' d) (new : c'.heap a = some n) :
    n.refcnt = ((c.heap a).map Node.refcnt).getD 0 + d n.inode.key := by
  cases old : c.heap a with
  | some m =>
      have same := h.kept a m old
      rw [new] at same
      cases same
      rfl
  | none =>
      rw [(h.added a n new old).1]
      exact (Nat.zero_add _).symm

/-- The entry at one address is replaced or erased. -/
theorem changed {o : Option Node} {d' : Key → Nat} (h : Grown c c' d) (at_a : c'.heap a = some n)
    (heap : c''.heap = Function.update c'.heap a o) (elsewhere : ∀ k, k ≠ n.inode.key → d' k = d k)
    (here : ∀ m, o = some m → m.inode = n.inode ∧
      m.refcnt + d n.inode.key = n.refcnt + d' n.inode.key ∧ 0 < m.refcnt)
    (gone : o = none → c.heap a = none ∧ d' n.inode.key = 0) : Grown c c'' d' := by
  have others {b : Addr} (other : b ≠ a) : c''.heap b = c'.heap b := by
    rw [heap, Function.update_of_ne other]
  have self : c''.heap a = o := by rw [heap, Function.update_self]
  have apart {b : Addr} {m : Node} (at_b : c'.heap b = some m) (other : b ≠ a) :
      m.inode.key ≠ n.inode.key := fun same => other (InodeCache.key_injective at_b at_a same)
  constructor
  · intro b m old
    have grown := h.kept b m old
    by_cases same : b = a
    · subst same
      rw [at_a] at grown
      cases grown
      cases o with
      | none =>
          rw [(gone rfl).1] at old
          cases old
      | some m' =>
          obtain ⟨inode, count, -⟩ := here m' rfl
          dsimp only at inode count
          have refcnt : m'.refcnt = m.refcnt + d' m.inode.key := by omega
          rw [self, ← refcnt, ← inode]
    · rw [others same, grown, elsewhere _ (apart grown same)]
  · intro b m new free
    by_cases same : b = a
    · subst same
      rw [self] at new
      subst new
      obtain ⟨inode, count, pos⟩ := here m rfl
      have first := (h.added b n at_a free).1
      refine ⟨?_, pos⟩
      rw [inode]
      omega
    · rw [others same] at new
      rw [elsewhere _ (apart new same)]
      exact h.added b m new free
  · intro k pos
    by_cases same : k = n.inode.key
    · subst same
      cases o with
      | none => exact absurd pos (by rw [(gone rfl).2]; exact Nat.lt_irrefl 0)
      | some m => exact ⟨a, m, self, by rw [(here m rfl).1]⟩
    · rw [elsewhere k same] at pos
      obtain ⟨b, m, at_b, rfl⟩ := h.all k pos
      have other : b ≠ a := by
        rintro rfl
        rw [at_a] at at_b
        cases at_b
        exact same rfl
      exact ⟨b, m, by rw [others other, at_b], rfl⟩

/-- An entry that is not new is found where it was. -/
theorem find_of_old (h : Grown c c' d) (at_a : c'.heap a = some n) (was : c.heap a ≠ none) :
    ∃ m, c.find n.inode.key = some (a, m) ∧ m.inode = n.inode := by
  cases old : c.heap a with
  | none => exact absurd old was
  | some m =>
      have grown := h.kept a m old
      rw [at_a] at grown
      cases grown
      exact ⟨m, InodeCache.find_eq_some_iff.mpr ⟨old, rfl⟩, rfl⟩

theorem find_of_new (h : Grown c c' d) (at_a : c'.heap a = some n) (new : c.heap a = none) :
    c.find n.inode.key = none := by
  cases found : c.find n.inode.key with
  | none => rfl
  | some p =>
      obtain ⟨b, m⟩ := p
      obtain ⟨at_b, key⟩ := InodeCache.find_eq_some_iff.mp found
      have here := InodeCache.key_injective (h.kept b m at_b) at_a key
      rw [here, new] at at_b
      cases at_b

theorem refed {count : Nat} (h : Grown c c' d) (at_a : c'.heap a = some n)
    (live : 0 < n.refcnt)
    (heap : c''.heap = Function.update c'.heap a (some { n with refcnt := n.refcnt + count })) :
    Grown c c'' (d + Pi.single n.inode.key count) := by
  refine h.changed at_a heap (fun k other => ?_) (fun m same => ?_) fun none => nomatch none
  · rw [Pi.add_apply, Pi.single_eq_of_ne other, Nat.add_zero]
  · cases same
    rw [Pi.add_apply, Pi.single_eq_same]
    refine ⟨rfl, ?_, Nat.add_pos_left live count⟩
    dsimp only
    omega

/-- The last reference goes only if all of them were added. -/
theorem unrefed {count : Nat} (h : Grown c c' d) (live : ∀ a n, c.heap a = some n → 0 < n.refcnt)
    (at_a : c'.heap a = some n) (le : count ≤ d n.inode.key)
    (heap : c''.heap = Function.update c'.heap a
      (if n.refcnt = count then none else some { n with refcnt := n.refcnt - count })) :
    Grown c c'' (d - Pi.single n.inode.key count) := by
  have refcnt := h.refcnt at_a
  refine h.changed at_a heap (fun k other => ?_) (fun m same => ?_) fun none => ?_
  · rw [Pi.sub_apply, Pi.single_eq_of_ne other, Nat.sub_zero]
  · split at same
    · cases same
    · next more =>
        cases same
        rw [Pi.sub_apply, Pi.single_eq_same]
        dsimp only
        exact ⟨rfl, by omega, by omega⟩
  · split at none
    · next last =>
        rw [Pi.sub_apply, Pi.single_eq_same]
        cases old : c.heap a with
        | none => exact ⟨rfl, by omega⟩
        | some m =>
            have pos := live a m old
            rw [old] at refcnt
            change n.refcnt = m.refcnt + _ at refcnt
            omega
    · cases none

theorem inserted {alloc : Addr} {r : Inserted} (h : Grown c c' d)
    (insert : c'.insert i alloc = some (c'', r)) :
    Grown c c'' (d + Pi.single i.key 1) ∧ ∃ n, c''.heap r.addr = some n ∧ n.inode.key = i.key := by
  obtain ⟨rfl, free, absent, heap⟩ | ⟨n, -, found, key, heap⟩ := InodeCache.insert_cases insert
  · -- a new entry at a free address, under a key that has none
    have fresh {b : Addr} {m : Node} (at_b : c'.heap b = some m) : b ≠ alloc ∧ m.inode.key ≠ i.key := by
      constructor
      · rintro rfl
        rw [free] at at_b
        cases at_b
      · intro same
        rw [(c'.owns i.key b).mpr ⟨m, at_b, same⟩] at absent
        cases absent
    have same {k : Key} (other : k ≠ i.key) : (d + Pi.single i.key 1 : Key → Nat) k = d k := by
      rw [Pi.add_apply, Pi.single_eq_of_ne other, Nat.add_zero]
    have none : d i.key = 0 := by
      by_contra pos
      obtain ⟨b, m, at_b, key⟩ := h.all i.key (Nat.pos_of_ne_zero pos)
      exact (fresh at_b).2 key
    have one : (d + Pi.single i.key 1 : Key → Nat) i.key = 1 := by
      rw [Pi.add_apply, Pi.single_eq_same, none]
    have self : c''.heap alloc = some { refcnt := 1, inode := i } := by rw [heap, Function.update_self]
    have others {b : Addr} (other : b ≠ alloc) : c''.heap b = c'.heap b := by
      rw [heap, Function.update_of_ne other]
    refine ⟨⟨fun b m old => ?_, fun b m new at_c => ?_, fun k pos => ?_⟩, _, self, rfl⟩
    · have grown := h.kept b m old
      obtain ⟨other, key⟩ := fresh grown
      rw [others other, grown, same key]
    · by_cases other : b = alloc
      · subst other
        rw [self] at new
        cases new
        exact ⟨one.symm, Nat.one_pos⟩
      · rw [others other] at new
        rw [same (fresh new).2]
        exact h.added b m new at_c
    · by_cases key : k = i.key
      · subst key
        exact ⟨alloc, _, self, rfl⟩
      · rw [same key] at pos
        obtain ⟨b, m, at_b, rfl⟩ := h.all k pos
        exact ⟨b, m, by rw [others (fresh at_b).1, at_b], rfl⟩
  · refine ⟨?_, { n with refcnt := n.refcnt + 1 }, by rw [heap, Function.update_self], key⟩
    refine h.changed found heap (fun k other => ?_) (fun m same => ?_) fun none => nomatch none
    · rw [key] at other
      rw [Pi.add_apply, Pi.single_eq_of_ne other, Nat.add_zero]
    · cases same
      rw [key, Pi.add_apply, Pi.single_eq_same]
      refine ⟨rfl, ?_, Nat.succ_pos _⟩
      dsimp only
      omega

/-- A member of an inode that is new to the cache is written. -/
theorem wrote {f : Inode → Inode} (keeps : ∀ i, (f i).key = i.key) (h : Grown c c' d)
    (new : c.heap a = none) : Grown c (c'.update a f keeps) d := by
  have heap := InodeCache.update_heap (c := c') (a := a) keeps
  cases at_a : c'.heap a with
  | none =>
      have same : (c'.update a f keeps) = c' := by
        apply InodeCache.eq_of_heap
        rw [heap, at_a]
        exact Function.update_eq_self_iff.mpr at_a.symm
      rw [same]
      exact h
  | some n =>
      rw [at_a] at heap
      have others {b : Addr} (other : b ≠ a) : (c'.update a f keeps).heap b = c'.heap b := by
        rw [heap, Function.update_of_ne other]
      have self : (c'.update a f keeps).heap a = some { n with inode := f n.inode } := by
        rw [heap, Function.update_self]
        rfl
      refine ⟨fun b m old => ?_, fun b m at_b free => ?_, fun k pos => ?_⟩
      · have other : b ≠ a := by
          rintro rfl
          rw [new] at old
          cases old
        rw [others other]
        exact h.kept b m old
      · by_cases other : b = a
        · subst other
          rw [self] at at_b
          cases at_b
          change n.refcnt = d (f n.inode).key ∧ 0 < n.refcnt
          rw [keeps]
          exact h.added b n at_a free
        · rw [others other] at at_b
          exact h.added b m at_b free
      · obtain ⟨b, m, at_b, rfl⟩ := h.all k pos
        by_cases other : b = a
        · subst other
          rw [at_a] at at_b
          cases at_b
          exact ⟨b, _, self, keeps _⟩
        · exact ⟨b, m, by rw [others other, at_b], rfl⟩

end Grown

/-- The same by key: an entry that was there is found where it was, with `d k` references
more, and otherwise there is a new one if `d k` is not zero. -/
def Raised (c c' : InodeCache) (d : Key → Nat) : Prop :=
  ∀ k, match c.find k with
    | some (a, n) => c'.find k = some (a, { n with refcnt := n.refcnt + d k })
    | none => if d k = 0 then c'.find k = none else ∃ a n, c'.find k = some (a, n) ∧ n.refcnt = d k

theorem Grown.raised (h : Grown c c' d) : Raised c c' d := by
  intro k
  cases found : c.find k with
  | some p =>
      obtain ⟨a, n⟩ := p
      obtain ⟨heap, rfl⟩ := InodeCache.find_eq_some_iff.mp found
      exact InodeCache.find_eq_some_iff.mpr ⟨h.kept a n heap, rfl⟩
  | none =>
      have new {a : Addr} {n : Node} (found' : c'.find k = some (a, n)) : n.refcnt = d k ∧ 0 < n.refcnt := by
        obtain ⟨heap, rfl⟩ := InodeCache.find_eq_some_iff.mp found'
        cases old : c.heap a with
        | none => exact h.added a n heap old
        | some m =>
            obtain ⟨m', here, -⟩ := h.find_of_old heap (by rw [old]; exact Option.some_ne_none m)
            rw [found] at here
            cases here
      dsimp only
      split
      · next none =>
          cases found' : c'.find k with
          | none => rfl
          | some p =>
              obtain ⟨count, pos⟩ := new found'
              omega
      · next some =>
          obtain ⟨a, n, heap, key⟩ := h.all k (Nat.pos_of_ne_zero some)
          have found' := InodeCache.find_eq_some_iff.mpr ⟨heap, key⟩
          exact ⟨a, n, found', (new found').1⟩

end Pafs
