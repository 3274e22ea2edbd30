import Pafs.Calls

/-! `InodeCache` of `inode.cc`: a hash map from (device, inode number) to owning pointers.
The map and the heap nodes it owns are one structure, so that every node is stored under
the key of the `Inode` it holds and no two nodes share a key. -/
namespace Pafs

structure Node where
  refcnt : Nat
  inode : Inode
  deriving DecidableEq

structure InodeCache where
  table : Key → Option Addr
  heap : Addr → Option Node
  owns : ∀ k a, table k = some a ↔ ∃ n, heap a = some n ∧ n.inode.key = k

namespace InodeCache

def empty : InodeCache where
  table := fun _ => none
  heap := fun _ => none
  owns := by simp

variable {c c' : InodeCache} {a b : Addr} {n : Node} {k : Key} {i : Inode}

theorem key_injective {m : Node} (ha : c.heap a = some n) (hb : c.heap b = some m)
    (same : n.inode.key = m.inode.key) : a = b := by
  have ta := (c.owns m.inode.key a).mpr ⟨n, ha, same⟩
  have tb := (c.owns m.inode.key b).mpr ⟨m, hb, rfl⟩
  exact Option.some.inj (ta.symm.trans tb)

/-- `inodes_.find`: the node stored under a key, with its address. -/
def find (c : InodeCache) (k : Key) : Option (Addr × Node) :=
  match c.table k with
  | none => none
  | some a => (c.heap a).map fun n => (a, n)

theorem find_eq_some_iff : c.find k = some (a, n) ↔ c.heap a = some n ∧ n.inode.key = k := by
  unfold find
  constructor
  · intro h
    cases ht : c.table k with
    | none => simp [ht] at h
    | some b =>
        obtain ⟨m, hm, hk⟩ := (c.owns k b).mp ht
        simp only [ht, hm, Option.map_some, Option.some.injEq, Prod.mk.injEq] at h
        obtain ⟨rfl, rfl⟩ := h
        exact ⟨hm, hk⟩
  · rintro ⟨hn, hk⟩
    rw [(c.owns k a).mpr ⟨n, hn, hk⟩]
    simp [hn]

theorem find_eq_none_iff : c.find k = none ↔ c.table k = none := by
  unfold find
  cases ht : c.table k with
  | none => simp
  | some a =>
      obtain ⟨n, hn, -⟩ := (c.owns k a).mp ht
      simp [hn]

/-- Replace a node by one with the same key. -/
def replace (c : InodeCache) (a : Addr) (n m : Node) (old : c.heap a = some n)
    (same : m.inode.key = n.inode.key) : InodeCache where
  table := c.table
  heap := Function.update c.heap a (some m)
  owns := by
    intro k b
    rw [c.owns k b]
    by_cases hb : b = a
    · subst hb
      simp [old, same]
    · simp [Function.update_of_ne hb]

def emplace (c : InodeCache) (a : Addr) (i : Inode) (free : c.heap a = none)
    (absent : c.table i.key = none) : InodeCache where
  table := Function.update c.table i.key (some a)
  -- the source emplaces a count of 0 and increments it together with the found ones
  heap := Function.update c.heap a (some { refcnt := 1, inode := i })
  owns := by
    intro k b
    by_cases hk : k = i.key
    · subst hk
      by_cases hb : b = a
      · subst hb
        simp
      · have none_here : ¬ ∃ n, c.heap b = some n ∧ n.inode.key = i.key := by
          intro h
          rw [← c.owns, absent] at h
          cases h
        simpa [Function.update_of_ne hb, Ne.symm hb] using none_here
    · rw [Function.update_of_ne hk, c.owns]
      by_cases hb : b = a
      · subst hb
        simp [free, Ne.symm hk]
      · simp [Function.update_of_ne hb]

def erase (c : InodeCache) (a : Addr) (n : Node) (old : c.heap a = some n) : InodeCache where
  table := Function.update c.table n.inode.key none
  heap := Function.update c.heap a none
  owns := by
    intro k b
    by_cases hb : b = a
    · subst hb
      by_cases hk : k = n.inode.key
      · simp [hk]
      · simp only [Function.update_of_ne hk, Function.update_self, c.owns, old]
        simp [Ne.symm hk]
    · rw [Function.update_of_ne hb]
      by_cases hk : k = n.inode.key
      · subst hk
        have none_here : ¬ ∃ m, c.heap b = some m ∧ m.inode.key = n.inode.key := by
          rintro ⟨m, hm, same⟩
          exact hb (key_injective hm old same)
        simpa using none_here
      · rw [Function.update_of_ne hk, c.owns]

/-- `Insert`, where `alloc` is the address `make_unique` would return. A live address is
never returned by the allocator, which is the only way for this to have no result. -/
def insert (c : InodeCache) (i : Inode) (alloc : Addr) : Option (InodeCache × Inserted) :=
  match h : c.find i.key with
  | some (a, n) =>
      some (c.replace a n { n with refcnt := n.refcnt + 1 } (find_eq_some_iff.mp h).1 rfl,
        { addr := a, fresh := false })
  | none =>
      if free : c.heap alloc = none then
        some (c.emplace alloc i free (find_eq_none_iff.mp h), { addr := alloc, fresh := true })
      else none

/-- `Ref`; no result means that the key has no entry. -/
def ref (c : InodeCache) (k : Key) (ntimes : Nat) : Option InodeCache :=
  match h : c.find k with
  | none => none
  | some (a, n) =>
      some (c.replace a n { n with refcnt := n.refcnt + ntimes } (find_eq_some_iff.mp h).1 rfl)

def unref (c : InodeCache) (k : Key) (ntimes : Nat) : Unrefed × InodeCache :=
  match h : c.find k with
  | none => (.missing k, c)
  | some (a, n) =>
      if n.refcnt < ntimes then (.checkFailed, c)
      else if n.refcnt - ntimes = 0 then
        (.dropped (some n.inode), c.erase a n (find_eq_some_iff.mp h).1)
      else
        (.dropped none,
          c.replace a n { n with refcnt := n.refcnt - ntimes } (find_eq_some_iff.mp h).1 rfl)

/-- A write to a field of a cached `Inode` other than its number and device. -/
def update (c : InodeCache) (a : Addr) (f : Inode → Inode) (keeps : ∀ i, (f i).key = i.key) :
    InodeCache :=
  match h : c.heap a with
  | none => c
  | some n => c.replace a n { n with inode := f n.inode } h (keeps n.inode)

/-- Everything `Insert` can do. -/
theorem insert_cases {alloc : Addr} {r : Inserted} (h : c.insert i alloc = some (c', r)) :
    (r = { addr := alloc, fresh := true } ∧ c.heap alloc = none ∧ c.table i.key = none ∧
      c'.heap = Function.update c.heap alloc (some { refcnt := 1, inode := i })) ∨
    (∃ n, r.fresh = false ∧ c.heap r.addr = some n ∧ n.inode.key = i.key ∧
      c'.heap = Function.update c.heap r.addr (some { n with refcnt := n.refcnt + 1 })) := by
  unfold insert at h
  split at h
  · next a n found =>
      obtain ⟨hn, hk⟩ := find_eq_some_iff.mp found
      cases h
      exact .inr ⟨n, rfl, hn, hk, rfl⟩
  · next absent =>
      split at h
      · next free =>
          cases h
          exact .inl ⟨rfl, free, find_eq_none_iff.mp absent, rfl⟩
      · cases h

/-- `Ref` of an inode that is in the cache finds it. -/
theorem ref_of_heap (h : c.heap a = some n) (ntimes : Nat) :
    ∃ c', c.ref n.inode.key ntimes = some c' ∧
      c'.heap = Function.update c.heap a (some { n with refcnt := n.refcnt + ntimes }) := by
  have found : c.find n.inode.key = some (a, n) := find_eq_some_iff.mpr ⟨h, rfl⟩
  unfold ref
  split
  · next absent => rw [found] at absent; cases absent
  · next b m found' =>
      rw [found] at found'
      cases found'
      exact ⟨_, rfl, rfl⟩

/-- `Unref` of an inode that is in the cache, by no more than its count, finds it and
erases it exactly when the count reaches zero. -/
theorem unref_of_heap (h : c.heap a = some n) {ntimes : Nat} (le : ntimes ≤ n.refcnt) :
    (c.unref n.inode.key ntimes).1 =
        .dropped (if n.refcnt = ntimes then some n.inode else none) ∧
      (c.unref n.inode.key ntimes).2.heap = Function.update c.heap a
        (if n.refcnt = ntimes then none else some { n with refcnt := n.refcnt - ntimes }) := by
  have found : c.find n.inode.key = some (a, n) := find_eq_some_iff.mpr ⟨h, rfl⟩
  unfold unref
  split
  · next absent => rw [found] at absent; cases absent
  · next b m found' =>
      rw [found] at found'
      cases found'
      rw [if_neg (Nat.not_lt.mpr le)]
      by_cases last : n.refcnt = ntimes
      · simp [last, erase]
      · have rest : n.refcnt - ntimes ≠ 0 := by omega
        simp [last, rest, replace]

/-- `Unref` by more than the count fails its check. -/
theorem unref_of_less (h : c.heap a = some n) {ntimes : Nat} (less : n.refcnt < ntimes) :
    c.unref n.inode.key ntimes = (.checkFailed, c) := by
  have found : c.find n.inode.key = some (a, n) := find_eq_some_iff.mpr ⟨h, rfl⟩
  unfold unref
  split
  · next absent => rw [found] at absent; cases absent
  · next b m found' =>
      rw [found] at found'
      cases found'
      rw [if_pos less]

theorem update_heap {f : Inode → Inode} (keeps : ∀ i, (f i).key = i.key) :
    (c.update a f keeps).heap = Function.update c.heap a
      ((c.heap a).map fun n => { n with inode := f n.inode }) := by
  unfold update
  split
  · next h => simp [h]
  · next n h => simp [replace, h]

/-- The nodes of `c'` stand for the inodes they stood for in `c`. -/
def Retains (c c' : InodeCache) : Prop :=
  ∀ a n', c'.heap a = some n' → ∃ n, c.heap a = some n ∧ n'.inode = n.inode

theorem Retains.refl (c : InodeCache) : c.Retains c := fun _ n h => ⟨n, h, rfl⟩

theorem retains_update {o : Option Node} (h : c.heap a = some n)
    (heap : c'.heap = Function.update c.heap a o) (same : ∀ m, o = some m → m.inode = n.inode) :
    c.Retains c' := by
  intro b n' h'
  rw [heap, Function.update_apply] at h'
  split at h'
  · next here =>
      subst here
      exact ⟨n, h, same n' h'⟩
  · exact ⟨n', h', rfl⟩

theorem retains_ref {ntimes : Nat} (h : c.ref k ntimes = some c') : c.Retains c' := by
  unfold ref at h
  split at h
  · cases h
  · next a n found =>
      cases h
      exact retains_update (find_eq_some_iff.mp found).1 rfl fun m h => by cases h; rfl

theorem retains_unref {ntimes : Nat} : c.Retains (c.unref k ntimes).2 := by
  unfold unref
  split
  · exact .refl c
  · next a n found =>
      have heap := (find_eq_some_iff.mp found).1
      split
      · exact .refl c
      · split
        · exact retains_update heap rfl fun m h => nomatch h
        · exact retains_update heap rfl fun m h => by cases h; rfl

theorem inode_of_insert {alloc : Addr} {r : Inserted} (h : c.insert i alloc = some (c', r)) {n' : Node}
    (h' : c'.heap a = some n') :
    (∃ n, c.heap a = some n ∧ n'.inode = n.inode) ∨
      (c.heap a = none ∧ r = { addr := a, fresh := true } ∧ n'.inode = i) := by
  obtain ⟨rfl, free, -, heap⟩ | ⟨n, -, hn, -, heap⟩ := insert_cases h
  · rw [heap, Function.update_apply] at h'
    split at h'
    · next here =>
        subst here
        cases h'
        exact .inr ⟨free, rfl, rfl⟩
    · exact .inl ⟨n', h', rfl⟩
  · exact .inl (retains_update hn heap (fun m h => by cases h; rfl) a n' h')

end InodeCache

/-- What the accounts below keep of a node. -/
structure Entry where
  refcnt : Nat
  fd : Fd
  key : Key
  deriving DecidableEq

def Node.entry (n : Node) : Entry := ⟨n.refcnt, n.inode.fd, n.inode.key⟩

namespace InodeCache

def view (c : InodeCache) (a : Addr) : Option Entry := (c.heap a).map Node.entry

variable {c c' : InodeCache} {a : Addr} {i : Inode}

theorem view_eq_none_iff : c.view a = none ↔ c.heap a = none := by simp [view]

theorem view_of_heap {n : Node} (h : c.heap a = some n) : c.view a = some n.entry := by
  simp [view, h]

theorem heap_of_view {e : Entry} (h : c.view a = some e) : ∃ n, c.heap a = some n ∧ n.entry = e :=
  Option.map_eq_some_iff.mp h

theorem view_eq_update {o : Option Node} (h : c'.heap = Function.update c.heap a o) :
    c'.view = Function.update c.view a (o.map Node.entry) := by
  funext b
  by_cases hb : b = a
  · subst hb
    simp [view, h]
  · simp [view, h, Function.update_of_ne hb]

theorem insert_view {alloc : Addr} {r : Inserted} (h : c.insert i alloc = some (c', r)) :
    (r.fresh = true ∧ c.view r.addr = none ∧
      c'.view = Function.update c.view r.addr (some ⟨1, i.fd, i.key⟩)) ∨
    (r.fresh = false ∧ ∃ e, c.view r.addr = some e ∧ e.key = i.key ∧
      c'.view = Function.update c.view r.addr (some { e with refcnt := e.refcnt + 1 })) := by
  obtain ⟨rfl, free, -, heap⟩ | ⟨n, old, hn, same, heap⟩ := insert_cases h
  · exact .inl ⟨rfl, view_eq_none_iff.mpr free, view_eq_update heap⟩
  · exact .inr ⟨old, n.entry, view_of_heap hn, same, view_eq_update heap⟩

theorem ref_view {n : Node} (h : c.heap a = some n) (ntimes : Nat) :
    ∃ c', c.ref n.inode.key ntimes = some c' ∧
      c'.view = Function.update c.view a (some { n.entry with refcnt := n.refcnt + ntimes }) := by
  obtain ⟨c', found, heap⟩ := ref_of_heap h ntimes
  exact ⟨c', found, view_eq_update heap⟩

theorem unref_view {n : Node} (h : c.heap a = some n) {ntimes : Nat} (le : ntimes ≤ n.refcnt) :
    (c.unref n.inode.key ntimes).1 =
        .dropped (if n.refcnt = ntimes then some n.inode else none) ∧
      (c.unref n.inode.key ntimes).2.view = Function.update c.view a
        (if n.refcnt = ntimes then none else some { n.entry with refcnt := n.refcnt - ntimes }) := by
  obtain ⟨answer, heap⟩ := unref_of_heap h le
  refine ⟨answer, ?_⟩
  rw [view_eq_update heap]
  split <;> rfl

theorem update_view {f : Inode → Inode} (key : ∀ i, (f i).key = i.key) (fd : ∀ i, (f i).fd = i.fd) :
    (c.update a f key).view = c.view := by
  rw [view_eq_update (update_heap key)]
  funext b
  by_cases hb : b = a
  · subst hb
    cases h : c.heap b with
    | none => simp [view, h]
    | some n => simp [view, h, Node.entry, fd, key]
  · simp [Function.update_of_ne hb]

end InodeCache

end Pafs
