import Pafs.Handlers

/-! The shared state adds up: what the threads hold, what the kernel holds and what the
cache and the descriptor table say are kept equal by every step of every thread. -/
namespace Pafs
open Resumption

/-- The stored reference count at an address; zero where nothing is allocated. -/
def World.refcnt (w : World) (a : Addr) : Nat := ((w.inodes.view a).map Entry.refcnt).getD 0

/-- Every reference has an owner: the kernel, a forget on its way, a `shared_ptr`, a reply
that is about to be sent, or a listed name the kernel does not count. -/
structure Counts (w : World) (f : Multiset Ledger) : Prop where
  refcnt : ∀ a, w.refcnt a = w.nlookup a + w.uncounted a + w.forgetting a + w.shared a +
    total (fun l => l.refs a) f
  forgetting : ∀ a, w.forgetting a = total (fun l => l.forgets a) f
  shared : ∀ a, w.shared a = total (fun l => l.shared a) f
  live : ∀ a e, w.inodes.view a = some e → 0 < e.refcnt

/-- Every descriptor has one owner. -/
structure Descriptors (w : World) (f : Multiset Ledger) : Prop where
  root : w.fds w.root.fd = some .root
  inode : ∀ a fd, w.fds fd = some (.inode a) ↔ (w.inodes.view a).map Entry.fd = some fd
  thread : ∀ fd, total (fun l => l.fds fd) f = if w.fds fd = some .thread then 1 else 0
  stream : ∀ d fd, w.streams d = some fd → w.fds fd = some (.stream d)

def Ledger.owes (l : Ledger) (req : FuseReq) : Nat := if l.owed = true ∧ l.req = req then 1 else 0

/-- Every unanswered request is owed by one thread, and what it names is still there. -/
structure Requests (w : World) (f : Multiset Ledger) : Prop where
  pending : ∀ l ∈ f, l.owed = true → w.pending l.req = some l.request
  once : ∀ req, total (fun l => l.owes req) f ≤ 1
  names : ∀ req r, w.pending req = some r → ∀ a ∈ r.names, a ≠ FUSE_ROOT_ID → 0 < w.nlookup a
  handles : ∀ req r, w.pending req = some r → ∀ fd ∈ r.handles, w.fds fd = some .handle

structure Inv (w : World) (f : Multiset Ledger) : Prop where
  counts : Counts w f
  descriptors : Descriptors w f
  requests : Requests w f

variable {w w' : World} {l l' : Ledger} {f : Multiset Ledger} {a : Addr}

theorem World.refcnt_of_view {e : Entry} (h : w.inodes.view a = some e) : w.refcnt a = e.refcnt := by
  simp [refcnt, h]

theorem World.view_of_refcnt (h : 0 < w.refcnt a) : ∃ e, w.inodes.view a = some e := by
  cases view : w.inodes.view a with
  | none => simp [refcnt, view] at h
  | some e => exact ⟨e, rfl⟩

theorem World.refcnt_update {o : Option Entry}
    (h : w'.inodes.view = Function.update w.inodes.view a o) (b : Addr) :
    w'.refcnt b = if b = a then (o.map Entry.refcnt).getD 0 else w.refcnt b := by
  unfold refcnt
  rw [h, Function.update_apply]
  split <;> rfl

/-! What the operations of the cache do to the world. -/

theorem World.insert_cases (counts : String → Bool) {i : Inode} {r : Inserted}
    (h : w.Answers (.insert i) r) :
    (r.fresh = true ∧ w.inodes.view r.addr = none ∧ ∃ inodes : InodeCache,
      inodes.view = Function.update w.inodes.view r.addr (some ⟨1, i.fd, i.key⟩) ∧
      w.effect counts (.insert i) r = { w with
        inodes := inodes
        shared := w.shared + Pi.single r.addr 1
        fds := Function.update w.fds i.fd (some (.inode r.addr)) }) ∨
    (r.fresh = false ∧ ∃ (e : Entry) (inodes : InodeCache), w.inodes.view r.addr = some e ∧
      e.key = i.key ∧
      inodes.view = Function.update w.inodes.view r.addr (some { e with refcnt := e.refcnt + 1 }) ∧
      w.effect counts (.insert i) r = { w with
        inodes := inodes
        shared := w.shared + Pi.single r.addr 1 }) := by
  obtain ⟨inodes, inserted⟩ := h
  obtain ⟨fresh, free, view⟩ | ⟨hit, e, found, key, view⟩ := InodeCache.insert_view inserted
  · refine .inl ⟨fresh, free, inodes, view, ?_⟩
    simp only [effect, inserted, fresh, if_true, own]
  · refine .inr ⟨hit, e, inodes, found, key, view, ?_⟩
    simp only [effect, inserted, hit, Bool.false_eq_true, if_false]

theorem World.ref_cases (counts : String → Bool) {n : Nat} {rc : Option Key}
    (h : w.Answers (.ref (.node a) n) rc) (found : 0 < w.refcnt a) :
    rc = none ∧ ∃ (e : Entry) (inodes : InodeCache), w.inodes.view a = some e ∧
      inodes.view = Function.update w.inodes.view a (some { e with refcnt := e.refcnt + n }) ∧
      w.effect counts (.ref (.node a) n) rc = { w with inodes := inodes } := by
  obtain ⟨e, view⟩ := view_of_refcnt found
  obtain ⟨node, heap, rfl⟩ := InodeCache.heap_of_view view
  obtain ⟨inodes, refed, view'⟩ := InodeCache.ref_view heap n
  have at_a : w.inodeAt (.node a) = some node.inode := by simp [inodeAt, heap]
  refine ⟨?_, node.entry, inodes, view, view', ?_⟩
  · simpa [Answers, Reads, at_a, refed] using h
  · simp only [effect, at_a, refed]

theorem World.unref_cases {n : Nat} {answer : Unrefed} (h : w.Unrefs (.node a) n answer)
    (pos : 0 < n) (le : n ≤ w.refcnt a) :
    ∃ (e : Entry) (inodes : InodeCache), w.inodes.view a = some e ∧
      ((e.refcnt = n ∧ inodes.view = Function.update w.inodes.view a none ∧
        (∃ i, i.fd = e.fd ∧ answer = .dropped (some i)) ∧
        w.unref (.node a) n answer =
          { w with inodes := inodes, fds := Function.update w.fds e.fd (some .thread) }) ∨
      (n < e.refcnt ∧
        inodes.view = Function.update w.inodes.view a (some { e with refcnt := e.refcnt - n }) ∧
        answer = .dropped none ∧ w.unref (.node a) n answer = { w with inodes := inodes })) := by
  obtain ⟨e, view⟩ := view_of_refcnt (lt_of_lt_of_le pos le)
  rw [refcnt_of_view view] at le
  obtain ⟨node, heap, rfl⟩ := InodeCache.heap_of_view view
  obtain ⟨answered, view'⟩ := InodeCache.unref_view heap le
  have at_a : w.inodeAt (.node a) = some node.inode := by simp [inodeAt, heap]
  have same : answer = .dropped (if node.refcnt = n then some node.inode else none) := by
    rw [← answered]
    simpa [Unrefs, Reads, at_a] using h
  refine ⟨node.entry, (w.inodes.unref node.inode.key n).2, view, ?_⟩
  by_cases last : node.refcnt = n
  · rw [if_pos last] at same view'
    subst same
    refine .inl ⟨last, view', ⟨node.inode, rfl, rfl⟩, ?_⟩
    simp only [unref, at_a, takeErased, own]
    rfl
  · rw [if_neg last] at same view'
    subst same
    refine .inr ⟨lt_of_le_of_ne le (Ne.symm last), view', rfl, ?_⟩
    simp only [unref, at_a, takeErased]

/-! Reference counts. -/

/-- What a thread holds on an inode is counted in its entry. -/
theorem Counts.held (h : Counts w (l ::ₘ f)) (a : Addr) :
    w.nlookup a + l.shared a + l.forgets a + l.refs a ≤ w.refcnt a := by
  have refcnt := h.refcnt a
  have forgetting := h.forgetting a
  have shared := h.shared a
  simp only [total_cons] at refcnt forgetting shared
  omega

structure World.SameCounts (w w' : World) : Prop where
  view : w'.inodes.view = w.inodes.view
  nlookup : w'.nlookup = w.nlookup
  uncounted : w'.uncounted = w.uncounted
  forgetting : w'.forgetting = w.forgetting
  shared : w'.shared = w.shared

structure Ledger.SameRefs (l l' : Ledger) : Prop where
  shared : l'.shared = l.shared
  refs : l'.refs = l.refs
  forgets : l'.forgets = l.forgets

theorem Counts.keep (h : Counts w (l ::ₘ f)) (world : w.SameCounts w') (ledger : l.SameRefs l') :
    Counts w' (l' ::ₘ f) := by
  obtain ⟨refcnt, forgetting, shared, live⟩ := h
  simp only [total_cons] at refcnt forgetting shared
  constructor
  · intro a
    have same : w'.refcnt a = w.refcnt a := by simp only [World.refcnt, world.view]
    rw [same, refcnt, world.nlookup, world.uncounted, world.forgetting, world.shared, total_cons,
      ledger.refs]
  · intro a
    rw [world.forgetting, forgetting, total_cons, ledger.forgets]
  · intro a
    rw [world.shared, shared, total_cons, ledger.shared]
  · intro a e
    rw [world.view]
    exact live a e

/-- The stored counts and the books that account for them change by the same amounts. -/
theorem Counts.change (h : Counts w (l ::ₘ f))
    (balance : ∀ b, w'.refcnt b + w.nlookup b + w.uncounted b + w.forgetting b + w.shared b +
        l.refs b =
      w.refcnt b + w'.nlookup b + w'.uncounted b + w'.forgetting b + w'.shared b + l'.refs b)
    (forgetting : ∀ b, w'.forgetting b + l.forgets b = w.forgetting b + l'.forgets b)
    (shared : ∀ b, w'.shared b + l.shared b = w.shared b + l'.shared b)
    (live : ∀ b e, w'.inodes.view b = some e → 0 < e.refcnt) : Counts w' (l' ::ₘ f) := by
  refine ⟨fun b => ?_, fun b => ?_, fun b => ?_, live⟩
  · have old := h.refcnt b
    have change := balance b
    simp only [total_cons] at old ⊢
    omega
  · have old := h.forgetting b
    have change := forgetting b
    simp only [total_cons] at old ⊢
    omega
  · have old := h.shared b
    have change := shared b
    simp only [total_cons] at old ⊢
    omega

theorem Counts.live_update {o : Option Entry} {new : Addr → Option Entry} (h : Counts w f)
    (view : new = Function.update w.inodes.view a o) (live : ∀ e, o = some e → 0 < e.refcnt)
    (b : Addr) (e : Entry) (hb : new b = some e) : 0 < e.refcnt := by
  rw [view, Function.update_apply] at hb
  split at hb
  · exact live e hb
  · exact h.live b e hb

/-! Descriptors. -/

theorem Descriptors.held {fd : Fd} (h : Descriptors w (l ::ₘ f)) (pos : 0 < l.fds fd) :
    w.fds fd = some .thread := by
  have thread := h.thread fd
  rw [total_cons] at thread
  by_contra other
  rw [if_neg other] at thread
  omega

/-- A descriptor that only a thread or libfuse can close, or nobody. -/
def Loose : Option Owner → Prop
  | none | some .thread | some .handle | some .leaked => True
  | _ => False

theorem Loose.ne_inode {o : Option Owner} (h : Loose o) (a : Addr) : o ≠ some (.inode a) := by
  rintro rfl
  exact h

/-- The owner of `fd` changes to `o`, and the ledger of one thread with it. -/
structure Moves (w w' : World) (l l' : Ledger) (fd : Fd) (o : Option Owner) : Prop where
  root : w'.root.fd = w.root.fd
  fds : w'.fds = Function.update w.fds fd o
  ledger : ∀ fd', l'.fds fd' + (if fd' = fd ∧ w.fds fd = some .thread then 1 else 0) =
    l.fds fd' + if fd' = fd ∧ o = some .thread then 1 else 0

theorem Descriptors.move {fd : Fd} {o : Option Owner} (h : Descriptors w (l ::ₘ f))
    (moves : Moves w w' l l' fd o) (notRoot : w.fds fd ≠ some .root)
    (inode : ∀ a fd', w'.fds fd' = some (.inode a) ↔ (w'.inodes.view a).map Entry.fd = some fd')
    (stream : ∀ d fd', w'.streams d = some fd' → w'.fds fd' = some (.stream d)) :
    Descriptors w' (l' ::ₘ f) := by
  refine ⟨?_, inode, fun fd' => ?_, stream⟩
  · have ne : w.root.fd ≠ fd := by
      rintro rfl
      exact notRoot h.root
    rw [moves.root, moves.fds, Function.update_of_ne ne]
    exact h.root
  · have old := h.thread fd'
    have change := moves.ledger fd'
    rw [total_cons] at old ⊢
    rw [moves.fds, Function.update_apply]
    by_cases same : fd' = fd
    · subst same
      simp only [true_and, if_true] at change ⊢
      omega
    · simp only [same, false_and, if_false] at change ⊢
      omega

theorem give_ledger {fd : Fd} {o : Option Owner} (held : 0 < l.fds fd)
    (owner : w.fds fd = some .thread) (other : o ≠ some .thread) (fd' : Fd) :
    (l.fds - Pi.single fd 1 : Fd → Nat) fd' + (if fd' = fd ∧ w.fds fd = some .thread then 1 else 0) =
      l.fds fd' + if fd' = fd ∧ o = some .thread then 1 else 0 := by
  simp only [Pi.sub_apply, Pi.single_apply, owner, other, and_true, and_false, if_false]
  by_cases same : fd' = fd
  · subst same
    simp only [if_true]
    omega
  · simp [same]

theorem Descriptors.inode_update {fd : Fd} {o : Option Owner} (h : Descriptors w f)
    (old : ∀ a, w.fds fd ≠ some (.inode a)) (new : ∀ a, o ≠ some (.inode a)) (a : Addr) (fd' : Fd) :
    Function.update w.fds fd o fd' = some (.inode a) ↔
      (w.inodes.view a).map Entry.fd = some fd' := by
  rw [Function.update_apply, ← h.inode]
  by_cases same : fd' = fd
  · subst same
    rw [if_pos rfl]
    exact iff_of_false (new a) (old a)
  · rw [if_neg same]

theorem Descriptors.stream_update {fd fd' : Fd} {o : Option Owner} {d : DirPtr}
    (h : Descriptors w f) (other : w.fds fd ≠ some (.stream d)) (open_ : w.streams d = some fd') :
    Function.update w.fds fd o fd' = some (.stream d) := by
  have owner := h.stream d fd' open_
  have ne : fd' ≠ fd := by
    rintro rfl
    exact other owner
  rw [Function.update_of_ne ne]
  exact owner

theorem Descriptors.move_loose {fd : Fd} {o : Option Owner} (h : Descriptors w (l ::ₘ f))
    (moves : Moves w w' l l' fd o) (old : Loose (w.fds fd)) (new : Loose o)
    (view : w'.inodes.view = w.inodes.view) (streams : w'.streams = w.streams) :
    Descriptors w' (l' ::ₘ f) := by
  refine h.move moves ?_ (fun a fd' => ?_) (fun d fd' open_ => ?_)
  · intro root
    rw [root] at old
    exact old
  · rw [moves.fds, view]
    exact h.inode_update old.ne_inode new.ne_inode a fd'
  · rw [streams] at open_
    rw [moves.fds]
    refine h.stream_update (fun owner => ?_) open_
    rw [owner] at old
    exact old

theorem Descriptors.keep (h : Descriptors w (l ::ₘ f)) (root : w'.root.fd = w.root.fd)
    (view : ∀ a, (w'.inodes.view a).map Entry.fd = (w.inodes.view a).map Entry.fd)
    (fds : w'.fds = w.fds) (streams : w'.streams = w.streams) (ledger : l'.fds = l.fds) :
    Descriptors w' (l' ::ₘ f) := by
  constructor
  · rw [root, fds]
    exact h.root
  · intro a fd
    rw [fds, view]
    exact h.inode a fd
  · intro fd
    have thread := h.thread fd
    rw [total_cons] at thread ⊢
    rw [fds, ledger]
    exact thread
  · intro d fd
    rw [fds, streams]
    exact h.stream d fd

/-- A new count leaves the descriptors in the cache as they are. -/
theorem map_fd_update {view : Addr → Option Entry} {e : Entry} (e' : Entry) (h : view a = some e)
    (fd : e'.fd = e.fd) (b : Addr) :
    (Function.update view a (some e') b).map Entry.fd = (view b).map Entry.fd := by
  by_cases same : b = a
  · subst same
    simp [h, fd]
  · rw [Function.update_of_ne same]

/-! Requests. -/

theorem Requests.owner (h : Requests w (l ::ₘ f)) (owed : l.owed = true) :
    w.pending l.req = some l.request := h.pending l (Multiset.mem_cons_self l f) owed

/-- No other thread owes the reply that this one owes. -/
theorem Requests.other (h : Requests w (l ::ₘ f)) (owed : l.owed = true) {m : Ledger}
    (mem : m ∈ f) (owed' : m.owed = true) : m.req ≠ l.req := by
  intro same
  have once := h.once l.req
  have mine : l.owes l.req = 1 := if_pos ⟨owed, rfl⟩
  have theirs : m.owes l.req = 1 := if_pos ⟨owed', same⟩
  have le : m.owes l.req ≤ total (fun l' => l'.owes l.req) f :=
    le_total_of_mem (g := fun l' => l'.owes l.req) mem
  rw [total_cons] at once
  omega

theorem Requests.keep (h : Requests w (l ::ₘ f)) (pending : w'.pending = w.pending)
    (nlookup : ∀ a, w.nlookup a ≤ w'.nlookup a)
    (handles : ∀ fd, w.fds fd = some .handle → w'.fds fd = some .handle)
    (req : l'.req = l.req) (request : l'.request = l.request) (owed : l'.owed = l.owed) :
    Requests w' (l' ::ₘ f) := by
  constructor
  · intro m mem owed'
    rw [pending]
    rcases Multiset.mem_cons.mp mem with rfl | mem
    · rw [req, request]
      exact h.owner (owed ▸ owed')
    · exact h.pending m (Multiset.mem_cons_of_mem mem) owed'
  · intro q
    have once := h.once q
    have same : l'.owes q = l.owes q := by simp only [Ledger.owes, req, owed]
    rw [total_cons] at once ⊢
    rw [same]
    exact once
  · intro q r asked a named notRoot
    rw [pending] at asked
    exact lt_of_lt_of_le (h.names q r asked a named notRoot) (nlookup a)
  · intro q r asked fd lent
    rw [pending] at asked
    exact handles fd (h.handles q r asked fd lent)

/-! One lemma for each kind of call. -/

/-- What the accounts say of a ledger is unchanged. -/
structure Ledger.Same (l l' : Ledger) : Prop extends l.SameRefs l' where
  fds : l'.fds = l.fds
  req : l'.req = l.req
  request : l'.request = l.request
  owed : l'.owed = l.owed

theorem Ledger.Same.sawGeneration (l : Ledger) (a : Addr) (memo : Option (Except VersionError Nat)) :
    l.Same (l.sawGeneration a memo) := by
  rcases memo with _ | _ | v <;> exact ⟨⟨rfl, rfl, rfl⟩, rfl, rfl, rfl, rfl⟩

theorem Inv.same (h : Inv w (l ::ₘ f)) (ledger : l.Same l') : Inv w (l' ::ₘ f) where
  counts := h.counts.keep ⟨rfl, rfl, rfl, rfl, rfl⟩ ledger.toSameRefs
  descriptors := h.descriptors.keep rfl (fun _ => rfl) rfl rfl ledger.fds
  requests := h.requests.keep rfl (fun _ => le_refl _) (fun _ owner => owner) ledger.req
    ledger.request ledger.owed

theorem handles_update {fd : Fd} {o : Option Owner} (other : w.fds fd ≠ some .handle) (fd' : Fd)
    (h : w.fds fd' = some .handle) : Function.update w.fds fd o fd' = some .handle := by
  have ne : fd' ≠ fd := by
    rintro rfl
    exact other h
  rw [Function.update_of_ne ne]
  exact h

/-- open(2), dup(2): a free descriptor becomes the thread's. -/
theorem Inv.opened {fd : Fd} (h : Inv w (l ::ₘ f)) (free : w.fds fd = none) :
    Inv (w.own fd (some .thread)) (l.gain fd ::ₘ f) where
  counts := h.counts.keep ⟨rfl, rfl, rfl, rfl, rfl⟩ ⟨rfl, rfl, rfl⟩
  descriptors := by
    refine h.descriptors.move_loose (o := some .thread) ⟨rfl, rfl, fun fd' => ?_⟩ ?_ trivial rfl rfl
    · simp [Ledger.gain, free, Pi.single_apply]
    · rw [free]
      trivial
  requests := h.requests.keep rfl (fun _ => le_refl _) (handles_update (by simp [free])) rfl rfl rfl

/-- The thread gives a descriptor away. -/
theorem Inv.given {fd : Fd} {o : Option Owner} (h : Inv w (l ::ₘ f)) (held : 0 < l.fds fd)
    (loose : Loose o) (other : o ≠ some .thread) :
    Inv (w.own fd o) ({ l with fds := l.fds - Pi.single fd 1 } ::ₘ f) := by
  have owner := h.descriptors.held held
  refine ⟨h.counts.keep ⟨rfl, rfl, rfl, rfl, rfl⟩ ⟨rfl, rfl, rfl⟩, ?_, ?_⟩
  · refine h.descriptors.move_loose (o := o) ⟨rfl, rfl, give_ledger held owner other⟩ ?_ loose rfl rfl
    rw [owner]
    trivial
  · exact h.requests.keep rfl (fun _ => le_refl _) (handles_update (by simp [owner])) rfl rfl rfl

/-- fdopendir(3) succeeds: the stream owns the descriptor. -/
theorem Inv.streamOpened {fd : Fd} {d : DirPtr} (h : Inv w (l ::ₘ f)) (held : 0 < l.fds fd) :
    Inv { w.own fd (some (.stream d)) with streams := Function.update w.streams d (some fd) }
      ({ l with fds := l.fds - Pi.single fd 1 } ::ₘ f) := by
  have owner := h.descriptors.held held
  have notThread : some (Owner.stream d) ≠ some .thread := by simp
  refine ⟨h.counts.keep ⟨rfl, rfl, rfl, rfl, rfl⟩ ⟨rfl, rfl, rfl⟩, ?_, ?_⟩
  · refine h.descriptors.move (o := some (.stream d)) ⟨rfl, rfl, give_ledger held owner notThread⟩
      (by simp [owner]) (h.descriptors.inode_update (by simp [owner]) (by simp)) ?_
    intro d' fd' open_
    dsimp only at open_
    rw [Function.update_apply] at open_
    split at open_
    · next same =>
        cases open_
        subst same
        exact Function.update_self ..
    · exact h.descriptors.stream_update (by simp [owner]) open_
  · exact h.requests.keep rfl (fun _ => le_refl _) (handles_update (by simp [owner])) rfl rfl rfl

/-- closedir(3) closes the descriptor of an open stream. -/
theorem Inv.streamClosed {fd : Fd} {d : DirPtr} (h : Inv w (l ::ₘ f))
    (open_ : w.streams d = some fd) :
    Inv { w.own fd none with streams := Function.update w.streams d none } (l ::ₘ f) := by
  have owner := h.descriptors.stream d fd open_
  refine ⟨h.counts.keep ⟨rfl, rfl, rfl, rfl, rfl⟩ ⟨rfl, rfl, rfl⟩, ?_, ?_⟩
  · refine h.descriptors.move (o := none) ⟨rfl, rfl, fun fd' => ?_⟩ (by simp [owner])
      (h.descriptors.inode_update (by simp [owner]) (by simp)) fun d' fd' open_' => ?_
    · simp [owner]
    · dsimp only at open_'
      rw [Function.update_apply] at open_'
      split at open_'
      · cases open_'
      · next ne =>
          refine h.descriptors.stream_update (fun owner' => ne ?_) open_'
          rw [owner] at owner'
          cases owner'
          rfl
  · exact h.requests.keep rfl (fun _ => le_refl _) (handles_update (by simp [owner])) rfl rfl rfl

/-- Writes to the members that the accounts do not look at. -/
theorem Inv.wrote {r : InodeRef} {g : Inode → Inode} {k : ∀ i, (g i).key = i.key}
    (h : Inv w (l ::ₘ f)) (fd : ∀ i, (g i).fd = i.fd) : Inv (w.write r g k) (l ::ₘ f) := by
  cases r with
  | root =>
      refine ⟨h.counts.keep ⟨rfl, rfl, rfl, rfl, rfl⟩ ⟨rfl, rfl, rfl⟩, ?_, ?_⟩
      · exact h.descriptors.keep (fd w.root) (fun _ => rfl) rfl rfl rfl
      · exact h.requests.keep rfl (fun _ => le_refl _) (fun _ owner => owner) rfl rfl rfl
  | node a =>
      have view : (w.inodes.update a g k).view = w.inodes.view := InodeCache.update_view k fd
      refine ⟨h.counts.keep ⟨view, rfl, rfl, rfl, rfl⟩ ⟨rfl, rfl, rfl⟩, ?_, ?_⟩
      · refine h.descriptors.keep rfl (fun b => ?_) rfl rfl rfl
        exact congrArg (fun v : Addr → Option Entry => (v b).map Entry.fd) view
      · exact h.requests.keep rfl (fun _ => le_refl _) (fun _ owner => owner) rfl rfl rfl

theorem Inv.directories (h : Inv w (l ::ₘ f)) (directories : Addr → Option DirPtr) :
    Inv { w with directories } (l ::ₘ f) where
  counts := h.counts.keep ⟨rfl, rfl, rfl, rfl, rfl⟩ ⟨rfl, rfl, rfl⟩
  descriptors := h.descriptors.keep rfl (fun _ => rfl) rfl rfl rfl
  requests := h.requests.keep rfl (fun _ => le_refl _) (fun _ owner => owner) rfl rfl rfl

/-- One reference more, and one `shared_ptr` that owns it. -/
theorem Counts.inserted {e : Entry} {inodes : InodeCache} {fds : Fd → Option Owner} {i : Inode}
    {r : Inserted} (h : Counts w (l ::ₘ f)) (one : e.refcnt = w.refcnt r.addr + 1)
    (view : inodes.view = Function.update w.inodes.view r.addr (some e)) :
    Counts { w with inodes := inodes, shared := w.shared + Pi.single r.addr 1, fds := fds }
      (l.after (.insert i) r ::ₘ f) := by
  refine h.change (fun b => ?_) (fun b => rfl) (fun b => ?_) ?_
  · rw [World.refcnt_update (w := w) view]
    by_cases same : b = r.addr
    · subst same
      simp only [if_true, Option.map_some, Option.getD_some, Ledger.after, Pi.add_apply,
        Pi.single_eq_same]
      omega
    · simp only [if_neg same, Ledger.after, Pi.add_apply, Pi.single_eq_of_ne same]
      omega
  · simp only [Ledger.after, Pi.add_apply]
    omega
  · refine h.live_update view fun e' h => ?_
    cases h
    omega

/-- A fresh node takes the descriptor of its inode over. -/
theorem Descriptors.inserted {e : Entry} {inodes : InodeCache} {shared : Addr → Nat} {fd : Fd}
    (h : Descriptors w (l ::ₘ f)) (held : 0 < l.fds fd) (free : w.inodes.view a = none)
    (view : inodes.view = Function.update w.inodes.view a (some e)) (e_fd : e.fd = fd)
    (ledger : l'.fds = l.fds - Pi.single fd 1) :
    Descriptors { w with
      inodes := inodes, shared := shared, fds := Function.update w.fds fd (some (.inode a)) }
      (l' ::ₘ f) := by
  have owner := h.held held
  have notThread : some (Owner.inode a) ≠ some .thread := by simp
  refine h.move (o := some (.inode a)) ⟨rfl, rfl, fun fd' => ?_⟩ (by simp [owner])
    (fun b fd' => ?_) (fun d fd' open_ => h.stream_update (by simp [owner]) open_)
  · rw [ledger]
    exact give_ledger held owner notThread fd'
  · dsimp only
    rw [view]
    by_cases same : b = a
    · subst same
      rw [Function.update_self, Option.map_some, e_fd, Function.update_apply]
      by_cases here : fd' = fd
      · simp [here]
      · rw [if_neg here, h.inode, free]
        simp [Ne.symm here]
    · rw [Function.update_of_ne same, ← h.inode, Function.update_apply]
      by_cases here : fd' = fd
      · simp [here, owner, Ne.symm same]
      · rw [if_neg here]

theorem Inv.inserted {counts : String → Bool} {i : Inode} {r : Inserted} (h : Inv w (l ::ₘ f))
    (held : 0 < l.fds i.fd) (answers : w.Answers (.insert i) r) :
    Inv (w.effect counts (.insert i) r) (l.after (.insert i) r ::ₘ f) := by
  obtain ⟨fresh, free, inodes, view, effect⟩ | ⟨hit, e, inodes, found, -, view, effect⟩ :=
    World.insert_cases counts answers
  · have owner := h.descriptors.held held
    have absent : w.refcnt r.addr = 0 := by simp [World.refcnt, free]
    have ledger : (l.after (.insert i) r).fds = l.fds - Pi.single i.fd 1 := by
      simp [Ledger.after, fresh]
    rw [effect]
    refine ⟨h.counts.inserted (by simp [absent]) view,
      h.descriptors.inserted held free view rfl ledger, ?_⟩
    exact h.requests.keep rfl (fun _ => le_refl _) (handles_update (by simp [owner])) rfl rfl rfl
  · have present : w.refcnt r.addr = e.refcnt := World.refcnt_of_view found
    have ledger : (l.after (.insert i) r).fds = l.fds := by simp [Ledger.after, hit]
    rw [effect]
    refine ⟨h.counts.inserted (by simp [present]) view, ?_, ?_⟩
    · refine h.descriptors.keep rfl (fun b => ?_) rfl rfl ledger
      dsimp only
      rw [view]
      exact map_fd_update { e with refcnt := e.refcnt + 1 } found rfl b
    · exact h.requests.keep rfl (fun _ => le_refl _) (fun _ owner => owner) rfl rfl rfl

theorem Inv.refed {counts : String → Bool} {n : Nat} {rc : Option Key} (h : Inv w (l ::ₘ f))
    (held : 0 < l.shared a) (answers : w.Answers (.ref (.node a) n) rc) :
    rc = none ∧ Inv (w.effect counts (.ref (.node a) n) rc) (l.after (.ref (.node a) n) rc ::ₘ f) := by
  have found : 0 < w.refcnt a := lt_of_lt_of_le held (by have := h.counts.held a; omega)
  obtain ⟨none, e, inodes, present, view, effect⟩ := World.ref_cases counts answers found
  refine ⟨none, ?_⟩
  rw [effect]
  refine ⟨?_, ?_, ?_⟩
  · refine h.counts.change (fun b => ?_) (fun b => rfl) (fun b => rfl) ?_
    · have count := World.refcnt_of_view present
      rw [World.refcnt_update (w := w) view]
      by_cases same : b = a
      · subst same
        simp only [if_true, Option.map_some, Option.getD_some, Ledger.after, Pi.add_apply,
          Pi.single_eq_same]
        omega
      · simp only [if_neg same, Ledger.after, Pi.add_apply, Pi.single_eq_of_ne same]
        omega
    · refine h.counts.live_update view fun e' same => ?_
      cases same
      have live := h.counts.live a e present
      exact Nat.add_pos_left live n
  · refine h.descriptors.keep rfl (fun b => ?_) rfl rfl rfl
    dsimp only
    rw [view]
    exact map_fd_update { e with refcnt := e.refcnt + n } present rfl b
  · exact h.requests.keep rfl (fun _ => le_refl _) (fun _ owner => owner) rfl rfl rfl

/-- The thread that erases an entry takes its descriptor over. -/
theorem Descriptors.erased {e : Entry} {inodes : InodeCache} {shared forgetting : Addr → Nat}
    (h : Descriptors w (l ::ₘ f)) (present : w.inodes.view a = some e)
    (view : inodes.view = Function.update w.inodes.view a none)
    (ledger : l'.fds = l.fds + Pi.single e.fd 1) :
    Descriptors { w with
      inodes := inodes, fds := Function.update w.fds e.fd (some .thread), shared := shared,
      forgetting := forgetting } (l' ::ₘ f) := by
  have owner : w.fds e.fd = some (.inode a) := (h.inode a e.fd).mpr (by simp [present])
  refine h.move (o := some .thread) ⟨rfl, rfl, fun fd' => ?_⟩ (by simp [owner]) (fun b fd' => ?_)
    (fun d fd' open_ => h.stream_update (by simp [owner]) open_)
  · simp [ledger, owner, Pi.single_apply]
  · dsimp only
    rw [view, Function.update_apply]
    by_cases here : fd' = e.fd
    · subst here
      rw [if_pos rfl]
      by_cases same : b = a
      · simp [same]
      · rw [Function.update_of_ne same, ← h.inode, owner]
        simp [Ne.symm same]
    · rw [if_neg here, h.inode]
      by_cases same : b = a
      · subst same
        simp [present, Ne.symm here]
      · rw [Function.update_of_ne same]

/-- References are given back, together with the books that account for them. -/
theorem Inv.unrefed {n : Nat} {answer : Unrefed} {forgetting shared : Addr → Nat}
    (h : Inv w (l ::ₘ f)) (answers : w.Unrefs (.node a) n answer) (pos : 0 < n)
    (le : n ≤ w.refcnt a)
    (balance : ∀ b, w.forgetting b + w.shared b + l.refs b =
      forgetting b + shared b + l'.refs b + if b = a then n else 0)
    (forgets : ∀ b, forgetting b + l.forgets b = w.forgetting b + l'.forgets b)
    (shares : ∀ b, shared b + l.shared b = w.shared b + l'.shared b)
    (fds : l'.fds = l.fds + answer.fds) (req : l'.req = l.req) (request : l'.request = l.request)
    (owed : l'.owed = l.owed) :
    (∃ erased, answer = .dropped erased) ∧
      Inv { w.unref (.node a) n answer with forgetting := forgetting, shared := shared }
        (l' ::ₘ f) := by
  obtain ⟨e, inodes, present, ⟨last, view, ⟨i, i_fd, rfl⟩, effect⟩ | ⟨more, view, rfl, effect⟩⟩ :=
    World.unref_cases answers pos le
  · have owner : w.fds e.fd = some (.inode a) :=
      (h.descriptors.inode a e.fd).mpr (by simp [present])
    have count := World.refcnt_of_view present
    refine ⟨⟨_, rfl⟩, ?_⟩
    rw [effect]
    refine ⟨?_, ?_, ?_⟩
    · refine h.counts.change (fun b => ?_) forgets shares ?_
      · have change := balance b
        rw [World.refcnt_update (w := w) view]
        by_cases same : b = a
        · subst same
          simp only [if_true, Option.map_none, Option.getD_none] at change ⊢
          omega
        · simp only [if_neg same] at change ⊢
          omega
      · exact h.counts.live_update view fun e' none => nomatch none
    · refine h.descriptors.erased present view ?_
      rw [fds, ← i_fd]
      rfl
    · exact h.requests.keep rfl (fun _ => le_refl _) (handles_update (by simp [owner])) req request
        owed
  · have count := World.refcnt_of_view present
    refine ⟨⟨_, rfl⟩, ?_⟩
    rw [effect]
    refine ⟨?_, ?_, ?_⟩
    · refine h.counts.change (fun b => ?_) forgets shares ?_
      · have change := balance b
        rw [World.refcnt_update (w := w) view]
        by_cases same : b = a
        · subst same
          simp only [if_true, Option.map_some, Option.getD_some] at change ⊢
          omega
        · simp only [if_neg same] at change ⊢
          omega
      · refine h.counts.live_update view fun e' same => ?_
        cases same
        exact Nat.sub_pos_of_lt more
    · refine h.descriptors.keep rfl (fun b => ?_) rfl rfl (by rw [fds]; rfl)
      dsimp only
      rw [view]
      exact map_fd_update { e with refcnt := e.refcnt - n } present rfl b
    · exact h.requests.keep rfl (fun _ => le_refl _) (fun _ owner => owner) req request owed

@[simp] theorem World.takeErased_forgetting (w : World) (u : Unrefed) :
    (w.takeErased u).forgetting = w.forgetting := by
  unfold takeErased
  split <;> rfl

@[simp] theorem World.takeErased_shared (w : World) (u : Unrefed) :
    (w.takeErased u).shared = w.shared := by
  unfold takeErased
  split <;> rfl

theorem World.unref_forgetting (w : World) (r : InodeRef) (n : Nat) (u : Unrefed) :
    (w.unref r n u).forgetting = w.forgetting := by
  unfold unref
  split <;> simp

theorem World.unref_shared (w : World) (r : InodeRef) (n : Nat) (u : Unrefed) :
    (w.unref r n u).shared = w.shared := by
  unfold unref
  split <;> simp

theorem sub_single_add {g : Addr → Nat} {n : Nat} (le : n ≤ g a) (b : Addr) :
    (g - Pi.single a n : Addr → Nat) b + (if b = a then n else 0) = g b := by
  simp only [Pi.sub_apply, Pi.single_apply]
  by_cases same : b = a
  · subst same
    simp only [if_true]
    omega
  · simp [same]

section Unref
variable {counts : String → Bool} {n : Nat} {u : Unrefed}

theorem Inv.cleaned (h : Inv w (l ::ₘ f)) (pos : 0 < n) (le : n ≤ l.refs a)
    (answers : w.Unrefs (.node a) n u) : (∃ erased, u = .dropped erased) ∧
      Inv (w.effect counts (.unref .cleanup (.node a) n) u)
        (l.after (.unref .cleanup (.node a) n) u ::ₘ f) := by
  have counted : n ≤ w.refcnt a := le.trans (by have := h.counts.held a; omega)
  have effect : w.effect counts (.unref .cleanup (.node a) n) u =
      { w.unref (.node a) n u with forgetting := w.forgetting, shared := w.shared } := by
    rw [← w.unref_forgetting (.node a) n u, ← w.unref_shared (.node a) n u]
    rfl
  rw [effect]
  refine h.unrefed answers pos counted (fun b => ?_) (fun _ => rfl) (fun _ => rfl) rfl rfl rfl rfl
  have less := sub_single_add le b
  simp only [Ledger.after]
  omega

theorem Inv.forgot (h : Inv w (l ::ₘ f)) (pos : 0 < n) (le : n ≤ l.forgets a)
    (answers : w.Unrefs (.node a) n u) : (∃ erased, u = .dropped erased) ∧
      Inv (w.effect counts (.unref .forget (.node a) n) u)
        (l.after (.unref .forget (.node a) n) u ::ₘ f) := by
  have counted : n ≤ w.refcnt a := le.trans (by have := h.counts.held a; omega)
  have sent : n ≤ w.forgetting a := by
    have forgetting := h.counts.forgetting a
    rw [total_cons] at forgetting
    omega
  have effect : w.effect counts (.unref .forget (.node a) n) u =
      { w.unref (.node a) n u with
        forgetting := w.forgetting - Pi.single a n, shared := w.shared } := by
    rw [← w.unref_shared (.node a) n u]
    rfl
  rw [effect]
  refine h.unrefed answers pos counted (fun b => ?_) (fun b => ?_) (fun _ => rfl) rfl rfl rfl rfl
  · have less := sub_single_add sent b
    simp only [Ledger.after]
    omega
  · have less := sub_single_add sent b
    have less' := sub_single_add le b
    simp only [Ledger.after]
    omega

theorem Inv.droppedShared (h : Inv w (l ::ₘ f)) (held : 0 < l.shared a)
    (answers : w.Unrefs (.node a) 1 u) : (∃ erased, u = .dropped erased) ∧
      Inv (w.effect counts (.dropShared a) u) (l.after (.dropShared a) u ::ₘ f) := by
  have counted : 1 ≤ w.refcnt a := held.trans_le (by have := h.counts.held a; omega)
  have owned : 1 ≤ w.shared a := by
    have shared := h.counts.shared a
    rw [total_cons] at shared
    omega
  have effect : w.effect counts (.dropShared a) u =
      { w.unref (.node a) 1 u with
        forgetting := w.forgetting, shared := w.shared - Pi.single a 1 } := by
    rw [← w.unref_forgetting (.node a) 1 u]
    rfl
  rw [effect]
  refine h.unrefed answers Nat.one_pos counted (fun b => ?_) (fun _ => rfl) (fun b => ?_) rfl rfl
    rfl rfl
  · have less := sub_single_add owned b
    simp only [Ledger.after]
    omega
  · have less := sub_single_add owned b
    have less' := sub_single_add (n := 1) held b
    simp only [Ledger.after]
    omega

end Unref

/-! Replies. -/

/-- The request is answered; the kernel knows at least the ids and handles it knew. -/
theorem Requests.answered (h : Requests w (l ::ₘ f)) (owed : l.owed = true)
    (pending : w'.pending = Function.update w.pending l.req none)
    (nlookup : ∀ a, w.nlookup a ≤ w'.nlookup a)
    (handles : ∀ fd, w.fds fd = some .handle → w'.fds fd = some .handle) (gone : l'.owed = false) :
    Requests w' (l' ::ₘ f) := by
  have still : ∀ {q r}, w'.pending q = some r → w.pending q = some r := by
    intro q r asked
    rw [pending, Function.update_apply] at asked
    split at asked
    · cases asked
    · exact asked
  constructor
  · intro m mem owed'
    rcases Multiset.mem_cons.mp mem with rfl | mem
    · rw [gone] at owed'
      cases owed'
    · rw [pending, Function.update_of_ne (h.other owed mem owed')]
      exact h.pending m (Multiset.mem_cons_of_mem mem) owed'
  · intro q
    have once := h.once q
    have none : l'.owes q = 0 := by simp [Ledger.owes, gone]
    rw [total_cons] at once ⊢
    omega
  · intro q r asked a named notRoot
    exact lt_of_lt_of_le (h.names q r (still asked) a named notRoot) (nlookup a)
  · intro q r asked fd lent
    exact handles fd (h.handles q r (still asked) fd lent)

/-- The kernel counts what the thread had taken references for. -/
theorem Counts.received {counts : String → Bool} {reply : Reply}
    {pending : FuseReq → Option Request} {given : List Given} {fds : Fd → Option Owner}
    (h : Counts w (l ::ₘ f)) (entries : ∀ a, reply.entries.count a = l.refs a)
    (refs : l'.refs = 0) (shared : l'.shared = l.shared) (forgets : l'.forgets = l.forgets) :
    Counts { w with
      pending := pending
      nlookup := w.nlookup + fun a => (reply.counted counts).count a
      uncounted := w.uncounted + fun a => (reply.uncounted counts).count a
      given := given
      fds := fds } (l' ::ₘ f) := by
  refine h.change (fun b => ?_) (fun b => by rw [forgets]) (fun b => by rw [shared]) h.live
  have sent := entries b
  rw [Reply.count_entries counts] at sent
  simp only [Pi.add_apply, refs, Pi.zero_apply]
  change w.refcnt b + _ + _ + _ + _ + _ = _
  omega

theorem Inv.replied {counts : String → Bool} {req : FuseReq} {reply : Reply} {rc : Option Errno}
    (h : Inv w (l ::ₘ f)) (may : l.MayReply req reply) :
    Inv (w.effect counts (.fuseReply req reply) rc) (l.after (.fuseReply req reply) rc ::ₘ f) := by
  obtain ⟨rfl, owed, entries, -, -, takes, -, -⟩ := may
  cases rc with
  | some e =>
      refine ⟨h.counts.keep ⟨rfl, rfl, rfl, rfl, rfl⟩ ⟨rfl, rfl, rfl⟩, ?_, ?_⟩
      · exact h.descriptors.keep rfl (fun _ => rfl) rfl rfl rfl
      · exact h.requests.answered owed rfl (fun _ => le_refl _) (fun _ owner => owner) rfl
  | none =>
      have more (a : Addr) : w.nlookup a ≤ w.nlookup a + (reply.counted counts).count a :=
        Nat.le_add_right _ _
      cases handle : reply.handle l.req with
      | none =>
          have fds : (l.after (.fuseReply l.req reply) none).fds = l.fds := by
            simp only [Ledger.after]
            rw [Ledger.sent_eq handle]
          have effect : w.effect counts (.fuseReply l.req reply) none = { w with
              pending := Function.update w.pending l.req none
              nlookup := w.nlookup + fun a => (reply.counted counts).count a
              uncounted := w.uncounted + fun a => (reply.uncounted counts).count a
              given := w.given ++ reply.params.filterMap fun p =>
                (w.inodes.view p.ino).map fun e => ⟨p.ino, p.generation, e.key⟩ } := by
            simp only [World.effect, World.receive, handle]
          rw [effect]
          refine ⟨h.counts.received entries rfl rfl rfl, ?_, ?_⟩
          · exact h.descriptors.keep rfl (fun _ => rfl) rfl rfl fds
          · exact h.requests.answered owed rfl more (fun _ owner => owner) rfl
      | some fd =>
          have held := takes fd handle
          have owner := h.descriptors.held held
          have fds : (l.after (.fuseReply l.req reply) none).fds = l.fds - Pi.single fd 1 := by
            funext fd'
            simp only [Ledger.after, Ledger.sent, handle, Option.some.injEq, Pi.sub_apply,
              Pi.single_apply]
            rw [if_congr (eq_comm (a := fd) (b := fd')) rfl rfl]
          have effect : w.effect counts (.fuseReply l.req reply) none = { w with
              pending := Function.update w.pending l.req none
              nlookup := w.nlookup + fun a => (reply.counted counts).count a
              uncounted := w.uncounted + fun a => (reply.uncounted counts).count a
              given := w.given ++ reply.params.filterMap fun p =>
                (w.inodes.view p.ino).map fun e => ⟨p.ino, p.generation, e.key⟩
              fds := Function.update w.fds fd (some .handle) } := by
            simp only [World.effect, World.receive, handle, World.own]
          have notThread : some Owner.handle ≠ some .thread := by simp
          rw [effect]
          refine ⟨h.counts.received entries rfl rfl rfl, ?_, ?_⟩
          · refine h.descriptors.move_loose (o := some .handle) ⟨rfl, rfl, fun fd' => ?_⟩ ?_ trivial
              rfl rfl
            · rw [fds]
              exact give_ledger held owner notThread fd'
            · rw [owner]
              trivial
          · exact h.requests.answered owed rfl more (handles_update (by simp [owner])) rfl

/-- Every call that a ledger allows is answered as expected, and the books stay balanced. -/
theorem Inv.act {counts : String → Bool} {c : Call} {r : c.Ret} (allows : l.Allows c)
    (answers : w.Answers c r) (h : Inv w (l ::ₘ f)) :
    Ledger.Expects c r ∧ Inv (w.effect counts c r) (l.after c r ::ₘ f) := by
  have permits := allows.permits
  cases c with
  | sys s =>
      refine ⟨trivial, ?_⟩
      cases s
      case open_ | openat | dup =>
          cases r with
          | error e => exact h
          | ok fd => exact h.opened answers
      case close => exact h.given permits trivial (by simp)
      case fdopendir =>
          cases r with
          | error e => exact h.given permits.1 trivial (by simp)
          | ok d => exact h.streamOpened permits.1
      case closedir d =>
          cases open_ : w.streams d with
          | none =>
              simp only [World.effect, open_]
              exact h
          | some fd =>
              simp only [World.effect, open_]
              exact h.streamClosed open_
      case fstatat =>
          cases r with
          | error e => exact h
          | ok st => exact h.same ⟨⟨rfl, rfl, rfl⟩, rfl, rfl, rfl, rfl⟩
      all_goals exact h
  | newDirectory d => exact ⟨trivial, h.directories _⟩
  | deleteDirectory a => exact ⟨trivial, h.directories _⟩
  | getSourceDevice ref => exact ⟨trivial, h.same ⟨⟨rfl, rfl, rfl⟩, rfl, rfl, rfl, rfl⟩⟩
  | getGeneration ref =>
      cases ref with
      | root => exact ⟨trivial, h⟩
      | node a => exact ⟨trivial, h.same (.sawGeneration l a r)⟩
  | setGeneration ref v =>
      obtain ⟨a, rfl, -⟩ := permits
      have same := Ledger.Same.sawGeneration l a (some v)
      have wrote := (h.same same).wrote (r := .node a) (g := fun i => { i with generation := some v })
        (k := fun _ => rfl) fun _ => rfl
      exact ⟨trivial, wrote⟩
  | addPollHandle ref ph =>
      exact ⟨trivial, h.wrote (g := fun i => { i with pollHandle := some ph }) fun _ => rfl⟩
  | insert i => exact ⟨trivial, h.inserted permits.1 answers⟩
  | ref ref n =>
      obtain ⟨a, rfl, held, -⟩ := permits
      exact h.refed held answers
  | unref site ref n =>
      cases site with
      | cleanup =>
          obtain ⟨a, rfl, pos, le⟩ := permits
          exact h.cleaned pos le answers
      | forget =>
          obtain ⟨a, rfl, pos, le⟩ := permits
          exact h.forgot pos le answers
  | dropShared a => exact h.droppedShared permits answers
  | fuseReply req reply => exact ⟨trivial, h.replied permits⟩
  | abort site => exact Empty.elim r
  | _ => exact ⟨trivial, h⟩

/-! Requests come and callbacks return. -/

/-- A thread with nothing left to do does not count. -/
theorem inv_cons_final (final : l.Final) : Inv w (l ::ₘ f) ↔ Inv w f := by
  obtain ⟨⟨shared, refs, forgets, fds⟩, answered⟩ := final
  have owes (q : FuseReq) : l.owes q = 0 := by simp [Ledger.owes, answered]
  constructor
  · rintro ⟨⟨c₁, c₂, c₃, c₄⟩, ⟨d₁, d₂, d₃, d₄⟩, ⟨r₁, r₂, r₃, r₄⟩⟩
    simp only [total_cons, shared, refs, forgets, fds, owes, Pi.zero_apply, zero_add] at c₁ c₂ c₃ d₃ r₂
    exact ⟨⟨c₁, c₂, c₃, c₄⟩, ⟨d₁, d₂, d₃, d₄⟩,
      ⟨fun m mem => r₁ m (Multiset.mem_cons_of_mem mem), r₂, r₃, r₄⟩⟩
  · rintro ⟨⟨c₁, c₂, c₃, c₄⟩, ⟨d₁, d₂, d₃, d₄⟩, ⟨r₁, r₂, r₃, r₄⟩⟩
    refine ⟨⟨?_, ?_, ?_, c₄⟩, ⟨d₁, d₂, ?_, d₄⟩, ⟨fun m mem owed => ?_, ?_, r₃, r₄⟩⟩
    · simpa only [total_cons, refs, Pi.zero_apply, zero_add] using c₁
    · simpa only [total_cons, forgets, Pi.zero_apply, zero_add] using c₂
    · simpa only [total_cons, shared, Pi.zero_apply, zero_add] using c₃
    · simpa only [total_cons, fds, Pi.zero_apply, zero_add] using d₃
    · rcases Multiset.mem_cons.mp mem with rfl | mem
      · rw [answered] at owed
        cases owed
      · exact r₁ m mem owed
    · simpa only [total_cons, owes, zero_add] using r₂

/-- Forgets that the kernel may send move lookup counts, and leave one for every id that an
unanswered request names. -/
theorem World.forgetAll_cases {ds : List ForgetData} (h : w.MayForgetAll ds) :
    ∃ nlookup : Addr → Nat, ds.foldl forget w =
        { w with nlookup := nlookup, forgetting := w.forgetting + returned ds } ∧
      (∀ b, nlookup b + returned ds b = w.nlookup b) ∧
      ∀ q r b, w.pending q = some r → b ∈ r.names → 0 < w.nlookup b → 0 < nlookup b := by
  induction ds generalizing w with
  | nil =>
      refine ⟨w.nlookup, ?_, fun b => rfl, fun q r b _ _ pos => pos⟩
      simp [returned_nil]
  | cons d ds ih =>
      obtain ⟨⟨-, -, le, keeps⟩, rest⟩ := h
      obtain ⟨nlookup, effect, moved, kept⟩ := ih rest
      refine ⟨nlookup, ?_, fun b => ?_, fun q r b asked named pos => ?_⟩
      · rw [List.foldl_cons, effect]
        simp only [forget, returned_cons, add_assoc]
      · have less := sub_single_add le b
        have moved := moved b
        simp only [forget] at moved
        rw [returned_cons, Pi.add_apply, Pi.single_apply]
        omega
      · refine kept q r b asked named ?_
        have less := sub_single_add le b
        simp only [forget]
        by_cases same : b = d.ino
        · subst same
          have lt := keeps q r asked named
          rw [if_pos rfl] at less
          omega
        · rw [if_neg same] at less
          omega

theorem World.MayForgetAll.admitted {ds : List ForgetData} (h : w.MayForgetAll ds) :
    ∀ d ∈ ds, d.ino ≠ FUSE_ROOT_ID ∧ 0 < d.nlookup := by
  induction ds generalizing w with
  | nil => exact fun d mem => nomatch mem
  | cons d ds ih =>
      intro d' mem
      rcases List.mem_cons.mp mem with rfl | mem
      · exact ⟨h.1.1, h.1.2.1⟩
      · exact ih h.2 d' mem

theorem Requests.arrived {req : FuseReq} {r : Request} (h : Requests w f)
    (fresh : w.pending req = none) (pending : w'.pending = Function.update w.pending req (some r))
    (names : ∀ q r' b, w.pending q = some r' → b ∈ r'.names → 0 < w.nlookup b → 0 < w'.nlookup b)
    (handles : ∀ q r' fd, w.pending q = some r' → fd ∈ r'.handles → w.fds fd = some .handle →
      w'.fds fd = some .handle)
    (newNames : ∀ b ∈ r.names, b ≠ FUSE_ROOT_ID → 0 < w'.nlookup b)
    (newHandles : ∀ fd ∈ r.handles, w'.fds fd = some .handle) (own : l.req = req)
    (asks : l.request = r) : Requests w' (l ::ₘ f) := by
  have before : ∀ m ∈ f, m.owed = true → m.req ≠ req := by
    intro m mem owed same
    have pending := h.pending m mem owed
    rw [same, fresh] at pending
    cases pending
  have now : ∀ {q r'}, w'.pending q = some r' → (q = req ∧ r' = r) ∨ w.pending q = some r' := by
    intro q r' asked
    rw [pending, Function.update_apply] at asked
    split at asked
    · next same =>
        cases asked
        exact .inl ⟨same, rfl⟩
    · exact .inr asked
  constructor
  · intro m mem owed
    rw [pending]
    rcases Multiset.mem_cons.mp mem with rfl | mem
    · rw [own, asks, Function.update_self]
    · rw [Function.update_of_ne (before m mem owed)]
      exact h.pending m mem owed
  · intro q
    rw [total_cons]
    by_cases same : q = req
    · have none : total (fun m => m.owes q) f = 0 := by
        apply total_eq_zero
        intro m mem
        unfold Ledger.owes
        rw [if_neg]
        rintro ⟨owed, m_req⟩
        exact before m mem owed (m_req.trans same)
      rw [none]
      unfold Ledger.owes
      split <;> omega
    · have mine : l.owes q = 0 := if_neg fun both => same (both.2.symm.trans own)
      rw [mine, zero_add]
      exact h.once q
  · intro q r' asked b named notRoot
    rcases now asked with ⟨-, rfl⟩ | asked
    · exact newNames b named notRoot
    · exact names q r' b asked named (h.names q r' asked b named notRoot)
  · intro q r' asked fd lent
    rcases now asked with ⟨-, rfl⟩ | asked
    · exact newHandles fd lent
    · exact handles q r' fd asked lent (h.handles q r' asked fd lent)

theorem Request.forgets_of_names {r : Request} (named : a ∈ r.names) : r.forgets = [] := by
  cases r <;> first | rfl | cases named

theorem Request.handles_of_released {r : Request} {fd : Fd} (h : r.released = some fd) :
    r.handles = [] := by
  cases r <;> first | rfl | cases h

theorem Inv.arrived {req : FuseReq} {r : Request} (opts : Options) (send : w.MaySend req r)
    (h : Inv w f) : Inv (w.arrive req r) (.opening opts (req, r) ::ₘ f) := by
  -- the new thread starts as one that does not count
  let blank : Ledger := { Ledger.opening opts (req, r) with owed := false, forgets := 0, fds := 0 }
  have final : blank.Final := ⟨⟨rfl, rfl, rfl, rfl⟩, rfl⟩
  have h' : Inv w (blank ::ₘ f) := (inv_cons_final final).mpr h
  obtain ⟨nlookup, effect, moved, kept⟩ := World.forgetAll_cases send.forgets
  have newNames : ∀ b ∈ r.names, b ≠ FUSE_ROOT_ID → 0 < nlookup b := by
    intro b named notRoot
    have moved := moved b
    rw [Request.forgets_of_names named, returned_nil] at moved
    have known := (send.names b named).resolve_left notRoot
    exact known.trans_eq moved.symm
  let writers : Addr → Nat := w.writers + fun a => if r.writes = some a then 1 else 0
  have counts : ∀ fds, Counts { w with
      nlookup := nlookup
      forgetting := w.forgetting + returned r.forgets
      pending := Function.update w.pending req (some r)
      writers := writers
      running := w.running + 1
      fds := fds } (.opening opts (req, r) ::ₘ f) := by
    intro fds
    refine h'.counts.change (fun b => ?_) (fun b => ?_) (fun b => rfl) h.counts.live
    · have moved := moved b
      change w.refcnt b + _ + _ + (_ : Nat) + _ + _ = _ + _ + _ + (w.forgetting b + returned r.forgets b) + _ + _
      dsimp only [blank]
      omega
    · change w.forgetting b + returned r.forgets b + 0 = w.forgetting b + returned r.forgets b
      rw [add_zero]
  cases released : r.released with
  | none =>
      have arrive : w.arrive req r = { w with
          nlookup := nlookup
          forgetting := w.forgetting + returned r.forgets
          pending := Function.update w.pending req (some r)
          writers := writers
          running := w.running + 1 } := by
        simp only [World.arrive, effect, released, writers]
      rw [arrive]
      refine ⟨counts _, ?_, ?_⟩
      · refine h'.descriptors.keep rfl (fun _ => rfl) rfl rfl ?_
        funext fd
        simp [Ledger.opening, released, blank]
      · exact h.requests.arrived send.fresh rfl kept (fun _ _ _ _ _ owner => owner) newNames
          send.handles rfl rfl
  | some fd =>
      obtain ⟨owner, unused⟩ := send.released fd released
      have arrive : w.arrive req r = { w with
          nlookup := nlookup
          forgetting := w.forgetting + returned r.forgets
          pending := Function.update w.pending req (some r)
          writers := writers
          running := w.running + 1
          fds := Function.update w.fds fd (some .thread) } := by
        simp only [World.arrive, effect, released, writers, World.own]
      rw [arrive]
      refine ⟨counts _, ?_, ?_⟩
      · refine h'.descriptors.move_loose (o := some .thread) ⟨rfl, rfl, fun fd' => ?_⟩ ?_ trivial rfl rfl
        · simp [Ledger.opening, released, blank, owner, eq_comm]
        · rw [owner]
          trivial
      · refine h.requests.arrived send.fresh rfl kept (fun q r' fd' asked lent owner' => ?_) newNames
          (fun fd' lent => ?_) rfl rfl
        · have ne : fd' ≠ fd := by
            rintro rfl
            exact unused q r' asked lent
          exact (Function.update_of_ne ne ..).trans owner'
        · rw [Request.handles_of_released released] at lent
          cases lent

theorem Inv.initial (root : Inode) (pipes : Fd → Bool) : Inv (.initial root pipes) 0 where
  counts := ⟨fun _ => rfl, fun _ => rfl, fun _ => rfl, fun _ _ h => nomatch h⟩
  descriptors := by
    refine ⟨if_pos rfl, fun a fd => ?_, fun fd => ?_, fun _ _ h => nomatch h⟩
    · change (if fd = root.fd then _ else _) = _ ↔ none = some fd
      split
      · simp
      · split <;> simp
    · change 0 = if (if fd = root.fd then _ else _) = _ then 1 else 0
      split
      · simp
      · split <;> simp
  requests := ⟨fun _ h => absurd h (Multiset.notMem_zero _), fun _ => Nat.zero_le _,
    fun _ _ h => (nomatch h), fun _ _ h => nomatch h⟩

theorem Inv.departed (h : Inv w f) (r : Request) : Inv (w.depart r) f where
  counts := ⟨h.counts.refcnt, h.counts.forgetting, h.counts.shared, h.counts.live⟩
  descriptors := ⟨h.descriptors.root, h.descriptors.inode, h.descriptors.thread,
    h.descriptors.stream⟩
  requests := ⟨h.requests.pending, h.requests.once, h.requests.names, h.requests.handles⟩

theorem Ledger.tag_after (l : Ledger) (c : Call) (r : c.Ret) :
    ((l.after c r).req, (l.after c r).request) = (l.req, l.request) := by
  unfold after
  split
  all_goals first
    | rfl
    | (split <;> rfl)
    | exact congrArg₂ Prod.mk (Same.sawGeneration _ _ _).req (Same.sawGeneration _ _ _).request

/-- What an answered call teaches a thread. -/
inductive Ledger.Teaches (l : Ledger) : Event calls → Ledger → Prop
  | nothing {e : Event calls} {l' : Ledger} : l'.seen = l.seen → (∀ a, l'.shared a ≤ l.shared a) →
      l.Teaches e l'
  | stat {fd : Fd} {path : String} {flag : Flags} {st : Stat} :
      l.Teaches ⟨.sys (.fstatat fd path flag), .ok st⟩ (l.sawStat st)
  | device {ref : InodeRef} {dev : Dev} : l.Teaches ⟨.getSourceDevice ref, dev⟩ (l.sawDevice ref dev)
  | memo {a : Addr} {memo : Option (Except VersionError Nat)} :
      l.Teaches ⟨.getGeneration (.node a), memo⟩ (l.sawGeneration a memo)
  | fetched {a : Addr} {v : Except VersionError Nat} {u : Unit} :
      l.Teaches ⟨.setGeneration (.node a) v, u⟩ (l.sawGeneration a (some v))
  | inserted {i : Inode} {r : Inserted} {l' : Ledger} : l'.seen = l.insertedInto.seen →
      l'.shared = l.shared + Pi.single r.addr 1 → l.Teaches ⟨.insert i, r⟩ l'

theorem Ledger.teaches (l : Ledger) (c : Call) (r : c.Ret) : l.Teaches ⟨c, r⟩ (l.after c r) := by
  cases c with
  | sys s =>
      cases s
      case fstatat =>
          cases r with
          | error e => exact .nothing rfl fun _ => le_refl _
          | ok st => exact .stat
      case open_ | openat | dup => cases r <;> exact .nothing rfl fun _ => le_refl _
      all_goals exact .nothing rfl fun _ => le_refl _
  | getSourceDevice ref => exact .device
  | getGeneration ref =>
      cases ref with
      | root => exact .nothing rfl fun _ => le_refl _
      | node a => exact .memo
  | setGeneration ref v =>
      cases ref with
      | root => exact .nothing rfl fun _ => le_refl _
      | node a => exact .fetched
  | insert i => exact .inserted rfl rfl
  | ref ref n => cases ref <;> exact .nothing rfl fun _ => le_refl _
  | unref site ref n => cases site <;> cases ref <;> exact .nothing rfl fun _ => le_refl _
  | dropShared b => exact .nothing rfl fun _ => Nat.sub_le _ _
  | fuseReply req reply => cases r <;> exact .nothing rfl fun _ => le_refl _
  | abort site => exact nomatch r
  | _ => exact .nothing rfl fun _ => le_refl _

section Taught
variable {c : Call} {r : c.Ret}

theorem Ledger.stats_after {st : Stat} (mem : st ∈ (l.after c r).seen.stats) :
    st ∈ l.seen.stats ∨
      ∃ fd path flag, (⟨c, r⟩ : Event calls) = ⟨.sys (.fstatat fd path flag), .ok st⟩ := by
  have taught := l.teaches c r
  generalize l.after c r = l' at mem taught
  cases taught with
  | nothing seen _ => exact .inl (seen ▸ mem)
  | stat =>
      rcases List.mem_cons.mp mem with rfl | mem
      · exact .inr ⟨_, _, _, rfl⟩
      · exact .inl mem
  | device => exact .inl mem
  | @memo b memo => rcases memo with _ | _ | v <;> exact .inl mem
  | @fetched b v _ => rcases v with _ | v <;> exact .inl mem
  | inserted seen _ =>
      rw [seen] at mem
      exact .inl mem

theorem Ledger.devices_after {ref : InodeRef} {dev : Dev} (mem : (ref, dev) ∈ (l.after c r).seen.devices) :
    (∀ a, (l.after c r).shared a ≤ l.shared a) ∧ ((ref, dev) ∈ l.seen.devices ∨
      (⟨c, r⟩ : Event calls) = ⟨.getSourceDevice ref, dev⟩) := by
  have taught := l.teaches c r
  generalize l.after c r = l' at mem taught ⊢
  cases taught with
  | nothing seen shared => exact ⟨shared, .inl (seen ▸ mem)⟩
  | stat => exact ⟨fun _ => le_refl _, .inl mem⟩
  | device =>
      refine ⟨fun _ => le_refl _, ?_⟩
      rcases List.mem_cons.mp mem with same | mem
      · cases same
        exact .inr rfl
      · exact .inl mem
  | @memo b memo => rcases memo with _ | _ | v <;> exact ⟨fun _ => le_refl _, .inl mem⟩
  | @fetched b v _ => rcases v with _ | v <;> exact ⟨fun _ => le_refl _, .inl mem⟩
  | inserted seen _ =>
      rw [seen] at mem
      cases mem

theorem Ledger.shared_after (held : 0 < (l.after c r).shared a) :
    0 < l.shared a ∨ ∃ i inserted, (⟨c, r⟩ : Event calls) = ⟨.insert i, inserted⟩ ∧ inserted.addr = a := by
  have taught := l.teaches c r
  generalize l.after c r = l' at held taught
  cases taught with
  | nothing _ shared => exact .inl (held.trans_le (shared a))
  | stat => exact .inl held
  | device => exact .inl held
  | @memo b memo => rcases memo with _ | _ | v <;> exact .inl held
  | @fetched b v _ => rcases v with _ | v <;> exact .inl held
  | @inserted i inserted l' _ shared =>
      by_cases here : inserted.addr = a
      · exact .inr ⟨i, inserted, rfl, here⟩
      · rw [shared, Pi.add_apply, Pi.single_eq_of_ne (Ne.symm here)] at held
        exact .inl held

/-- Where a generation that a thread may rely on comes from. -/
theorem Ledger.generations_after {v : Nat} (mem : (a, v) ∈ (l.after c r).seen.generations)
    (held : 0 < (l.after c r).shared a) :
    0 < l.shared a ∧ ((a, v) ∈ l.seen.generations ∨
      (⟨c, r⟩ : Event calls) = ⟨.getGeneration (.node a), some (.ok v)⟩ ∨
      c = .setGeneration (.node a) (.ok v)) := by
  have taught := l.teaches c r
  generalize l.after c r = l' at mem held taught
  cases taught with
  | nothing seen shared =>
      rw [seen] at mem
      exact ⟨held.trans_le (shared a), .inl mem⟩
  | stat => exact ⟨held, .inl mem⟩
  | device => exact ⟨held, .inl mem⟩
  | @memo b memo =>
      rcases memo with _ | _ | v'
      · exact ⟨held, .inl mem⟩
      · exact ⟨held, .inl mem⟩
      · refine ⟨held, ?_⟩
        rcases List.mem_cons.mp mem with same | mem
        · cases same
          exact .inr (.inl rfl)
        · exact .inl mem
  | @fetched b v' u =>
      rcases v' with _ | v'
      · exact ⟨held, .inl mem⟩
      · refine ⟨held, ?_⟩
        rcases List.mem_cons.mp mem with same | mem
        · cases same
          exact .inr (.inr rfl)
        · exact .inl mem
  | inserted seen shared =>
      rw [seen] at mem
      obtain ⟨mem, held⟩ := List.mem_filter.mp mem
      exact ⟨of_decide_eq_true held, .inl mem⟩

end Taught

theorem Ledger.owed_after {c : Call} {r : c.Ret} (h : (l.after c r).owed = true) : l.owed = true := by
  unfold after at h
  split at h
  all_goals first
    | exact h
    | exact (Same.sawGeneration _ _ _).owed ▸ h
    | (split at h <;> cases h)

/-- The invariant of the daemon under every kernel and every interleaving. -/
def bookkeeping (fs : PageAlignFS) (counts : String → Bool) :
    Protocol (daemon fs counts) (fun _ _ => True) Ledger where
  D := accounts
  tagOf l := (l.req, l.request)
  opening := Ledger.opening fs.opts
  final := Ledger.Final
  Inv := Inv
  tagOf_opening _ := rfl
  tagOf_after := Ledger.tag_after
  start := by
    rintro w ⟨req, r⟩ p w' f ⟨send, rfl, handler, served, rfl⟩ - inv
    exact ⟨follows_serve served send.opcode send.forgets.admitted _, inv.arrived fs.opts send⟩
  act := by
    rintro w w' l f c r allows ⟨answers, rfl⟩ - inv
    exact inv.act allows answers
  leave := by
    intro w l f final inv
    exact ((inv_cons_final final).mp inv).departed l.request

end Pafs
