import Pafs.Identity

/-! The memos of `GetGeneration`. An inode that somebody may come back to has its memo
filled in; when requests are handled one at a time, with a version and never with an error. -/
namespace Pafs
open Resumption

abbrev Memo := Option (Except VersionError Nat)

variable {fs : PageAlignFS} {counts : String → Bool} {root : Inode} {pipes : Fd → Bool} {s : Daemon}
  {w w' : World} {l : Ledger} {f : Multiset Ledger} {a : Addr} {Good : Memo → Prop}

/-- A reference that outlives the handler that took it. -/
def World.kept (w : World) (f : Multiset Ledger) (a : Addr) : Nat :=
  w.nlookup a + w.uncounted a + w.forgetting a + total (fun l => l.refs a) f

/-- The thread holds the inode and has seen a generation of it. -/
def Ledger.Knows (l : Ledger) (a : Addr) : Prop := 0 < l.shared a ∧ ∃ v, (a, v) ∈ l.seen.generations

def World.Relied (w : World) (f : Multiset Ledger) (a : Addr) : Prop :=
  0 < w.kept f a ∨ ∃ l ∈ f, l.Knows a

/-- The memo of an inode that is relied on is a good one. -/
def Memoised (Good : Memo → Prop) (w : World) (f : Multiset Ledger) : Prop :=
  ∀ a n, w.inodes.heap a = some n → w.Relied f a → Good n.inode.generation

theorem Counts.relied_pos (h : Counts w f) (relied : w.Relied f a) : 0 < w.refcnt a := by
  rcases relied with kept | ⟨l, mem, held, -⟩
  · have refcnt := h.refcnt a
    unfold World.kept at kept
    omega
  · exact h.shared_pos mem held

theorem Ledger.refs_after {c : Call} {r : c.Ret} (other : ∀ n, c ≠ .ref (.node a) n) :
    (l.after c r).refs a ≤ l.refs a := by
  cases c with
  | sys s =>
      cases s
      case open_ | openat | dup | fstatat => cases r <;> exact le_refl _
      all_goals exact le_refl _
  | getGeneration ref =>
      cases ref with
      | root => exact le_refl _
      | node b => exact (congrFun (Same.sawGeneration l b r).refs a).le
  | setGeneration ref v =>
      cases ref with
      | root => exact le_refl _
      | node b => exact (congrFun (Same.sawGeneration l b (some v)).refs a).le
  | ref ref n =>
      cases ref with
      | root => exact le_refl _
      | node b =>
          have elsewhere : a ≠ b := by
            rintro rfl
            exact other n rfl
          have same : (l.after (.ref (.node b) n) r).refs a = l.refs a := by
            simp [after, Pi.single_eq_of_ne elsewhere]
          exact same.le
  | unref site ref n => cases site <;> cases ref <;> first | exact le_refl _ | exact Nat.sub_le _ _
  | fuseReply req reply =>
      cases r with
      | none => exact Nat.zero_le _
      | some e => exact le_refl _
  | abort site => exact Empty.elim r
  | _ => exact le_refl _

theorem World.forgetting_effect (w : World) (counts : String → Bool) (c : Call) (r : c.Ret) (a : Addr) :
    (w.effect counts c r).forgetting a ≤ w.forgetting a := by
  cases c with
  | sys s =>
      cases s
      case open_ | openat | dup | fdopendir => cases r <;> exact le_refl _
      case closedir d =>
          unfold effect
          dsimp only
          split <;> exact le_refl _
      all_goals exact le_refl _
  | setGeneration ref v => cases ref <;> exact le_refl _
  | addPollHandle ref ph => cases ref <;> exact le_refl _
  | insert i =>
      unfold effect
      dsimp only
      split
      · split <;> exact le_refl _
      · exact le_refl _
  | ref ref n =>
      unfold effect
      dsimp only
      split
      · split <;> exact le_refl _
      · exact le_refl _
  | unref site ref n =>
      cases site with
      | cleanup => exact (congrFun (unref_forgetting w ref n r) a).le
      | forget =>
          cases ref with
          | root => exact (congrFun (unref_forgetting w .root n r) a).le
          | node b => exact Nat.sub_le _ _
  | dropShared b => exact (congrFun (unref_forgetting w (.node b) 1 r) a).le
  | fuseReply req reply =>
      cases r with
      | some e => exact le_refl _
      | none =>
          simp only [effect, receive]
          split <;> exact le_refl _
  | abort site => exact Empty.elim r
  | _ => exact le_refl _

/-- Only `Ref` adds to what is kept: a reply hands references on to the kernel. -/
theorem kept_after {c : Call} {r : c.Ret} (permits : l.Permits c)
    (kept : 0 < (w.effect counts c r).kept (l.after c r ::ₘ f) a) :
    0 < w.kept (l ::ₘ f) a ∨ ∃ n, c = .ref (.node a) n := by
  by_cases refers : ∃ n, c = .ref (.node a) n
  · exact .inr refers
  have refs : (l.after c r).refs a ≤ l.refs a := Ledger.refs_after fun n same => refers ⟨n, same⟩
  have forgetting := w.forgetting_effect counts c r a
  unfold World.kept at kept ⊢
  rw [total_cons] at kept ⊢
  by_cases received : ∃ req reply, (⟨c, r⟩ : Event calls) = ⟨.fuseReply req reply, none⟩
  · obtain ⟨req, reply, event⟩ := received
    cases event
    have entries := permits.refs a
    rw [Reply.count_entries counts] at entries
    have nlookup : (w.effect counts (.fuseReply req reply) none).nlookup a =
        w.nlookup a + (reply.counted counts).count a := by
      simp only [World.effect, World.receive]
      split <;> rfl
    have uncounted : (w.effect counts (.fuseReply req reply) none).uncounted a =
        w.uncounted a + (reply.uncounted counts).count a := by
      simp only [World.effect, World.receive]
      split <;> rfl
    have none : (l.after (.fuseReply req reply) none).refs a = 0 := rfl
    rw [nlookup, uncounted, none] at kept
    exact .inl (by omega)
  · have nlookup : (w.effect counts c r).nlookup = w.nlookup ∧
        (w.effect counts c r).uncounted = w.uncounted := by
      by_cases replies : ∃ req reply, c = .fuseReply req reply
      · obtain ⟨req, reply, rfl⟩ := replies
        cases r with
        | none => exact absurd ⟨req, reply, rfl⟩ received
        | some e => exact ⟨rfl, rfl⟩
      · have frame := World.frame_effect (w := w) counts c r fun req reply same => replies ⟨req, reply, same⟩
        exact ⟨frame.nlookup, frame.uncounted⟩
    rw [nlookup.1, nlookup.2] at kept
    exact .inl (by omega)

/-- What is relied on after a step was relied on before, or its generation was just seen. -/
theorem relied_after {c : Call} {r : c.Ret} (permits : l.Permits c)
    (relied : (w.effect counts c r).Relied (l.after c r ::ₘ f) a) :
    w.Relied (l ::ₘ f) a ∨ 0 < l.shared a ∧ ∃ v,
      (⟨c, r⟩ : Event calls) = ⟨.getGeneration (.node a), some (.ok v)⟩ ∨
        c = .setGeneration (.node a) (.ok v) := by
  have mine : l ∈ l ::ₘ f := Multiset.mem_cons_self l f
  rcases relied with kept | ⟨m, mem, held, v, seen⟩
  · rcases kept_after permits kept with kept | ⟨n, rfl⟩
    · exact .inl (.inl kept)
    · obtain ⟨b, same, known⟩ := permits
      cases same
      exact .inl (.inr ⟨l, mine, known⟩)
  · rcases Multiset.mem_cons.mp mem with rfl | mem
    · obtain ⟨held, seen | event | event⟩ := Ledger.generations_after seen held
      · exact .inl (.inr ⟨l, mine, held, v, seen⟩)
      · exact .inr ⟨held, v, .inl event⟩
      · exact .inr ⟨held, v, .inr event⟩
    · exact .inl (.inr ⟨m, Multiset.mem_cons_of_mem mem, held, v, seen⟩)

theorem World.heap_write_node {f : Inode → Inode} {k : ∀ i, (f i).key = i.key} :
    (w.write (.node a) f k).inodes.heap = Function.update w.inodes.heap a
      ((w.inodes.heap a).map fun n => { n with inode := f n.inode }) := InodeCache.update_heap k

/-- The memo of an inode that was in the cache before a step. -/
theorem World.memo_effect {c : Call} {r : c.Ret} {n' : Node} (kept : 0 < w.refcnt a)
    (h : (w.effect counts c r).inodes.heap a = some n') : ∃ n, w.inodes.heap a = some n ∧
      (n'.inode.generation = n.inode.generation ∧ (∀ v, c ≠ .setGeneration (.node a) v) ∨
        ∃ v, c = .setGeneration (.node a) v ∧ n'.inode.generation = some v) := by
  by_cases sets : ∃ v, c = .setGeneration (.node a) v
  · obtain ⟨v, rfl⟩ := sets
    have heap : (w.effect counts (.setGeneration (.node a) v) r).inodes.heap a = _ :=
      congrFun (heap_write_node (f := fun i => { i with generation := some v })) a
    rw [heap, Function.update_self] at h
    obtain ⟨n, heap, rfl⟩ := Option.map_eq_some_iff.mp h
    exact ⟨n, heap, .inr ⟨v, rfl, rfl⟩⟩
  · have never (v : Except VersionError Nat) : c ≠ .setGeneration (.node a) v := fun same => sets ⟨v, same⟩
    obtain ⟨n, heap, wrote⟩ | ⟨free, -⟩ := inode_of_effect counts c r h
    · refine ⟨n, heap, .inl ⟨?_, never⟩⟩
      obtain same | ⟨v, event, -⟩ | ⟨ph, -, same⟩ := wrote
      · rw [same]
      · exact absurd event (never v)
      · rw [same]
    · obtain ⟨e, view⟩ := view_of_refcnt kept
      rw [InodeCache.view_eq_none_iff.mpr free] at view
      cases view

/-- A step keeps the memos good if versions are good and no bad one is written over the
memo of an inode that is relied on. -/
theorem Memoised.act {c : Call} {r : c.Ret} (versions : ∀ v, Good (some (.ok v)))
    (writes : ∀ a v, c = .setGeneration (.node a) v → w.Relied (l ::ₘ f) a → Good (some v))
    (allows : l.Allows c) (answers : w.Answers c r) (inv : Inv w (l ::ₘ f))
    (h : Memoised Good w (l ::ₘ f)) : Memoised Good (w.effect counts c r) (l.after c r ::ₘ f) := by
  intro a n' heap' relied
  obtain before | ⟨held, v, event | rfl⟩ := relied_after allows.permits relied
  · obtain ⟨n, heap, ⟨same, -⟩ | ⟨v, rfl, same⟩⟩ := World.memo_effect (inv.counts.relied_pos before) heap'
    · rw [same]
      exact h a n heap before
    · rw [same]
      exact writes a v rfl before
  · cases event
    have kept := inv.counts.shared_pos (Multiset.mem_cons_self l f) held
    obtain ⟨n, heap, ⟨same, -⟩ | ⟨v', event, -⟩⟩ := World.memo_effect kept heap'
    · rw [same, ← World.reads_node (g := Inode.generation) heap answers]
      exact versions v
    · cases event
  · have kept := inv.counts.shared_pos (Multiset.mem_cons_self l f) held
    obtain ⟨n, heap, ⟨-, never⟩ | ⟨v', event, same⟩⟩ := World.memo_effect kept heap'
    · exact absurd rfl (never _)
    · cases event
      rw [same]
      exact versions v

theorem World.relied_cons_opening {opts : Options} {tag : FuseReq × Request} (send : w.MaySend tag.1 tag.2)
    (relied : (w.arrive tag.1 tag.2).Relied (.opening opts tag ::ₘ f) a) : w.Relied f a := by
  rcases relied with kept | ⟨m, mem, held, v, seen⟩
  · obtain ⟨nlookup, effect, balance, -⟩ := World.forgetAll_cases send.forgets
    have arrive : (w.arrive tag.1 tag.2).kept (.opening opts tag ::ₘ f) a = w.kept f a := by
      unfold World.kept
      rw [total_cons]
      have same : (w.arrive tag.1 tag.2).nlookup a = nlookup a ∧
          (w.arrive tag.1 tag.2).uncounted a = w.uncounted a ∧
          (w.arrive tag.1 tag.2).forgetting a = w.forgetting a + returned tag.2.forgets a := by
        unfold World.arrive
        rw [effect]
        cases tag.2.released <;> exact ⟨rfl, rfl, rfl⟩
      have none : (Ledger.opening opts tag).refs a = 0 := rfl
      have balance := balance a
      rw [same.1, same.2.1, same.2.2, none]
      omega
    rw [arrive] at kept
    exact .inl kept
  · rcases Multiset.mem_cons.mp mem with rfl | mem
    · cases seen
    · exact .inr ⟨m, mem, held, v, seen⟩

theorem Memoised.arrived {opts : Options} {tag : FuseReq × Request} (send : w.MaySend tag.1 tag.2)
    (h : Memoised Good w f) : Memoised Good (w.arrive tag.1 tag.2) (.opening opts tag ::ₘ f) := by
  intro a n heap relied
  refine h a n ?_ (World.relied_cons_opening send relied)
  obtain ⟨nlookup, forgetting, fds, -, arrive⟩ := w.arrive_cases tag.1 tag.2
  rw [arrive] at heap
  exact heap

theorem Memoised.departed (h : Memoised Good w (l ::ₘ f)) :
    Memoised Good (w.depart l.request) f := by
  intro a n heap relied
  refine h a n heap ?_
  rcases relied with kept | ⟨m, mem, known⟩
  · refine .inl ?_
    unfold World.kept at kept ⊢
    rw [total_cons]
    change 0 < w.nlookup a + w.uncounted a + w.forgetting a + _ at kept
    omega
  · exact .inr ⟨m, Multiset.mem_cons_of_mem mem, known⟩

/-- Whatever the order of the steps, the memo is set once the inode is relied on. -/
def memoising (fs : PageAlignFS) (counts : String → Bool) :
    Protocol (daemon fs counts) (fun _ _ => True) Ledger :=
  (bookkeeping fs counts).strengthen (fun _ _ h => h) (Memoised (· ≠ none))
    (by
      rintro w tag p w' f ⟨send, rfl, -⟩ - - h
      exact h.arrived send)
    (by
      rintro w w' l f c r allows ⟨answers, rfl⟩ - inv h
      exact h.act (fun v => nofun) (fun a v _ _ => nofun) allows answers inv)
    (by
      intro w l f _ _ h
      exact h.departed)

/-! One request at a time. -/

/-- A request comes only when no callback is running. -/
def Sequential : World → Label calls (FuseReq × Request) → Prop
  | w, .arrive _ => w.running = 0
  | _, _ => True

def IsVersion (memo : Memo) : Prop := ∃ v, memo = some (.ok v)

structure OneAtATime (w : World) (f : Multiset Ledger) : Prop where
  running : w.running = f.card
  alone : f.card ≤ 1
  memos : Memoised IsVersion w f
  /-- nobody has filled in the memo since the thread found it unset -/
  unset : ∀ l ∈ f, ∀ a n, l.seen.unset = some a → 0 < l.shared a → w.inodes.heap a = some n →
    n.inode.generation = none

/-- A memo that a thread may fill in was found unset, and it has held the inode since. -/
theorem Ledger.unset_after {c : Call} {r : c.Ret} (unset : (l.after c r).seen.unset = some a)
    (held : 0 < (l.after c r).shared a) : 0 < l.shared a ∧ (∀ v, c ≠ .setGeneration (.node a) v) ∧
      (l.seen.unset = some a ∨ (⟨c, r⟩ : Event calls) = ⟨.getGeneration (.node a), none⟩) := by
  have taught := l.teaches c r
  by_cases sets : ∃ b v, c = .setGeneration (.node b) v
  · obtain ⟨b, v, rfl⟩ := sets
    rcases v with _ | v <;> cases unset
  have never (v : Except VersionError Nat) : c ≠ .setGeneration (.node a) v := fun same => sets ⟨a, v, same⟩
  generalize l.after c r = l' at unset held taught
  cases taught with
  | nothing seen shared =>
      rw [seen] at unset
      exact ⟨held.trans_le (shared a), never, .inl unset⟩
  | stat => exact ⟨held, never, .inl unset⟩
  | device => exact ⟨held, never, .inl unset⟩
  | @memo b memo =>
      rcases memo with _ | _ | v
      · cases unset
        exact ⟨held, never, .inr rfl⟩
      · cases unset
      · cases unset
  | @fetched b v u => exact absurd ⟨b, v, rfl⟩ sets
  | inserted seen shared =>
      rw [seen] at unset
      cases unset

theorem OneAtATime.act {c : Call} {r : c.Ret} (allows : l.Allows c) (answers : w.Answers c r)
    (inv : Inv w (l ::ₘ f)) (h : OneAtATime w (l ::ₘ f)) :
    OneAtATime (w.effect counts c r) (l.after c r ::ₘ f) := by
  have mine : l ∈ l ::ₘ f := Multiset.mem_cons_self l f
  have alone : f = 0 := by
    have card := h.alone
    rw [Multiset.card_cons] at card
    exact Multiset.card_eq_zero.mp (by omega)
  constructor
  · rw [(w.still_effect counts c r).running, h.running, Multiset.card_cons, Multiset.card_cons]
  · rw [alone]
    exact le_refl _
  · refine h.memos.act (fun v => ⟨v, rfl⟩) (fun a v event relied => ?_) allows answers inv
    -- the memo is unset, so the inode is not relied on
    subst event
    obtain ⟨b, same, held, unset⟩ := allows.permits
    cases same
    obtain ⟨n, heap⟩ : ∃ n, w.inodes.heap a = some n := by
      obtain ⟨e, view⟩ := World.view_of_refcnt (inv.counts.shared_pos mine held)
      obtain ⟨n, heap, -⟩ := InodeCache.heap_of_view view
      exact ⟨n, heap⟩
    obtain ⟨v', version⟩ := h.memos a n heap relied
    rw [h.unset l mine a n unset held heap] at version
    cases version
  · intro m mem a n' unset held heap'
    rw [alone] at mem
    cases Multiset.mem_singleton.mp mem
    obtain ⟨held, never, seen⟩ := Ledger.unset_after unset held
    have kept := inv.counts.shared_pos mine held
    obtain ⟨n, heap, ⟨same, -⟩ | ⟨v, event, -⟩⟩ := World.memo_effect kept heap'
    · rw [same]
      rcases seen with unset | event
      · exact h.unset l mine a n unset held heap
      · cases event
        exact (World.reads_node (g := Inode.generation) heap answers).symm
    · exact absurd event (never v)

/-- The books of a daemon that handles one request at a time. -/
def oneAtATime (fs : PageAlignFS) (counts : String → Bool) :
    Protocol (daemon fs counts) Sequential Ledger :=
  (bookkeeping fs counts).strengthen (fun _ _ _ => trivial) OneAtATime
    (by
      rintro w tag p w' f ⟨send, rfl, -⟩ free - h
      have none : f = 0 := by
        have running := h.running
        rw [free] at running
        exact Multiset.card_eq_zero.mp running.symm
      subst none
      refine ⟨?_, le_refl _, h.memos.arrived send, fun m mem => ?_⟩
      · obtain ⟨nlookup, forgetting, fds, -, arrive⟩ := w.arrive_cases tag.1 tag.2
        rw [arrive]
        exact congrArg (· + 1) free
      · cases Multiset.mem_singleton.mp mem
        exact fun a n unset => nomatch unset)
    (by
      rintro w w' l f c r allows ⟨answers, rfl⟩ - inv h
      exact h.act allows answers inv)
    (by
      intro w l f _ _ h
      have none : f = 0 := by
        have card := h.alone
        rw [Multiset.card_cons] at card
        exact Multiset.card_eq_zero.mp (by omega)
      subst none
      refine ⟨?_, Nat.zero_le _, h.memos.departed, fun m mem => absurd mem (Multiset.notMem_zero m)⟩
      exact congrArg (· - 1) h.running)

/-- Every entry counts a reference, is stored under the key of its inode and has a version
memoised. -/
def WellFormed (c : InodeCache) : Prop :=
  ∀ k a n, c.find k = some (a, n) → 1 ≤ n.refcnt ∧ n.inode.key = k ∧ IsVersion n.inode.generation

/-- At rest everything in the cache is relied on. -/
theorem Counts.relied_of_heap {n : Node} (h : Counts w 0) (heap : w.inodes.heap a = some n) :
    1 ≤ n.refcnt ∧ w.Relied 0 a := by
  have view := InodeCache.view_of_heap heap
  have live : 0 < n.refcnt := h.live a n.entry view
  refine ⟨live, .inl ?_⟩
  have refcnt := h.refcnt a
  have shared := h.shared a
  rw [World.refcnt_of_view view] at refcnt
  rw [total_zero] at shared
  unfold World.kept
  change n.refcnt = _ at refcnt
  omega

/-- Between the requests of every sequential run. -/
theorem wellFormed_sequential (run : (daemon fs counts).Reach Sequential (.initial root pipes) s)
    (quiet : s.threads = []) : WellFormed s.world.inodes := by
  have initial : OneAtATime (.initial root pipes) 0 :=
    ⟨rfl, Nat.zero_le _, fun a n heap => (nomatch heap), fun m mem => absurd mem (Multiset.notMem_zero m)⟩
  have holds := Protocol.holds_of_reach (oneAtATime fs counts) ⟨Inv.initial root pipes, initial⟩ run
  obtain ⟨inv, one⟩ := holds.quiescent quiet
  intro k a n found
  obtain ⟨heap, key⟩ := InodeCache.find_eq_some_iff.mp found
  obtain ⟨live, relied⟩ := inv.counts.relied_of_heap heap
  exact ⟨live, key, one.memos a n heap relied⟩

open Sample in
theorem wellFormed_lookup : lookedUp.inodes.find (8, 77) =
      some (4096, ⟨1, ⟨9, 77, 8, some (.ok 1), none⟩⟩) ∧ WellFormed lookedUp.inodes := by
  have run : (daemon .onLinux countsName).Reach Sequential mounted ⟨lookedUp, []⟩ :=
    reach_lookedUp Sequential rfl (fun _ _ _ => trivial) (fun _ => trivial) fun _ => trivial
  exact ⟨by decide +kernel, wellFormed_sequential run rfl⟩

end Pafs
