import Pafs.References

/-! The file that an address stands for. It does not change while the inode at the address is
referred to. -/
namespace Pafs
open Resumption

/-- The key of the inode at an address. -/
def World.keyAt (w : World) (a : Addr) : Option Key := (w.inodes.view a).map Entry.key

variable {fs : PageAlignFS} {counts : String → Bool} {root : Inode} {pipes : Fd → Bool} {s : Daemon}
  {w w' : World} {l : Ledger} {f : Multiset Ledger} {a : Addr} {k : Key} {v : Nat}

theorem World.keyAt_of_heap {n : Node} (h : w.inodes.heap a = some n) : w.keyAt a = some n.inode.key := by
  simp [keyAt, InodeCache.view_of_heap h, Node.entry]

theorem World.heap_of_keyAt (h : w.keyAt a = some k) : ∃ n, w.inodes.heap a = some n ∧ n.inode.key = k := by
  obtain ⟨e, view, rfl⟩ := Option.map_eq_some_iff.mp h
  obtain ⟨n, heap, rfl⟩ := InodeCache.heap_of_view view
  exact ⟨n, heap, rfl⟩

theorem World.reads_node {α : Type} {g : Inode → α} {x : α} {n : Node} (heap : w.inodes.heap a = some n)
    (h : w.Reads (.node a) g x) : x = g n.inode := by
  simpa only [Reads, inodeAt, heap, Option.map_some] using h

theorem World.keyAt_of_refcnt (h : 0 < w.refcnt a) : ∃ k, w.keyAt a = some k := by
  obtain ⟨e, view⟩ := view_of_refcnt h
  exact ⟨e.key, by simp [keyAt, view]⟩

theorem World.keyAt_injective {b : Addr} (ha : w.keyAt a = some k) (hb : w.keyAt b = some k) :
    a = b := by
  obtain ⟨n, heap, rfl⟩ := heap_of_keyAt ha
  obtain ⟨m, heap', same⟩ := heap_of_keyAt hb
  exact InodeCache.key_injective heap heap' same.symm

theorem World.Wrote.key {c : Call} {i i' : Inode} (h : Wrote c a i i') : i'.key = i.key := by
  obtain rfl | ⟨v, -, rfl⟩ | ⟨ph, -, rfl⟩ := h
  · rfl
  · rfl
  · rfl

theorem World.keyAt_insert {i : Inode} {r : Inserted} (answers : w.Answers (.insert i) r) :
    (w.effect counts (.insert i) r).keyAt r.addr = some i.key := by
  obtain ⟨-, -, inodes, view, effect⟩ | ⟨-, e, inodes, -, key, view, effect⟩ :=
    insert_cases counts answers
  · rw [effect]
    simp [keyAt, view]
  · rw [effect]
    simp [keyAt, view, key]

/-- While an inode is referred to, the file it stands for does not change. -/
theorem World.keyAt_effect (counts : String → Bool) {c : Call} {r : c.Ret} (kept : 0 < w.refcnt a)
    (h : (w.effect counts c r).keyAt a = some k) : w.keyAt a = some k := by
  obtain ⟨n', heap', rfl⟩ := heap_of_keyAt h
  obtain ⟨n, heap, wrote⟩ | ⟨free, -⟩ := inode_of_effect counts c r heap'
  · rw [keyAt_of_heap heap, wrote.key]
  · obtain ⟨e, view⟩ := view_of_refcnt kept
    rw [InodeCache.view_eq_none_iff.mpr free] at view
    cases view

theorem World.keyAt_arrive (w : World) (req : FuseReq) (r : Request) (a : Addr) :
    (w.arrive req r).keyAt a = w.keyAt a := by
  obtain ⟨nlookup, forgetting, fds, -, arrive⟩ := w.arrive_cases req r
  rw [arrive]
  rfl

/-- What the kernel is given by a reply that reaches it. -/
def World.gives (w : World) (reply : Reply) : List Given :=
  reply.params.filterMap fun p => (w.inodes.view p.ino).map fun e => ⟨p.ino, p.generation, e.key⟩

theorem World.replied_eq (w : World) (counts : String → Bool) (req : FuseReq) (reply : Reply) :
    (w.effect counts (.fuseReply req reply) none).given = w.given ++ w.gives reply ∧
      (w.effect counts (.fuseReply req reply) none).inodes = w.inodes := by
  simp only [effect, receive]
  split
  · exact ⟨rfl, rfl⟩
  · exact ⟨rfl, rfl⟩

theorem World.mem_gives {reply : Reply} {g : Given} (h : g ∈ w.gives reply) :
    w.keyAt g.ino = some g.key ∧ ∃ p ∈ reply.params, p.ino = g.ino ∧ p.generation = g.generation := by
  obtain ⟨p, mem, found⟩ := List.mem_filterMap.mp h
  obtain ⟨e, view, rfl⟩ := Option.map_eq_some_iff.mp found
  exact ⟨by simp [keyAt, view], p, mem, rfl, rfl⟩

/-- Only a reply that reaches the kernel gives it anything. -/
theorem World.given_effect (w : World) (counts : String → Bool) (c : Call) (r : c.Ret) :
    (w.effect counts c r).given = w.given ∨
      ∃ req reply, (⟨c, r⟩ : Event calls) = ⟨.fuseReply req reply, none⟩ := by
  by_cases replies : ∃ req reply, c = .fuseReply req reply
  · obtain ⟨req, reply, rfl⟩ := replies
    cases r with
    | some e => exact .inl rfl
    | none => exact .inr ⟨req, reply, rfl⟩
  · exact .inl (frame_effect counts c r fun req reply same => replies ⟨req, reply, same⟩).given

/-- The kernel has not completely forgotten an id. -/
def Remembered (a : Addr) (s : Daemon) : Prop := 0 < s.world.nlookup a + s.world.uncounted a

theorem Counts.remembered (h : Counts s.world f) (remembered : Remembered a s) :
    0 < s.world.refcnt a := by
  have refcnt := h.refcnt a
  unfold Remembered at remembered
  omega

theorem Counts.nlookup_pos (h : Counts w f) (known : 0 < w.nlookup a) : 0 < w.refcnt a := by
  have refcnt := h.refcnt a
  omega

theorem Counts.shared_pos (h : Counts w f) (mem : l ∈ f) (held : 0 < l.shared a) : 0 < w.refcnt a := by
  have refcnt := h.refcnt a
  have shared := h.shared a
  have mine : l.shared a ≤ total (fun l => l.shared a) f := le_total_of_mem (g := fun l => l.shared a) mem
  omega

/-- An id that is remembered all the way stands for the same file at the end. -/
theorem keyAt_path {s s' : Daemon} {labels : List (Label calls (FuseReq × Request))}
    (run : (daemon fs counts).Reach (fun _ _ => True) (.initial root pipes) s)
    (path : (daemon fs counts).Path (Remembered a) s labels s') (key : s.world.keyAt a = some k) :
    (daemon fs counts).Reach (fun _ _ => True) (.initial root pipes) s' ∧ s'.world.keyAt a = some k := by
  induction path with
  | refl _ => exact ⟨run, key⟩
  | @step s₁ s' _ label path step remembered ih =>
      obtain ⟨run₁, key₁⟩ := ih
      have run' := run₁.step step trivial
      refine ⟨run', ?_⟩
      obtain ⟨f', inv'⟩ := (bookkeeping_holds run').inv
      obtain ⟨k', found⟩ := World.keyAt_of_refcnt (inv'.counts.remembered remembered)
      have same : s₁.world.keyAt a = some k' := by
        cases step with
        | @arrive w w' tag p ts starts =>
            obtain ⟨-, rfl, -⟩ := starts
            rw [← w.keyAt_arrive tag.1 tag.2 a]
            exact found
        | @act w w' tag c r next pre post perform =>
            obtain ⟨-, rfl⟩ := perform
            obtain ⟨f, inv⟩ := (bookkeeping_holds run₁).inv
            have kept : 0 < w.refcnt a := by
              obtain ⟨e, view, -⟩ := Option.map_eq_some_iff.mp key₁
              rw [World.refcnt_of_view view]
              exact inv.counts.live a e view
            exact World.keyAt_effect counts kept found
        | leave => exact found
      rw [found, ← same, key₁]

namespace Sample

def entry : EntryParam := ⟨4096, some 1, fileStat, 0, 0⟩

theorem steps_lookup_unsent : ∃ next next', Steps lookupCallback lookupEvents.dropLast
      (.call (.fuseReply ⟨2, .lookup⟩ (.entry entry)) next) ∧
    next none = .call (.dropShared 4096) next' ∧ next' (.dropped none) = .done (.ok (), { req := none }) :=
  ⟨_, _, .step _ (.step _ (.step _ (.step _ (.step _ (.step _ (.step _ (.step _ (.step _ (.step _
    (.step _ (.step _ (.step _ (.step _ (.step _ (.step _ (.refl _)))))))))))))))), rfl, rfl⟩

/-- The first lookup is about to reply. -/
def unsent : World := (mounted.arrive lookupTag.1 lookupTag.2).play countsName lookupEvents.dropLast

def given : Given := ⟨4096, some 1, (8, 77)⟩

theorem plays_unsent : (mounted.arrive lookupTag.1 lookupTag.2).Plays countsName lookupEvents.dropLast :=
  ⟨trivial, rfl, rfl, trivial, ⟨_, rfl⟩, rfl, rfl, rfl, trivial, rfl, rfl, rfl, trivial, trivial,
    trivial, rfl, trivial⟩

/-! The kernel forgets the file. -/

def forgetTag : FuseReq × Request := (⟨6, .forget⟩, .forget 4096 1)

def forgetEvents : List (Event calls) :=
  [⟨.logInode (.node 4096), ()⟩,
    ⟨.unref .forget (.node 4096) 1, .dropped (some ⟨9, 77, 8, some (.ok 1), none⟩)⟩,
    ⟨.sys (.close 9 true), .ok ()⟩, ⟨.fuseReply ⟨6, .forget⟩ .nothing, none⟩]

def forgotten : World := ((lookedUp.arrive forgetTag.1 forgetTag.2).play countsName forgetEvents).depart
  forgetTag.2

def otherStat : Stat := ⟨8, 78, 0o100644, 0, 0, 0, ⟨0, 0⟩, ⟨0, 0⟩⟩

theorem idle_again {p : FuseReq → Option Request} (h : ∀ req, p req = none) (t : FuseReq) (r : Request)
    (req : FuseReq) : Function.update (Function.update p t (some r)) t none req = none := by
  rw [Function.update_idem, Function.update_apply]
  split
  · rfl
  · exact h req

theorem idle_lookedUp (req : FuseReq) : lookedUp.pending req = none :=
  idle_again (fun _ => rfl) lookupTag.1 lookupTag.2 req

theorem steps_forget : Exec (callback linux (some .onLinux) forgetTag.1 .replyNone
    (fun _ : PageAlignFS => PageAlignFS.forget 4096 1) { req := none }) forgetEvents
    (.ok (), { req := none }) := .step _ (.step _ (.step _ (.step _ (.refl _))))

end Sample

end Pafs
