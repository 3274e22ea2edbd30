import Pafs.Fds
import Pafs.Main
import Pafs.Pollers

/-! The process from its start to its end: the root is opened, sessions run against the
mounted daemon, and what is left is destroyed. A session loop is one call of `main` and a
whole run of the daemon. -/
namespace Pafs
open Resumption

structure Process where
  world : World
  polls : Set PollPtr
  /-- what libfuse has been given to serve -/
  sessions : SessionPtr → Option PageAlignFS

/-- The inodes of the cache, each once, in any order. -/
structure World.Cached (w : World) (addrs : List Addr) (inodes : List Inode) : Prop where
  once : addrs.Nodup
  all : ∀ a, a ∈ addrs ↔ ∃ n, w.inodes.heap a = some n
  inodes : List.Forall₂ (fun a i => w.inodeAt (.node a) = some i) addrs inodes

namespace World

/-- Nothing has been opened; the object is not constructed yet. -/
def bare (storage : Inode) (foreign : Fd → Bool) : World :=
  { World.initial storage foreign with fds := fun fd => if foreign fd then some .handle else none }

def newPageAlignFS (w : World) (root : Inode) : World :=
  { w with root, inodes := .empty, fds := Function.update w.fds root.fd (some .root) }

/-- The descriptors of the inodes belong to the thread that destroys them. -/
def takeInodes (w : World) : World :=
  { w with
    inodes := .empty
    fds := fun fd =>
      match w.fds fd with
      | some (.inode _) => some .thread
      | o => o }

def takeRoot (w : World) : World := w.own w.root.fd (some .thread)

end World

namespace Process

def initial (storage : Inode) (foreign : Fd → Bool) : Process where
  world := .bare storage foreign
  polls := ∅
  sessions := fun _ => none

/-- A session loop returns when it has stopped its threads. -/
def Loops (counts : String → Bool) (s : Process) (se : SessionPtr) (s' : Process) : Prop :=
  ∃ fs, s.sessions se = some fs ∧
    (polling fs counts).Reach (fun _ _ => True) (s.world, s.polls) ⟨(s'.world, s'.polls), []⟩ ∧
    s'.sessions = s.sessions

def perform (counts : String → Bool) (s : Process) (c : hosted.Call) (ret : hosted.Ret c) (s' : Process) : Prop :=
  match c, ret with
  | .inl c, ret => s.world.Answers c ret ∧
      s' = { s with world := s.world.effect counts c ret, polls := pollNote s.polls c ret }
  | .inr (.newPageAlignFS root _), _ => s' = { s with world := s.world.newPageAlignFS root }
  | .inr .takeInodes, inodes => (∃ addrs, s.world.Cached addrs inodes) ∧
      s' = { s with world := s.world.takeInodes }
  | .inr .takeRoot, root => root = s.world.root ∧ s' = { s with world := s.world.takeRoot }
  | .inr (.fuseSessionNew _ fs), some se => s.sessions se = none ∧
      s' = { s with sessions := Function.update s.sessions se (some fs) }
  | .inr (.fuseSessionDestroy se), _ => s' = { s with sessions := Function.update s.sessions se none }
  | .inr (.fuseSessionLoop se), _ | .inr (.fuseSessionLoopMt se _), _ => s.Loops counts se s'
  | .inr _, _ => s' = s

end Process

/-- A process runs `main`. -/
def process (P : Platform) (counts : String → Bool) : Machine hosted Process (List String) Int where
  starts s argv p s' := s' = s ∧ p = main P argv
  perform := Process.perform counts
  leave s _ := s

/-- How far the life of the object in `pafs` has come. -/
inductive Life where
  | unborn
  /-- `Create` has opened the root -/
  | opened (fd : Fd)
  | built
  | served
  /-- these inodes are still to be destroyed; `root` says whether `root_` is there -/
  | dying (inodes : List Inode) (root : Bool)

namespace Life

def closed : Life → Life
  | .opened _ => .unborn
  | .dying (_ :: rest) root => .dying rest root
  | l => l

def silenced : Life → Life
  | .dying (i :: rest) root => .dying ({ i with pollHandle := none } :: rest) root
  | l => l

/-- What the daemon's own code may do outside a session. -/
def Allows (l : Life) : Call → Prop
  | .sys (.openat _ _ _ _) => l = .unborn
  | .sys (.fstatat _ _ _) => True
  | .sys (.close fd _) => l = .opened fd ∨
      ∃ i rest root, l = .dying (i :: rest) root ∧ i.pollHandle = none ∧ i.fd = fd
  | .destroyPollHandle ph => ∃ i rest root, l = .dying (i :: rest) root ∧ i.pollHandle = some ph
  | _ => False

end Life

/-- The calls that the life of the object takes no part in. -/
def HostCall.idle : HostCall → Bool
  | .newPageAlignFS _ _ | .takeInodes | .takeRoot | .fuseSessionLoop _ | .fuseSessionLoopMt _ _ => false
  | _ => true

def living : Discipline hosted Life where
  allows l c :=
    match c with
    | .inl c => l.Allows c
    | .inr (.newPageAlignFS root _) => l = .opened root.fd ∧ root.pollHandle = none
    | .inr .takeInodes => l = .built ∨ l = .served
    | .inr .takeRoot => l = .dying [] true
    | .inr (.fuseSessionLoop _) | .inr (.fuseSessionLoopMt _ _) => l = .built
    | .inr _ => True
  answers _ _ _ := True
  after l c ret :=
    match c, ret with
    | .inl (.sys (.openat _ _ _ _)), .ok fd => .opened fd
    | .inl (.sys (.close _ _)), _ => l.closed
    | .inl (.destroyPollHandle _), _ => l.silenced
    | .inr (.newPageAlignFS _ _), _ => .built
    | .inr .takeInodes, inodes => .dying inodes true
    | .inr .takeRoot, root => .dying [root] false
    | .inr (.fuseSessionLoop _), _ | .inr (.fuseSessionLoopMt _ _), _ => .served
    | _, _ => l

section Follows
open Routine
variable {P : Platform} {l : Life} {opts : FuseCmdlineOpts} {args argv : List String} {mountpoint : String}

theorem rests_host {c : HostCall} (idle : c.idle = true) : Rests living l (onHost c) := by
  cases c
  all_goals first | exact Rests.invoke trivial fun _ _ => rfl | cases idle

theorem lives_destroy (i : Inode) (rest : List Inode) (root : Bool) (s : Unit) :
    Follows living.inl (i.destroy : Io Unit Unit) s (.dying (i :: rest) root) fun r _ l =>
      r = .ok () ∧ l = .dying rest root := by
  unfold Inode.destroy
  cases handle : i.pollHandle with
  | none => exact ⟨.inr ⟨i, rest, root, rfl, handle, rfl⟩, fun _ _ => ⟨rfl, rfl⟩⟩
  | some ph =>
      refine ⟨⟨i, rest, root, rfl, handle⟩, fun _ _ => ⟨?_, fun _ _ => ⟨rfl, rfl⟩⟩⟩
      exact .inr ⟨{ i with pollHandle := none }, rest, root, rfl, rfl, rfl⟩

theorem lives_destroyAll (inodes : List Inode) (root : Bool) (s : Unit) :
    Follows living.inl (destroyAll inodes) s (.dying inodes root) fun r _ l =>
      r = .ok () ∧ l = .dying [] root := by
  induction inodes generalizing s with
  | nil => exact ⟨rfl, rfl⟩
  | cons i rest ih =>
      unfold destroyAll
      rw [follows_bind]
      apply (lives_destroy i rest root s).mono
      rintro r s l ⟨rfl, rfl⟩
      exact ih s

theorem lives_gone (standing : l = .built ∨ l = .served) (s : Unit) :
    Follows living PageAlignFS.destroy s l fun _ _ l => l = .dying [] false := by
  unfold PageAlignFS.destroy
  rw [follows_bind, follows_onHost]
  refine ⟨standing, fun inodes _ => ?_⟩
  dsimp only
  rw [follows_bind, follows_inl]
  apply (lives_destroyAll inodes true s).mono
  rintro r s l ⟨rfl, rfl⟩
  dsimp only
  rw [follows_bind, follows_onHost]
  refine ⟨rfl, fun root _ => ?_⟩
  dsimp only
  rw [follows_inl]
  apply (lives_destroy root [] false s).mono
  rintro r s l ⟨-, rfl⟩
  rfl

/-- The descriptor of the root is kept if there is an object to own it, and closed otherwise. -/
theorem lives_createFrom {srcdir : String} {o : Options} (s : Unit) :
    Follows living (PageAlignFS.createFrom P srcdir o) s .unborn fun r _ l =>
      match r with
      | .ok _ => l = .built
      | .error _ => l = .unborn := by
  have closes (fd : Fd) (s : Unit) : Follows living.inl (FileDescriptor.destroy fd : Io Unit Unit) s (.opened fd)
      fun _ _ l => l = .unborn := ⟨.inl rfl, fun _ _ => rfl⟩
  have stats (fd : Fd) (s : Unit) : Follows living.inl (statFD P fd : Io Unit Stat) s (.opened fd)
      fun _ _ l => l = .opened fd := by
    unfold statFD Syscalls.fstatat
    rw [follows_syscall]
    exact ⟨trivial, fun _ _ => rfl, fun _ _ => rfl⟩
  have opens : Follows living.inl (Inode.create P srcdir AT_FDCWD : Io Unit Inode) s .unborn fun r _ l =>
      match r with
      | .ok root => l = .opened root.fd ∧ root.pollHandle = none
      | .error _ => l = .unborn := by
    unfold Inode.create Syscalls.openat
    rw [follows_bind, follows_syscall]
    refine ⟨rfl, fun e _ => rfl, fun fd _ => ?_⟩
    dsimp only
    rw [follows_bind, follows_onError]
    apply (stats fd s).mono
    rintro r s l rfl
    cases r with
    | ok st => exact ⟨rfl, rfl⟩
    | error e => exact closes fd s
  unfold PageAlignFS.createFrom
  rw [follows_bind, follows_inl]
  apply opens.mono
  intro r s l opened
  cases r with
  | error e => exact opened
  | ok root =>
      obtain ⟨rfl, unpolled⟩ := opened
      dsimp only
      rw [follows_bind, follows_onError, follows_bind, follows_inl]
      apply (stats root.fd s).mono
      rintro r s l rfl
      have gone (s : Unit) : Follows living.inl (root.destroy : Io Unit Unit) s (.opened root.fd)
          fun _ _ l => l = .unborn := by
        unfold Inode.destroy
        rw [unpolled]
        exact closes root.fd s
      cases r with
      | error e =>
          dsimp only
          rw [follows_inl]
          exact gone s
      | ok st =>
          dsimp only
          split
          · exact ⟨⟨rfl, unpolled⟩, fun _ _ => rfl⟩
          · rw [follows_fail]
            dsimp only
            rw [follows_inl]
            exact gone s

/-- A session leaves an object to destroy. -/
def Standing (l : Life) : Prop := l = .built ∨ l = .served

theorem lives_runLoop {se : SessionPtr} (s : Unit) :
    Follows living (runLoop opts se) s .built fun _ _ l => Standing l := by
  apply Rests.first (rests_host rfl) fun _ => .inl rfl
  intro _ s
  split
  · exact ⟨rfl, fun _ _ => .inr rfl⟩
  · apply Rests.first (rests_host rfl) fun _ => .inl rfl
    intro created s
    cases created with
    | none =>
        apply Rests.first (rests_host rfl) fun _ => .inl rfl
        intro impossible
        cases impossible
    | some config =>
        apply Rests.last _ fun _ => rests_host rfl
        apply Rests.first (rests_host rfl) fun _ => .inl rfl
        intro _ s
        apply Rests.first (rests_host rfl) fun _ => .inl rfl
        intro _ s
        apply Rests.first (rests_host rfl) fun _ => .inl rfl
        intro _ s
        exact ⟨rfl, fun _ _ => .inr rfl⟩

theorem lives_runSession {pafs : PageAlignFS} (s : Unit) :
    Follows living (runSession opts args mountpoint pafs) s .built fun _ _ l => Standing l := by
  apply Rests.first (rests_host rfl) fun _ => .inl rfl
  intro session s
  cases session with
  | none => exact .inl rfl
  | some se =>
      apply Rests.last _ fun _ => rests_host rfl
      apply Rests.first (rests_host rfl) fun _ => .inl rfl
      intro handlers s
      split
      · exact .inl rfl
      · apply Rests.last _ fun _ => rests_host rfl
        apply Rests.first (rests_host rfl) fun _ => .inl rfl
        intro mounted s
        split
        · exact .inl rfl
        · exact Rests.last (lives_runLoop s) fun _ => rests_host rfl

/-- There was never an object, or it has been destroyed. -/
def Over (l : Life) : Prop := l = .unborn ∨ l = .dying [] false

theorem lives_runCommand (s : Unit) :
    Follows living (runCommand P opts args) s .unborn fun _ _ l => Over l := by
  unfold runCommand
  split
  · exact ⟨trivial, fun _ _ => ⟨trivial, fun _ _ => .inl rfl⟩⟩
  · split
    · exact ⟨trivial, fun _ _ => ⟨trivial, fun _ _ => .inl rfl⟩⟩
    · split
      · exact ⟨trivial, fun _ _ => .inl rfl⟩
      · apply Rests.first (rests_host rfl) fun _ => .inl rfl
        intro entry s
        apply Rests.first (rests_host rfl) fun _ => .inl rfl
        intro attr s
        rw [follows_bind]
        apply (lives_createFrom s).mono
        intro r s l created
        cases r with
        | error e => exact .inl created
        | ok pafs =>
            have built : l = .built := created
            subst built
            dsimp only
            rw [follows_andFinally]
            apply (lives_runSession s).mono
            intro r s l standing
            apply (lives_gone standing s).mono
            rintro r s l rfl
            exact .inr rfl

theorem lives_pafsMain (s : Unit) : Follows living (pafsMain P argv) s .unborn fun _ _ l => Over l := by
  apply Rests.first (rests_host rfl) fun _ => .inl rfl
  intro args s
  apply Rests.last _ fun _ => rests_host rfl
  apply Rests.first (rests_host rfl) fun _ => .inl rfl
  intro parsed s
  cases parsed with
  | none => exact .inl rfl
  | some parsed => exact Rests.last (lives_runCommand s) fun _ => rests_host rfl

theorem lives_main : (main P argv).Follows living .unborn fun _ l => Over l := by
  unfold main
  rw [Prog.follows_bind]
  apply Prog.Follows.mono (lives_pafsMain ())
  rintro ⟨r, s⟩ l ended
  cases r with
  | ok status => exact ended
  | error e => exact ended

end Follows

/-! What the world looks like at every stage. -/

/-- No callback runs. -/
structure Quiesced (w : World) (polls : Set PollPtr) : Prop where
  inv : Inv w 0
  placed : Placed w.pollHandleAt 0 polls
  one : ∀ fd fd', w.fds fd = some .root → w.fds fd' = some .root → fd = fd'

/-- Only these inodes are left, and `root_` if it is there. -/
structure Dying (w : World) (polls : Set PollPtr) (inodes : List Inode) (root : Bool) : Prop where
  empty : w.inodes = .empty
  thread : ∀ fd, (inodes.map Inode.fd).count fd = if w.fds fd = some .thread then 1 else 0
  inode : ∀ fd a, w.fds fd ≠ some (.inode a)
  rootFd : ∀ fd, w.fds fd = some .root ↔ root = true ∧ fd = w.root.fd
  placed : Placed (fun r => if root then w.pollHandleAt r else none)
    (inodes.map Inode.pollHandle : List (Option PollPtr)) polls

def Life.Fits (w : World) (polls : Set PollPtr) : Life → Prop
  | .unborn => polls = ∅ ∧ ∃ foreign, w = .bare w.root foreign
  | .opened fd => polls = ∅ ∧ ∃ foreign, foreign fd = false ∧
      w = (World.bare w.root foreign).own fd (some .thread)
  | .built => polls = ∅ ∧ w.root.pollHandle = none ∧ ∃ foreign, w = .initial w.root foreign
  | .served => Quiesced w polls
  | .dying inodes root => Dying w polls inodes root

section Fits
variable {w : World} {polls : Set PollPtr} {l : Life} {inodes rest : List Inode} {i r : Inode} {root : Bool}
  {counts : String → Bool} {foreign : Fd → Bool} {fd : Fd} {ph : PollPtr}

theorem World.own_own (w : World) (fd : Fd) (o o' : Option Owner) : (w.own fd o).own fd o' = w.own fd o' := by
  unfold own
  dsimp only
  rw [Function.update_idem]

theorem World.own_same {o : Option Owner} (h : w.fds fd = o) : w.own fd o = w := by
  unfold own
  rw [← h, Function.update_eq_self]

theorem World.bare_free : (World.bare r foreign).fds fd = none ↔ foreign fd = false := by
  change (if foreign fd then some Owner.handle else none) = none ↔ _
  cases foreign fd <;> simp

theorem World.newPageAlignFS_bare (storage : Inode) :
    ((World.bare storage foreign).own r.fd (some .thread)).newPageAlignFS r = .initial r foreign := by
  have fds : Function.update (Function.update (World.bare storage foreign).fds r.fd (some .thread)) r.fd (some .root) =
      (World.initial r foreign).fds := by
    funext fd
    rw [Function.update_idem, Function.update_apply]
    rfl
  unfold newPageAlignFS own
  dsimp only
  rw [fds]
  rfl

theorem Quiesced.initial (unpolled : r.pollHandle = none) : Quiesced (.initial r foreign) ∅ where
  inv := Inv.initial r foreign
  placed := .empty fun ref => by
    cases ref with
    | root => exact unpolled
    | node a => rfl
  one := by
    have only {fd : Fd} (h : (World.initial r foreign).fds fd = some .root) : fd = r.fd := by
      change (if fd = r.fd then some Owner.root else if foreign fd then some .handle else none) = _ at h
      split at h
      · assumption
      · split at h <;> cases h
    intro fd fd' h h'
    rw [only h, only h']

/-- Nothing but the descriptor of the root is ever its own. -/
def oneRoot (fs : PageAlignFS) (counts : String → Bool) : Protocol (polling fs counts)
    (fun _ _ => True) (Ledger × Option PollPtr) :=
  (pollkeeping fs counts).strengthen (fun _ _ _ => trivial)
    (fun x _ => ∀ fd fd', x.1.fds fd = some .root → x.1.fds fd' = some .root → fd = fd')
    (by
      rintro ⟨w, live⟩ tag p ⟨w', live'⟩ f ⟨⟨send, rfl, -⟩, -⟩ - - one fd fd' h h'
      have before {fd : Fd} (h : (w.arrive tag.1 tag.2).fds fd = some .root) : w.fds fd = some .root := by
        rw [World.fds_arrive] at h
        cases released : tag.2.released with
        | none =>
            rw [released] at h
            exact h
        | some lent =>
            rw [released] at h
            change Function.update w.fds lent (some .thread) fd = _ at h
            rw [Function.update_apply] at h
            split at h
            · cases h
            · exact h
      exact one fd fd' (before h) (before h'))
    (by
      rintro ⟨w, live⟩ ⟨w', live'⟩ ⟨l, hand⟩ f c ret ⟨allows, -⟩ ⟨⟨answers, rfl⟩, rfl⟩ - ⟨inv, -⟩ one fd fd' h h'
      rw [Multiset.map_cons] at inv
      have before {fd : Fd} (h : (w.effect counts c ret).fds fd = some .root) : w.fds fd = some .root := by
        rcases inv.transfers allows answers with ⟨fds, -⟩ | ⟨moved, o, fds, transfer⟩
        · rw [fds] at h
          exact h
        · rw [fds, Function.update_apply] at h
          split at h
          · subst h
            generalize (w, live).1.fds moved = old at transfer
            cases transfer
          · exact h
      exact one fd fd' (before h) (before h'))
    (fun _ _ one => one)

/-- A session loop leaves no callback behind. -/
theorem Quiesced.loop {fs : PageAlignFS} {w' : World} {polls' : Set PollPtr} (h : Quiesced w polls)
    (run : (polling fs counts).Reach (fun _ _ => True) (w, polls) ⟨(w', polls'), []⟩) : Quiesced w' polls' := by
  have start : (oneRoot fs counts).Inv (w, polls) 0 := by
    refine ⟨⟨?_, h.placed⟩, h.one⟩
    rw [Multiset.map_zero]
    exact h.inv
  have quiet := (Protocol.holds_of_reach (oneRoot fs counts) start run).quiescent rfl
  obtain ⟨⟨inv, placed⟩, one⟩ := quiet
  rw [Multiset.map_zero] at inv
  exact ⟨inv, placed, one⟩

namespace World.Cached
variable {addrs : List Addr}

theorem address (h : w.Cached addrs inodes) (mem : i ∈ inodes) : ∃ a ∈ addrs, w.inodeAt (.node a) = some i := by
  obtain ⟨k, bound, rfl⟩ := List.getElem_of_mem mem
  have bound' : k < addrs.length := by rw [h.inodes.length_eq]; exact bound
  exact ⟨addrs[k], List.getElem_mem bound', h.inodes.get bound' bound⟩

theorem listed (h : w.Cached addrs inodes) {a : Addr} {n : Node} (heap : w.inodes.heap a = some n) :
    n.inode ∈ inodes := by
  obtain ⟨k, bound, rfl⟩ := List.getElem_of_mem ((h.all a).mpr ⟨n, heap⟩)
  have bound' : k < inodes.length := by rw [← h.inodes.length_eq]; exact bound
  have here : w.inodeAt (.node addrs[k]) = some inodes[k] := h.inodes.get bound bound'
  have same : some n.inode = some inodes[k] := by rw [← here, inodeAt, heap, Option.map_some]
  rw [Option.some.inj same]
  exact List.getElem_mem bound'

/-- Every inode has a descriptor of its own. -/
theorem fds_nodup (h : w.Cached addrs inodes) (inv : Inv w 0) : (inodes.map Inode.fd).Nodup := by
  have owner {a : Addr} {i : Inode} (here : w.inodeAt (.node a) = some i) : w.fds i.fd = some (.inode a) := by
    obtain ⟨n, heap, rfl⟩ := Option.map_eq_some_iff.mp here
    exact inv.descriptors.inode_of_heap heap
  obtain ⟨once, -, inodes⟩ := h
  induction inodes with
  | nil => exact List.nodup_nil
  | @cons a i addrs inodes here rest ih =>
      obtain ⟨new, once⟩ := List.nodup_cons.mp once
      rw [List.map_cons, List.nodup_cons]
      refine ⟨fun mem => new ?_, ih once⟩
      obtain ⟨j, mem, same⟩ := List.mem_map.mp mem
      obtain ⟨k, bound, rfl⟩ := List.getElem_of_mem mem
      have bound' : k < addrs.length := by rw [rest.length_eq]; exact bound
      have there := owner (rest.get bound' bound)
      change w.fds inodes[k].fd = _ at there
      rw [same, owner here] at there
      cases there
      exact List.getElem_mem bound'

end World.Cached

theorem Quiesced.takeInodes {addrs : List Addr} (h : Quiesced w polls) (cached : w.Cached addrs inodes) :
    Dying w.takeInodes polls inodes true where
  empty := rfl
  thread fd := by
    have owned : fd ∈ inodes.map Inode.fd ↔ w.takeInodes.fds fd = some .thread := by
      constructor
      · intro mem
        obtain ⟨i, listed, rfl⟩ := List.mem_map.mp mem
        obtain ⟨a, -, here⟩ := cached.address listed
        obtain ⟨n, heap, rfl⟩ := Option.map_eq_some_iff.mp here
        have owner := h.inv.descriptors.inode_of_heap heap
        unfold World.takeInodes
        dsimp only
        rw [owner]
      · intro owner
        unfold World.takeInodes at owner
        dsimp only at owner
        split at owner
        · next a inode =>
            obtain ⟨e, view, rfl⟩ := Option.map_eq_some_iff.mp ((h.inv.descriptors.inode a fd).mp inode)
            obtain ⟨n, heap, rfl⟩ := InodeCache.heap_of_view view
            exact List.mem_map.mpr ⟨n.inode, cached.listed heap, rfl⟩
        · exact absurd owner (h.inv.descriptors.no_thread fd)
    rw [(cached.fds_nodup h.inv).count]
    simp only [owned]
  inode fd a := by
    unfold World.takeInodes
    dsimp only
    split
    · simp
    · next other => exact fun owner => other a owner
  rootFd fd := by
    have same : w.takeInodes.fds fd = some .root ↔ w.fds fd = some .root := by
      unfold World.takeInodes
      dsimp only
      split
      · next owner => simp [owner]
      · rfl
    rw [same]
    constructor
    · intro owner
      exact ⟨rfl, h.one fd w.root.fd owner h.inv.descriptors.root⟩
    · rintro ⟨-, rfl⟩
      exact h.inv.descriptors.root
  placed := by
    have once : (addrs.map InodeRef.node).Nodup := cached.once.map fun a b same => InodeRef.node.inj same
    have collected := h.placed.collect once
    have hands : (addrs.map InodeRef.node).map w.pollHandleAt = inodes.map Inode.pollHandle := by
      have inodes := cached.inodes
      clear cached once collected
      induction inodes with
      | nil => rfl
      | cons here rest ih =>
          rw [List.map_cons, List.map_cons, List.map_cons, ih, World.pollHandleAt, here]
          rfl
    have place : (fun r => if r ∈ addrs.map InodeRef.node then none else w.pollHandleAt r) =
        fun r => if true then w.takeInodes.pollHandleAt r else none := by
      funext r
      rw [if_pos rfl]
      cases r with
      | root => exact if_neg (by simp)
      | node a =>
          have gone : w.takeInodes.pollHandleAt (.node a) = none := rfl
          rw [gone]
          by_cases mem : a ∈ addrs
          · exact if_pos (List.mem_map_of_mem mem)
          · have absent : w.inodes.heap a = none := by
              cases heap : w.inodes.heap a with
              | none => rfl
              | some n => exact absurd ((cached.all a).mpr ⟨n, heap⟩) mem
            rw [if_neg (by simp [mem]), World.pollHandleAt, World.inodeAt, absent]
            rfl
    rw [place, hands, add_zero] at collected
    exact collected

/-- `root_` is next. -/
theorem Dying.takeRoot (h : Dying w polls [] true) : Dying w.takeRoot polls [w.root] false where
  empty := h.empty
  thread fd := by
    have idle : w.fds fd ≠ some .thread := by
      intro owner
      have none_held := h.thread fd
      rw [if_pos owner] at none_held
      cases none_held
    change [w.root.fd].count fd = if Function.update w.fds w.root.fd (some .thread) fd = some .thread then 1 else 0
    rw [Function.update_apply, List.count_singleton]
    by_cases mine : fd = w.root.fd
    · simp [mine]
    · rw [if_neg mine, if_neg idle, if_neg]
      simpa using Ne.symm mine
  inode fd a := by
    change Function.update w.fds w.root.fd (some .thread) fd ≠ _
    rw [Function.update_apply]
    split
    · simp
    · exact h.inode fd a
  rootFd fd := by
    change Function.update w.fds w.root.fd (some .thread) fd = _ ↔ _
    rw [Function.update_apply]
    split
    · simp
    · next other => simp [h.rootFd fd, other]
  placed := by
    have taken := (Placed.idle_iff.mpr h.placed).exchange .root
    have place : Function.update (fun r => if true then w.pollHandleAt r else none) .root none =
        fun r => if false then w.takeRoot.pollHandleAt r else none := by
      funext r
      rw [Function.update_apply]
      cases r with
      | root => rfl
      | node a =>
          have gone : w.pollHandleAt (.node a) = none := by
            rw [World.pollHandleAt, World.inodeAt, h.empty]
            rfl
          simp [gone]
    rw [place] at taken
    exact taken

theorem Dying.close (h : Dying w polls (i :: rest) root) (quiet : i.pollHandle = none) :
    w.fds i.fd = some .thread ∧ Dying (w.own i.fd none) polls rest root := by
  have mine := h.thread i.fd
  rw [List.map_cons, List.count_cons_self] at mine
  have owner : w.fds i.fd = some .thread := by
    by_contra other
    rw [if_neg other] at mine
    cases mine
  rw [if_pos owner] at mine
  refine ⟨owner, h.empty, fun fd => ?_, fun fd a => ?_, fun fd => ?_, ?_⟩
  · change _ = if Function.update w.fds i.fd none fd = some .thread then 1 else 0
    rw [Function.update_apply]
    by_cases same : fd = i.fd
    · rw [if_pos same, same]
      simpa using mine
    · rw [if_neg same, ← h.thread fd, List.map_cons, List.count_cons_of_ne (Ne.symm same)]
  · change Function.update w.fds i.fd none fd ≠ _
    rw [Function.update_apply]
    split
    · simp
    · exact h.inode fd a
  · change Function.update w.fds i.fd none fd = _ ↔ _
    rw [Function.update_apply]
    split
    · next same =>
        constructor
        · intro none_left
          cases none_left
        · rintro ⟨left, here⟩
          have rootFd := (h.rootFd fd).mpr ⟨left, here⟩
          rw [same, owner] at rootFd
          cases rootFd
    · exact h.rootFd fd
  · have placed := h.placed
    rw [List.map_cons, quiet, ← Multiset.cons_coe] at placed
    exact Placed.idle_iff.mp placed

theorem Dying.destroyPollHandle (h : Dying w polls (i :: rest) root) (handle : i.pollHandle = some ph) :
    ph ∈ polls ∧ Dying w (polls \ {ph}) ({ i with pollHandle := none } :: rest) root := by
  have placed := h.placed
  rw [List.map_cons, handle, ← Multiset.cons_coe] at placed
  refine ⟨placed.held.1, h.empty, h.thread, h.inode, h.rootFd, ?_⟩
  rw [List.map_cons, ← Multiset.cons_coe]
  exact placed.discard

/-- Nothing is left to destroy. -/
theorem Dying.ended (h : Dying w polls [] false) : polls = ∅ ∧
    ∀ fd o, w.fds fd = some o → o = .handle ∨ (∃ d, o = .stream d) ∨ o = .leaked := by
  constructor
  · apply Set.eq_empty_of_forall_notMem
    intro ph live
    obtain ⟨r, here⟩ := (h.placed.live_iff ph).mp live
    cases here
  · intro fd o owner
    have thread := h.thread fd
    have inode := h.inode fd
    have root := h.rootFd fd
    rw [owner] at thread inode root
    cases o with
    | root => exact absurd (root.mp rfl).1 Bool.false_ne_true
    | inode a => exact absurd rfl (inode a)
    | thread => cases thread
    | handle => exact .inl rfl
    | stream d => exact .inr (.inl ⟨d, rfl⟩)
    | leaked => exact .inr (.inr rfl)

theorem Life.Fits.built (h : Life.built.Fits w polls) : Quiesced w polls := by
  obtain ⟨none_live, unpolled, foreign, initial⟩ := h
  rw [none_live, initial]
  exact .initial unpolled

/-- No callback runs when the object is destroyed. -/
theorem Life.Fits.standing (h : l.Fits w polls) (standing : Standing l) : Quiesced w polls := by
  rcases standing with rfl | rfl
  · exact h.built
  · exact h

/-- The daemon's own code, outside a session. -/
theorem Life.Fits.act {c : Call} {ret : c.Ret} (h : l.Fits w polls) (allows : l.Allows c) (answers : w.Answers c ret) :
    (living.after l (Sum.inl c) ret).Fits (w.effect counts c ret) (pollNote polls c ret) := by
  cases c with
  | sys s =>
      cases s with
      | openat dirfd path flags mode =>
          have unborn : l = .unborn := allows
          subst unborn
          cases ret with
          | error e => exact h
          | ok fd =>
              obtain ⟨none_live, foreign, bare⟩ := h
              have free : w.fds fd = none := answers
              rw [bare] at free
              exact ⟨none_live, foreign, World.bare_free.mp free, congrArg (World.own · fd (some .thread)) bare⟩
      | fstatat fd path flag => exact h
      | close fd byDestructor =>
          rcases allows with rfl | ⟨i, rest, root, rfl, quiet, rfl⟩
          · obtain ⟨none_live, foreign, free, bare⟩ := h
            refine ⟨none_live, foreign, ?_⟩
            change w.own fd none = _
            rw [bare, World.own_own]
            exact World.own_same (World.bare_free.mpr free)
          · exact (h.close quiet).2
      | _ => exact allows.elim
  | destroyPollHandle ph =>
      obtain ⟨i, rest, root, rfl, handle⟩ := allows
      exact (h.destroyPollHandle handle).2
  | _ => exact allows.elim

theorem Process.fits {s s' : Process} {c : hosted.Call} {ret : hosted.Ret c} (allows : living.allows l c)
    (performs : s.perform counts c ret s') (h : l.Fits s.world s.polls) :
    (living.after l c ret).Fits s'.world s'.polls := by
  rcases c with c | c
  · obtain ⟨answers, rfl⟩ := performs
    exact h.act allows answers
  · have loop {se : SessionPtr} (built : l = .built) (loops : s.Loops counts se s') : Quiesced s'.world s'.polls := by
      subst built
      obtain ⟨fs, -, run, -⟩ := loops
      exact h.built.loop run
    cases c with
    | newPageAlignFS root opts =>
        obtain ⟨rfl, unpolled⟩ := allows
        obtain ⟨none_live, foreign, free, opened⟩ := h
        have made : s' = { s with world := s.world.newPageAlignFS root } := performs
        subst made
        refine ⟨none_live, unpolled, foreign, ?_⟩
        change s.world.newPageAlignFS root = World.initial root foreign
        rw [opened, World.newPageAlignFS_bare]
    | takeInodes =>
        obtain ⟨⟨addrs, cached⟩, rfl⟩ := performs
        exact (h.standing allows).takeInodes cached
    | takeRoot =>
        obtain ⟨rfl, rfl⟩ := performs
        have last : l = .dying [] true := allows
        subst last
        exact Dying.takeRoot h
    | fuseSessionLoop se => exact loop allows performs
    | fuseSessionLoopMt se config => exact loop allows performs
    | fuseSessionNew args fs =>
        cases ret with
        | none =>
            have same : s' = s := performs
            subst same
            exact h
        | some se =>
            obtain ⟨-, rfl⟩ := performs
            exact h
    | fuseSessionDestroy se =>
        have gone : s' = { s with sessions := Function.update s.sessions se none } := performs
        subst gone
        exact h
    | abort => cases ret
    | _ =>
        have same : s' = s := performs
        subst same
        exact h

end Fits

/-- What a process may be about to do, and how it ends. -/
structure Tidy (p : Prog hosted Int) (s : Process) : Prop where
  /-- a descriptor that is about to be closed is open and belongs to the code that closes it -/
  closes : ∀ fd byDestructor next, p = .call (Sum.inl (.sys (.close fd byDestructor))) next →
    s.world.fds fd = some .thread
  /-- a poll handle that is about to be destroyed is live -/
  destroys : ∀ ph next, p = .call (Sum.inl (.destroyPollHandle ph)) next → ph ∈ s.polls
  /-- a session starts with an open root, an empty cache and nothing else -/
  begins : ∀ c next, p = .call (Sum.inr c) next →
    (∃ se, c = .fuseSessionLoop se ∨ ∃ config, c = .fuseSessionLoopMt se config) →
    s.polls = ∅ ∧ s.world.root.pollHandle = none ∧ ∃ foreign, s.world = .initial s.world.root foreign
  /-- no `shared_ptr` outlives the cache -/
  unshared : ∀ next, p = .call (Sum.inr .takeInodes) next → ∀ a, s.world.shared a = 0
  /-- in the end every poll handle has been destroyed, and the descriptors that are open are
  those of files and directories that the kernel has not released, or lost by `fdopendir` -/
  ended : ∀ status, p = .done status → s.polls = ∅ ∧
    ∀ fd o, s.world.fds fd = some o → o = .handle ∨ (∃ d, o = .stream d) ∨ o = .leaked

theorem tidy_life {P : Platform} {counts : String → Bool} {argv : List String} {storage : Inode} {foreign : Fd → Bool}
    {p : Prog hosted Int} {t : List (Event hosted)} {s : Process} (steps : Steps (main P argv) t p)
    (performs : (process P counts).Performs (.initial storage foreign) t s) : Tidy p s := by
  have start : Life.unborn.Fits (Process.initial storage foreign).world (Process.initial storage foreign).polls :=
    ⟨rfl, foreign, rfl⟩
  obtain ⟨l, follows, fits⟩ := lives_main.performs (P := fun s l => l.Fits s.world s.polls) steps performs start
    fun allows performs h => ⟨trivial, Process.fits allows performs h⟩
  constructor
  · rintro fd byDestructor next rfl
    rcases follows.1 with rfl | ⟨i, rest, root, rfl, quiet, rfl⟩
    · obtain ⟨-, foreign, -, opened⟩ := fits
      rw [opened]
      exact Function.update_self _ _ _
    · exact (Dying.close fits quiet).1
  · rintro ph next rfl
    obtain ⟨i, rest, root, rfl, handle⟩ := follows.1
    exact (Dying.destroyPollHandle fits handle).1
  · rintro c next rfl ⟨se, rfl | ⟨config, rfl⟩⟩
    · have built : l = .built := follows.1
      subst built
      exact fits
    · have built : l = .built := follows.1
      subst built
      exact fits
  · rintro next rfl a
    exact (fits.standing follows.1).inv.counts.shared a
  · rintro status rfl
    rcases follows with rfl | rfl
    · obtain ⟨none_live, foreign, bare⟩ := fits
      refine ⟨none_live, fun fd o owner => .inl ?_⟩
      rw [bare] at owner
      change (if foreign fd then some Owner.handle else none) = some o at owner
      split at owner
      · exact (Option.some.inj owner).symm
      · cases owner
    · exact Dying.ended fits

namespace Sample

/-- The file that was polled is the only one in the cache. -/
theorem cached_once : polledOnce.Cached [4096] [⟨9, 77, 8, some (.ok 1), some 701⟩] where
  once := List.nodup_singleton _
  all a := by
    have here : polledOnce.inodes.heap 4096 = some ⟨1, ⟨9, 77, 8, some (.ok 1), some 701⟩⟩ := by decide +kernel
    rw [List.mem_singleton]
    constructor
    · rintro rfl
      exact ⟨_, here⟩
    · rintro ⟨n, heap⟩
      by_contra other
      -- the five writes to the heap were all at the one address
      have absent : polledOnce.inodes.heap a = none :=
        (dif_neg other).trans ((dif_neg other).trans ((dif_neg other).trans ((dif_neg other).trans (dif_neg other))))
      rw [absent] at heap
      cases heap
  inodes := .cons (by decide +kernel) .nil

theorem performs_life : ∃ s, (process linux countsName).Performs (.initial rootInode fun _ => false) lifeEvents s :=
  ⟨_, _, rfl, _, rfl, _, rfl, _, rfl, _, ⟨rfl, rfl⟩, _, ⟨trivial, rfl⟩, _, ⟨trivial, rfl⟩,
    ⟨mounted, ∅, fun _ => none⟩, congrArg (Process.mk · ∅ fun _ => none) (World.newPageAlignFS_bare rootInode).symm,
    _, ⟨rfl, rfl⟩,
    _, rfl, _, rfl, _, rfl, _, rfl, _, rfl, _, rfl, _, rfl,
    ⟨polledOnce, insert 701 ∅, _⟩, ⟨_, rfl, reached_polling_once, rfl⟩,
    _, rfl, _, rfl, _, rfl, _, rfl, _, ⟨⟨_, cached_once⟩, rfl⟩, _, ⟨trivial, rfl⟩, _, ⟨trivial, rfl⟩,
    _, ⟨rfl, rfl⟩, _, ⟨trivial, rfl⟩, _, rfl, _, rfl, rfl⟩

end Sample

open Sample in
/-- The polled file and the root are gone; the open file is still the kernel's. -/
theorem tidy_life_mounted : ∃ s, (process linux countsName).Performs (.initial rootInode fun _ => false) lifeEvents s ∧
    Tidy (.done EXIT_SUCCESS) s := by
  obtain ⟨s, performs⟩ := performs_life
  exact ⟨s, performs, tidy_life exec_life performs⟩

end Pafs
