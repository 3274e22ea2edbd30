import Pafs.Anatomy
import Pafs.Polls
import Pafs.Resumption.Product
import Pafs.Resumption.Resting
import Pafs.Resumption.Tokens

/-! Poll handles. libfuse hands a handle over with a `Poll`; from then on an inode keeps it or
a thread holds it, until it is destroyed. Handles are moved by swaps and by destructors, and
none is lost or destroyed twice. -/
namespace Pafs
open Resumption
open Routine (Follows Rests)

/-- The handle that comes with a request. -/
def Request.pollHandle : Request → Option PollPtr
  | .poll _ _ ph => ph
  | _ => none

/-- What an erased inode leaves behind. -/
def Unrefed.pollHandle : Unrefed → Option PollPtr
  | .dropped (some i) => i.pollHandle
  | _ => none

/-! What one thread does with the handle it holds. -/

/-- The ledger is the handle that the thread holds. An inode that goes into the cache has
none, and whoever takes an inode out of the cache has a hand free for its handle. -/
def holding : Discipline calls (Option PollPtr) where
  allows hand
    | .addPollHandle _ ph | .destroyPollHandle ph => hand = some ph
    | .insert i => hand = none ∧ i.pollHandle = none
    | .unref _ _ _ | .dropShared _ => hand = none
    | _ => True
  answers _ _ _ := True
  after hand c ret :=
    match c, ret with
    | .addPollHandle _ _, old => old
    | .destroyPollHandle _, _ => none
    | .unref _ _ _, answer | .dropShared _, answer => answer.pollHandle
    | _, _ => hand

namespace Holding

variable {σ : Type} {fs : PageAlignFS} {req : FuseReq} {ph : PollPtr} {o : Option PollPtr}

theorem light (c : Call) (light : c.light = true) : holding.allows none c ∧
    ∀ r, holding.answers none c r → holding.after none c r = none := by
  cases c
  all_goals first | exact ⟨trivial, fun _ _ => rfl⟩ | cases light

theorem invoke {c : Call} (h : c.light = true) : Rests holding none (Routine.invoke (I := calls) c : Io σ c.Ret) :=
  .invoke (light c h).1 (light c h).2

theorem closeFd (fd : Fd) : Rests holding none (FileDescriptor.destroy fd : Io σ Unit) :=
  .bind (invoke rfl) fun _ => .pure ()

theorem destroy_inode (i : Inode) (s : σ) :
    Follows holding (i.destroy : Io σ Unit) s i.pollHandle fun _ _ hand => hand = none := by
  unfold Inode.destroy
  cases i.pollHandle with
  | none => exact closeFd i.fd s
  | some ph => exact ⟨rfl, fun _ _ => closeFd i.fd s⟩

/-- The handle of an erased inode dies with the inode. -/
theorem settle (answer : Unrefed) (s : σ) :
    Follows holding (answer.settle : Io σ Unit) s answer.pollHandle fun _ _ hand => hand = none := by
  cases answer with
  | missing key => rfl
  | checkFailed => exact ⟨trivial, fun impossible => (by cases impossible)⟩
  | dropped erased =>
      cases erased with
      | none => rfl
      | some i => exact destroy_inode i s

theorem unref (site : UnrefSite) (r : InodeRef) (n : Nat) :
    Rests holding none (Inodes.unref site r n : Io σ Unit) := by
  intro s
  unfold Inodes.unref
  rw [Routine.follows_bind, Routine.follows_invoke]
  exact ⟨rfl, fun answer _ => settle answer s⟩

theorem dropShared (a : Addr) : Rests holding none (Inodes.dropShared a : Io σ Unit) := by
  apply Rests.bind _ fun _ => .pure ()
  intro s
  rw [Routine.follows_attempt, Routine.follows_bind, Routine.follows_invoke]
  exact ⟨rfl, fun answer _ => settle answer s⟩

theorem syscall {P : Platform} (c : Sys) (message : String) :
    Rests holding none (syscall P c message : Io σ c.Ret) := by
  intro s
  rw [follows_syscall]
  exact ⟨trivial, fun _ _ => rfl, fun _ _ => rfl⟩

/-- A new inode has no handle. -/
theorem create_inode {P : Platform} (path : String) (parentFd : Fd) (s : σ) :
    Follows holding (Inode.create P path parentFd) s none fun created _ hand =>
      hand = none ∧ ∀ i, created = .ok i → i.pollHandle = none := by
  unfold Inode.create
  rw [Routine.follows_bind]
  apply (syscall (.openat parentFd path (O_PATH ||| O_NOFOLLOW ||| O_CLOEXEC) 0) _ s).mono
  rintro opened s hand rfl
  cases opened with
  | error e => exact ⟨rfl, fun i same => (by cases same)⟩
  | ok fd =>
      dsimp only
      rw [Routine.follows_bind]
      apply (Rests.onError (syscall (.fstatat fd "" (AT_EMPTY_PATH ||| AT_SYMLINK_NOFOLLOW)) _)
        (closeFd fd) s).mono
      rintro st s hand rfl
      cases st with
      | error e => exact ⟨rfl, fun i same => (by cases same)⟩
      | ok st =>
          refine ⟨rfl, ?_⟩
          rintro i ⟨⟩
          rfl

theorem findOrCreateInode (parent : InodeRef) (path : String) :
    Rests holding none (fs.findOrCreateInode parent path : Io σ Addr) := by
  refine .bind (invoke rfl) fun parentFd s => ?_
  rw [Routine.follows_bind]
  apply (create_inode path parentFd s).mono
  rintro created s' hand ⟨rfl, fresh⟩
  cases created with
  | error e => rfl
  | ok i =>
      have none_yet : i.pollHandle = none := fresh i rfl
      unfold Inodes.insert
      dsimp only
      rw [Routine.follows_bind, Routine.follows_invoke]
      refine ⟨⟨rfl, none_yet⟩, fun inserted _ => ?_⟩
      dsimp only
      have destroyed : Rests holding none (doIf (!inserted.fresh) i.destroy : Io σ Unit) := by
        intro s
        have gone := destroy_inode i s
        rw [none_yet] at gone
        cases inserted.fresh with
        | true => rfl
        | false => exact gone
      exact (destroyed.bind fun _ => .pure inserted.addr) s'

theorem addsUp : AddsUp fun σ α _ (m : Io σ α) => Rests holding none m where
  mono _ h := h
  pure := .pure
  fail := .fail
  ofExcept := .ofExcept
  getLocal := .getLocal
  setLocal := .setLocal
  bind := .bind
  attempt := .attempt
  onError := .onError
  andFinally := .andFinally
  invoke _ h := invoke h
  unref := unref
  dropShared := dropShared
  findOrCreateInode _ := findOrCreateInode

theorem notifyPollEvent {P : Platform} (r : InodeRef) : Rests holding none (Inode.notifyPollEvent P r : Io σ Unit) := by
  have reads : Rests holding none (Routine.invoke (I := calls) (.pollHandle r) : Io σ (Option PollPtr)) :=
    .invoke trivial fun _ _ => rfl
  apply Rests.bind reads
  intro present
  cases present with
  | none => exact .pure ()
  | some _ =>
      apply Rests.bind reads
      intro handle
      cases handle with
      | none => exact .pure ()
      | some ph => exact .bind (.invoke trivial fun _ _ => rfl) fun rc => .ofExcept _

theorem epilogue {P : Platform} (finish : Finish) (status : Status) :
    Rests holding none (epilogue P finish status) := addsUp.epilogue finish status

/-- `Poll` gives its handle to the inode and destroys the one that was there. -/
theorem follows_poll {ino : Addr} (s : FuseRequest) :
    Follows holding (fs.poll ino (some ph)) s (some ph) fun _ _ hand => hand = none := by
  unfold PageAlignFS.poll
  dsimp only
  rw [Routine.follows_bind, Routine.follows_invoke]
  refine ⟨trivial, fun _ _ => ?_⟩
  dsimp only
  rw [Routine.follows_bind]
  have added : Follows holding (Inode.addPollHandle (getInode ino) (some ph)) s (some ph)
      fun _ _ hand => hand = none := by
    unfold Inode.addPollHandle
    dsimp only
    rw [Routine.follows_bind, Routine.follows_invoke]
    refine ⟨rfl, fun old _ => ?_⟩
    cases old with
    | none => rfl
    | some o => exact ⟨rfl, fun _ _ => rfl⟩
  apply added.mono
  rintro r s' hand rfl
  cases r with
  | error e => rfl
  | ok _ => exact addsUp.polled s'

theorem invocation {r : Request} {method : PageAlignFS → Handler}
    (invoked : pageAlignFSOps.invocation r = some method) (s : FuseRequest) :
    Follows holding (method fs) s r.pollHandle fun _ _ hand => hand = none := by
  cases brought : r.pollHandle with
  | none =>
      refine addsUp.invocation (fun dirInode size off fi plus => ?_) invoked (fun ino fi ph same => ?_)
        (fun ino inBuf off fi _ => notifyPollEvent _) s
      · exact addsUp.readDirInternal (n := 0) (fun _ h => h) dirInode size off fi plus
      · subst same
        cases brought
  | some ph =>
      cases r with
      | poll ino fi o =>
          cases brought
          cases fi with
          | none => cases invoked
          | some fi =>
              cases invoked
              exact follows_poll s
      | _ => cases brought

theorem follows_serve {r : Request} {handler : Handler} (served : fs.serve req r = some handler) :
    Follows holding handler ⟨none⟩ r.pollHandle fun _ _ hand => hand = none := by
  obtain ⟨method, invoked⟩ | null := invocation_or_null served
  · rw [PageAlignFS.serve, asFuseLowLevelOps_of_invocation invoked] at served
    cases served
    rw [follows_callback]
    apply (invocation invoked _).mono
    rintro status s hand rfl
    exact epilogue _ status s
  · obtain ⟨next, aborts⟩ := asFuseLowLevelOps_of_null served null ⟨none⟩
    rw [Follows, aborts]
    refine ⟨trivial, fun impossible => ?_⟩
    cases impossible

end Holding

/-! What a call does to the handles that the inodes keep. -/

namespace World

variable {w w' : World} {a : Addr} {r : InodeRef}

def pollHandleAt (w : World) (r : InodeRef) : Option PollPtr := (w.inodeAt r).bind Inode.pollHandle

theorem pollHandleAt_arrive (req : FuseReq) (request : Request) :
    (w.arrive req request).pollHandleAt = w.pollHandleAt := by
  funext r
  rw [pollHandleAt, inodeAt_arrive, pollHandleAt]

theorem pollHandleAt_update {o : Option Inode} (at_ : w'.inodeAt = Function.update w.inodeAt r o) :
    w'.pollHandleAt = Function.update w.pollHandleAt r (o.bind Inode.pollHandle) := by
  funext r'
  rw [pollHandleAt, at_, Function.update_apply, Function.update_apply]
  split
  · rfl
  · rfl

/-- One node of the cache is changed. -/
theorem inodeAt_node {o : Option Node} (root : w'.root = w.root)
    (heap : w'.inodes.heap = Function.update w.inodes.heap a o) :
    w'.inodeAt = Function.update w.inodeAt (.node a) (o.map Node.inode) := by
  funext r
  cases r with
  | root =>
      rw [Function.update_of_ne InodeRef.noConfusion]
      exact congrArg some root
  | node b =>
      change (w'.inodes.heap b).map Node.inode = _
      rw [heap]
      by_cases same : b = a
      · subst same
        simp
      · rw [Function.update_of_ne same, Function.update_of_ne fun eq => same (InodeRef.node.inj eq)]
        rfl

/-- A node that stands for the same inode afterwards. -/
theorem inodeAt_kept {n m : Node} (root : w'.root = w.root) (here : w.inodes.heap a = some n)
    (heap : w'.inodes.heap = Function.update w.inodes.heap a (some m)) (same : m.inode = n.inode) :
    w'.inodeAt = w.inodeAt := by
  rw [inodeAt_node root heap]
  apply Function.update_eq_self_iff.mpr
  simp [inodeAt, here, same]

/-- `Unref` of an inode that is in the cache, by no more than its count. -/
theorem inodeAt_unref {n : Nat} {answer : Unrefed} (h : w.Unrefs (.node a) n answer) (pos : 0 < n)
    (le : n ≤ w.refcnt a) :
    (answer.pollHandle = none ∧ (w.unref (.node a) n answer).inodeAt = w.inodeAt) ∨
      (answer.pollHandle = w.pollHandleAt (.node a) ∧
        (w.unref (.node a) n answer).inodeAt = Function.update w.inodeAt (.node a) none) := by
  obtain ⟨e, view⟩ := view_of_refcnt (lt_of_lt_of_le pos le)
  rw [refcnt_of_view view] at le
  obtain ⟨node, here, rfl⟩ := InodeCache.heap_of_view view
  obtain ⟨answered, heap⟩ := InodeCache.unref_of_heap here le
  have at_a : w.inodeAt (.node a) = some node.inode := by simp [inodeAt, here]
  have given : answer = .dropped (if node.refcnt = n then some node.inode else none) := by
    rw [← answered]
    simpa [Unrefs, Reads, at_a] using h
  have after : (w.unref (.node a) n answer).inodes = (w.inodes.unref node.inode.key n).2 := by
    unfold unref
    rw [at_a]
    dsimp only
    unfold takeErased
    split <;> rfl
  rw [← after] at heap
  by_cases last : node.refcnt = n
  · rw [if_pos last] at given heap
    refine .inr ⟨?_, inodeAt_node root_unref heap⟩
    rw [given, pollHandleAt, at_a]
    rfl
  · rw [if_neg last] at given heap
    refine .inl ⟨?_, inodeAt_kept root_unref here heap rfl⟩
    rw [given]
    rfl

theorem inodeAt_insert (counts : String → Bool) {i : Inode} {inserted : Inserted}
    (h : w.Answers (.insert i) inserted) :
    (w.effect counts (.insert i) inserted).inodeAt = w.inodeAt ∨
      (w.inodeAt (.node inserted.addr) = none ∧ (w.effect counts (.insert i) inserted).inodeAt =
        Function.update w.inodeAt (.node inserted.addr) (some i)) := by
  obtain ⟨inodes, found⟩ := h
  have root : (w.effect counts (.insert i) inserted).root = w.root :=
    root_effect counts (c := .insert i) inserted (fun _ same => by cases same) fun _ same => by cases same
  have after : (w.effect counts (.insert i) inserted).inodes = inodes := by
    unfold effect
    dsimp only
    rw [found]
    dsimp only
    split <;> rfl
  rw [← after] at found
  obtain ⟨-, free, -, heap⟩ | ⟨n, -, here, -, heap⟩ := InodeCache.insert_cases found
  · exact .inr ⟨by simp [inodeAt, free], inodeAt_node root heap⟩
  · exact .inl (inodeAt_kept root here heap rfl)

theorem inodeAt_ref (counts : String → Bool) (n : Nat) (rc : Option Key) :
    (w.effect counts (.ref r n) rc).inodeAt = w.inodeAt := by
  unfold effect
  dsimp only
  split
  · next i _ =>
      split
      · next inodes found =>
          unfold InodeCache.ref at found
          split at found
          · cases found
          · next b m there =>
              cases found
              exact inodeAt_kept rfl (InodeCache.find_eq_some_iff.mp there).1 rfl rfl
      · rfl
  · rfl

theorem inodeAt_written (w : World) (r : InodeRef) (f : Inode → Inode) (keeps : ∀ i, (f i).key = i.key) :
    (w.write r f keeps).inodeAt = Function.update w.inodeAt r ((w.inodeAt r).map f) := by
  funext r'
  by_cases here : r' = r
  · subst here
    rw [inodeAt_write, Function.update_self]
  · rw [Function.update_of_ne here]
    cases r with
    | root =>
        cases r' with
        | root => exact absurd rfl here
        | node b => rfl
    | node a =>
        cases r' with
        | root => rfl
        | node b =>
            have other : b ≠ a := fun same => here (congrArg InodeRef.node same)
            change ((w.inodes.update a f keeps).heap b).map Node.inode = _
            rw [InodeCache.update_heap, Function.update_of_ne other]
            rfl

/-- Most calls leave the handles alone. -/
theorem pollHandleAt_light (counts : String → Bool) {c : Call} (ret : c.Ret) (light : c.light = true) :
    (w.effect counts c ret).pollHandleAt = w.pollHandleAt := by
  have unchanged (root : (w.effect counts c ret).root = w.root)
      (inodes : (w.effect counts c ret).inodes = w.inodes) :
      (w.effect counts c ret).pollHandleAt = w.pollHandleAt := by
    funext r
    unfold pollHandleAt inodeAt
    rw [root, inodes]
  cases c with
  | sys s =>
      cases s
      case open_ | openat | dup | fdopendir => cases ret <;> exact unchanged rfl rfl
      case closedir d =>
          apply unchanged
          · unfold effect
            dsimp only
            split <;> rfl
          · unfold effect
            dsimp only
            split <;> rfl
      all_goals exact unchanged rfl rfl
  | setGeneration ref v =>
      have written : (w.effect counts (.setGeneration ref v) ret).inodeAt = _ :=
        w.inodeAt_written ref (fun i => { i with generation := some v }) fun _ => rfl
      rw [pollHandleAt_update written]
      apply Function.update_eq_self_iff.mpr
      unfold pollHandleAt
      cases w.inodeAt ref <;> rfl
  | ref ref n =>
      funext r
      unfold pollHandleAt
      rw [inodeAt_ref]
  | fuseReply req reply =>
      cases ret with
      | some e => exact unchanged rfl rfl
      | none =>
          apply unchanged
          · simp only [effect, receive]
            split <;> rfl
          · simp only [effect, receive]
            split <;> rfl
  | insert i => cases light
  | unref site ref n => cases light
  | dropShared b => cases light
  | addPollHandle ref ph => cases light
  | destroyPollHandle ph => cases light
  | pollHandle ref => cases light
  | notifyPoll ph => cases light
  | abort site => cases ret
  | _ => exact unchanged rfl rfl

end World

/-! The daemon with an observer who keeps the set of live handles. -/

/-- A handle that comes with a request is none of those that are live. -/
def pollComes (_ : World) (tag : FuseReq × Request) (live live' : Set PollPtr) : Prop :=
  match tag.2.pollHandle with
  | some ph => ph ∉ live ∧ live' = insert ph live
  | none => live' = live

def pollNote (live : Set PollPtr) (c : Call) (_ : c.Ret) : Set PollPtr :=
  match c with
  | .destroyPollHandle ph => live \ {ph}
  | _ => live

def polling (fs : PageAlignFS) (counts : String → Bool) :
    Machine calls (World × Set PollPtr) (FuseReq × Request) (Status × FuseRequest) :=
  (daemon fs counts).observed pollComes pollNote

section Runs
variable {fs : PageAlignFS} {counts : String → Bool} {root : Inode} {pipes : Fd → Bool} {w : World}
  {l : Ledger} {f : Multiset Ledger} {hand : Option PollPtr} {hands : Multiset (Option PollPtr)} {live : Set PollPtr}
  {a : Addr}

theorem World.placed_unref {n : Nat} {answer : Unrefed} (h : Placed w.pollHandleAt (none ::ₘ hands) live)
    (unrefs : w.Unrefs (.node a) n answer) (pos : 0 < n) (le : n ≤ w.refcnt a) :
    Placed (w.unref (.node a) n answer).pollHandleAt (answer.pollHandle ::ₘ hands) live := by
  obtain ⟨empty, same⟩ | ⟨erased, gone⟩ := World.inodeAt_unref unrefs pos le
  · have kept : (w.unref (.node a) n answer).pollHandleAt = w.pollHandleAt := by
      funext r
      rw [World.pollHandleAt, same, World.pollHandleAt]
    rw [empty, kept]
    exact h
  · rw [erased, World.pollHandleAt_update gone]
    exact h.exchange (.node a)

/-- One step of a thread: the handle that it holds changes places, or nothing moves. -/
theorem World.placed_act {c : Call} {ret : c.Ret} (h : Placed w.pollHandleAt (hand ::ₘ hands) live) (allows : l.Allows c)
    (may : holding.allows hand c) (answers : w.Answers c ret) (inv : Inv w (l ::ₘ f)) :
    Placed (w.effect counts c ret).pollHandleAt (holding.after hand c ret ::ₘ hands) (pollNote live c ret) := by
  have idle (light : c.light = true) : holding.after hand c ret = hand ∧ pollNote live c ret = live := by
    cases c
    all_goals first | exact ⟨rfl, rfl⟩ | cases light
  have permits := allows.permits
  cases c with
  | addPollHandle ref ph =>
      cases may
      obtain ⟨i, here⟩ : ∃ i, w.inodeAt ref = some i := by
        rcases allows.reaches ref rfl with reaches | ⟨late, -⟩
        · cases ref with
          | root => exact ⟨w.root, rfl⟩
          | node a =>
              obtain ⟨e, view⟩ := World.view_of_refcnt (reaches.live inv)
              obtain ⟨n, heap, -⟩ := InodeCache.heap_of_view view
              exact ⟨n.inode, by simp [World.inodeAt, heap]⟩
        · cases late
      have old : ret = w.pollHandleAt ref := by
        have read : w.Reads ref Inode.pollHandle ret := answers
        rw [World.Reads, here] at read
        rw [World.pollHandleAt, here]
        exact read
      have written : (w.effect counts (.addPollHandle ref ph) ret).inodeAt = _ :=
        w.inodeAt_written ref (fun i => { i with pollHandle := some ph }) fun _ => rfl
      rw [World.pollHandleAt_update written, here]
      have moved := h.exchange ref
      rw [← old] at moved
      exact moved
  | destroyPollHandle ph =>
      cases may
      exact h.discard
  | insert i =>
      obtain ⟨rfl, none_yet⟩ := may
      obtain same | ⟨free, new⟩ := World.inodeAt_insert counts answers
      · have kept : (w.effect counts (.insert i) ret).pollHandleAt = w.pollHandleAt := by
          funext r
          rw [World.pollHandleAt, same, World.pollHandleAt]
        rw [kept]
        exact h
      · have kept : (w.effect counts (.insert i) ret).pollHandleAt = w.pollHandleAt := by
          rw [World.pollHandleAt_update new]
          apply Function.update_eq_self_iff.mpr
          rw [World.pollHandleAt, free]
          exact none_yet
        rw [kept]
        exact h
  | unref site ref n =>
      cases may
      cases site with
      | cleanup =>
          obtain ⟨a, rfl, pos, le⟩ := permits
          have counted := inv.counts.held a
          exact World.placed_unref h answers pos (by omega)
      | forget =>
          obtain ⟨a, rfl, pos, le⟩ := permits
          have counted := inv.counts.held a
          exact World.placed_unref h answers pos (by omega)
  | dropShared a =>
      cases may
      have held : 0 < l.shared a := permits
      have counted := inv.counts.held a
      exact World.placed_unref h answers Nat.one_pos (by omega)
  | pollHandle ref => exact h
  | notifyPoll ph => exact h
  | _ =>
      rw [World.pollHandleAt_light counts ret rfl, (idle rfl).1, (idle rfl).2]
      exact h

/-- A ledger of accounts and the handle it holds, for every thread. -/
def pollkeeping (fs : PageAlignFS) (counts : String → Bool) : Protocol (polling fs counts)
    (fun _ _ => True) (Ledger × Option PollPtr) :=
  ((bookkeeping fs counts).observed pollComes pollNote).extend (fun _ _ _ => trivial) holding
    (fun tag => tag.2.pollHandle) (· = none) (fun x f => Placed x.1.pollHandleAt (f.map Prod.snd) x.2)
    (by
      rintro ⟨w, live⟩ tag p ⟨w', live'⟩ f ⟨⟨send, rfl, handler, served, rfl⟩, comes⟩ - - h
      refine ⟨Holding.follows_serve served, ?_⟩
      dsimp only at comes h ⊢
      unfold pollComes at comes
      rw [World.pollHandleAt_arrive, Multiset.map_cons]
      cases brought : tag.2.pollHandle with
      | none =>
          rw [brought] at comes
          rw [comes]
          exact Placed.idle_iff.mpr h
      | some ph =>
          rw [brought] at comes
          obtain ⟨new, rfl⟩ := comes
          exact h.receive new)
    (by
      rintro ⟨w, live⟩ ⟨w', live'⟩ l hand f c ret allows may ⟨⟨answers, rfl⟩, rfl⟩ - inv h
      rw [Multiset.map_cons] at h ⊢
      exact ⟨trivial, World.placed_act h allows may answers inv⟩)
    (by
      rintro ⟨w, live⟩ l hand f - rfl - h
      rw [Multiset.map_cons] at h
      exact Placed.idle_iff.mp h)

abbrev PollDaemon := Config calls (World × Set PollPtr) (FuseReq × Request) (Status × FuseRequest)

/-- What becomes of the poll handles. -/
structure PollHandlesKept (s : PollDaemon) : Prop where
  /-- the handle of an inode can be notified, and is the handle of no other inode -/
  live : ∀ r ph, s.world.1.pollHandleAt r = some ph → ph ∈ s.world.2
  once : ∀ r r' ph, s.world.1.pollHandleAt r = some ph → s.world.1.pollHandleAt r' = some ph → r = r'
  /-- what is about to be destroyed has not been destroyed yet, and no inode keeps it -/
  destroys : ∀ ph, s.Next (.destroyPollHandle ph) → ph ∈ s.world.2 ∧ ∀ r, s.world.1.pollHandleAt r ≠ some ph
  /-- two threads never destroy the same handle -/
  apart : ∀ (pre mid post : List (Thread calls (FuseReq × Request) (Status × FuseRequest)))
    (t t' : Thread calls (FuseReq × Request) (Status × FuseRequest)) ph next next',
    s.threads = pre ++ t :: (mid ++ t' :: post) → t.prog = .call (.destroyPollHandle ph) next →
    t'.prog ≠ .call (.destroyPollHandle ph) next'
  /-- when all callbacks have returned, every live handle is that of an inode -/
  settled : s.threads = [] → ∀ ph ∈ s.world.2, ∃ r, s.world.1.pollHandleAt r = some ph

theorem poll_handles_kept {s : PollDaemon} (unpolled : root.pollHandle = none)
    (run : (polling fs counts).Reach (fun _ _ => True) (.initial root pipes, ∅) s) : PollHandlesKept s := by
  have nothing (r : InodeRef) : (World.initial root pipes).pollHandleAt r = none := by
    cases r with
    | root => exact unpolled
    | node a => rfl
  have initial : (pollkeeping fs counts).Inv (.initial root pipes, ∅) 0 := by
    refine ⟨?_, .empty nothing⟩
    rw [Multiset.map_zero]
    exact Inv.initial root pipes
  have holds := Protocol.holds_of_reach (pollkeeping fs counts) initial run
  obtain ⟨f, -, placed⟩ := holds.inv
  refine ⟨fun r ph here => placed.kept here, placed.apart, fun ph next => ?_, ?_, fun quiet ph mem => ?_⟩
  · obtain ⟨⟨l, hand⟩, f, ⟨-, may⟩, -, placed⟩ := holds.next next
    cases may
    rw [Multiset.map_cons] at placed
    exact placed.held
  · intro pre mid post t t' ph next next' threads prog prog'
    obtain ⟨w, ts⟩ := s
    cases threads
    obtain ⟨⟨l, hand⟩, ⟨l', hand'⟩, f, own, own', -, placed⟩ := holds.two
    have may := own.follows
    have may' := own'.follows
    rw [prog] at may
    rw [prog'] at may'
    obtain ⟨⟨-, rfl⟩, -⟩ := may
    obtain ⟨⟨-, rfl⟩, -⟩ := may'
    rw [Multiset.map_cons, Multiset.map_cons] at placed
    exact placed.held_once rfl
  · obtain ⟨-, placed⟩ := holds.quiescent quiet
    exact (placed.live_iff ph).mp mem

end Runs

namespace Sample

/-- No poll handle comes or is destroyed. -/
def Unpolled : World → Label calls (FuseReq × Request) → Prop
  | _, .arrive tag => tag.2.pollHandle = none
  | _, .act _ e => ∀ ph, e.1 ≠ .destroyPollHandle ph
  | _, .leave _ => True

/-- The world and the second poller, when it is about to destroy the handle of the first. -/
def replaced : World :=
  (polledOnce.arrive (pollTag 21 702).1 (pollTag 21 702).2).play countsName (secondPoll.take 2)

def firstPoll : List (Event calls) :=
  [⟨.logInode (.node 4096), ()⟩, ⟨.addPollHandle (.node 4096) 701, none⟩] ++ pollTail 20

/-- What happens until the first poller has gone. -/
def untilPolled : List (Event calls) :=
  lookupEvents ++ ⟨.dropShared 4096, .dropped none⟩ :: (openEvents ++ firstPoll)

section Polled
variable (ok : World × Set PollPtr → Label calls (FuseReq × Request) → Prop)

theorem reach_polling_opened (come : ∀ x tag, ok x (.arrive tag))
    (acts : ∀ x tag, ∀ e ∈ untilPolled, ok x (.act tag e)) (go : ∀ x tag, ok x (.leave tag)) :
    (polling .onLinux countsName).Reach ok (mounted, ∅) ⟨(opened, ∅), []⟩ := by
  have looked : (daemon .onLinux countsName).Reach (fun w label => Unpolled w label ∧ ∀ live, ok (w, live) label)
      mounted ⟨lookedUp, []⟩ := by
    refine reach_lookedUp _ ⟨rfl, fun _ => come _ _⟩ (fun w e mem => ⟨fun ph same => ?_, fun live => acts _ _ e ?_⟩)
      (fun w => ⟨fun ph same => ?_, fun live => acts _ _ _ ?_⟩) fun _ => ⟨trivial, fun _ => go _ _⟩
    · simp only [lookupEvents, List.mem_cons, List.not_mem_nil, or_false] at mem
      rcases mem with rfl | rfl | rfl | rfl | rfl | rfl | rfl | rfl | rfl | rfl | rfl | rfl | rfl | rfl | rfl |
        rfl | rfl
      all_goals cases same
    · exact List.mem_append_left _ mem
    · cases same
    · exact List.mem_append_right _ (.head _)
  have opens : (daemon .onLinux countsName).Reach (fun w label => Unpolled w label ∧ ∀ live, ok (w, live) label)
      mounted ⟨opened, []⟩ := by
    refine reach_opened _ looked (fun _ => ⟨rfl, fun _ => come _ _⟩)
      (fun w e mem => ⟨fun ph same => ?_, fun live => acts _ _ e ?_⟩) fun _ => ⟨trivial, fun _ => go _ _⟩
    · simp only [openEvents, List.mem_cons, List.not_mem_nil, or_false] at mem
      rcases mem with rfl | rfl | rfl | rfl
      all_goals cases same
    · exact List.mem_append_right _ (.tail _ (List.mem_append_left _ mem))
  have quiet (c : Call) (ret : c.Ret) (other : ∀ ph, c ≠ .destroyPollHandle ph) : pollNote ∅ c ret = ∅ := by
    cases c with
    | destroyPollHandle ph => exact absurd rfl (other ph)
    | _ => rfl
  obtain ⟨live, rfl, reached⟩ : ∃ live, live = ∅ ∧ (polling .onLinux countsName).Reach
      (fun x label => Unpolled x.1 label ∧ ∀ live, ok (x.1, live) label) (mounted, ∅) ⟨(opened, live), []⟩ :=
    opens.observe (P := (· = ∅)) rfl
    (by
      rintro w tag live ⟨unpolled, -⟩ rfl
      refine ⟨∅, ?_, rfl⟩
      have none_comes : tag.2.pollHandle = none := unpolled
      unfold pollComes
      rw [none_comes])
    (by
      rintro w tag e live ⟨unpolled, -⟩ rfl
      exact quiet e.1 e.2 unpolled)
  exact reached.mono fun x _ admitted => admitted.2 x.2

theorem reach_polling_once (come : ∀ x tag, ok x (.arrive tag))
    (acts : ∀ x tag, ∀ e ∈ untilPolled, ok x (.act tag e)) (go : ∀ x tag, ok x (.leave tag)) :
    (polling .onLinux countsName).Reach ok (mounted, ∅) ⟨(polledOnce, insert 701 ∅), []⟩ := by
  have send : opened.MaySend (pollTag 20 701).1 (pollTag 20 701).2 := by
    refine ⟨idle_opened _, rfl, fun a h => .inr ?_, fun _ h => (nomatch h), fun _ h => (nomatch h), trivial⟩
    cases List.mem_singleton.mp h
    decide +kernel
  have starts : (polling .onLinux countsName).starts (opened, ∅) (pollTag 20 701) _
      (opened.arrive (pollTag 20 701).1 (pollTag 20 701).2, insert 701 ∅) :=
    ⟨⟨send, rfl, _, rfl, rfl⟩, Set.notMem_empty _, rfl⟩
  have steps : ∃ next, Steps (callback linux (some .onLinux) (pollTag 20 701).1 .replyFailure
      (fun fs : PageAlignFS => fs.poll 4096 (some 701)) { req := none }) [⟨.logInode (.node 4096), ()⟩]
      (.call (.addPollHandle (.node 4096) 701) next) ∧ Exec (next none) (pollTail 20) (.ok (), { req := none }) :=
    ⟨_, .step _ (.refl _), .step _ (.step _ (.step _ (.refl _)))⟩
  obtain ⟨next, log, rest⟩ := steps
  have asks : (daemon .onLinux countsName).Performs (opened.arrive (pollTag 20 701).1 (pollTag 20 701).2)
      [⟨.logInode (.node 4096), ()⟩] asked := ⟨_, ⟨trivial, rfl⟩, rfl⟩
  have plays : registered.Plays countsName (pollTail 20) := ⟨rfl, trivial, trivial, trivial⟩
  have polls : (daemon .onLinux countsName).Performs registered (pollTail 20) (registered.play countsName (pollTail 20)) :=
    plays.performs
  have listed {e : Event calls} (mem : e ∈ firstPoll) : e ∈ untilPolled :=
    List.mem_append_right _ (.tail _ (List.mem_append_right _ mem))
  have opens := reach_polling_opened ok come acts go
  have started := (opens.step (.arrive starts) (come _ _)).run log (asks.observed _) fun x e mem =>
    acts x _ e (listed (List.mem_append_left _ (List.mem_cons.mpr (.inl (List.mem_singleton.mp mem)))))
  have adds : (polling .onLinux countsName).perform (asked, insert 701 ∅) (.addPollHandle (.node 4096) 701) none
      (registered, insert 701 ∅) := ⟨⟨rfl, rfl⟩, rfl⟩
  have added := started.step (.act_head adds) (acts _ _ _ (listed (.tail _ (.head _))))
  have done := added.run rest (polls.observed _) fun x e mem => acts x _ e (listed (List.mem_append_right _ mem))
  exact done.step .leave_head (go _ _)

end Polled

theorem reached_polling_once : (polling .onLinux countsName).Reach (fun _ _ => True) (mounted, ∅)
    ⟨(polledOnce, insert 701 ∅), []⟩ :=
  reach_polling_once _ (fun _ _ => trivial) (fun _ _ _ _ => trivial) fun _ _ => trivial

theorem reach_polling_replaced : ∃ next, (polling .onLinux countsName).Reach (fun _ _ => True) (mounted, ∅)
    ⟨(replaced, insert 702 (insert 701 ∅)), [⟨pollTag 21 702, .call (.destroyPollHandle 701) next⟩]⟩ := by
  have starts : (polling .onLinux countsName).starts (polledOnce, insert 701 ∅) (pollTag 21 702) _
      (_, insert 702 (insert 701 ∅)) :=
    ⟨⟨maySend_secondPoll, rfl, _, rfl, rfl⟩, by simp, rfl⟩
  have steps : ∃ next, Steps (callback linux (some .onLinux) (pollTag 21 702).1 .replyFailure
      (fun fs : PageAlignFS => fs.poll 4096 (some 702)) { req := none }) (secondPoll.take 2)
      (.call (.destroyPollHandle 701) next) := ⟨_, .step _ (.step _ (.refl _))⟩
  obtain ⟨next, steps⟩ := steps
  have plays : (polledOnce.arrive (pollTag 21 702).1 (pollTag 21 702).2).Plays countsName (secondPoll.take 2) :=
    ⟨trivial, rfl, trivial⟩
  have performs : (daemon .onLinux countsName).Performs _ (secondPoll.take 2) replaced := plays.performs
  have started := reached_polling_once.step (.arrive starts) trivial
  exact ⟨next, started.run steps (performs.observed (insert 702 (insert 701 ∅))) fun _ _ _ => trivial⟩

end Sample

open Sample in
/-- The second poller is about to destroy the handle of the first. -/
theorem poll_handles_kept_polled : ∃ s : PollDaemon, s.Next (.destroyPollHandle 701) ∧
    s.world.1.pollHandleAt (.node 4096) = some 702 ∧ PollHandlesKept s := by
  obtain ⟨next, reached⟩ := reach_polling_replaced
  exact ⟨_, ⟨_, .head _, next, rfl⟩, rfl, poll_handles_kept rfl reached⟩

end Pafs
