import Pafs.Lifetime

/-! Descriptors. Every inode has an `O_PATH` descriptor of its own and every open file a
readable or writable one; which of the two a call is made on decides whether the kernel
accepts it. -/
namespace Pafs
open Resumption

variable {fs : PageAlignFS} {counts : String → Bool} {root : Inode} {pipes : Fd → Bool} {s : Daemon}
  {w w' : World} {l : Ledger} {f : Multiset Ledger} {fd : Fd}

/-- The descriptor of the root or of an inode in the cache. -/
def World.IsPathFd (w : World) (fd : Fd) : Prop :=
  fd = w.root.fd ∨ ∃ a n, w.inodes.heap a = some n ∧ n.inode.fd = fd

/-- No call that open(2) refuses on an `O_PATH` descriptor is about to be made on one. -/
def NotRefused (s : Daemon) : Prop :=
  ∀ c fd, s.Next c → fd ∈ c.refused → ¬ s.world.IsPathFd fd

/-- None of the requests whose handlers confuse the two descriptors is sent. -/
def UsesHandles : World → Label calls (FuseReq × Request) → Prop
  | _, .arrive tag => tag.2.usesPathFd = false
  | _, _ => True

theorem Descriptors.isPathFd (h : Descriptors w f) (path : w.IsPathFd fd) :
    w.fds fd = some .root ∨ ∃ a, w.fds fd = some (.inode a) := by
  rcases path with rfl | ⟨a, n, heap, rfl⟩
  · exact .inl h.root
  · refine .inr ⟨a, (h.inode a _).mpr ?_⟩
    rw [InodeCache.view_of_heap heap]
    rfl

/-- A descriptor the thread may use is its own or that of an open file. -/
theorem Ledger.MayUse.owner (inv : Inv w (l ::ₘ f)) (may : l.MayUse fd)
    (other : l.request.usesPathFd = false) : w.fds fd = some .thread ∨ w.fds fd = some .handle := by
  rcases may with held | ⟨owed, lent⟩ | uses
  · exact .inl (inv.descriptors.held held)
  · exact .inr (inv.requests.handles l.req l.request (inv.requests.owner owed) fd lent)
  · rw [other] at uses
    cases uses

/-- The books of a daemon that gets none of those requests. -/
def handlesOnly (fs : PageAlignFS) (counts : String → Bool) :
    Protocol (daemon fs counts) UsesHandles Ledger :=
  (bookkeeping fs counts).restrict (fun tag => tag.2.usesPathFd = false) (fun _ _ _ => trivial)
    fun _ _ admitted => admitted

/-- In every run without those requests the kernel refuses no descriptor for its kind. -/
theorem notRefused_of_usesHandles
    (run : (daemon fs counts).Reach UsesHandles (.initial root pipes) s) : NotRefused s := by
  have holds := Protocol.holds_of_reach (handlesOnly fs counts)
    ⟨Inv.initial root pipes, fun l mem => absurd mem (Multiset.notMem_zero l)⟩ run
  intro c fd next refused path
  obtain ⟨l, f, allows, inv, tags⟩ := holds.next next
  have other : l.request.usesPathFd = false := tags l (Multiset.mem_cons_self l f)
  have owner := (allows.descriptors fd refused).owner inv other
  rcases inv.descriptors.isPathFd path with isRoot | ⟨a, isInode⟩
  · rw [isRoot] at owner
    rcases owner with owner | owner <;> cases owner
  · rw [isInode] at owner
    rcases owner with owner | owner <;> cases owner

namespace Sample

/-! The open file is written through its own descriptor, and sought in through that of its
inode. -/

def copying : World :=
  (opened.arrive writeTag.1 writeTag.2).play countsName [⟨.logInode (.node 4096), ()⟩]

def seekTag : FuseReq × Request := (⟨12, .lseek⟩, .lseek 4096 0 0 (some ⟨1, 11, false, true⟩))

def seekEvents : List (Event calls) :=
  [⟨.logInode (.node 4096), ()⟩, ⟨.getFD (.node 4096), (9 : Int)⟩]

def seeking : World := (opened.arrive seekTag.1 seekTag.2).play countsName seekEvents

end Sample

open Sample in
theorem notRefused_write : ∃ next, Call.refused (.fuseBufCopy [⟨1, some 11, 0⟩] [⟨1, none, 0⟩]) = [11] ∧
    NotRefused ⟨copying, [⟨writeTag, .call (.fuseBufCopy [⟨1, some 11, 0⟩] [⟨1, none, 0⟩]) next⟩]⟩ := by
  have opens : (daemon .onLinux countsName).Reach UsesHandles mounted ⟨opened, []⟩ :=
    reach_opened UsesHandles (reach_lookedUp UsesHandles rfl (fun _ _ _ => trivial)
      (fun _ => trivial) fun _ => trivial) (fun _ => rfl) (fun _ _ _ => trivial) fun _ => trivial
  have started : (daemon .onLinux countsName).Reach UsesHandles mounted
      ⟨opened.arrive writeTag.1 writeTag.2, [⟨writeTag, callback linux (some .onLinux) writeTag.1
        .replyNone (fun fs : PageAlignFS => fs.writeBuf 4096 [⟨1, none, 0⟩] 0 ⟨1, 11, false, true⟩)
        { req := none }⟩]⟩ := opens.step (.arrive ⟨maySend_write, rfl, _, rfl, rfl⟩) rfl
  have steps : ∃ next, Steps (callback linux (some .onLinux) writeTag.1 .replyNone
      (fun fs : PageAlignFS => fs.writeBuf 4096 [⟨1, none, 0⟩] 0 ⟨1, 11, false, true⟩)
      { req := none }) [⟨.logInode (.node 4096), ()⟩]
      (.call (.fuseBufCopy [⟨1, some 11, 0⟩] [⟨1, none, 0⟩]) next) := ⟨_, .step _ (.refl _)⟩
  obtain ⟨next, steps⟩ := steps
  have plays : (opened.arrive writeTag.1 writeTag.2).Plays countsName [⟨.logInode (.node 4096), ()⟩] :=
    ⟨trivial, trivial⟩
  exact ⟨next, rfl, notRefused_of_usesHandles (started.run steps plays.performs fun _ _ _ => trivial)⟩

open Sample in
/-- The `lseek` is about to be made on descriptor 9, which is the inode's. -/
theorem lseek_on_path_fd : ∃ next, (daemon .onLinux countsName).Reach (fun _ _ => True) mounted
      ⟨seeking, [⟨seekTag, .call (.sys (.lseek 9 0 0)) next⟩]⟩ ∧
    ¬ NotRefused ⟨seeking, [⟨seekTag, .call (.sys (.lseek 9 0 0)) next⟩]⟩ := by
  have send : opened.MaySend seekTag.1 seekTag.2 := by
    refine ⟨rfl, rfl, fun a h => .inr ?_, fun _ h => (nomatch h), fun _ h => (nomatch h), trivial⟩
    cases List.mem_singleton.mp h
    decide +kernel
  have started : (daemon .onLinux countsName).Reach (fun _ _ => True) mounted
      ⟨opened.arrive seekTag.1 seekTag.2, [⟨seekTag, callback linux (some .onLinux) seekTag.1
        .replyFailure (fun fs : PageAlignFS => fs.lSeek 4096 0 0)
        { req := none }⟩]⟩ := reached_opened.step (.arrive ⟨send, rfl, _, rfl, rfl⟩) trivial
  have steps : ∃ next, Steps (callback linux (some .onLinux) seekTag.1 .replyFailure
      (fun fs : PageAlignFS => fs.lSeek 4096 0 0) { req := none }) seekEvents
      (.call (.sys (.lseek 9 0 0)) next) := ⟨_, .step _ (.step _ (.refl _))⟩
  obtain ⟨next, steps⟩ := steps
  have plays : (opened.arrive seekTag.1 seekTag.2).Plays countsName seekEvents :=
    ⟨trivial, rfl, trivial⟩
  have reached := started.run steps plays.performs fun _ _ _ => trivial
  refine ⟨next, reached, fun notRefused => ?_⟩
  have path : seeking.IsPathFd 9 := .inr ⟨4096, _, rfl, rfl⟩
  exact notRefused (.sys (.lseek 9 0 0)) 9 ⟨_, .head _, next, rfl⟩ List.mem_cons_self path

/-! The ledger of descriptors. -/

/-- The descriptors opened and not closed, after one more call. What `fdopendir` was called
on belongs to the directory stream. -/
def openedBy : Event calls → List Fd → List Fd
  | ⟨.sys (.open_ _ _), .ok fd⟩, fds | ⟨.sys (.openat _ _ _ _), .ok fd⟩, fds
  | ⟨.sys (.dup _), .ok fd⟩, fds => fd :: fds
  | ⟨.sys (.close fd _), _⟩, fds | ⟨.sys (.fdopendir fd), _⟩, fds => fds.erase fd
  | _, fds => fds

/-- The file handle that a reply has delivered. -/
def delivered : Event calls → Option Fd
  | ⟨.fuseReply req reply, none⟩ => reply.handle req
  | _ => none

/-- The descriptors opened and not closed in a history, its last step first. -/
def openFds (root : Inode) : List (Label calls (FuseReq × Request)) → List Fd
  | [] => [root.fd]
  | .act _ e :: t => openedBy e (openFds root t)
  | _ :: t => openFds root t

/-- The file handles that were delivered and not released. -/
def openHandles : List (Label calls (FuseReq × Request)) → List Fd
  | [] => []
  | .arrive tag :: t => tag.2.released.elim (openHandles t) (openHandles t).erase
  | .act _ e :: t => (delivered e).elim (openHandles t) (· :: openHandles t)
  | .leave _ :: t => openHandles t

/-- What a call does to the owner of a descriptor. -/
inductive Transfer (fd : Fd) : Option Owner → Event calls → Option Owner → Prop
  | opens {path : Path} {flags : Flags} : Transfer fd none ⟨.sys (.open_ path flags), .ok fd⟩ (some .thread)
  | opensAt {dirfd : Fd} {path : String} {flags : Flags} {mode : Nat} :
      Transfer fd none ⟨.sys (.openat dirfd path flags mode), .ok fd⟩ (some .thread)
  | dups {old : Fd} : Transfer fd none ⟨.sys (.dup old), .ok fd⟩ (some .thread)
  | closes {byDestructor : Bool} {r : Except Errno Unit} :
      Transfer fd (some .thread) ⟨.sys (.close fd byDestructor), r⟩ none
  | streams {d : DirPtr} : Transfer fd (some .thread) ⟨.sys (.fdopendir fd), .ok d⟩ (some (.stream d))
  | leaks {e : Errno} : Transfer fd (some .thread) ⟨.sys (.fdopendir fd), .error e⟩ (some .leaked)
  | closesDir {d : DirPtr} {r : Except Errno Unit} :
      Transfer fd (some (.stream d)) ⟨.sys (.closedir d), r⟩ none
  | inserts {i : Inode} {r : Inserted} : Transfer fd (some .thread) ⟨.insert i, r⟩ (some (.inode r.addr))
  | erases {e : Event calls} {a : Addr} : Erases e a → Transfer fd (some (.inode a)) e (some .thread)
  | delivers {req : FuseReq} {reply : Reply} : reply.handle req = some fd →
      Transfer fd (some .thread) ⟨.fuseReply req reply, none⟩ (some .handle)

/-- The call has nothing to do with descriptors. -/
def Quiet (e : Event calls) : Prop := (∀ fds, openedBy e fds = fds) ∧ delivered e = none

def World.Transfers (w w' : World) (e : Event calls) : Prop :=
  (w'.fds = w.fds ∧ Quiet e) ∨
    ∃ fd o, w'.fds = Function.update w.fds fd o ∧ Transfer fd (w.fds fd) e o

theorem Descriptors.unref_transfers {a : Addr} {n : Nat} {answer : Unrefed} {e : Event calls}
    (h : Descriptors w f) (answers : w.Unrefs (.node a) n answer) (pos : 0 < n) (le : n ≤ w.refcnt a)
    (erases : ∀ i, answer = .dropped (some i) → Erases e a) (quiet : Quiet e)
    (fds : w'.fds = (w.unref (.node a) n answer).fds) : w.Transfers w' e := by
  obtain ⟨entry, inodes, present, ⟨-, -, ⟨i, -, rfl⟩, effect⟩ | ⟨-, -, -, effect⟩⟩ :=
    World.unref_cases answers pos le
  · have owner : w.fds entry.fd = some (.inode a) := (h.inode a entry.fd).mpr (by rw [present]; rfl)
    refine .inr ⟨entry.fd, some .thread, ?_, ?_⟩
    · rw [fds, effect]
    · rw [owner]
      exact .erases (erases i rfl)
  · refine .inl ⟨?_, quiet⟩
    rw [fds, effect]

theorem Inv.transfers {c : Call} {r : c.Ret} (allows : l.Allows c) (answers : w.Answers c r)
    (inv : Inv w (l ::ₘ f)) : w.Transfers (w.effect counts c r) ⟨c, r⟩ := by
  have permits := allows.permits
  have owner {fd : Fd} (held : 0 < l.fds fd) : w.fds fd = some .thread := inv.descriptors.held held
  cases c with
  | sys s =>
      cases s
      case open_ =>
          cases r with
          | error e => exact .inl ⟨rfl, fun _ => rfl, rfl⟩
          | ok fd =>
              have free : w.fds fd = none := answers
              exact .inr ⟨fd, _, rfl, by rw [free]; exact .opens⟩
      case openat =>
          cases r with
          | error e => exact .inl ⟨rfl, fun _ => rfl, rfl⟩
          | ok fd =>
              have free : w.fds fd = none := answers
              exact .inr ⟨fd, _, rfl, by rw [free]; exact .opensAt⟩
      case dup =>
          cases r with
          | error e => exact .inl ⟨rfl, fun _ => rfl, rfl⟩
          | ok fd =>
              have free : w.fds fd = none := answers
              exact .inr ⟨fd, _, rfl, by rw [free]; exact .dups⟩
      case close fd byDestructor =>
          exact .inr ⟨fd, _, rfl, by rw [owner permits]; exact .closes⟩
      case fdopendir fd =>
          cases r with
          | error e => exact .inr ⟨fd, _, rfl, by rw [owner permits.1]; exact .leaks⟩
          | ok d => exact .inr ⟨fd, _, rfl, by rw [owner permits.1]; exact .streams⟩
      case closedir d =>
          cases open_ : w.streams d with
          | none =>
              simp only [World.effect, open_]
              exact .inl ⟨rfl, fun _ => rfl, rfl⟩
          | some fd =>
              simp only [World.effect, open_]
              refine .inr ⟨fd, none, rfl, ?_⟩
              rw [inv.descriptors.stream d fd open_]
              exact .closesDir
      all_goals exact .inl ⟨rfl, fun _ => rfl, rfl⟩
  | setGeneration ref v => cases ref <;> exact .inl ⟨rfl, fun _ => rfl, rfl⟩
  | addPollHandle ref ph => cases ref <;> exact .inl ⟨rfl, fun _ => rfl, rfl⟩
  | insert i =>
      obtain ⟨-, -, inodes, -, effect⟩ | ⟨-, e, inodes, -, -, -, effect⟩ :=
        World.insert_cases counts answers
      · refine .inr ⟨i.fd, some (.inode r.addr), by rw [effect], ?_⟩
        rw [owner permits.1]
        exact .inserts
      · exact .inl ⟨by rw [effect], fun _ => rfl, rfl⟩
  | ref ref n =>
      obtain ⟨a, rfl, held, -⟩ := permits
      have found : 0 < w.refcnt a := held.trans_le (by have := inv.counts.held a; omega)
      obtain ⟨-, e, inodes, -, -, effect⟩ := World.ref_cases counts answers found
      exact .inl ⟨by rw [effect], fun _ => rfl, rfl⟩
  | unref site ref n =>
      cases site with
      | cleanup =>
          obtain ⟨a, rfl, pos, le⟩ := permits
          have counted := inv.counts.held a
          exact inv.descriptors.unref_transfers answers pos (by omega)
            (fun i gone => .inl ⟨_, _, i, by rw [gone]⟩) ⟨fun _ => rfl, rfl⟩ rfl
      | forget =>
          obtain ⟨a, rfl, pos, le⟩ := permits
          have counted := inv.counts.held a
          exact inv.descriptors.unref_transfers answers pos (by omega)
            (fun i gone => .inl ⟨_, _, i, by rw [gone]⟩) ⟨fun _ => rfl, rfl⟩ rfl
  | dropShared a =>
      have held : 0 < l.shared a := permits
      have counted := inv.counts.held a
      exact inv.descriptors.unref_transfers answers Nat.one_pos (by omega)
        (fun i gone => .inr ⟨i, by rw [gone]⟩) ⟨fun _ => rfl, rfl⟩ rfl
  | fuseReply req reply =>
      cases r with
      | some e => exact .inl ⟨rfl, fun _ => rfl, rfl⟩
      | none =>
          cases handle : reply.handle req with
          | none =>
              refine .inl ⟨?_, fun _ => rfl, handle⟩
              simp only [World.effect, World.receive, handle]
          | some fd =>
              refine .inr ⟨fd, some .handle, ?_, ?_⟩
              · simp only [World.effect, World.receive, handle, World.own]
              · rw [owner (permits.handle fd handle)]
                exact .delivers handle
  | abort site => exact Empty.elim r
  | _ => exact .inl ⟨rfl, fun _ => rfl, rfl⟩

/-- The owners whose descriptors are on the list of opened ones. -/
def Owner.isListed : Option Owner → Bool
  | some .root | some (.inode _) | some .thread | some .handle => true
  | _ => false

/-- The lists made from a history agree with the owners. -/
structure Accounted (opened handles : List Fd) (fds : Fd → Option Owner) : Prop where
  mem_opened : ∀ fd, fd ∈ opened ↔ Owner.isListed (fds fd) = true
  mem_handles : ∀ fd, fd ∈ handles ↔ fds fd = some .handle
  root : ∀ fd fd', fds fd = some .root → fds fd' = some .root → fd = fd'
  openedOnce : opened.Nodup
  handlesOnce : handles.Nodup

namespace Accounted

variable {opened handles : List Fd} {fds : Fd → Option Owner} {o : Option Owner}

theorem root_update (h : Accounted opened handles fds) (other : o ≠ some .root) (a b : Fd)
    (ha : Function.update fds fd o a = some .root) (hb : Function.update fds fd o b = some .root) :
    a = b := by
  rw [Function.update_apply] at ha hb
  split at ha
  · exact absurd ha other
  · split at hb
    · exact absurd hb other
    · exact h.root a b ha hb

theorem handles_update (h : Accounted opened handles fds) (old : fds fd ≠ some .handle)
    (new : o ≠ some .handle) (a : Fd) : a ∈ handles ↔ Function.update fds fd o a = some .handle := by
  rw [Function.update_apply, h.mem_handles]
  split
  · next here => simp [here, old, new]
  · rfl

/-- A new descriptor. -/
theorem gains (h : Accounted opened handles fds) (free : fds fd = none) :
    Accounted (fd :: opened) handles (Function.update fds fd (some .thread)) := by
  constructor
  · intro a
    rw [List.mem_cons, h.mem_opened, Function.update_apply]
    split
    · next here => simp [here, Owner.isListed]
    · next other => simp [other]
  · exact h.handles_update (by simp [free]) (by simp)
  · exact h.root_update (by simp)
  · refine List.nodup_cons.mpr ⟨?_, h.openedOnce⟩
    rw [h.mem_opened, free]
    exact Bool.false_ne_true
  · exact h.handlesOnce

/-- A descriptor that a thread gives away. -/
theorem loses (h : Accounted opened handles fds) (own : fds fd = some .thread)
    (unlisted : Owner.isListed o = false) : Accounted (opened.erase fd) handles (Function.update fds fd o) := by
  have notHandle : o ≠ some .handle := by
    rintro rfl
    cases unlisted
  have notRoot : o ≠ some .root := by
    rintro rfl
    cases unlisted
  constructor
  · intro a
    rw [h.openedOnce.mem_erase_iff, h.mem_opened, Function.update_apply]
    split
    · next here => simp [here, unlisted]
    · next other => simp [other]
  · exact h.handles_update (by simp [own]) notHandle
  · exact h.root_update notRoot
  · exact h.openedOnce.erase fd
  · exact h.handlesOnce

/-- A descriptor changes hands, and none of the two is the kernel. -/
theorem passes (h : Accounted opened handles fds) (same : Owner.isListed o = Owner.isListed (fds fd))
    (old : fds fd ≠ some .handle) (notHandle : o ≠ some .handle) (notRoot : o ≠ some .root) :
    Accounted opened handles (Function.update fds fd o) := by
  constructor
  · intro a
    rw [h.mem_opened, Function.update_apply]
    split
    · next here => rw [here, same]
    · rfl
  · exact h.handles_update old notHandle
  · exact h.root_update notRoot
  · exact h.openedOnce
  · exact h.handlesOnce

theorem delivers (h : Accounted opened handles fds) (own : fds fd = some .thread) :
    Accounted opened (fd :: handles) (Function.update fds fd (some .handle)) := by
  constructor
  · intro a
    rw [h.mem_opened, Function.update_apply]
    split
    · next here => simp [here, own, Owner.isListed]
    · rfl
  · intro a
    rw [List.mem_cons, h.mem_handles, Function.update_apply]
    split
    · next here => simp [here]
    · next other => simp [other]
  · exact h.root_update (by simp)
  · exact h.openedOnce
  · refine List.nodup_cons.mpr ⟨?_, h.handlesOnce⟩
    rw [h.mem_handles, own]
    simp

theorem releases (h : Accounted opened handles fds) (own : fds fd = some .handle) :
    Accounted opened (handles.erase fd) (Function.update fds fd (some .thread)) := by
  constructor
  · intro a
    rw [h.mem_opened, Function.update_apply]
    split
    · next here => simp [here, own, Owner.isListed]
    · rfl
  · intro a
    rw [h.handlesOnce.mem_erase_iff, h.mem_handles, Function.update_apply]
    split
    · next here => simp [here]
    · next other => simp [other]
  · exact h.root_update (by simp)
  · exact h.openedOnce
  · exact h.handlesOnce.erase fd

/-- One call. -/
theorem act {e : Event calls} (h : Accounted opened handles w.fds) (transfers : w.Transfers w' e) :
    Accounted (openedBy e opened) ((delivered e).elim handles (· :: handles)) w'.fds := by
  rcases transfers with ⟨fds, quiet, nothing⟩ | ⟨fd, o, fds, transfer⟩
  · rw [fds, quiet, nothing]
    exact h
  · rw [fds]
    generalize owner : w.fds fd = old at transfer
    cases transfer with
    | opens => exact h.gains owner
    | opensAt => exact h.gains owner
    | dups => exact h.gains owner
    | closes => exact h.loses owner rfl
    | streams => exact h.loses owner rfl
    | leaks => exact h.loses owner rfl
    | closesDir =>
        have passed : Accounted opened handles (Function.update w.fds fd none) :=
          h.passes (by rw [owner]; rfl) (by simp [owner]) (by simp) (by simp)
        exact passed
    | @inserts i r =>
        have passed : Accounted opened handles (Function.update w.fds fd (some (.inode r.addr))) :=
          h.passes (by rw [owner]; rfl) (by simp [owner]) (by simp) (by simp)
        exact passed
    | erases erases =>
        have passed : Accounted opened handles (Function.update w.fds fd (some .thread)) :=
          h.passes (by rw [owner]; rfl) (by simp [owner]) (by simp) (by simp)
        rcases erases with ⟨site, n, i, rfl⟩ | ⟨i, rfl⟩
        · exact passed
        · exact passed
    | delivers handle =>
        simp only [delivered, handle]
        exact h.delivers owner

end Accounted

theorem accounted_history {ok : World → Label calls (FuseReq × Request) → Prop}
    {t : List (Label calls (FuseReq × Request))}
    (run : (daemon fs counts).History ok (.initial root fun _ => false) t s) :
    Accounted (openFds root t) (openHandles t) s.world.fds := by
  induction run with
  | init =>
      have owner (fd : Fd) : (World.initial root fun _ => false).fds fd =
          if fd = root.fd then some .root else none := rfl
      constructor
      · intro fd
        rw [owner]
        by_cases here : fd = root.fd <;> simp [openFds, here, Owner.isListed]
      · intro fd
        rw [owner]
        by_cases here : fd = root.fd <;> simp [openHandles, here]
      · intro fd fd' h h'
        rw [owner] at h h'
        split at h
        · split at h'
          · simp_all
          · cases h'
        · cases h
      · exact List.nodup_singleton _
      · exact List.nodup_nil
  | step before step _ ih =>
      cases step with
      | @arrive w w' tag p ts starts =>
          obtain ⟨send, rfl, -⟩ := starts
          change Accounted (openFds root _) (tag.2.released.elim _ _) _
          rw [World.fds_arrive]
          cases released : tag.2.released with
          | none => exact ih
          | some fd => exact ih.releases (send.released fd released).1
      | @act w w' tag c r next pre post perform =>
          obtain ⟨answers, rfl⟩ := perform
          have holds := bookkeeping_holds before.reach
          obtain ⟨l, f, allows, inv⟩ := holds.next ⟨_, List.mem_append_right pre (.head _), next, rfl⟩
          exact ih.act (inv.transfers allows answers)
      | leave => exact ih

/-- The descriptors opened and not closed in a history. While no request is being handled
they are those of the root, of the inodes in the cache and of the open files, one each; at
all times only other ones are closed, and only open ones. -/
structure FdLedger (root : Inode) (t : List (Label calls (FuseReq × Request))) (s : Daemon) : Prop where
  exact : s.threads = [] → ∀ fd, fd ∈ openFds root t ↔ s.world.IsPathFd fd ∨ fd ∈ openHandles t
  once : (openFds root t).Nodup
  handlesOnce : (openHandles t).Nodup
  apart : ∀ fd, s.world.IsPathFd fd → fd ∉ openHandles t
  rootApart : ∀ a n, s.world.inodes.heap a = some n → n.inode.fd ≠ s.world.root.fd
  inodesApart : ∀ a b n m, s.world.inodes.heap a = some n → s.world.inodes.heap b = some m →
    n.inode.fd = m.inode.fd → a = b
  closes : ∀ fd byDestructor, s.Next (.sys (.close fd byDestructor)) →
    fd ∈ openFds root t ∧ ¬ s.world.IsPathFd fd ∧ fd ∉ openHandles t

theorem Descriptors.isPathFd_iff (h : Descriptors w f)
    (one : ∀ fd fd', w.fds fd = some .root → w.fds fd' = some .root → fd = fd') :
    w.IsPathFd fd ↔ w.fds fd = some .root ∨ ∃ a, w.fds fd = some (.inode a) := by
  constructor
  · exact h.isPathFd
  · rintro (owner | ⟨a, owner⟩)
    · exact .inl (one _ _ owner h.root)
    · obtain ⟨e, view, rfl⟩ := Option.map_eq_some_iff.mp ((h.inode a fd).mp owner)
      obtain ⟨n, heap, rfl⟩ := InodeCache.heap_of_view view
      exact .inr ⟨a, n, heap, rfl⟩

theorem Descriptors.inode_of_heap {a : Addr} {n : Node} (h : Descriptors w f)
    (heap : w.inodes.heap a = some n) : w.fds n.inode.fd = some (.inode a) := by
  refine (h.inode a n.inode.fd).mpr ?_
  rw [InodeCache.view_of_heap heap]
  rfl

theorem Descriptors.no_thread (h : Descriptors w 0) (fd : Fd) : w.fds fd ≠ some .thread := by
  intro owner
  have thread := h.thread fd
  rw [if_pos owner] at thread
  cases thread

theorem fdLedger {ok : World → Label calls (FuseReq × Request) → Prop}
    {t : List (Label calls (FuseReq × Request))}
    (run : (daemon fs counts).History ok (.initial root fun _ => false) t s) : FdLedger root t s := by
  have listed := accounted_history run
  have holds := bookkeeping_holds run.reach
  obtain ⟨f, inv⟩ := holds.inv
  have owned := inv.descriptors
  constructor
  · intro quiet fd
    have alone := (holds.quiescent quiet).descriptors.no_thread fd
    rw [listed.mem_opened, listed.mem_handles, owned.isPathFd_iff listed.root]
    rcases owner : s.world.fds fd with _ | o
    · simp [Owner.isListed]
    · cases o <;> simp_all [Owner.isListed]
  · exact listed.openedOnce
  · exact listed.handlesOnce
  · intro fd path
    rw [listed.mem_handles]
    rcases owned.isPathFd path with owner | ⟨a, owner⟩ <;> simp [owner]
  · intro a n heap same
    have owner := owned.inode_of_heap heap
    rw [same, owned.root] at owner
    cases owner
  · intro a b n m heap heap' same
    have owner := owned.inode_of_heap heap
    rw [same, owned.inode_of_heap heap'] at owner
    cases owner
    rfl
  · intro fd byDestructor next
    obtain ⟨l, f, allows, inv⟩ := holds.next next
    have owner := inv.descriptors.held allows.permits
    refine ⟨?_, ?_, ?_⟩
    · rw [listed.mem_opened, owner]
      rfl
    · rw [inv.descriptors.isPathFd_iff listed.root]
      simp [owner]
    · rw [listed.mem_handles]
      simp [owner]

open Sample in
/-- After a lookup and an open: descriptor 4 of the root, 9 of the inode, 11 of the file. -/
theorem fdLedger_opened : ∃ t, (daemon .onLinux countsName).History (fun _ _ => True) mounted t ⟨opened, []⟩ ∧
    opened.IsPathFd 4 ∧ opened.IsPathFd 9 ∧ FdLedger rootInode t ⟨opened, []⟩ := by
  obtain ⟨t, run⟩ := reached_opened.history
  exact ⟨t, run, .inl rfl, .inr ⟨4096, _, rfl, rfl⟩, fdLedger run⟩

end Pafs
