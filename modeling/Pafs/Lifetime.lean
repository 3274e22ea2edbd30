import Pafs.Identity

/-! Uses of inodes. A handler touches an inode only while something keeps it in the cache,
with one exception: `WriteBuf` looks at the poll handle of its inode after its reply. -/
namespace Pafs
open Resumption

variable {fs : PageAlignFS} {counts : String → Bool} {root : Inode} {pipes : Fd → Bool} {s : Daemon}
  {w w' : World} {l : Ledger} {f : Multiset Ledger} {a : Addr}

/-- Every inode that is about to be touched is still in the cache. -/
def UsesAreLive (s : Daemon) : Prop :=
  ∀ c a, s.Next c → c.touches = some (.node a) → ∃ n, s.world.inodes.heap a = some n

/-- The event takes the inode at `a` out of the cache. -/
def Erases (e : Event calls) (a : Addr) : Prop :=
  (∃ site n i, e = ⟨.unref site (.node a) n, .dropped (some i)⟩) ∨
    ∃ i, e = ⟨.dropShared a, .dropped (some i)⟩

/-- No inode is taken out of the cache while a `WriteBuf` on it has not returned. -/
def WritersKeep : World → Label calls (FuseReq × Request) → Prop
  | w, .act _ e => ∀ a, Erases e a → w.writers a = 0
  | _, _ => True

theorem unref_absent {n : Nat} {answer : Unrefed} {e : Entry} (h : w.Unrefs (.node a) n answer)
    (pos : 0 < n) (le : n ≤ w.refcnt a) {b : Addr} (was : w.inodes.view b = some e)
    (gone : (w.unref (.node a) n answer).inodes.view b = none) : b = a ∧ ∃ i, answer = .dropped (some i) := by
  obtain ⟨e, inodes, present, ⟨-, view, ⟨i, -, rfl⟩, effect⟩ | ⟨-, view, -, effect⟩⟩ :=
    World.unref_cases h pos le
  · refine ⟨?_, i, rfl⟩
    by_contra other
    rw [effect] at gone
    dsimp only at gone
    rw [view, Function.update_of_ne other, was] at gone
    cases gone
  · rw [effect] at gone
    dsimp only at gone
    rw [view, Function.update_apply] at gone
    split at gone
    · cases gone
    · rw [was] at gone
      cases gone

/-- An inode leaves the cache by an erasing event only. -/
theorem Inv.erases {c : Call} {r : c.Ret} {e : Entry} (allows : l.Allows c) (answers : w.Answers c r)
    (inv : Inv w (l ::ₘ f)) (was : w.inodes.view a = some e)
    (gone : (w.effect counts c r).inodes.view a = none) : Erases ⟨c, r⟩ a := by
  have permits := allows.permits
  have unchanged : (w.effect counts c r).inodes.view a = w.inodes.view a → Erases ⟨c, r⟩ a := by
    intro same
    rw [same, was] at gone
    cases gone
  cases c with
  | sys s =>
      cases s
      case open_ | openat | dup | fdopendir => cases r <;> exact unchanged rfl
      case closedir d =>
          apply unchanged
          unfold World.effect
          dsimp only
          split <;> rfl
      all_goals exact unchanged rfl
  | setGeneration ref v =>
      apply unchanged
      exact congrFun (World.view_write (f := fun i => { i with generation := some v }) fun _ => rfl) a
  | addPollHandle ref ph =>
      apply unchanged
      exact congrFun (World.view_write (f := fun i => { i with pollHandle := some ph }) fun _ => rfl) a
  | insert i =>
      obtain ⟨-, -, inodes, view, effect⟩ | ⟨-, e', inodes, -, -, view, effect⟩ :=
        World.insert_cases counts answers
      all_goals
        rw [effect] at gone
        dsimp only at gone
        rw [view, Function.update_apply] at gone
        split at gone
        · cases gone
        · rw [was] at gone
          cases gone
  | ref ref n =>
      obtain ⟨b, rfl, held, -⟩ := permits
      have found : 0 < w.refcnt b := by
        have := inv.counts.held b
        omega
      obtain ⟨-, e', inodes, -, view, effect⟩ := World.ref_cases counts answers found
      rw [effect] at gone
      dsimp only at gone
      rw [view, Function.update_apply] at gone
      split at gone
      · cases gone
      · rw [was] at gone
        cases gone
  | unref site ref n =>
      cases site with
      | cleanup =>
          obtain ⟨b, rfl, pos, le⟩ := permits
          have counted := inv.counts.held b
          obtain ⟨rfl, i, rfl⟩ := unref_absent answers pos (by omega) was gone
          exact .inl ⟨_, _, i, rfl⟩
      | forget =>
          obtain ⟨b, rfl, pos, le⟩ := permits
          have counted := inv.counts.held b
          obtain ⟨rfl, i, rfl⟩ := unref_absent answers pos (by omega) was gone
          exact .inl ⟨_, _, i, rfl⟩
  | dropShared b =>
      have held : 0 < l.shared b := permits
      have counted := inv.counts.held b
      obtain ⟨rfl, i, rfl⟩ := unref_absent answers Nat.one_pos (by omega) was gone
      exact .inr ⟨i, rfl⟩
  | fuseReply req reply =>
      apply unchanged
      cases r with
      | some e => rfl
      | none => rw [(w.replied_eq counts req reply).2]
  | abort site => exact nomatch r
  | _ => exact unchanged rfl

def Ledger.writes (a : Addr) (l : Ledger) : Nat := if l.request.writes = some a then 1 else 0

/-- The inode of every `WriteBuf` that has not returned is in the cache. -/
structure WritersLive (w : World) (f : Multiset Ledger) : Prop where
  writers : ∀ a, w.writers a = total (Ledger.writes a) f
  live : ∀ a, a ≠ FUSE_ROOT_ID → 0 < w.writers a → ∃ e, w.inodes.view a = some e

theorem WritersLive.act {c : Call} {r : c.Ret} {tag : FuseReq × Request} (allows : l.Allows c)
    (answers : w.Answers c r) (admitted : WritersKeep w (.act tag ⟨c, r⟩)) (inv : Inv w (l ::ₘ f))
    (h : WritersLive w (l ::ₘ f)) : WritersLive (w.effect counts c r) (l.after c r ::ₘ f) := by
  have request : (l.after c r).request = l.request := congrArg Prod.snd (l.tag_after c r)
  constructor
  · intro a
    have same : (l.after c r).writes a = l.writes a := by
      unfold Ledger.writes
      rw [request]
    rw [(w.still_effect counts c r).writers, h.writers, total_cons, total_cons, same]
  · intro a notRoot writing
    rw [(w.still_effect counts c r).writers] at writing
    obtain ⟨e, was⟩ := h.live a notRoot writing
    cases gone : (w.effect counts c r).inodes.view a with
    | some e' => exact ⟨e', rfl⟩
    | none =>
        have none := admitted a (inv.erases allows answers was gone)
        rw [none] at writing
        cases writing

theorem Request.names_of_writes {r : Request} (h : r.writes = some a) : a ∈ r.names := by
  cases r with
  | writeBuf ino inBuf off fi =>
      cases h
      exact List.mem_cons_self
  | _ => cases h

theorem WritersLive.arrived {tag : FuseReq × Request} (opts : Options) (send : w.MaySend tag.1 tag.2)
    (inv : Inv w f) (h : WritersLive w f) :
    WritersLive (w.arrive tag.1 tag.2) (.opening opts tag ::ₘ f) := by
  obtain ⟨nlookup, forgetting, fds, -, arrive⟩ := w.arrive_cases tag.1 tag.2
  rw [arrive]
  constructor
  · intro a
    rw [total_cons, ← h.writers, add_comm]
    rfl
  · intro a notRoot writing
    by_cases new : tag.2.writes = some a
    · have known := (send.names a (Request.names_of_writes new)).resolve_left notRoot
      exact World.view_of_refcnt (inv.counts.nlookup_pos known)
    · refine h.live a notRoot ?_
      simpa [new] using writing

theorem WritersLive.departed (h : WritersLive w (l ::ₘ f)) : WritersLive (w.depart l.request) f := by
  have writers (a : Addr) : (w.depart l.request).writers a = total (Ledger.writes a) f := by
    change w.writers a - l.writes a = _
    rw [h.writers, total_cons, Nat.add_sub_cancel_left]
  refine ⟨writers, fun a notRoot writing => h.live a notRoot ?_⟩
  rw [writers] at writing
  rw [h.writers, total_cons]
  omega

/-- The books, with the inodes that are being written. -/
def writing (fs : PageAlignFS) (counts : String → Bool) :
    Protocol (daemon fs counts) WritersKeep Ledger :=
  (bookkeeping fs counts).strengthen (fun _ _ _ => trivial) WritersLive
    (by
      rintro w tag p w' f ⟨send, rfl, -⟩ - inv h
      exact h.arrived fs.opts send inv)
    (by
      rintro w w' l f c r allows ⟨answers, rfl⟩ admitted inv h
      exact h.act allows answers admitted inv)
    (by
      intro w l f _ _ h
      exact h.departed)

theorem Ledger.Reaches.live (inv : Inv w (l ::ₘ f)) (h : l.Reaches (.node a)) : 0 < w.refcnt a := by
  have counted := inv.counts.held a
  rcases h with ⟨owed, named, notRoot⟩ | held | applied
  · have known := inv.requests.names l.req l.request (inv.requests.owner owed) a named notRoot
    omega
  · omega
  · omega

/-- In every run in which no inode goes while a `WriteBuf` on it runs, no handler uses an
inode that has gone. -/
theorem usesAreLive_of_writersKeep
    (run : (daemon fs counts).Reach WritersKeep (.initial root pipes) s) : UsesAreLive s := by
  have initial : WritersLive (.initial root pipes) 0 :=
    ⟨fun _ => rfl, fun a _ writing => absurd writing (Nat.lt_irrefl 0)⟩
  have holds := Protocol.holds_of_reach (writing fs counts) ⟨Inv.initial root pipes, initial⟩ run
  intro c a next touches
  obtain ⟨l, f, allows, inv, live⟩ := holds.next next
  have view : ∃ e, s.world.inodes.view a = some e := by
    rcases allows.reaches _ touches with reaches | ⟨-, b, same, writes, notRoot⟩
    · exact World.view_of_refcnt (reaches.live inv)
    · cases same
      refine live.live a notRoot ?_
      rw [live.writers, total_cons]
      exact Nat.add_pos_left (Nat.lt_of_lt_of_eq Nat.one_pos (if_pos writes).symm) _
  obtain ⟨e, view⟩ := view
  obtain ⟨n, heap, -⟩ := InodeCache.heap_of_view view
  exact ⟨n, heap⟩

/-! A file is looked up, opened and written; the reply to the write has been sent. -/

namespace Sample

def openTag : FuseReq × Request := (⟨8, .open_⟩, .open_ 4096 (some ⟨1, 0, false, false⟩))

def openEvents : List (Event calls) :=
  [⟨.logInode (.node 4096), ()⟩, ⟨.getFD (.node 4096), (9 : Int)⟩,
    ⟨.sys (.open_ (.procSelfFd 9) ((1 ||| O_CLOEXEC) &&& ~~~O_NOFOLLOW)), .ok (11 : Int)⟩,
    ⟨.fuseReply ⟨8, .open_⟩ (.openFile ⟨1, 11, false, true⟩), none⟩]

def opened : World := ((lookedUp.arrive openTag.1 openTag.2).play countsName openEvents).depart openTag.2

def writeTag : FuseReq × Request :=
  (⟨9, .writeBuf⟩, .writeBuf 4096 [⟨1, none, 0⟩] 0 ⟨1, 11, false, true⟩)

def writeEvents : List (Event calls) :=
  [⟨.logInode (.node 4096), ()⟩, ⟨.fuseBufCopy [⟨1, some 11, 0⟩] [⟨1, none, 0⟩], .ok (1 : Nat)⟩,
    ⟨.fuseReply ⟨9, .writeBuf⟩ (.write 1), none⟩]

def written : World := (opened.arrive writeTag.1 writeTag.2).play countsName writeEvents

variable (ok : World → Label calls (FuseReq × Request) → Prop)

theorem reach_opened (looked : (daemon .onLinux countsName).Reach ok mounted ⟨lookedUp, []⟩)
    (come : ∀ w, ok w (.arrive openTag)) (acts : ∀ w, ∀ e ∈ openEvents, ok w (.act openTag e))
    (go : ∀ w, ok w (.leave openTag)) :
    (daemon .onLinux countsName).Reach ok mounted ⟨opened, []⟩ := by
  have send : lookedUp.MaySend openTag.1 openTag.2 := by
    refine ⟨idle_lookedUp _, rfl, fun a h => .inr ?_, fun _ h => (nomatch h), fun _ h => (nomatch h),
      trivial⟩
    cases List.mem_singleton.mp h
    decide +kernel
  have plays : (lookedUp.arrive openTag.1 openTag.2).Plays countsName openEvents :=
    ⟨trivial, rfl, rfl, trivial, trivial⟩
  have steps : Exec (callback linux (some .onLinux) openTag.1 .replyFailure
      (fun fs : PageAlignFS => fs.open_ 4096 ⟨1, 0, false, false⟩) { req := none }) openEvents
      (.ok (), { req := none }) := .step _ (.step _ (.step _ (.step _ (.refl _))))
  have starts : (daemon .onLinux countsName).starts lookedUp openTag _ _ := ⟨send, rfl, _, rfl, rfl⟩
  exact looked.serve starts steps plays.performs come acts go

theorem reached_opened : (daemon .onLinux countsName).Reach (fun _ _ => True) mounted ⟨opened, []⟩ :=
  reach_opened _ reached_lookedUp (fun _ => trivial) (fun _ _ _ => trivial) fun _ => trivial

theorem maySend_write : opened.MaySend writeTag.1 writeTag.2 := by
  refine ⟨rfl, rfl, fun a h => .inr ?_, fun fd h => ?_, fun _ h => (nomatch h), trivial⟩
  · cases List.mem_singleton.mp h
    decide +kernel
  · cases List.mem_singleton.mp h
    rfl

theorem reach_written (reached : (daemon .onLinux countsName).Reach ok mounted ⟨opened, []⟩)
    (come : ∀ w, ok w (.arrive writeTag)) (acts : ∀ w, ∀ e ∈ writeEvents, ok w (.act writeTag e)) :
    ∃ next, (daemon .onLinux countsName).Reach ok mounted
      ⟨written, [⟨writeTag, .call (.pollHandle (.node 4096)) next⟩]⟩ := by
  have plays : (opened.arrive writeTag.1 writeTag.2).Plays countsName writeEvents :=
    ⟨trivial, trivial, trivial, trivial⟩
  have started : (daemon .onLinux countsName).Reach ok mounted
      ⟨opened.arrive writeTag.1 writeTag.2, [⟨writeTag, callback linux (some .onLinux) writeTag.1
        .replyNone (fun fs : PageAlignFS => fs.writeBuf 4096 [⟨1, none, 0⟩] 0 ⟨1, 11, false, true⟩)
        { req := none }⟩]⟩ := reached.step (.arrive ⟨maySend_write, rfl, _, rfl, rfl⟩) (come _)
  have steps : ∃ next, Steps (callback linux (some .onLinux) writeTag.1 .replyNone
      (fun fs : PageAlignFS => fs.writeBuf 4096 [⟨1, none, 0⟩] 0 ⟨1, 11, false, true⟩)
      { req := none }) writeEvents (.call (.pollHandle (.node 4096)) next) :=
    ⟨_, .step _ (.step _ (.step _ (.refl _)))⟩
  obtain ⟨next, steps⟩ := steps
  exact ⟨next, started.run steps plays.performs acts⟩

theorem writersKeep_lookedUp :
    (daemon .onLinux countsName).Reach WritersKeep mounted ⟨lookedUp, []⟩ := by
  refine reach_lookedUp WritersKeep trivial (fun w e mem a erases => ?_)
    (fun w a erases => ?_) fun _ => trivial
  · rcases erases with ⟨site, n, i, rfl⟩ | ⟨i, rfl⟩
    · simp [lookupEvents] at mem
    · simp [lookupEvents] at mem
  · rcases erases with ⟨site, n, i, event⟩ | ⟨i, event⟩ <;> cases event

end Sample

open Sample in
/-- The handler is about to look at the poll handle, and the inode is there. -/
theorem usesAreLive_write : ∃ next, written.writers 4096 = 1 ∧
    UsesAreLive ⟨written, [⟨writeTag, .call (.pollHandle (.node 4096)) next⟩]⟩ := by
  have opens : (daemon .onLinux countsName).Reach WritersKeep mounted ⟨opened, []⟩ := by
    refine reach_opened WritersKeep writersKeep_lookedUp (fun _ => trivial) (fun w e mem a erases => ?_)
      fun _ => trivial
    rcases erases with ⟨site, n, i, rfl⟩ | ⟨i, rfl⟩
    · simp [openEvents] at mem
    · simp [openEvents] at mem
  obtain ⟨next, writes⟩ := reach_written WritersKeep opens (fun _ => trivial) fun w e mem a erases => by
    rcases erases with ⟨site, n, i, rfl⟩ | ⟨i, rfl⟩
    · simp [writeEvents] at mem
    · simp [writeEvents] at mem
  exact ⟨next, by decide +kernel, usesAreLive_of_writersKeep writes⟩

namespace Sample

/-! Two other threads serve the release of the file and the forget of its inode. -/

def releaseTag : FuseReq × Request := (⟨10, .release⟩, .release 4096 (some ⟨1, 11, false, true⟩))

def releaseEvents : List (Event calls) :=
  [⟨.logInode (.node 4096), ()⟩, ⟨.sys (.close 11 false), .ok ()⟩,
    ⟨.fuseReply ⟨10, .release⟩ (.err 0), none⟩]

def released : World :=
  ((written.arrive releaseTag.1 releaseTag.2).play countsName releaseEvents).depart releaseTag.2

def evicted : World :=
  ((released.arrive forgetTag.1 forgetTag.2).play countsName forgetEvents).depart forgetTag.2

theorem idle_written (req : FuseReq) : written.pending req = none :=
  idle_again (idle_again idle_lookedUp openTag.1 openTag.2) writeTag.1 writeTag.2 req

theorem reach_released {ts : List (Thread calls (FuseReq × Request) (Status × FuseRequest))}
    (reached : (daemon .onLinux countsName).Reach (fun _ _ => True) mounted ⟨written, ts⟩) :
    (daemon .onLinux countsName).Reach (fun _ _ => True) mounted ⟨released, ts⟩ := by
  have send : written.MaySend releaseTag.1 releaseTag.2 := by
    refine ⟨idle_written _, rfl, fun a h => .inr ?_, fun _ h => (nomatch h), fun fd h => ?_, trivial⟩
    · cases List.mem_singleton.mp h
      decide +kernel
    · cases h
      refine ⟨rfl, fun req r asked => ?_⟩
      rw [idle_written] at asked
      cases asked
  have plays : (written.arrive releaseTag.1 releaseTag.2).Plays countsName releaseEvents :=
    ⟨trivial, trivial, trivial, trivial⟩
  have steps : Exec (callback linux (some .onLinux) releaseTag.1 .replyAlways
      (fun fs : PageAlignFS => fs.release 4096 ⟨1, 11, false, true⟩) { req := none }) releaseEvents
      (.ok (), { req := none }) := .step _ (.step _ (.step _ (.refl _)))
  have starts : (daemon .onLinux countsName).starts written releaseTag _ _ := ⟨send, rfl, _, rfl, rfl⟩
  exact reached.serve starts steps plays.performs (fun _ => trivial) (fun _ _ _ => trivial)
    fun _ => trivial

theorem reach_evicted {ts : List (Thread calls (FuseReq × Request) (Status × FuseRequest))}
    (reached : (daemon .onLinux countsName).Reach (fun _ _ => True) mounted ⟨released, ts⟩) :
    (daemon .onLinux countsName).Reach (fun _ _ => True) mounted ⟨evicted, ts⟩ := by
  have idle (req : FuseReq) : released.pending req = none :=
    idle_again idle_written releaseTag.1 releaseTag.2 req
  have send : released.MaySend forgetTag.1 forgetTag.2 := by
    refine ⟨idle _, rfl, fun _ h => (nomatch h), fun _ h => (nomatch h), fun _ h => (nomatch h), ?_⟩
    refine ⟨⟨by decide, by decide, by decide +kernel, fun req r asked => ?_⟩, trivial⟩
    rw [idle] at asked
    cases asked
  have plays : (released.arrive forgetTag.1 forgetTag.2).Plays countsName forgetEvents :=
    ⟨trivial, rfl, trivial, trivial, trivial⟩
  have starts : (daemon .onLinux countsName).starts released forgetTag _ _ := ⟨send, rfl, _, rfl, rfl⟩
  exact reached.serve starts steps_forget plays.performs (fun _ => trivial) (fun _ _ _ => trivial)
    fun _ => trivial

end Sample

open Sample in
/-- The first thread goes on to look at the poll handle of the freed inode. -/
theorem writeBuf_uses_freed : ∃ next, (daemon .onLinux countsName).Reach (fun _ _ => True) mounted
      ⟨evicted, [⟨writeTag, .call (.pollHandle (.node 4096)) next⟩]⟩ ∧
    ¬ UsesAreLive ⟨evicted, [⟨writeTag, .call (.pollHandle (.node 4096)) next⟩]⟩ := by
  obtain ⟨next, writes⟩ := reach_written (fun _ _ => True) reached_opened (fun _ => trivial) fun _ _ _ => trivial
  refine ⟨next, reach_evicted (reach_released writes), fun live => ?_⟩
  obtain ⟨n, heap⟩ := live (.pollHandle (.node 4096)) 4096 ⟨_, .head _, next, rfl⟩ rfl
  cases heap

end Pafs
