import Pafs.Pollers

/-! Notices. `WriteBuf` reads the poll handle of its inode and then notifies it, and nothing
keeps the handle in between. It is there as long as nobody takes the inode out of the cache or
gives it another handle. -/
namespace Pafs
open Resumption
open Routine (Follows Rests)

/-- The event puts a handle in the place of the one that the inode has. -/
def Replaces (e : Event calls) (a : Addr) : Prop :=
  ∃ ph old, e = ⟨.addPollHandle (getInode a) ph, some old⟩

/-- While a `WriteBuf` on an inode has not returned, the inode and its handle stay. -/
def WritersUndisturbed (x : World × Set PollPtr) (label : Label calls (FuseReq × Request)) : Prop :=
  match label with
  | .act _ e => ∀ a, Erases e a ∨ Replaces e a → x.1.writers a = 0
  | _ => True

/-- What a thread goes by when it notifies. -/
structure Notice where
  /-- the inode that the request writes -/
  target : Option Addr
  /-- the handle that was read last -/
  seen : Option PollPtr

def noticing : Discipline calls Notice where
  allows n
    | .pollHandle r => ∃ a, n.target = some a ∧ r = getInode a
    | .notifyPoll ph => n.seen = some ph
    | _ => True
  answers _ _ _ := True
  after n c ret :=
    match c, ret with
    | .pollHandle _, handle => { n with seen := handle }
    | _, _ => n

namespace Noticing

variable {σ : Type} {fs : PageAlignFS} {req : FuseReq} {n : Notice} {a : Addr}

theorem idle {c : Call} (noRead : ∀ r, c ≠ .pollHandle r) (noNotice : ∀ ph, c ≠ .notifyPoll ph) :
    noticing.allows n c ∧ ∀ r, noticing.after n c r = n := by
  cases c with
  | pollHandle r => exact absurd rfl (noRead r)
  | notifyPoll ph => exact absurd rfl (noNotice ph)
  | _ => exact ⟨trivial, fun _ => rfl⟩

theorem invoke {c : Call} (noRead : ∀ r, c ≠ .pollHandle r) (noNotice : ∀ ph, c ≠ .notifyPoll ph) :
    Rests noticing n (Routine.invoke (I := calls) c : Io σ c.Ret) :=
  .invoke (idle noRead noNotice).1 fun r _ => (idle noRead noNotice).2 r

theorem light {c : Call} (h : c.light = true) : Rests noticing n (Routine.invoke (I := calls) c : Io σ c.Ret) := by
  apply invoke
  · rintro r rfl
    cases h
  · rintro ph rfl
    cases h

theorem closeFd (fd : Fd) : Rests noticing n (FileDescriptor.destroy fd : Io σ Unit) :=
  .bind (light rfl) fun _ => .pure ()

theorem destroy_inode (i : Inode) : Rests noticing n (i.destroy : Io σ Unit) := by
  unfold Inode.destroy
  cases i.pollHandle with
  | none => exact closeFd i.fd
  | some ph => exact .bind (.invoke trivial fun _ _ => rfl) fun _ => closeFd i.fd

theorem settle (answer : Unrefed) : Rests noticing n (answer.settle : Io σ Unit) := by
  cases answer with
  | missing key => exact .fail _
  | checkFailed =>
      apply Rests.bind (light (c := .abort .unrefCount) rfl)
      intro impossible
      cases impossible
  | dropped erased =>
      cases erased with
      | none => exact .pure ()
      | some i => exact destroy_inode i

theorem unref (site : UnrefSite) (r : InodeRef) (k : Nat) :
    Rests noticing n (Inodes.unref site r k : Io σ Unit) :=
  .bind (.invoke trivial fun _ _ => rfl) settle

theorem dropShared (a : Addr) : Rests noticing n (Inodes.dropShared a : Io σ Unit) :=
  .bind (.attempt (.bind (.invoke trivial fun _ _ => rfl) settle)) fun _ => .pure ()

theorem syscall {P : Platform} (c : Sys) (message : String) : Rests noticing n (syscall P c message : Io σ c.Ret) := by
  intro s
  rw [follows_syscall]
  exact ⟨trivial, fun _ _ => rfl, fun _ _ => rfl⟩

theorem findOrCreateInode (parent : InodeRef) (path : String) :
    Rests noticing n (fs.findOrCreateInode parent path : Io σ Addr) := by
  apply Rests.bind (light rfl)
  intro parentFd
  apply Rests.bind
  · apply Rests.bind (syscall (.openat parentFd path (O_PATH ||| O_NOFOLLOW ||| O_CLOEXEC) 0) _)
    intro fd
    apply Rests.bind _ fun _ => .pure _
    exact .onError (syscall (.fstatat fd "" (AT_EMPTY_PATH ||| AT_SYMLINK_NOFOLLOW)) _) (closeFd fd)
  · intro i
    apply Rests.bind (.invoke trivial fun _ _ => rfl)
    intro inserted
    apply Rests.bind _ fun _ => .pure _
    cases inserted.fresh with
    | true => exact .pure ()
    | false => exact destroy_inode i

theorem addsUp : AddsUp fun σ α _ (m : Io σ α) => Rests noticing n m where
  mono _ h := h
  pure := .pure
  fail := .fail
  ofExcept := .ofExcept
  getLocal := .getLocal
  setLocal := .setLocal
  bind := .bind
  attempt := .attempt
  onError := .onError
  andFinally := .andFinally
  invoke _ h := light h
  unref := unref
  dropShared := dropShared
  findOrCreateInode _ := findOrCreateInode

/-- The handle is read twice, and the one that is notified is the second. -/
theorem follows_notifyPollEvent {P : Platform} (here : n.target = some a) (s : σ) :
    Follows noticing (Inode.notifyPollEvent P (getInode a)) s n fun _ _ _ => True := by
  unfold Inode.notifyPollEvent
  rw [Routine.follows_bind, Routine.follows_invoke]
  refine ⟨⟨a, here, rfl⟩, fun present _ => ?_⟩
  cases present with
  | none => trivial
  | some _ =>
      dsimp only
      rw [Routine.follows_bind, Routine.follows_invoke]
      refine ⟨⟨a, here, rfl⟩, fun handle _ => ?_⟩
      cases handle with
      | none => trivial
      | some ph => exact ⟨rfl, fun rc _ => trivial⟩

theorem follows_writeBuf (here : n.target = some a) (inBuf : FuseBufVec) (off : Int) (fi : FileInfo)
    (s : FuseRequest) : Follows noticing (fs.writeBuf a inBuf off fi) s n fun _ _ _ => True := by
  unfold PageAlignFS.writeBuf
  rw [Routine.follows_bind]
  apply (light (n := n) (c := .logInode (getInode a)) rfl s).mono
  rintro logged s m rfl
  cases logged with
  | error e => trivial
  | ok _ =>
      dsimp only
      rw [Routine.follows_bind, Routine.follows_invoke]
      refine ⟨trivial, fun copied _ => ?_⟩
      cases copied with
      | error e => trivial
      | ok nb =>
          dsimp only
          rw [Routine.follows_bind]
          apply (addsUp.attempt (n := 1) (addsUp.send _ _) s).mono
          rintro ret s m rfl
          cases ret with
          | error e => trivial
          | ok ret =>
              dsimp only
              rw [Routine.follows_bind, Routine.follows_attempt]
              apply (follows_notifyPollEvent here s).mono
              intro _ _ _ _
              trivial

theorem invocation {r : Request} {method : PageAlignFS → Handler}
    (invoked : pageAlignFSOps.invocation r = some method) (s : FuseRequest) :
    Follows noticing (method fs) s ⟨r.writes, none⟩ fun _ _ _ => True := by
  cases target : r.writes with
  | none =>
      refine (addsUp.invocation (fun dirInode size off fi plus => ?_) invoked (fun ino fi ph same => ?_)
        (fun ino inBuf off fi same => ?_) s).mono fun _ _ _ _ => trivial
      · exact addsUp.readDirInternal (n := 0) (fun _ h => h) dirInode size off fi plus
      · apply Rests.bind (.invoke trivial fun _ _ => rfl)
        intro old
        cases old with
        | none => exact .pure ()
        | some o => exact .invoke trivial fun _ _ => rfl
      · subst same
        cases target
  | some a =>
      cases r with
      | writeBuf ino inBuf off fi =>
          cases target
          cases invoked
          exact follows_writeBuf rfl inBuf off fi s
      | _ => cases target

theorem follows_serve {r : Request} {handler : Handler} (served : fs.serve req r = some handler) :
    Follows noticing handler ⟨none⟩ ⟨r.writes, none⟩ fun _ _ _ => True := by
  obtain ⟨method, invoked⟩ | null := invocation_or_null served
  · rw [PageAlignFS.serve, asFuseLowLevelOps_of_invocation invoked] at served
    cases served
    rw [follows_callback]
    apply (invocation invoked _).mono
    intro status s n _
    exact (addsUp.epilogue _ status s).mono fun _ _ _ _ => trivial
  · obtain ⟨next, aborts⟩ := asFuseLowLevelOps_of_null served null ⟨none⟩
    rw [Follows, aborts]
    refine ⟨trivial, fun impossible => ?_⟩
    cases impossible

end Noticing

section Runs
variable {fs : PageAlignFS} {counts : String → Bool} {root : Inode} {pipes : Fd → Bool} {w : World}
  {l k : Ledger} {f : Multiset Ledger} {r : InodeRef} {a : Addr} {ph : PollPtr} {n : Notice}

theorem World.pollHandleAt_unref {count : Nat} {answer : Unrefed} (unrefs : w.Unrefs (.node a) count answer)
    (pos : 0 < count) (le : count ≤ w.refcnt a) (here : w.pollHandleAt r = some ph)
    (stays : ∀ i, r = .node a → answer ≠ .dropped (some i)) :
    (w.unref (.node a) count answer).pollHandleAt r = some ph := by
  obtain ⟨-, same⟩ | ⟨erased, gone⟩ := World.inodeAt_unref unrefs pos le
  · rw [World.pollHandleAt, same]
    exact here
  · rw [World.pollHandleAt_update gone, Function.update_of_ne]
    · exact here
    · rintro rfl
      rw [here] at erased
      cases answer with
      | dropped inode =>
          cases inode with
          | none => cases erased
          | some i => exact stays i rfl rfl
      | _ => cases erased

/-- A handle goes only with its inode or by being replaced. -/
theorem World.pollHandleAt_effect {c : Call} {ret : c.Ret} (allows : l.Allows c) (answers : w.Answers c ret)
    (inv : Inv w (l ::ₘ f)) (here : w.pollHandleAt r = some ph) (stays : ∀ a, r = .node a → ¬ Erases ⟨c, ret⟩ a)
    (keeps : ∀ new old, (⟨c, ret⟩ : Event calls) ≠ ⟨.addPollHandle r new, some old⟩) :
    (w.effect counts c ret).pollHandleAt r = some ph := by
  have permits := allows.permits
  cases c with
  | addPollHandle ref new =>
      have written : (w.effect counts (.addPollHandle ref new) ret).inodeAt = _ :=
        w.inodeAt_written ref (fun i => { i with pollHandle := some new }) fun _ => rfl
      rw [World.pollHandleAt_update written, Function.update_apply]
      split
      · next same =>
          subst same
          obtain ⟨i, found, handle⟩ := Option.bind_eq_some_iff.mp here
          have read : w.Reads r Inode.pollHandle ret := answers
          rw [World.Reads, found] at read
          have old : ret = some ph := read.trans handle
          subst old
          exact absurd rfl (keeps new ph)
      · exact here
  | insert i =>
      obtain same | ⟨free, new⟩ := World.inodeAt_insert counts answers
      · rw [World.pollHandleAt, same]
        exact here
      · rw [World.pollHandleAt_update new, Function.update_of_ne]
        · exact here
        · rintro rfl
          rw [World.pollHandleAt, free] at here
          cases here
  | unref site ref count =>
      cases site with
      | cleanup =>
          obtain ⟨a, rfl, pos, le⟩ := permits
          have counted := inv.counts.held a
          apply World.pollHandleAt_unref answers pos (by omega) here
          rintro i same rfl
          exact stays a same (.inl ⟨_, _, i, rfl⟩)
      | forget =>
          obtain ⟨a, rfl, pos, le⟩ := permits
          have counted := inv.counts.held a
          apply World.pollHandleAt_unref answers pos (by omega) here
          rintro i same rfl
          exact stays a same (.inl ⟨_, _, i, rfl⟩)
  | dropShared a =>
      have held : 0 < l.shared a := permits
      have counted := inv.counts.held a
      apply World.pollHandleAt_unref answers Nat.one_pos (by omega) here
      rintro i same rfl
      exact stays a same (.inr ⟨i, rfl⟩)
  | destroyPollHandle old => exact here
  | pollHandle ref => exact here
  | notifyPoll old => exact here
  | _ =>
      rw [World.pollHandleAt_light counts ret rfl]
      exact here

/-- A handle that was read from the inode that the request writes is still that inode's. -/
structure Notice.Agrees (w : World) (request : Request) (n : Notice) : Prop where
  target : n.target = request.writes
  seen : ∀ ph, n.seen = some ph → ∃ a, n.target = some a ∧ w.pollHandleAt (getInode a) = some ph

theorem getInode_eq_node {b : Addr} (h : getInode a = .node b) : b = a := by
  unfold getInode at h
  split at h
  · cases h
  · exact (InodeRef.node.inj h).symm

theorem WritersLive.writing (h : WritersLive w f) (mem : l ∈ f) (writes : l.request.writes = some a) : 0 < w.writers a := by
  have one : l.writes a = 1 := if_pos writes
  have le := le_total_of_mem (g := Ledger.writes a) mem
  rw [h.writers]
  omega

/-- The inode that is being written is there to be read. -/
theorem WritersLive.reads {ret : Option PollPtr} (h : WritersLive w f) (writing : 0 < w.writers a)
    (reads : w.Reads (getInode a) Inode.pollHandle ret) : w.pollHandleAt (getInode a) = ret := by
  obtain ⟨i, here⟩ : ∃ i, w.inodeAt (getInode a) = some i := by
    unfold getInode
    split
    · exact ⟨w.root, rfl⟩
    · next notRoot =>
        obtain ⟨e, view⟩ := h.live a notRoot writing
        obtain ⟨node, heap, -⟩ := InodeCache.heap_of_view view
        exact ⟨node.inode, by simp [World.inodeAt, heap]⟩
  rw [World.Reads, here] at reads
  rw [World.pollHandleAt, here]
  exact reads.symm

/-- A step of any thread, and what another one has seen. -/
theorem Notice.Agrees.act (counts : String → Bool) {c : Call} {ret : c.Ret} (h : n.Agrees w k.request) (allows : l.Allows c)
    (answers : w.Answers c ret) (inv : Inv w (l ::ₘ f)) (writers : WritersLive w (l ::ₘ f)) (mem : k ∈ l ::ₘ f)
    (undisturbed : ∀ a, Erases ⟨c, ret⟩ a ∨ Replaces ⟨c, ret⟩ a → w.writers a = 0) :
    n.Agrees (w.effect counts c ret) k.request := by
  refine ⟨h.target, fun ph same => ?_⟩
  obtain ⟨a, target, here⟩ := h.seen ph same
  have writing := writers.writing mem (h.target.symm.trans target)
  refine ⟨a, target, World.pollHandleAt_effect allows answers inv here ?_ ?_⟩
  · intro b ref erases
    cases getInode_eq_node ref
    have idle := undisturbed _ (.inl erases)
    omega
  · intro new old event
    have idle := undisturbed a (.inr ⟨new, old, event⟩)
    omega

/-- A step of the thread itself: what it reads is there. -/
theorem Notice.Agrees.after (counts : String → Bool) {c : Call} {ret : c.Ret} (h : n.Agrees w l.request) (may : noticing.allows n c)
    (allows : l.Allows c) (answers : w.Answers c ret) (inv : Inv w (l ::ₘ f)) (writers : WritersLive w (l ::ₘ f))
    (undisturbed : ∀ a, Erases ⟨c, ret⟩ a ∨ Replaces ⟨c, ret⟩ a → w.writers a = 0) :
    (noticing.after n c ret).Agrees (w.effect counts c ret) l.request := by
  have kept := h.act counts allows answers inv writers (Multiset.mem_cons_self l f) undisturbed
  cases c with
  | pollHandle r =>
      obtain ⟨a, target, rfl⟩ := may
      have writing := writers.writing (Multiset.mem_cons_self l f) (h.target.symm.trans target)
      have here := writers.reads writing answers
      exact ⟨h.target, fun ph seen => ⟨a, target, here.trans seen⟩⟩
  | _ => exact kept

/-- The books, the handles and the inodes that are being written. -/
def undisturbed (fs : PageAlignFS) (counts : String → Bool) : Protocol (polling fs counts)
    WritersUndisturbed (Ledger × Option PollPtr) :=
  (pollkeeping fs counts).strengthen (fun _ _ _ => trivial) (fun x f => WritersLive x.1 (f.map Prod.fst))
    (by
      rintro ⟨w, live⟩ tag p ⟨w', live'⟩ f ⟨⟨send, rfl, -⟩, -⟩ - ⟨inv, -⟩ h
      rw [Multiset.map_cons]
      exact h.arrived fs.opts send inv)
    (by
      rintro ⟨w, live⟩ ⟨w', live'⟩ ⟨l, hand⟩ f c ret ⟨allows, -⟩ ⟨⟨answers, rfl⟩, rfl⟩ admitted ⟨inv, -⟩ h
      rw [Multiset.map_cons] at inv h ⊢
      have kept : WritersKeep w (.act (l.req, l.request) ⟨c, ret⟩) := fun a erases => admitted a (.inl erases)
      exact h.act allows answers kept inv)
    (by
      rintro ⟨w, live⟩ ⟨l, hand⟩ f - - h
      rw [Multiset.map_cons] at h
      exact h.departed)

def noticekeeping (fs : PageAlignFS) (counts : String → Bool) : Protocol (polling fs counts)
    WritersUndisturbed ((Ledger × Option PollPtr) × Notice) :=
  (undisturbed fs counts).extend (fun _ _ h => h) noticing (fun tag => ⟨tag.2.writes, none⟩) (fun _ => True)
    (fun x f => ∀ m ∈ f, m.2.Agrees x.1 m.1.1.request)
    (by
      rintro ⟨w, live⟩ tag p ⟨w', live'⟩ f ⟨⟨send, rfl, handler, served, rfl⟩, -⟩ - - h
      refine ⟨Noticing.follows_serve served, fun m mem => ?_⟩
      rcases Multiset.mem_cons.mp mem with rfl | mem
      · exact ⟨rfl, fun ph seen => by cases seen⟩
      · obtain ⟨target, seen⟩ := h m mem
        dsimp only
        refine ⟨target, ?_⟩
        rw [World.pollHandleAt_arrive]
        exact seen)
    (by
      rintro ⟨w, live⟩ ⟨w', live'⟩ ⟨l, hand⟩ n f c ret ⟨allows, -⟩ may ⟨⟨answers, rfl⟩, rfl⟩ admitted
        ⟨⟨inv, -⟩, writers⟩ h
      rw [Multiset.map_cons] at inv writers
      have request : (l.after c ret).request = l.request := congrArg Prod.snd (l.tag_after c ret)
      have others {m : (Ledger × Option PollPtr) × Notice} (mem : m ∈ ((l, hand), n) ::ₘ f) :
          m.2.Agrees (w.effect counts c ret) m.1.1.request := by
        refine (h m mem).act counts allows answers inv writers ?_ admitted
        have listed := Multiset.mem_map_of_mem (fun m => m.1.1) mem
        rw [Multiset.map_cons] at listed
        simpa using listed
      refine ⟨trivial, fun m mem => ?_⟩
      rcases Multiset.mem_cons.mp mem with rfl | mem
      · have mine := (h _ (Multiset.mem_cons_self _ f)).after counts may allows answers inv writers admitted
        rw [← request] at mine
        exact mine
      · exact others (Multiset.mem_cons_of_mem mem))
    (by
      rintro ⟨w, live⟩ ⟨l, hand⟩ n f - - - h m mem
      obtain ⟨target, seen⟩ := h m (Multiset.mem_cons_of_mem mem)
      exact ⟨target, seen⟩)

/-- In every run in which nobody takes an inode or its poll handle away while a `WriteBuf` on the
inode has not returned, a handle that is about to be notified is live, and that of an inode
that is being written. -/
theorem notices_live {s : PollDaemon} (unpolled : root.pollHandle = none)
    (run : (polling fs counts).Reach WritersUndisturbed (.initial root pipes, ∅) s) (next : s.Next (.notifyPoll ph)) :
    ph ∈ s.world.2 ∧ ∃ a, 0 < s.world.1.writers a ∧ s.world.1.pollHandleAt (getInode a) = some ph := by
  have initial : (noticekeeping fs counts).Inv (.initial root pipes, ∅) 0 := by
    refine ⟨⟨⟨?_, .empty fun r => ?_⟩, ?_⟩, fun m mem => absurd mem (Multiset.notMem_zero m)⟩
    · rw [Multiset.map_zero, Multiset.map_zero]
      exact Inv.initial root pipes
    · cases r with
      | root => exact unpolled
      | node a => rfl
    · exact ⟨fun _ => rfl, fun a _ writing => absurd writing (Nat.lt_irrefl 0)⟩
  have holds := Protocol.holds_of_reach (noticekeeping fs counts) initial run
  obtain ⟨⟨⟨l, hand⟩, n⟩, f, ⟨-, may⟩, ⟨⟨-, placed⟩, writers⟩, notices⟩ := holds.next next
  have mine := notices _ (Multiset.mem_cons_self _ f)
  obtain ⟨a, target, here⟩ := mine.seen ph may
  rw [Multiset.map_cons, Multiset.map_cons] at writers
  exact ⟨placed.kept here, a, writers.writing (Multiset.mem_cons_self l _) (mine.target.symm.trans target), here⟩

end Runs

namespace Sample

/-- The polled file is written, and its poller is about to be told. -/
def noticed : World := (polledOnce.arrive writeTag.1 writeTag.2).play countsName ((notifying 701).take 5)

/-- Nothing is taken away. -/
theorem untouched {e : Event calls} (mem : e ∈ untilPolled ++ notifying 701) (a : Addr) : ¬ (Erases e a ∨ Replaces e a) := by
  rintro ((⟨site, k, i, rfl⟩ | ⟨i, rfl⟩) | ⟨ph, old, rfl⟩)
  all_goals simp [untilPolled, lookupEvents, openEvents, firstPoll, pollTail, notifying, writeEvents] at mem

theorem idle_noticed (req : FuseReq) : noticed.pending req = none :=
  idle_again idle_polledOnce writeTag.1 writeTag.2 req

theorem reach_noticed (ok : World × Set PollPtr → Label calls (FuseReq × Request) → Prop)
    (come : ∀ x tag, ok x (.arrive tag)) (acts : ∀ x tag, ∀ e ∈ untilPolled ++ notifying 701, ok x (.act tag e))
    (go : ∀ x tag, ok x (.leave tag)) : ∃ next, (polling .onLinux countsName).Reach ok (mounted, ∅)
      ⟨(noticed, insert 701 ∅), [⟨writeTag, .call (.notifyPoll 701) next⟩]⟩ := by
  have polled := reach_polling_once ok come (fun x tag e mem => acts x tag e (List.mem_append_left _ mem)) go
  have send := maySend_lastWrite (idle_polledOnce _) (by decide +kernel) rfl
  have starts : (polling .onLinux countsName).starts (polledOnce, insert 701 ∅) writeTag _ (_, insert 701 ∅) :=
    ⟨⟨send, rfl, _, rfl, rfl⟩, rfl⟩
  have steps : ∃ next, Steps (callback linux (some .onLinux) writeTag.1 .replyNone
      (fun fs : PageAlignFS => fs.writeBuf 4096 [⟨1, none, 0⟩] 0 ⟨1, 11, false, true⟩) { req := none })
      ((notifying 701).take 5) (.call (.notifyPoll 701) next) :=
    ⟨_, .step _ (.step _ (.step _ (.step _ (.step _ (.refl _)))))⟩
  obtain ⟨next, steps⟩ := steps
  have plays : (polledOnce.arrive writeTag.1 writeTag.2).Plays countsName ((notifying 701).take 5) :=
    ⟨trivial, trivial, trivial, rfl, rfl, trivial⟩
  have performs : (daemon .onLinux countsName).Performs _ ((notifying 701).take 5) noticed := plays.performs
  have started := polled.step (.arrive starts) (come _ _)
  exact ⟨next, started.run steps (performs.observed (insert 701 ∅)) fun x e mem =>
    acts x _ e (List.mem_append_right _ (List.mem_of_mem_take mem))⟩

end Sample

open Sample in
theorem notices_live_noticed : ∃ s : PollDaemon, s.Next (.notifyPoll 701) ∧ 701 ∈ s.world.2 ∧
    ∃ a, 0 < s.world.1.writers a ∧ s.world.1.pollHandleAt (getInode a) = some 701 := by
  obtain ⟨next, reached⟩ := reach_noticed WritersUndisturbed (fun _ _ => trivial)
    (fun x tag e mem a touched => absurd touched (untouched mem a)) fun _ _ => trivial
  have told := notices_live rfl reached ⟨_, .head _, next, rfl⟩
  exact ⟨_, ⟨_, .head _, next, rfl⟩, told⟩

open Sample in
/-- A second poller comes before the first one is told, and the handle that is about to be
notified has been destroyed. -/
theorem notice_comes_late : ∃ s : PollDaemon, (polling .onLinux countsName).Reach (fun _ _ => True) (mounted, ∅) s ∧
    s.Next (.notifyPoll 701) ∧ 701 ∉ s.world.2 := by
  obtain ⟨next, reached⟩ := reach_noticed (fun _ _ => True) (fun _ _ => trivial) (fun _ _ _ _ => trivial) fun _ _ => trivial
  have send : noticed.MaySend (pollTag 21 702).1 (pollTag 21 702).2 := by
    refine ⟨idle_noticed _, rfl, fun a h => .inr ?_, fun _ h => ?_, fun _ h => ?_,
      trivial⟩
    · cases List.mem_singleton.mp h
      decide +kernel
    · cases h
    · cases h
  have starts : (polling .onLinux countsName).starts (noticed, insert 701 ∅) (pollTag 21 702) _
      (_, insert 702 (insert 701 ∅)) := ⟨⟨send, rfl, _, rfl, rfl⟩, by simp, rfl⟩
  have steps : Exec (callback linux (some .onLinux) (pollTag 21 702).1 .replyFailure
      (fun fs : PageAlignFS => fs.poll 4096 (some 702)) { req := none }) secondPoll (.ok (), { req := none }) :=
    .step _ (.step _ (.step _ (.step _ (.step _ (.step _ (.refl _))))))
  have plays : (noticed.arrive (pollTag 21 702).1 (pollTag 21 702).2).Plays countsName secondPoll :=
    ⟨trivial, rfl, trivial, rfl, trivial, trivial, trivial⟩
  have performs : (daemon .onLinux countsName).Performs _ secondPoll _ := plays.performs
  have polled := reached.serve starts steps (performs.observed (insert 702 (insert 701 ∅)))
    (fun _ => trivial) (fun _ _ _ => trivial) fun _ => trivial
  exact ⟨_, polled, ⟨_, .head _, next, rfl⟩, fun live => live.2 rfl⟩

end Pafs
