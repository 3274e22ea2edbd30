import Pafs.Invariant

/-! Reference counts over whole runs: no entry goes while someone refers to it, and none
stays when nobody does, but for the names that ReadDirPlus counts and the kernel does not. -/
namespace Pafs
open Resumption

/-- The entry of the inode at `a` is found under its key and holds `n` references. -/
def World.Finds (w : World) (a : Addr) (n : Nat) : Prop :=
  ∃ node, w.inodes.find node.inode.key = some (a, node) ∧ n ≤ node.refcnt

/-- Lookup counts of the kernel, those in forgets on their way, and live `shared_ptr`s. -/
def World.held (w : World) (a : Addr) : Nat := w.nlookup a + w.forgetting a + w.shared a

structure ReferencesSafe (s : Daemon) : Prop where
  counted : ∀ k a n, s.world.inodes.find k = some (a, n) → s.world.held a ≤ n.refcnt
  kept : ∀ a, 0 < s.world.held a → s.world.Finds a (s.world.held a)
  refFinds : ∀ a n, s.Next (.ref (.node a) n) → s.world.Finds a 1
  unrefFinds : ∀ site a n, s.Next (.unref site (.node a) n) → s.world.Finds a n
  dropFinds : ∀ a, s.Next (.dropShared a) → s.world.Finds a 1
  checkHolds : ¬ s.Next (.abort .unrefCount)

variable {fs : PageAlignFS} {counts : String → Bool} {root : Inode} {pipes : Fd → Bool} {s : Daemon}
  {w : World} {l : Ledger} {f : Multiset Ledger} {a : Addr}

theorem bookkeeping_holds {ok : World → Label calls (FuseReq × Request) → Prop}
    (run : (daemon fs counts).Reach ok (.initial root pipes) s) :
    (bookkeeping fs counts).Holds s :=
  Protocol.holds_of_reach _ (Inv.initial root pipes) (run.mono fun _ _ _ => trivial)

theorem World.finds_of_refcnt {n : Nat} (pos : 0 < n) (le : n ≤ w.refcnt a) : w.Finds a n := by
  obtain ⟨e, view⟩ := view_of_refcnt (pos.trans_le le)
  rw [refcnt_of_view view] at le
  obtain ⟨node, heap, rfl⟩ := InodeCache.heap_of_view view
  exact ⟨node, InodeCache.find_eq_some_iff.mpr ⟨heap, rfl⟩, le⟩

theorem World.refcnt_of_find {k : Key} {n : Node} (h : w.inodes.find k = some (a, n)) :
    w.refcnt a = n.refcnt :=
  refcnt_of_view (InodeCache.view_of_heap (InodeCache.find_eq_some_iff.mp h).1)

theorem Counts.held_le (h : Counts w f) (a : Addr) : w.held a ≤ w.refcnt a := by
  have refcnt := h.refcnt a
  unfold World.held
  omega

/-- In every state that any number of callbacks can reach, in any order of their steps. -/
theorem references_safe {ok : World → Label calls (FuseReq × Request) → Prop}
    (run : (daemon fs counts).Reach ok (.initial root pipes) s) : ReferencesSafe s := by
  have holds := bookkeeping_holds run
  obtain ⟨f, inv⟩ := holds.inv
  constructor
  · intro k a n found
    rw [← World.refcnt_of_find found]
    exact inv.counts.held_le a
  · intro a pos
    exact World.finds_of_refcnt pos (inv.counts.held_le a)
  · intro a n next
    obtain ⟨l, f, allows, inv⟩ := holds.next next
    obtain ⟨b, same, held⟩ := allows.permits
    cases same
    have counted := inv.counts.held a
    exact World.finds_of_refcnt Nat.one_pos (by omega)
  · intro site a n next
    obtain ⟨l, f, allows, inv⟩ := holds.next next
    have counted := inv.counts.held a
    cases site with
    | cleanup =>
        obtain ⟨b, same, pos, le⟩ := allows.permits
        cases same
        exact World.finds_of_refcnt pos (by omega)
    | forget =>
        obtain ⟨b, same, pos, le⟩ := allows.permits
        cases same
        exact World.finds_of_refcnt pos (by omega)
  · intro a next
    obtain ⟨l, f, allows, inv⟩ := holds.next next
    have held : 0 < l.shared a := allows.permits
    have counted := inv.counts.held a
    exact World.finds_of_refcnt Nat.one_pos (by omega)
  · intro next
    obtain ⟨l, f, allows, -⟩ := holds.next next
    exact allows.permits rfl

/-! A run on a source directory with one file: the kernel looks the file up. -/

namespace Sample

def rootInode : Inode := ⟨4, 2, 8, none, none⟩

def mounted : World := .initial rootInode fun _ => false

def fileStat : Stat := ⟨8, 77, 0o100644, 0, 0, 0, ⟨0, 0⟩, ⟨0, 0⟩⟩

def lookupTag : FuseReq × Request := (⟨2, .lookup⟩, .lookup FUSE_ROOT_ID "f")

def lookupCallback : Prog calls (Status × FuseRequest) :=
  callback linux (some .onLinux) lookupTag.1 .replyFailure
    (fun fs : PageAlignFS => fs.lookup FUSE_ROOT_ID "f") { req := none }

/-- Lookup up to its reply. -/
def lookupEvents : List (Event calls) :=
  [⟨.logInode .root, ()⟩, ⟨.getFD .root, (4 : Int)⟩,
    ⟨.sys (.openat 4 "f" (O_PATH ||| O_NOFOLLOW ||| O_CLOEXEC) 0), .ok (9 : Int)⟩,
    ⟨.sys (.fstatat 9 "" (AT_EMPTY_PATH ||| AT_SYMLINK_NOFOLLOW)), .ok fileStat⟩,
    ⟨.insert ⟨9, 77, 8, none, none⟩, { addr := 4096, fresh := true }⟩,
    ⟨.getSourceDevice .root, (8 : Nat)⟩, ⟨.getSourceDevice (.node 4096), (8 : Nat)⟩,
    ⟨.getFD (.node 4096), (9 : Int)⟩,
    ⟨.sys (.fstatat 9 "" (AT_EMPTY_PATH ||| AT_SYMLINK_NOFOLLOW)), .ok fileStat⟩,
    ⟨.getGeneration (.node 4096), none⟩, ⟨.getFD (.node 4096), (9 : Int)⟩,
    ⟨.sys (.open_ (.procSelfFd 9) (O_RDONLY ||| O_CLOEXEC)), .ok (10 : Int)⟩,
    ⟨.sys (.ioctl 10 FS_IOC_GETVERSION), .ok (1 : Nat)⟩, ⟨.sys (.close 10 true), .ok ()⟩,
    ⟨.setGeneration (.node 4096) (.ok 1), ()⟩, ⟨.ref (.node 4096) 1, none⟩,
    ⟨.fuseReply ⟨2, .lookup⟩ (.entry ⟨4096, some 1, fileStat, 0, 0⟩), none⟩]

def lookupReplied : World := (mounted.arrive lookupTag.1 lookupTag.2).play countsName lookupEvents

def lookedUp : World :=
  (lookupReplied.effect countsName (.dropShared 4096) (.dropped none)).depart lookupTag.2

theorem steps_lookup : ∃ next, Steps lookupCallback lookupEvents (.call (.dropShared 4096) next) ∧
    next (.dropped none) = .done (.ok (), { req := none }) :=
  ⟨_, .step _ (.step _ (.step _ (.step _ (.step _ (.step _ (.step _ (.step _ (.step _ (.step _
    (.step _ (.step _ (.step _ (.step _ (.step _ (.step _ (.step _ (.refl _))))))))))))))))), rfl⟩

theorem maySend_lookup : mounted.MaySend lookupTag.1 lookupTag.2 :=
  ⟨rfl, rfl, fun _ h => .inl (List.mem_singleton.mp h), fun _ h => (nomatch h),
    fun _ h => (nomatch h), trivial⟩

variable (ok : World → Label calls (FuseReq × Request) → Prop)

theorem reach_lookupReplied (come : ok mounted (.arrive lookupTag))
    (acts : ∀ w, ∀ e ∈ lookupEvents, ok w (.act lookupTag e)) :
    ∃ next, (daemon .onLinux countsName).Reach ok mounted
      ⟨lookupReplied, [⟨lookupTag, .call (.dropShared 4096) next⟩]⟩ ∧
      next (.dropped none) = .done (.ok (), { req := none }) := by
  have plays : (mounted.arrive lookupTag.1 lookupTag.2).Plays countsName lookupEvents :=
    ⟨trivial, rfl, rfl, trivial, ⟨_, rfl⟩, rfl, rfl, rfl, trivial, rfl, rfl, rfl, trivial, trivial,
      trivial, rfl, trivial, trivial⟩
  have started : (daemon .onLinux countsName).Reach ok mounted
      ⟨mounted.arrive lookupTag.1 lookupTag.2, [⟨lookupTag, lookupCallback⟩]⟩ :=
    .step .init (.arrive ⟨maySend_lookup, rfl, _, rfl, rfl⟩) come
  obtain ⟨next, steps, done⟩ := steps_lookup
  exact ⟨next, started.run steps plays.performs acts, done⟩

theorem reach_lookedUp (come : ok mounted (.arrive lookupTag))
    (acts : ∀ w, ∀ e ∈ lookupEvents, ok w (.act lookupTag e))
    (drops : ∀ w, ok w (.act lookupTag ⟨.dropShared 4096, .dropped none⟩))
    (go : ∀ w, ok w (.leave lookupTag)) :
    (daemon .onLinux countsName).Reach ok mounted ⟨lookedUp, []⟩ := by
  obtain ⟨next, replied, done⟩ := reach_lookupReplied ok come acts
  have dropped : (daemon .onLinux countsName).Reach ok mounted
      ⟨lookupReplied.effect countsName (.dropShared 4096) (.dropped none),
        [⟨lookupTag, next (.dropped none)⟩]⟩ :=
    replied.step (.act_head ⟨rfl, rfl⟩) (drops lookupReplied)
  rw [done] at dropped
  exact dropped.step .leave_head (go _)

theorem reached_lookedUp : (daemon .onLinux countsName).Reach (fun _ _ => True) mounted ⟨lookedUp, []⟩ :=
  reach_lookedUp _ trivial (fun _ _ _ => trivial) (fun _ => trivial) fun _ => trivial

end Sample

open Sample in
/-- The reply has been sent, and the `shared_ptr` is about to die. -/
theorem references_safe_lookup : ∃ next, lookupReplied.held 4096 = 2 ∧
    lookupReplied.refcnt 4096 = 2 ∧
    ReferencesSafe ⟨lookupReplied, [⟨lookupTag, .call (.dropShared 4096) next⟩]⟩ := by
  obtain ⟨next, replied, -⟩ := reach_lookupReplied (fun _ _ => True) trivial
    fun _ _ _ => trivial
  exact ⟨next, by decide +kernel, by decide +kernel, references_safe replied⟩

/-- Nothing stays behind when no request is in progress. -/
structure NoLeak (w : World) : Prop where
  equal : ∀ k a n, w.inodes.find k = some (a, n) → n.refcnt = w.nlookup a
  empty : (∀ a, w.nlookup a = 0) → ∀ k, w.inodes.find k = none
  closed : (∀ a, w.nlookup a = 0) → ∀ fd, w.fds fd ≠ some .thread ∧ ∀ a, w.fds fd ≠ some (.inode a)

/-- The references that leak are those of the listed names the kernel does not count. -/
theorem noLeak_iff {ok : World → Label calls (FuseReq × Request) → Prop}
    (run : (daemon fs counts).Reach ok (.initial root pipes) s) (quiet : s.threads = []) :
    NoLeak s.world ↔ ∀ a, s.world.uncounted a = 0 := by
  have inv : Inv s.world 0 := (bookkeeping_holds run).quiescent quiet
  have refcnt (a : Addr) : s.world.refcnt a = s.world.nlookup a + s.world.uncounted a := by
    have counted := inv.counts.refcnt a
    have forgetting := inv.counts.forgetting a
    have shared := inv.counts.shared a
    rw [total_zero] at counted forgetting shared
    omega
  constructor
  · intro noLeak a
    by_contra leaked
    have pos : 0 < s.world.refcnt a := by
      have := refcnt a
      omega
    obtain ⟨node, found, -⟩ := World.finds_of_refcnt pos (le_refl _)
    have equal := noLeak.equal _ a node found
    have counted := World.refcnt_of_find found
    have := refcnt a
    omega
  · intro none
    have gone (forgotten : ∀ a, s.world.nlookup a = 0) (a : Addr) : s.world.inodes.view a = .none := by
      cases view : s.world.inodes.view a with
      | none => rfl
      | some e =>
          have live := inv.counts.live a e view
          have counted := World.refcnt_of_view view
          have := refcnt a
          have := none a
          have := forgotten a
          omega
    refine ⟨fun k a n found => ?_, fun forgotten k => ?_, fun forgotten fd => ⟨fun mine => ?_, ?_⟩⟩
    · rw [← World.refcnt_of_find found, refcnt, none, add_zero]
    · cases found : s.world.inodes.find k with
      | none => rfl
      | some entry =>
          have heap := (InodeCache.find_eq_some_iff.mp found).1
          have absent := InodeCache.view_eq_none_iff.mp (gone forgotten entry.1)
          rw [absent] at heap
          cases heap
    · have thread := inv.descriptors.thread fd
      rw [if_pos mine, total_zero] at thread
      cases thread
    · intro a owner
      have view := (inv.descriptors.inode a fd).mp owner
      rw [gone forgotten a] at view
      cases view

/-- No listing that the kernel receives names the directory itself or its parent. -/
def Undotted : World → Label calls (FuseReq × Request) → Prop
  | _, .act _ ⟨.fuseReply _ (.buf (.dirs true records)), none⟩ =>
      ∀ r ∈ records, r.name ≠ "." ∧ r.name ≠ ".."
  | _, _ => True

theorem effect_receive_uncounted {req : FuseReq} {reply : Reply} :
    (w.receive counts req reply).uncounted =
      w.uncounted + fun a => (reply.uncounted counts).count a := by
  unfold World.receive
  dsimp only
  split <;> rfl

theorem uncounted_of_undotted {reply : Reply} {tag : FuseReq × Request} {req : FuseReq}
    (undotted : Undotted w (.act tag ⟨.fuseReply req reply, none⟩)) :
    reply.uncounted countsName = [] := by
  cases reply with
  | buf data =>
      rcases data with bytes | ⟨_ | _, records⟩
      · rfl
      · rfl
      · have named : ∀ r ∈ records, r.name ≠ "." ∧ r.name ≠ ".." := undotted
        have none : (records.filter fun r => !countsName r.name) = [] := by
          rw [List.filter_eq_nil_iff]
          intro r mem
          simp [countsName, (named r mem).1, (named r mem).2]
        simp only [Reply.uncounted, none, List.map_nil]
  | _ => rfl

theorem uncounted_eq_zero (run : (daemon fs countsName).Reach Undotted (.initial root pipes) s)
    (a : Addr) : s.world.uncounted a = 0 := by
  induction run with
  | init => rfl
  | step _ step admitted ih =>
      cases step with
      | @arrive w w' tag p ts starts =>
          obtain ⟨-, rfl, -⟩ := starts
          obtain ⟨nlookup, forgetting, fds, -, arrive⟩ := World.arrive_cases w tag.1 tag.2
          dsimp only at ih ⊢
          rw [arrive]
          exact ih
      | @act w w' tag c r next pre post perform =>
          obtain ⟨-, rfl⟩ := perform
          dsimp only at ih ⊢
          by_cases reply : ∃ req reply, c = .fuseReply req reply
          · obtain ⟨req, reply, rfl⟩ := reply
            cases r with
            | some e => exact ih
            | none =>
                have none := uncounted_of_undotted admitted
                change (World.receive _ countsName req reply).uncounted a = 0
                rw [effect_receive_uncounted, none]
                exact ih
          · have frame := World.frame_effect (w := w) countsName c r
              fun req rep same => reply ⟨req, rep, same⟩
            rw [frame.uncounted]
            exact ih
      | leave => exact ih

/-- In every run in which the kernel receives no listing with "." or "..", nothing leaks. -/
theorem noLeak_of_undotted (run : (daemon fs countsName).Reach Undotted (.initial root pipes) s)
    (quiet : s.threads = []) : NoLeak s.world :=
  (noLeak_iff run quiet).mpr (uncounted_eq_zero run)

open Sample in
theorem noLeak_lookup : lookedUp.refcnt 4096 = 1 ∧ lookedUp.nlookup 4096 = 1 ∧ NoLeak lookedUp := by
  refine ⟨by decide +kernel, by decide +kernel, ?_⟩
  refine noLeak_of_undotted (s := ⟨lookedUp, []⟩) (reach_lookedUp Undotted trivial ?_
    (fun _ => trivial) fun _ => trivial) rfl
  intro w e mem
  fin_cases mem <;> trivial

/-! A run that lists the source directory: its parent is on another device. -/

namespace Sample

def parentStat : Stat := ⟨9, 2, 0o40755, 0, 0, 0, ⟨0, 0⟩, ⟨0, 0⟩⟩

def openDirTag : FuseReq × Request := (⟨3, .opendir⟩, .opendir FUSE_ROOT_ID (some ⟨0, 0, false, false⟩))

def openDirEvents : List (Event calls) :=
  [⟨.logInode .root, ()⟩, ⟨.getFD .root, (4 : Int)⟩,
    ⟨.sys (.openat 4 "." (O_DIRECTORY ||| O_NOFOLLOW ||| O_CLOEXEC) 0), .ok (9 : Int)⟩,
    ⟨.sys (.fdopendir 9), .ok (70 : Nat)⟩, ⟨.newDirectory 70, (500 : Nat)⟩,
    ⟨.fuseReply ⟨3, .opendir⟩ (.openFile ⟨0, 500, false, false⟩), none⟩]

def dirOpened : World :=
  ((mounted.arrive openDirTag.1 openDirTag.2).play countsName openDirEvents).depart openDirTag.2

def listTag : FuseReq × Request :=
  (⟨4, .readdirplus⟩, .readdirplus FUSE_ROOT_ID 200 0 (some ⟨0, 500, false, false⟩))

/-- One name is listed, of a file that is not in the cache. -/
def listEventsOf (name : String) (st : Stat) : List (Event calls) :=
  [⟨.logInode .root, ()⟩, ⟨.derefDirectory 500, (70 : Nat)⟩, ⟨.seekdir 70 0, ()⟩,
    ⟨.sys (.readdir 70), .ok (some ⟨name, 1⟩)⟩, ⟨.getFD .root, (4 : Int)⟩,
    ⟨.sys (.openat 4 name (O_PATH ||| O_NOFOLLOW ||| O_CLOEXEC) 0), .ok (10 : Int)⟩,
    ⟨.sys (.fstatat 10 "" (AT_EMPTY_PATH ||| AT_SYMLINK_NOFOLLOW)), .ok st⟩,
    ⟨.insert ⟨10, st.stIno, st.stDev, none, none⟩, { addr := 4096, fresh := true }⟩,
    ⟨.getFD (.node 4096), (10 : Int)⟩,
    ⟨.sys (.fstatat 10 "" (AT_EMPTY_PATH ||| AT_SYMLINK_NOFOLLOW)), .ok st⟩,
    ⟨.getGeneration (.node 4096), none⟩, ⟨.getFD (.node 4096), (10 : Int)⟩,
    ⟨.sys (.open_ (.procSelfFd 10) (O_RDONLY ||| O_CLOEXEC)), .ok (11 : Int)⟩,
    ⟨.sys (.ioctl 11 FS_IOC_GETVERSION), .ok (1 : Nat)⟩, ⟨.sys (.close 11 true), .ok ()⟩,
    ⟨.setGeneration (.node 4096) (.ok 1), ()⟩, ⟨.ref (.node 4096) 1, none⟩,
    ⟨.sys (.readdir 70), .ok none⟩,
    ⟨.fuseReply ⟨4, .readdirplus⟩ (.buf (.dirs true
      [⟨name, ⟨4096, some 1, st, 0, 0⟩, 1, linux.direntSize true name 0⟩])), none⟩,
    ⟨.dropShared 4096, .dropped none⟩]

def listEvents : List (Event calls) := listEventsOf ".." parentStat

def listed : World :=
  ((dirOpened.arrive listTag.1 listTag.2).play countsName listEvents).depart listTag.2

theorem reach_directory (ok : World → Label calls (FuseReq × Request) → Prop) (come : ∀ w, ok w (.arrive openDirTag))
    (acts : ∀ w, ∀ e ∈ openDirEvents, ok w (.act openDirTag e)) (go : ∀ w, ok w (.leave openDirTag)) :
    (daemon .onLinux countsName).Reach ok mounted ⟨dirOpened, []⟩ := by
  have send : mounted.MaySend openDirTag.1 openDirTag.2 :=
    ⟨rfl, rfl, fun a h => .inl (List.mem_singleton.mp h), fun _ h => (nomatch h),
      fun _ h => (nomatch h), trivial⟩
  have plays : (mounted.arrive openDirTag.1 openDirTag.2).Plays countsName openDirEvents :=
    ⟨trivial, rfl, rfl, rfl, rfl, trivial, trivial⟩
  have steps : Exec (callback linux (some .onLinux) openDirTag.1 .replyFailure
      (fun fs : PageAlignFS => fs.openDir FUSE_ROOT_ID ⟨0, 0, false, false⟩) { req := none })
      openDirEvents (.ok (), { req := none }) :=
    .step _ (.step _ (.step _ (.step _ (.step _ (.step _ (.refl _))))))
  exact Machine.Reach.init.serve ⟨send, rfl, _, rfl, rfl⟩ steps plays.performs come acts go

theorem reach_dirOpened : (daemon .onLinux countsName).Reach (fun _ _ => True) mounted ⟨dirOpened, []⟩ :=
  reach_directory _ (fun _ => trivial) (fun _ _ _ => trivial) fun _ => trivial

theorem reach_listed :
    (daemon .onLinux countsName).Reach (fun _ _ => True) mounted ⟨listed, []⟩ := by
  have send : dirOpened.MaySend listTag.1 listTag.2 :=
    ⟨rfl, rfl, fun a h => .inl (List.mem_singleton.mp h), fun _ h => (nomatch h),
      fun _ h => (nomatch h), trivial⟩
  have plays : (dirOpened.arrive listTag.1 listTag.2).Plays countsName listEvents :=
    ⟨trivial, fun _ h => Option.some.inj h, trivial, trivial, rfl, rfl, trivial, ⟨_, rfl⟩, rfl, trivial, rfl, rfl, rfl, trivial,
      trivial, trivial, rfl, trivial, trivial, rfl, trivial⟩
  have steps : Exec (callback linux (some .onLinux) listTag.1 .replyAlways
      (fun fs : PageAlignFS => fs.readDirPlus FUSE_ROOT_ID 200 0 ⟨0, 500, false, false⟩)
      { req := none }) listEvents (.ok (), { req := none }) :=
    .step _ (.step _ (.step _ (.step _ (.step _ (.step _ (.step _ (.step _ (.step _ (.step _
      (.step _ (.step _ (.step _ (.step _ (.step _ (.step _ (.step _ (.step _ (.step _ (.step _
      (.refl _))))))))))))))))))))
  exact reach_dirOpened.serve ⟨send, rfl, _, rfl, rfl⟩ steps plays.performs (fun _ => trivial)
    (fun _ _ _ => trivial) fun _ => trivial

end Sample

open Sample in
/-- ReadDirPlus took a reference for ".." that the kernel will never forget. -/
theorem readdirplus_leaks : (daemon .onLinux countsName).Reach (fun _ _ => True) mounted ⟨listed, []⟩ ∧
    (∀ a, listed.nlookup a = 0) ∧ ¬ NoLeak listed := by
  refine ⟨reach_listed, fun a => rfl, fun noLeak => ?_⟩
  have none := (noLeak_iff reach_listed rfl).mp noLeak 4096
  revert none
  decide +kernel

end Pafs
