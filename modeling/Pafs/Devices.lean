import Pafs.Identity

/-! One source device. Lookup and Create compare the device of a new inode with that of its
parent; ReadDirPlus lists whatever the stats of its names return. -/
namespace Pafs
open Resumption

variable {fs : PageAlignFS} {counts : String → Bool} {root : Inode} {pipes : Fd → Bool} {s : Daemon}
  {w : World} {l : Ledger} {f : Multiset Ledger} {a : Addr} {dev : Dev}

/-- Every inode whose id the kernel was given is on the device of the root. -/
def SingleDevice (w : World) : Prop := ∀ g ∈ w.given, g.key.1 = w.root.srcDevNum

/-- What ReadDirPlus stats is on the device of the root. -/
def ListsOneDevice : World → Label calls (FuseReq × Request) → Prop
  | w, .act tag ⟨.sys (.fstatat _ _ _), .ok st⟩ =>
      tag.2.isReaddirplus = true → st.stDev = w.root.srcDevNum
  | _, _ => True

/-- The inode at an address, if there is one, is on the device `dev`. -/
def World.IsOn (w : World) (dev : Dev) (a : Addr) : Prop := ∀ k, w.keyAt a = some k → k.1 = dev

/-- What a thread has seen of devices is right. -/
structure SeesDevices (w : World) (l : Ledger) : Prop where
  stats : l.request.isReaddirplus = true → ∀ st ∈ l.seen.stats, st.stDev = w.root.srcDevNum
  listed : l.request.isReaddirplus = true → ∀ a, 0 < l.shared a → w.IsOn w.root.srcDevNum a
  named : ∀ ino ∈ l.request.names, ∀ dev, (getInode ino, dev) ∈ l.seen.devices → l.owed = true →
    dev = w.root.srcDevNum
  held : ∀ a dev, (InodeRef.node a, dev) ∈ l.seen.devices → 0 < l.shared a → w.IsOn dev a

structure OneDevice (w : World) (f : Multiset Ledger) : Prop where
  given : SingleDevice w
  known : ∀ a, 0 < w.nlookup a → w.IsOn w.root.srcDevNum a
  sees : ∀ l ∈ f, SeesDevices w l

theorem World.IsOn.effect {c : Call} {r : c.Ret} (kept : 0 < w.refcnt a) (h : w.IsOn dev a) :
    (w.effect counts c r).IsOn dev a := fun k key => h k (keyAt_effect counts kept key)

/-- The steps of a thread do not disturb what another one has seen. -/
theorem SeesDevices.other {c : Call} {r : c.Ret} (inv : Inv w f) (mem : l ∈ f)
    (device : (w.effect counts c r).root.srcDevNum = w.root.srcDevNum) (h : SeesDevices w l) :
    SeesDevices (w.effect counts c r) l := by
  constructor
  · rw [device]
    exact h.stats
  · intro plus a held
    rw [device]
    exact (h.listed plus a held).effect (inv.counts.shared_pos mem held)
  · rw [device]
    exact h.named
  · intro a dev seen held
    exact (h.held a dev seen held).effect (inv.counts.shared_pos mem held)

theorem OneDevice.reads {ino : Addr} (inv : Inv w (l ::ₘ f)) (h : OneDevice w (l ::ₘ f))
    (named : ino ∈ l.request.names) (owed : l.owed = true)
    (reads : w.Reads (getInode ino) Inode.srcDevNum dev) : dev = w.root.srcDevNum := by
  unfold getInode at reads
  split at reads
  · exact reads
  · next notRoot =>
      have known := inv.requests.names l.req l.request (inv.requests.owner owed) ino named notRoot
      obtain ⟨k, key⟩ := World.keyAt_of_refcnt (inv.counts.nlookup_pos known)
      obtain ⟨n, heap, rfl⟩ := World.heap_of_keyAt key
      rw [World.reads_node heap reads]
      exact h.known ino known _ key

/-- What the acting thread has seen after its step. -/
theorem OneDevice.saw {c : Call} {r : c.Ret} (allows : l.Allows c) (answers : w.Answers c r)
    (admitted : ListsOneDevice w (.act (l.req, l.request) ⟨c, r⟩)) (inv : Inv w (l ::ₘ f))
    (device : (w.effect counts c r).root.srcDevNum = w.root.srcDevNum) (h : OneDevice w (l ::ₘ f)) :
    SeesDevices (w.effect counts c r) (l.after c r) := by
  have mem : l ∈ l ::ₘ f := Multiset.mem_cons_self l f
  have mine := h.sees l mem
  have request : (l.after c r).request = l.request := congrArg Prod.snd (l.tag_after c r)
  constructor
  · intro plus st seen
    rw [device]
    rw [request] at plus
    obtain seen | ⟨fd, path, flag, event⟩ := Ledger.stats_after seen
    · exact mine.stats plus st seen
    · cases event
      exact admitted plus
  · intro plus a held
    rw [device]
    rw [request] at plus
    obtain held | ⟨i, inserted, event, rfl⟩ := Ledger.shared_after held
    · exact (mine.listed plus a held).effect (inv.counts.shared_pos mem held)
    · cases event
      intro k key
      rw [World.keyAt_insert answers] at key
      cases key
      obtain ⟨-, -, st, seen, made⟩ := allows.permits
      rw [made]
      exact mine.stats plus st seen
  · intro ino named dev seen owed
    rw [device]
    rw [request] at named
    have owed := Ledger.owed_after owed
    obtain ⟨-, seen | event⟩ := Ledger.devices_after seen
    · exact mine.named ino named dev seen owed
    · cases event
      exact h.reads inv named owed answers
  · intro a dev seen held
    obtain ⟨shared, seen | event⟩ := Ledger.devices_after seen
    · have held := held.trans_le (shared a)
      exact (mine.held a dev seen held).effect (inv.counts.shared_pos mem held)
    · have held := held.trans_le (shared a)
      cases event
      intro k key
      have key := World.keyAt_effect counts (inv.counts.shared_pos mem held) key
      obtain ⟨n, heap, rfl⟩ := World.heap_of_keyAt key
      exact (World.reads_node heap answers).symm

/-- The inodes in a reply are on the device of the root. -/
theorem OneDevice.replies {req : FuseReq} {reply : Reply} (may : l.MayReply req reply)
    (h : OneDevice w (l ::ₘ f)) (mem : a ∈ reply.entries) : w.IsOn w.root.srcDevNum a := by
  have mine := h.sees l (Multiset.mem_cons_self l f)
  have held := may.shared a mem
  rcases may.compared a mem with plus | ⟨dev, child, ino, named, parent⟩
  · exact mine.listed plus a held
  · rw [← mine.named ino named dev parent may.owed]
    exact mine.held a dev child held

/-- An id that the kernel holds after a step was held before, or is in the reply just sent. -/
theorem World.nlookup_effect {c : Call} {r : c.Ret} (h : 0 < (w.effect counts c r).nlookup a) :
    0 < w.nlookup a ∨ ∃ req reply, (⟨c, r⟩ : Event calls) = ⟨.fuseReply req reply, none⟩ ∧
      a ∈ reply.entries := by
  by_cases replies : ∃ req reply, c = .fuseReply req reply
  · obtain ⟨req, reply, rfl⟩ := replies
    cases r with
    | some e => exact .inl h
    | none =>
        have nlookup : (w.effect counts (.fuseReply req reply) none).nlookup a =
            w.nlookup a + (reply.counted counts).count a := by
          simp only [effect, receive]
          split <;> rfl
        have entries := Reply.count_entries counts reply a
        rw [nlookup] at h
        by_cases known : 0 < w.nlookup a
        · exact .inl known
        · refine .inr ⟨req, reply, rfl, List.count_pos_iff.mp ?_⟩
          omega
  · rw [(frame_effect counts c r fun req reply same => replies ⟨req, reply, same⟩).nlookup] at h
    exact .inl h

theorem OneDevice.act {c : Call} {r : c.Ret} (allows : l.Allows c) (answers : w.Answers c r)
    (admitted : ListsOneDevice w (.act (l.req, l.request) ⟨c, r⟩)) (inv : Inv w (l ::ₘ f))
    (h : OneDevice w (l ::ₘ f)) : OneDevice (w.effect counts c r) (l.after c r ::ₘ f) := by
  have device := (w.still_effect counts c r).device
  constructor
  · intro g mem
    rw [device]
    obtain given | ⟨req, reply, event⟩ := w.given_effect counts c r
    · rw [given] at mem
      exact h.given g mem
    · cases event
      rw [(w.replied_eq counts req reply).1, List.mem_append] at mem
      rcases mem with mem | mem
      · exact h.given g mem
      · obtain ⟨key, p, listed, ino, -⟩ := World.mem_gives mem
        have entry : g.ino ∈ reply.entries := by
          rw [Reply.entries_eq, ← ino]
          exact List.mem_map_of_mem listed
        exact h.replies allows.permits entry g.key key
  · intro a known
    rw [device]
    obtain known | ⟨req, reply, event, entry⟩ := World.nlookup_effect known
    · exact (h.known a known).effect (inv.counts.nlookup_pos known)
    · cases event
      have held := allows.permits.shared a entry
      exact (h.replies allows.permits entry).effect
        (inv.counts.shared_pos (Multiset.mem_cons_self l f) held)
  · intro m mem
    rcases Multiset.mem_cons.mp mem with rfl | mem
    · exact h.saw allows answers admitted inv device
    · have mem : m ∈ l ::ₘ f := Multiset.mem_cons_of_mem mem
      exact (h.sees m mem).other inv mem device

theorem OneDevice.arrived {tag : FuseReq × Request} (opts : Options) (h : OneDevice w f) :
    OneDevice (w.arrive tag.1 tag.2) (.opening opts tag ::ₘ f) := by
  obtain ⟨nlookup, forgetting, fds, le, arrive⟩ := w.arrive_cases tag.1 tag.2
  rw [arrive]
  refine ⟨h.given, fun a known => h.known a (known.trans_le (le a)), fun m mem => ?_⟩
  rcases Multiset.mem_cons.mp mem with rfl | mem
  · exact ⟨fun _ st seen => (nomatch seen), fun _ a held => absurd held (Nat.lt_irrefl 0),
      fun _ _ _ seen => (nomatch seen), fun _ _ seen => (nomatch seen)⟩
  · obtain ⟨stats, listed, named, held⟩ := h.sees m mem
    exact ⟨stats, listed, named, held⟩

/-- The books, with the devices that were seen. -/
def oneDevice (fs : PageAlignFS) (counts : String → Bool) :
    Protocol (daemon fs counts) ListsOneDevice Ledger :=
  (bookkeeping fs counts).strengthen (fun _ _ _ => trivial) OneDevice
    (by
      rintro w tag p w' f ⟨-, rfl, -⟩ - - h
      exact h.arrived fs.opts)
    (by
      rintro w w' l f c r allows ⟨answers, rfl⟩ admitted inv h
      exact h.act allows answers admitted inv)
    (by
      intro w l f _ _ h
      refine ⟨h.given, h.known, fun m mem => ?_⟩
      obtain ⟨stats, listed, named, held⟩ := h.sees m (Multiset.mem_cons_of_mem mem)
      exact ⟨stats, listed, named, held⟩)

/-- In every run in which ReadDirPlus meets only the source device, the kernel is given only
inodes of that device. -/
theorem singleDevice_of_listings
    (run : (daemon fs counts).Reach ListsOneDevice (.initial root pipes) s) : SingleDevice s.world := by
  have initial : OneDevice (.initial root pipes) 0 :=
    ⟨fun g mem => (nomatch mem), fun a known => absurd known (Nat.lt_irrefl 0),
      fun l mem => absurd mem (Multiset.notMem_zero l)⟩
  have holds := Protocol.holds_of_reach (oneDevice fs counts) ⟨Inv.initial root pipes, initial⟩ run
  obtain ⟨f, -, one⟩ := holds.inv
  exact one.given

namespace Sample

/-- ReadDirPlus lists the file itself. -/
def fileListed : World :=
  ((dirOpened.arrive listTag.1 listTag.2).play countsName (listEventsOf "f" fileStat)).depart listTag.2

theorem reach_fileListed : (daemon .onLinux countsName).Reach ListsOneDevice mounted ⟨fileListed, []⟩ := by
  have opened : (daemon .onLinux countsName).Reach ListsOneDevice mounted ⟨dirOpened, []⟩ := by
    refine reach_directory _ (fun _ => trivial) (fun w e mem => ?_) fun _ => trivial
    fin_cases mem <;> trivial
  have send : dirOpened.MaySend listTag.1 listTag.2 := by
    refine ⟨rfl, rfl, fun a h => .inl (List.mem_singleton.mp h), fun _ h => ?_, fun _ h => ?_, trivial⟩
    · cases h
    · cases h
  have plays : (dirOpened.arrive listTag.1 listTag.2).Plays countsName (listEventsOf "f" fileStat) :=
    ⟨trivial, fun _ h => Option.some.inj h, trivial, trivial, rfl, rfl, trivial, ⟨_, rfl⟩, rfl, trivial, rfl, rfl, rfl,
      trivial, trivial, trivial, rfl, trivial, trivial, rfl, trivial⟩
  have steps : Exec (callback linux (some .onLinux) listTag.1 .replyAlways
      (fun fs : PageAlignFS => fs.readDirPlus FUSE_ROOT_ID 200 0 ⟨0, 500, false, false⟩)
      { req := none }) (listEventsOf "f" fileStat) (.ok (), { req := none }) :=
    .step _ (.step _ (.step _ (.step _ (.step _ (.step _ (.step _ (.step _ (.step _ (.step _
      (.step _ (.step _ (.step _ (.step _ (.step _ (.step _ (.step _ (.step _ (.step _ (.step _
      (.refl _))))))))))))))))))))
  have started := opened.step (.arrive ⟨send, rfl, _, rfl, rfl⟩) trivial
  -- what the listing stats is on the device of the root, which no call changes
  have ran := started.runWhile (P := fun w => w.root.srcDevNum = 8) steps plays.performs rfl
    (fun w₁ w₂ e mem same perform => ?_) fun w same e mem => ?_
  · exact ran.step .leave_head trivial
  · obtain ⟨-, rfl⟩ := perform
    rw [(w₁.still_effect countsName e.1 e.2).device]
    exact same
  · fin_cases mem
    all_goals first
      | trivial
      | exact fun _ => same.symm

end Sample

open Sample in
theorem singleDevice_listed : fileListed.given = [given] ∧ SingleDevice fileListed := by
  refine ⟨rfl, ?_⟩
  exact singleDevice_of_listings reach_fileListed

open Sample in
/-- The listing of the source directory gives the kernel its parent, on device 9. -/
theorem listing_spans_devices : (daemon .onLinux countsName).Reach (fun _ _ => True) mounted
    ⟨listed, []⟩ ∧ ¬ SingleDevice listed := by
  refine ⟨reach_listed, fun single => ?_⟩
  have device := single ⟨4096, some 1, (9, 2)⟩ (by decide +kernel)
  cases device

end Pafs
