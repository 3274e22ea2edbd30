import Pafs.Identity

/-! Attribute timeouts. A clock runs between requests; the kernel keeps the attributes of
every reply and may answer a stat from them until the advertised timeout has passed. -/
namespace Pafs
open Resumption

variable {fs : PageAlignFS} {counts : String → Bool} {root : Inode} {pipes : Fd → Bool}
  {l : Ledger} {f : Multiset Ledger}

namespace Reply

/-- The attributes of a reply, each with the timeout that is advertised for it. -/
def attributes : Reply → List (Stat × Duration)
  | .attr st timeout => [(st, timeout)]
  | reply => reply.params.map fun p => (p.attr, p.attrTimeout)

end Reply

/-- Attributes that the kernel keeps. Times are in quarter nanoseconds. -/
structure Cached where
  /-- when they were read from the backing file -/
  readAt : Option ℚ
  repliedAt : ℚ
  timeout : Duration

structure Clock where
  now : ℚ
  /-- the attributes read from backing files, the last first -/
  reads : List (Stat × ℚ)
  cached : List Cached

namespace Clock

def start : Clock := ⟨0, [], []⟩

/-- Handling a request takes no time: the clock moves only while no callback runs. -/
def Passes (w : World) (k k' : Clock) : Prop :=
  ∃ now, k.now ≤ now ∧ (w.running = 0 ∨ now = k.now) ∧ k' = { k with now := now }

def cache (k : Clock) (attributes : List (Stat × Duration)) : List Cached :=
  attributes.map fun p => ⟨k.reads.lookup p.1, k.now, p.2⟩

def note (k : Clock) : (c : Call) → c.Ret → Clock
  | .sys (.fstatat _ _ _), .ok st => { k with reads := (st, k.now) :: k.reads }
  | .fuseReply _ reply, none => { k with cached := k.cache reply.attributes ++ k.cached }
  | _, _ => k

end Clock

namespace Duration

/-- How long ago something was, among the lengths of time that timeouts can be. -/
def ofAge (age : ℚ) : WithBot (WithTop ℚ) := WithBot.some (WithTop.some age)

theorem ofAge_le_ofAge {a b : ℚ} : ofAge a ≤ ofAge b ↔ a ≤ b :=
  WithBot.coe_le_coe.trans WithTop.coe_le_coe

/-- What lies between an age and something else is an age. -/
theorem exists_age {a : ℚ} {x y : WithBot (WithTop ℚ)} (above : ofAge a ≤ x) (below : x < y) :
    ∃ age, x = ofAge age := by
  induction x with
  | bot => exact absurd above (WithBot.not_coe_le_bot _)
  | coe x =>
      induction x with
      | top => exact absurd below (not_top_lt (a := y))
      | coe age => exact ⟨age, rfl⟩

def toRat (d : Duration) : WithBot (WithTop ℚ) := WithBot.map (WithTop.map fun n : Int => (n : ℚ)) d

theorem toRat_le_toRat {d d' : Duration} : d.toRat ≤ d'.toRat ↔ d ≤ d' := by
  unfold toRat
  rw [WithBot.map_le_iff]
  intro a b
  rw [WithTop.map_le_iff]
  intro m n
  exact Int.cast_le

theorem toRat_lt_toRat {d d' : Duration} : d.toRat < d'.toRat ↔ d < d' := by
  rw [lt_iff_le_not_ge, lt_iff_le_not_ge, toRat_le_toRat, toRat_le_toRat]

end Duration

/-- The kernel may still answer from these attributes. -/
def Cached.Valid (e : Cached) (time : ℚ) : Prop :=
  Duration.ofAge (time - e.repliedAt) < e.timeout.toRat

/-- Whenever a stat is answered without the daemon, the attributes were read at most `bound`
earlier; with a bound of 0 no stat is. -/
def Bounded (bound : Duration) (k : Clock) : Prop :=
  ∀ e ∈ k.cached, ∀ time, k.now ≤ time → e.Valid time →
    0 < bound ∧ ∃ t, e.readAt = some t ∧ Duration.ofAge (time - t) ≤ bound.toRat

/-- The daemon with a clock. -/
def timed (fs : PageAlignFS) (counts : String → Bool) :
    Machine calls (World × Clock) (FuseReq × Request) (Status × FuseRequest) :=
  (daemon fs counts).observed (fun w _ k k' => Clock.Passes w k k') Clock.note

/-- Attributes are replied with at the time they are read, with one of the two timeouts. -/
structure Cached.Prompt (opts : Options) (now : ℚ) (e : Cached) : Prop where
  readAt : e.readAt = some e.repliedAt
  past : e.repliedAt ≤ now
  timeout : e.timeout = opts.kernelAttributeTimeout ∨ e.timeout = opts.kernelEntryTimeout

structure Prompt (opts : Options) (x : World × Clock) (f : Multiset Ledger) : Prop where
  running : x.1.running = f.card
  same : ∀ l ∈ f, l.opts = opts
  reads : ∀ l ∈ f, ∀ st ∈ l.seen.stats, x.2.reads.lookup st = some x.2.now
  cached : ∀ e ∈ x.2.cached, e.Prompt opts x.2.now

theorem Ledger.opts_after (l : Ledger) (c : Call) (r : c.Ret) : (l.after c r).opts = l.opts := by
  unfold after
  split
  all_goals first
    | rfl
    | (split <;> rfl)
    | (unfold sawGeneration; split <;> rfl)

theorem Clock.now_note (k : Clock) (c : Call) (r : c.Ret) : (k.note c r).now = k.now := by
  unfold note
  split <;> rfl

/-- What was read at this moment still counts as read at this moment. -/
theorem Clock.lookup_note {k : Clock} {c : Call} {r : c.Ret} {st : Stat}
    (h : k.reads.lookup st = some k.now) : (k.note c r).reads.lookup st = some k.now := by
  unfold note
  split
  · next st' =>
      rw [List.lookup_cons]
      split
      · rfl
      · exact h
  · exact h
  · exact h

/-- The attributes in a reply were read for it. -/
theorem Ledger.MayReply.attributes {req : FuseReq} {reply : Reply} {st : Stat} {timeout : Duration}
    (may : l.MayReply req reply) (mem : (st, timeout) ∈ reply.attributes) : st ∈ l.seen.stats ∧
      (timeout = l.opts.kernelAttributeTimeout ∨ timeout = l.opts.kernelEntryTimeout) := by
  have params (mem : (st, timeout) ∈ reply.params.map fun p => (p.attr, p.attrTimeout)) :
      st ∈ l.seen.stats ∧
        (timeout = l.opts.kernelAttributeTimeout ∨ timeout = l.opts.kernelEntryTimeout) := by
    obtain ⟨p, listed, same⟩ := List.mem_map.mp mem
    cases same
    have covers := may.covers p listed
    exact ⟨covers.attr, .inl covers.timeout⟩
  cases reply with
  | attr st' timeout' =>
      cases List.mem_singleton.mp mem
      obtain ⟨read, advertised⟩ := may.attr st timeout rfl
      exact ⟨read, .inr advertised⟩
  | _ => exact params mem

theorem Prompt.act {opts : Options} {x : World × Clock} {c : Call} {r : c.Ret} (allows : l.Allows c)
    (h : Prompt opts x (l ::ₘ f)) :
    Prompt opts (x.1.effect counts c r, x.2.note c r) (l.after c r ::ₘ f) := by
  have mine : l ∈ l ::ₘ f := Multiset.mem_cons_self l f
  constructor
  · change (x.1.effect counts c r).running = _
    rw [(x.1.still_effect counts c r).running, h.running, Multiset.card_cons, Multiset.card_cons]
  · intro m mem
    rcases Multiset.mem_cons.mp mem with rfl | mem
    · rw [l.opts_after]
      exact h.same l mine
    · exact h.same m (Multiset.mem_cons_of_mem mem)
  · intro m mem st seen
    change (x.2.note c r).reads.lookup st = some (x.2.note c r).now
    rw [Clock.now_note]
    rcases Multiset.mem_cons.mp mem with rfl | mem
    · obtain seen | ⟨fd, path, flag, event⟩ := Ledger.stats_after seen
      · exact Clock.lookup_note (h.reads l mine st seen)
      · cases event
        exact List.lookup_cons_self
    · exact Clock.lookup_note (h.reads m (Multiset.mem_cons_of_mem mem) st seen)
  · intro e mem
    change e.Prompt opts (x.2.note c r).now
    rw [Clock.now_note]
    by_cases received : ∃ req reply, (⟨c, r⟩ : Event calls) = ⟨.fuseReply req reply, none⟩
    · obtain ⟨req, reply, event⟩ := received
      cases event
      rcases List.mem_append.mp mem with new | mem
      · obtain ⟨⟨st, timeout⟩, carried, rfl⟩ := List.mem_map.mp new
        obtain ⟨read, advertised⟩ := Ledger.MayReply.attributes allows.permits carried
        rw [h.same l mine] at advertised
        exact ⟨h.reads l mine st read, le_refl _, advertised⟩
      · exact h.cached e mem
    · have same : (x.2.note c r).cached = x.2.cached := by
        unfold Clock.note
        split
        · rfl
        · next req reply => exact absurd ⟨req, reply, rfl⟩ received
        · rfl
      change e ∈ (x.2.note c r).cached at mem
      rw [same] at mem
      exact h.cached e mem

def prompt (fs : PageAlignFS) (counts : String → Bool) :
    Protocol (timed fs counts) (fun _ _ => True) Ledger :=
  ((bookkeeping fs counts).observed (fun w _ k k' => Clock.Passes w k k') Clock.note).strengthen
    (fun _ _ _ => trivial) (Prompt fs.opts)
    (by
      rintro ⟨w, k⟩ tag p ⟨w', k'⟩ f ⟨⟨-, arrive, -⟩, now, le, moves, rfl⟩ - - h
      cases arrive
      obtain ⟨nlookup, forgetting, fds, -, arrive⟩ := w.arrive_cases tag.1 tag.2
      refine ⟨?_, fun m mem => ?_, fun m mem st seen => ?_, fun e mem => ?_⟩
      · change (w.arrive tag.1 tag.2).running = _
        rw [arrive, Multiset.card_cons]
        exact congrArg (· + 1) h.running
      · rcases Multiset.mem_cons.mp mem with rfl | mem
        · rfl
        · exact h.same m mem
      · rcases Multiset.mem_cons.mp mem with rfl | mem
        · cases seen
        · rcases moves with free | rfl
          · have none : f = 0 := Multiset.card_eq_zero.mp (h.running.symm.trans free)
            rw [none] at mem
            exact absurd mem (Multiset.notMem_zero m)
          · exact h.reads m mem st seen
      · have old := h.cached e mem
        exact ⟨old.readAt, old.past.trans le, old.timeout⟩)
    (by
      rintro ⟨w, k⟩ ⟨w', k'⟩ l f c r allows ⟨⟨-, rfl⟩, rfl⟩ - - h
      exact h.act allows)
    (by
      rintro ⟨w, k⟩ l f - - h
      refine ⟨?_, fun m mem => h.same m (Multiset.mem_cons_of_mem mem),
        fun m mem => h.reads m (Multiset.mem_cons_of_mem mem), h.cached⟩
      have running := h.running
      rw [Multiset.card_cons] at running
      change w.running - 1 = f.card
      change w.running = _ at running
      omega)

/-- With these timeouts the bound holds in every run. -/
theorem Cached.Prompt.bounded {opts : Options} {e : Cached} {now time : ℚ} (h : e.Prompt opts now)
    (later : now ≤ time) (valid : e.Valid time)
    (fits : opts.kernelEntryTimeout ≤ opts.kernelAttributeTimeout ∨ opts.kernelEntryTimeout ≤ 0) :
    0 < opts.kernelAttributeTimeout ∧ ∃ t, e.readAt = some t ∧
      Duration.ofAge (time - t) ≤ opts.kernelAttributeTimeout.toRat := by
  have age : Duration.ofAge 0 ≤ Duration.ofAge (time - e.repliedAt) := by
    rw [Duration.ofAge_le_ofAge]
    exact sub_nonneg.mpr (h.past.trans later)
  have valid : Duration.ofAge (time - e.repliedAt) < e.timeout.toRat := valid
  have positive : 0 < e.timeout := Duration.toRat_lt_toRat.mp (age.trans_lt valid)
  have le : e.timeout ≤ opts.kernelAttributeTimeout := by
    rcases h.timeout with same | same
    · exact same.le
    · rcases fits with fits | fits
      · exact same.le.trans fits
      · rw [same] at positive
        exact absurd positive (not_lt.mpr fits)
  refine ⟨positive.trans_le le, e.repliedAt, h.readAt, ?_⟩
  exact valid.le.trans (Duration.toRat_le_toRat.mpr le)

section Stat
variable (fs counts root pipes)

/-! A stat of the root, for any options. -/

def rootStat : Stat := ⟨0, 0, 0, 0, 0, 0, ⟨0, 0⟩, ⟨0, 0⟩⟩

def statTag : FuseReq × Request := (⟨2, .getattr⟩, .getattr FUSE_ROOT_ID none)

def statEvents : List (Event calls) :=
  [⟨.logInode .root, ()⟩, ⟨.getFD .root, root.fd⟩,
    ⟨.sys (.fstatat root.fd "" (AT_EMPTY_PATH ||| AT_SYMLINK_NOFOLLOW)), .ok rootStat⟩,
    ⟨.fuseReply ⟨2, .getattr⟩ (.attr rootStat fs.opts.kernelEntryTimeout), none⟩]

def statWorld : World :=
  (((World.initial root pipes).arrive statTag.1 statTag.2).play counts (statEvents fs root)).depart statTag.2

def statClock : Clock := ⟨0, [(rootStat, 0)], [⟨some 0, 0, fs.opts.kernelEntryTimeout⟩]⟩

theorem reach_stat : (timed fs counts).Reach (fun _ _ => True) (.initial root pipes, .start)
    ⟨(statWorld fs counts root pipes, statClock fs), []⟩ := by
  have send : (World.initial root pipes).MaySend statTag.1 statTag.2 :=
    ⟨rfl, rfl, fun _ h => .inl (List.mem_singleton.mp h), fun _ h => (nomatch h),
      fun _ h => (nomatch h), trivial⟩
  have plays : ((World.initial root pipes).arrive statTag.1 statTag.2).Plays counts (statEvents fs root) :=
    ⟨trivial, rfl, trivial, trivial, trivial⟩
  have steps : Exec (callback fs.platform (some fs) statTag.1 .replyFailure
      (fun fs : PageAlignFS => fs.getAttr FUSE_ROOT_ID) { req := none }) (statEvents fs root)
      (.ok (), { req := none }) := .step _ (.step _ (.step _ (.step _ (.refl _))))
  have starts : (daemon fs counts).starts (.initial root pipes) statTag _ _ := ⟨send, rfl, _, rfl, rfl⟩
  have clock : Clock.Passes (.initial root pipes) .start .start := ⟨0, le_refl _, .inr rfl, rfl⟩
  have noted : (statEvents fs root).foldl (fun k e => k.note e.1 e.2) Clock.start = statClock fs := by
    simp [statEvents, Clock.note, Clock.cache, Clock.start, statClock, Reply.attributes]
  have performs : (daemon fs counts).Performs _ _ _ := plays.performs
  have observed : (timed fs counts).Performs _ _ _ := performs.observed Clock.start
  rw [noted] at observed
  have timedStarts : (timed fs counts).starts (.initial root pipes, .start) statTag _ (_, .start) :=
    ⟨starts, clock⟩
  exact Machine.Reach.init.serve timedStarts steps observed (fun _ => trivial) (fun _ _ _ => trivial)
    fun _ => trivial

/-- A stat after the bound and before the entry timeout breaks the bound. -/
theorem getattr_exceeds_bound (longer : fs.opts.kernelAttributeTimeout < fs.opts.kernelEntryTimeout)
    (positive : 0 < fs.opts.kernelEntryTimeout) :
    ¬ Bounded fs.opts.kernelAttributeTimeout (statClock fs) := by
  intro bounded
  have stats (age : ℚ) (nonneg : 0 ≤ age)
      (valid : Duration.ofAge age < fs.opts.kernelEntryTimeout.toRat) :
      0 < fs.opts.kernelAttributeTimeout ∧
        Duration.ofAge age ≤ fs.opts.kernelAttributeTimeout.toRat := by
    have here := bounded _ List.mem_cons_self age nonneg
    obtain ⟨pos, t, readAt, within⟩ := here (by simpa [Cached.Valid] using valid)
    cases readAt
    exact ⟨pos, by simpa using within⟩
  -- a stat at once shows that the bound is positive, so that there is time to wait
  have atOnce : Duration.ofAge 0 < fs.opts.kernelEntryTimeout.toRat :=
    (Duration.toRat_lt_toRat (d := 0)).mpr positive
  obtain ⟨pos, -⟩ := stats 0 (le_refl 0) atOnce
  obtain ⟨x, above, below⟩ := exists_between (Duration.toRat_lt_toRat.mpr longer)
  have bound : Duration.ofAge 0 < fs.opts.kernelAttributeTimeout.toRat :=
    (Duration.toRat_lt_toRat (d := 0)).mpr pos
  obtain ⟨age, rfl⟩ := Duration.exists_age (bound.trans above).le below
  obtain ⟨-, within⟩ := stats age (Duration.ofAge_le_ofAge.mp (bound.trans above).le) below
  exact absurd above (not_lt.mpr within)

/-- The configured bound is kept in every run, whatever time passes, exactly if the entry
timeout is not the longer one or is not positive: `ReplyWithAttrs` advertises that one. -/
theorem attributes_bounded_iff :
    (∀ s, (timed fs counts).Reach (fun _ _ => True) (.initial root pipes, .start) s →
      Bounded fs.opts.kernelAttributeTimeout s.world.2) ↔
    fs.opts.kernelEntryTimeout ≤ fs.opts.kernelAttributeTimeout ∨ fs.opts.kernelEntryTimeout ≤ 0 := by
  constructor
  · intro bounded
    by_contra unfit
    obtain ⟨longer, positive⟩ := not_or.mp unfit
    exact getattr_exceeds_bound fs (not_le.mp longer) (not_le.mp positive)
      (bounded _ (reach_stat fs counts root pipes))
  · intro fits s run
    have initial : Prompt fs.opts (.initial root pipes, .start) 0 :=
      ⟨rfl, fun l mem => absurd mem (Multiset.notMem_zero l),
        fun l mem => absurd mem (Multiset.notMem_zero l), fun e mem => (nomatch mem)⟩
    have books : (prompt fs counts).Inv (.initial root pipes, .start) 0 :=
      ⟨Inv.initial root pipes, initial⟩
    have holds := Protocol.holds_of_reach (prompt fs counts) books run
    obtain ⟨f, -, prompt⟩ := holds.inv
    intro e mem time later valid
    exact (prompt.cached e mem).bounded later valid fits

end Stat

/-- Attributes are not to be cached, and those of a getattr are good for a second. -/
theorem getattr_outlives_bound : ¬ ∀ s,
    (timed ⟨linux, ⟨(4000000000 : Int), 0⟩⟩ countsName).Reach (fun _ _ => True)
      (Sample.mounted, .start) s → Bounded 0 s.world.2 := by
  intro bounded
  refine getattr_exceeds_bound ⟨linux, ⟨(4000000000 : Int), 0⟩⟩ ?_ ?_ (bounded _ (reach_stat _ _ _ _))
  · decide
  · decide

end Pafs
