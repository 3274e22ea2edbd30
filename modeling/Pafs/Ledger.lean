import Pafs.World
import Pafs.Replies

/-! What one thread holds: references, forgets it still has to apply, descriptors, the duty
to reply. The discipline `accounts` says which calls a thread may make with what it holds,
and every callback is shown to keep to it and to return with nothing left. -/
namespace Pafs
open Resumption

namespace Request

def isReaddirplus : Request → Bool
  | .readdirplus .. => true
  | _ => false

/-- The requests whose handlers make a system call on `inode.GetFD()` that open(2) refuses
on an `O_PATH` descriptor. -/
def usesPathFd : Request → Bool
  | .getlk .. | .setlk .. | .flock .. | .fallocate .. | .copyFileRange .. | .lseek .. | .poll .. => true
  | _ => false

end Request

/-- The lookup counts that forgets give back. -/
def returned (forgets : List ForgetData) : Addr → Nat :=
  (forgets.map fun d => Pi.single d.ino d.nlookup).sum

@[simp] theorem returned_nil : returned [] = 0 := rfl

@[simp] theorem returned_cons (d : ForgetData) (ds : List ForgetData) :
    returned (d :: ds) = Pi.single d.ino d.nlookup + returned ds := List.sum_cons

/-- The descriptors on which a call does what open(2) refuses on an `O_PATH` descriptor. -/
def Sys.refused : Sys → List Fd
  | .ioctl fd _ | .fchmod fd _ | .ftruncate fd _ | .futimens fd _ _ | .flock fd _
  | .fallocate fd _ _ _ | .lseek fd _ _ | .poll fd _ | .fcntl fd _ _ => [fd]
  | .copyFileRange fdIn _ fdOut _ _ _ => [fdIn, fdOut]
  | _ => []

/-- libfuse reads and writes the descriptors in the buffers it is given. -/
def Call.refused : Call → List Fd
  | .sys s => s.refused
  | .fuseReply _ (.data bufv) => bufv.filterMap FuseBuf.fd
  | .fuseBufCopy dst src => (dst ++ src).filterMap FuseBuf.fd
  | _ => []

/-- The inode that a call reads or writes. -/
def Call.touches : Call → Option InodeRef
  | .logInode r | .getFD r | .getSourceDevice r | .getGeneration r | .setGeneration r _
  | .addPollHandle r _ | .pollHandle r | .ref r _ | .unref _ r _ => some r
  | .dropShared a => some (.node a)
  | _ => none

/-- The descriptor that an `Unref` hands to the thread. -/
def Unrefed.fds : Unrefed → Fd → Nat
  | .dropped (some i) => Pi.single i.fd 1
  | _ => 0

/-- What a thread has read and may rely on. -/
structure Seen where
  stats : List Stat
  /-- devices of inodes, since the last `Insert` -/
  devices : List (InodeRef × Dev)
  /-- generations of inodes that the thread has held ever since -/
  generations : List (Addr × Nat)
  /-- the inode whose generation was last found unset -/
  unset : Option Addr

structure Ledger where
  opts : Options
  req : FuseReq
  request : Request
  owed : Bool
  shared : Addr → Nat
  /-- references taken by `Ref` for a reply that has not been sent -/
  refs : Addr → Nat
  forgets : Addr → Nat
  fds : Fd → Nat
  seen : Seen

namespace Ledger

def opening (opts : Options) (tag : FuseReq × Request) : Ledger where
  opts := opts
  req := tag.1
  request := tag.2
  owed := true
  shared := 0
  refs := 0
  forgets := returned tag.2.forgets
  fds := fun fd => if tag.2.released = some fd then 1 else 0
  seen := ⟨[], [], [], none⟩

/-- Why the inode behind a reference is alive: it is the root, or an unanswered request
names it, or a `shared_ptr` or a forget of this thread keeps it. -/
def Reaches (l : Ledger) : InodeRef → Prop
  | .root => True
  | .node a => (l.owed = true ∧ a ∈ l.request.names ∧ a ≠ FUSE_ROOT_ID) ∨ 0 < l.shared a ∨
      0 < l.forgets a

/-- `WriteBuf` looks at the poll handle of its inode after its reply. -/
def LooksLate (l : Ledger) (c : Call) (r : InodeRef) : Prop :=
  c = .pollHandle r ∧ ∃ a, r = .node a ∧ l.request.writes = some a ∧ a ≠ FUSE_ROOT_ID

def MayUse (l : Ledger) (fd : Fd) : Prop :=
  0 < l.fds fd ∨ (l.owed = true ∧ fd ∈ l.request.handles) ∨ l.request.usesPathFd = true

/-- The device of the inode was compared with that of an inode the request names. -/
def Compared (l : Ledger) (a : Addr) : Prop :=
  ∃ dev, (InodeRef.node a, dev) ∈ l.seen.devices ∧
    ∃ ino ∈ l.request.names, (getInode ino, dev) ∈ l.seen.devices

/-- The parts of an entry are what was read for it. -/
structure Covers (l : Ledger) (param : EntryParam) : Prop where
  attr : param.attr ∈ l.seen.stats
  timeout : param.attrTimeout = l.opts.kernelAttributeTimeout
  generation : ∃ v, param.generation = some v ∧ (param.ino, v) ∈ l.seen.generations

structure MayReply (l : Ledger) (req : FuseReq) (reply : Reply) : Prop where
  own : req = l.req
  owed : l.owed = true
  refs : ∀ a, reply.entries.count a = l.refs a
  shared : ∀ a ∈ reply.entries, 0 < l.shared a
  compared : ∀ a ∈ reply.entries, l.request.isReaddirplus = true ∨ l.Compared a
  handle : ∀ fd, reply.handle req = some fd → 0 < l.fds fd
  covers : ∀ param ∈ reply.params, l.Covers param
  attr : ∀ st timeout, reply = .attr st timeout →
    st ∈ l.seen.stats ∧ timeout = l.opts.kernelEntryTimeout

def Permits (l : Ledger) : Call → Prop
  | .sys (.close fd _) => 0 < l.fds fd
  | .sys (.fdopendir fd) => 0 < l.fds fd ∧ l.req.opcode = .opendir
  | .setGeneration r _ => ∃ a, r = .node a ∧ 0 < l.shared a ∧ l.seen.unset = some a
  | .insert i => 0 < l.fds i.fd ∧ i.generation = none ∧
      ∃ st ∈ l.seen.stats, i.key = (st.stDev, st.stIno)
  | .ref r _ => ∃ a, r = .node a ∧ 0 < l.shared a ∧ ∃ v, (a, v) ∈ l.seen.generations
  | .unref .cleanup r n => ∃ a, r = .node a ∧ 0 < n ∧ n ≤ l.refs a
  | .unref .forget r n => ∃ a, r = .node a ∧ 0 < n ∧ n ≤ l.forgets a
  | .dropShared a => 0 < l.shared a
  | .fuseReply req reply => l.MayReply req reply
  | .abort site => site ≠ .unrefCount
  | _ => True

structure Allows (l : Ledger) (c : Call) : Prop where
  reaches : ∀ r, c.touches = some r → l.Reaches r ∨ l.LooksLate c r
  descriptors : ∀ fd ∈ c.refused, l.MayUse fd
  permits : l.Permits c

/-- What the thread relies on: its references are in the cache. -/
def Expects : (c : Call) → c.Ret → Prop
  | .ref _ _, rc => rc = none
  | .unref _ _ _, answer | .dropShared _, answer => ∃ erased, answer = .dropped erased
  | _, _ => True

def sawStat (l : Ledger) (st : Stat) : Ledger :=
  { l with seen := { l.seen with stats := st :: l.seen.stats } }

def sawDevice (l : Ledger) (r : InodeRef) (dev : Dev) : Ledger :=
  { l with seen := { l.seen with devices := (r, dev) :: l.seen.devices } }

/-- The memo of an inode was read, or filled in. -/
def sawGeneration (l : Ledger) (a : Addr) : Option (Except VersionError Nat) → Ledger
  | none => { l with seen := { l.seen with unset := some a } }
  | some (.error _) => { l with seen := { l.seen with unset := none } }
  | some (.ok v) =>
      { l with seen := { l.seen with generations := (a, v) :: l.seen.generations, unset := none } }

/-- The reply was sent: the kernel has taken over the entries and the handle. -/
def sent (l : Ledger) (req : FuseReq) (reply : Reply) : Ledger :=
  { l with
    refs := 0
    fds := l.fds - fun fd => if reply.handle req = some fd then 1 else 0 }

def after (l : Ledger) : (c : Call) → c.Ret → Ledger
  | .sys (.open_ _ _), .ok fd | .sys (.openat _ _ _ _), .ok fd | .sys (.dup _), .ok fd =>
      { l with fds := l.fds + Pi.single fd 1 }
  | .sys (.close fd _), _ | .sys (.fdopendir fd), _ => { l with fds := l.fds - Pi.single fd 1 }
  | .sys (.fstatat _ _ _), .ok st => l.sawStat st
  | .getSourceDevice r, dev => l.sawDevice r dev
  | .getGeneration (.node a), memo => l.sawGeneration a memo
  | .setGeneration (.node a) v, _ => l.sawGeneration a (some v)
  | .insert i, r =>
      { l with
        shared := l.shared + Pi.single r.addr 1
        fds := if r.fresh then l.fds - Pi.single i.fd 1 else l.fds
        -- an address can come back for another inode unless the old one is still held
        seen := { l.seen with
          devices := []
          generations := l.seen.generations.filter fun p => 0 < l.shared p.1
          unset := none } }
  | .ref (.node a) n, _ => { l with refs := l.refs + Pi.single a n }
  | .unref .cleanup (.node a) n, answer =>
      { l with refs := l.refs - Pi.single a n, fds := l.fds + answer.fds }
  | .unref .forget (.node a) n, answer =>
      { l with forgets := l.forgets - Pi.single a n, fds := l.fds + answer.fds }
  | .dropShared a, answer =>
      { l with shared := l.shared - Pi.single a 1, fds := l.fds + answer.fds }
  | .fuseReply req reply, rc =>
      let l := { l with owed := false }
      match rc with
      | none => l.sent req reply
      | some _ => l
  | _, _ => l

/-- Nothing is held. -/
structure Clear (l : Ledger) : Prop where
  shared : l.shared = 0
  refs : l.refs = 0
  forgets : l.forgets = 0
  fds : l.fds = 0

/-- The callback may return. -/
structure Final (l : Ledger) : Prop where
  clear : l.Clear
  answered : l.owed = false

end Ledger

def accounts : Discipline calls Ledger where
  allows := Ledger.Allows
  answers _ c r := Ledger.Expects c r
  after := Ledger.after

variable {σ α β : Type} {P : Platform} {l : Ledger} {req : FuseReq}

theorem Ledger.reaches_getInode {ino : Addr} (owed : l.owed = true) (named : ino ∈ l.request.names) :
    l.Reaches (getInode ino) := by
  unfold getInode
  split
  · trivial
  · next ne => exact .inl ⟨owed, named, ne⟩

theorem Ledger.reaches_shared {a : Addr} (h : 0 < l.shared a) : l.Reaches (.node a) :=
  .inr (.inl h)

namespace Ledger.Allows

variable {c : Call}

theorem plain (touches : c.touches = none) (refused : c.refused = []) (permits : l.Permits c) :
    l.Allows c where
  reaches r h := by rw [touches] at h; cases h
  descriptors fd h := by rw [refused] at h; cases h
  permits := permits

theorem touch {r : InodeRef} (reaches : l.Reaches r) (touches : c.touches = some r)
    (refused : c.refused = []) (permits : l.Permits c) : l.Allows c where
  reaches r' h := by
    rw [touches] at h
    cases h
    exact .inl reaches
  descriptors fd h := by rw [refused] at h; cases h
  permits := permits

theorem use {fds : List Fd} (mayUse : ∀ fd ∈ fds, l.MayUse fd) (touches : c.touches = none)
    (refused : c.refused = fds) (permits : l.Permits c) : l.Allows c where
  reaches r h := by rw [touches] at h; cases h
  descriptors fd h := mayUse fd (refused ▸ h)
  permits := permits

theorem pathFd {c : Sys} (uses : l.request.usesPathFd = true) (permits : l.Permits (.sys c)) :
    l.Allows (.sys c) where
  reaches _ h := nomatch h
  descriptors _ _ := .inr (.inr uses)
  permits := permits

end Ledger.Allows

/-- The routine leaves the ledger as it was. -/
def Steady (l : Ledger) (m : Io σ α) : Prop :=
  ∀ s, Routine.Follows accounts m s l fun _ s' l' => s' = s ∧ l' = l

namespace Steady

theorem pure (a : α) : Steady l (pure a : Io σ α) := fun _ => ⟨rfl, rfl⟩

theorem fail (e : Error) : Steady l (Routine.fail e : Io σ α) := fun _ => ⟨rfl, rfl⟩

theorem ofExcept (r : StatusOr α) : Steady l (Routine.ofExcept r : Io σ α) := fun _ => ⟨rfl, rfl⟩

theorem invoke {c : Call} (allows : l.Allows c) (same : ∀ r, l.after c r = l) :
    Steady l (Routine.invoke (I := calls) c : Io σ c.Ret) :=
  fun _ => ⟨allows, fun r _ => ⟨rfl, same r⟩⟩

theorem syscall {c : Sys} {message : String} (allows : l.Allows (.sys c))
    (same : ∀ r, l.after (.sys c) r = l) : Steady l (syscall P c message : Io σ c.Ret) := by
  intro s
  rw [follows_syscall]
  exact ⟨allows, fun e _ => ⟨rfl, same _⟩, fun v _ => ⟨rfl, same _⟩⟩

theorem bind {m : Io σ α} {f : α → Io σ β} (first : Steady l m) (rest : ∀ a, Steady l (f a)) :
    Steady l (m >>= f) := by
  intro s
  rw [Routine.follows_bind]
  refine (first s).mono fun r s' l' same => ?_
  obtain ⟨rfl, rfl⟩ := same
  cases r with
  | ok a => exact rest a s'
  | error e => exact ⟨rfl, rfl⟩

theorem attempt {m : Io σ α} (h : Steady l m) : Steady l m.attempt := by
  intro s
  rw [Routine.follows_attempt]
  exact h s

theorem doIf {c : Bool} {m : Io σ Unit} (h : Steady l m) : Steady l (doIf c m) := by
  cases c with
  | true => exact h
  | false => exact .pure ()

theorem check {site : CheckSite} {holds : Bool} (other : site ≠ .unrefCount) :
    Steady l (check site holds : Io σ Unit) := by
  intro s
  rw [follows_check]
  refine ⟨fun _ => ⟨rfl, rfl⟩, fun _ => ⟨?_, ?_, other⟩⟩
  · exact fun _ h => nomatch h
  · exact fun _ h => nomatch h

theorem log {r : InodeRef} (reaches : l.Reaches r) :
    Steady l (Routine.invoke (I := calls) (.logInode r) : Io σ Unit) :=
  .invoke (.touch reaches rfl rfl trivial) fun _ => rfl

theorem getFD {r : InodeRef} (reaches : l.Reaches r) :
    Steady l (Routine.invoke (I := calls) (.getFD r) : Io σ Fd) :=
  .invoke (.touch reaches rfl rfl trivial) fun _ => rfl

end Steady

/-- Only what was read differs. -/
def Ledger.Rests (l l' : Ledger) : Prop := ∃ seen, l' = { l with seen := seen }

theorem Ledger.Rests.refl (l : Ledger) : l.Rests l := ⟨l.seen, rfl⟩

theorem Ledger.Rests.trans {l l' l'' : Ledger} (h : l.Rests l') (h' : l'.Rests l'') : l.Rests l'' := by
  obtain ⟨seen, rfl⟩ := h
  obtain ⟨seen', rfl⟩ := h'
  exact ⟨seen', rfl⟩

/-- More was read, and what was read before still counts. -/
structure Ledger.Learns (l l' : Ledger) : Prop where
  rests : l.Rests l'
  stats : ∀ st ∈ l.seen.stats, st ∈ l'.seen.stats
  generations : ∀ a v, (a, v) ∈ l.seen.generations → 0 < l.shared a → (a, v) ∈ l'.seen.generations

namespace Ledger.Learns

theorem refl (l : Ledger) : l.Learns l := ⟨.refl l, fun _ h => h, fun _ _ h _ => h⟩

theorem trans {l l' l'' : Ledger} (h : l.Learns l') (h' : l'.Learns l'') : l.Learns l'' := by
  obtain ⟨⟨seen, rfl⟩, stats, generations⟩ := h
  refine ⟨Rests.trans ⟨seen, rfl⟩ h'.rests, fun st mem => h'.stats st (stats st mem), ?_⟩
  intro a v mem pos
  exact h'.generations a v (generations a v mem pos) pos

theorem opts {l l' : Ledger} (h : l.Learns l') : l'.opts = l.opts := by
  obtain ⟨⟨seen, rfl⟩, -⟩ := h
  rfl

theorem covers {l l' : Ledger} {param : EntryParam} (h : l.Learns l') (held : 0 < l.shared param.ino)
    (covers : l.Covers param) : l'.Covers param := by
  obtain ⟨v, generation, known⟩ := covers.generation
  refine ⟨h.stats _ covers.attr, ?_, v, generation, h.generations _ v known held⟩
  rw [h.opts]
  exact covers.timeout

theorem sawStat (l : Ledger) (st : Stat) : l.Learns (l.sawStat st) :=
  ⟨⟨_, rfl⟩, fun _ h => List.mem_cons_of_mem _ h, fun _ _ h _ => h⟩

theorem sawGeneration (l : Ledger) (a : Addr) (memo : Option (Except VersionError Nat)) :
    l.Learns (l.sawGeneration a memo) := by
  rcases memo with _ | _ | v
  · exact ⟨⟨_, rfl⟩, fun _ h => h, fun _ _ h _ => h⟩
  · exact ⟨⟨_, rfl⟩, fun _ h => h, fun _ _ h _ => h⟩
  · exact ⟨⟨_, rfl⟩, fun _ h => h, fun _ _ h _ => List.mem_cons_of_mem _ h⟩

end Ledger.Learns

/-- The reply is owed, and no reference was taken for it. -/
structure Ledger.Idle (l : Ledger) : Prop where
  owed : l.owed = true
  refs : l.refs = 0

/-- At most the reply has been made; whether the request is gone tells. -/
def Settled (l : Ledger) (s : FuseRequest) (l' : Ledger) : Prop :=
  ∃ owed, s.req = (if owed then some l.req else none) ∧ Ledger.Rests { l with owed := owed } l'

theorem settled_same (idle : l.Idle) : Settled l { req := some l.req } l :=
  ⟨true, rfl, l.seen, by rw [← idle.owed]⟩

/-- The handler ends with what it held at first, less the duty to reply if it replied. -/
def Settles (l : Ledger) (m : Io FuseRequest α) : Prop :=
  Routine.Follows accounts m { req := some l.req } l fun _ => Settled l

theorem Steady.settles {m : Io FuseRequest α} (idle : l.Idle) (h : Steady l m) : Settles l m := by
  refine (h { req := some l.req }).mono fun r s' l' same => ?_
  obtain ⟨rfl, rfl⟩ := same
  exact settled_same idle

/-- The reply carries no attributes. -/
def Reply.plain : Reply → Bool
  | .entry _ | .create _ _ | .attr _ _ | .buf (.dirs true _) => false
  | _ => true

theorem Reply.params_of_plain {reply : Reply} (h : reply.plain = true) : reply.params = [] := by
  unfold params
  split
  · cases h
  · cases h
  · cases h
  · rfl

theorem Ledger.Idle.mayReply {reply : Reply} (idle : l.Idle) (plain : reply.plain = true)
    (handle : reply.handle l.req = none) : l.MayReply l.req reply := by
  have params := Reply.params_of_plain plain
  have entries : reply.entries = [] := by rw [Reply.entries_eq, params, List.map_nil]
  constructor
  · rfl
  · exact idle.owed
  · simp [entries, idle.refs]
  · simp [entries]
  · simp [entries]
  · simp [handle]
  · simp [params]
  · rintro st timeout rfl
    cases plain

theorem Ledger.sent_eq {reply : Reply} (handle : reply.handle req = none) :
    l.sent req reply = { l with refs := 0 } := by
  have fds : (l.fds - fun fd => if reply.handle req = some fd then 1 else 0) = l.fds := by
    funext fd
    simp [handle]
  simp only [Ledger.sent, fds]

theorem Ledger.Idle.after_reply {reply : Reply} (idle : l.Idle)
    (handle : reply.handle l.req = none) (rc : Option Errno) :
    l.after (.fuseReply l.req reply) rc = { l with owed := false } := by
  cases rc with
  | none =>
      simp only [Ledger.after]
      rw [Ledger.sent_eq handle, ← idle.refs]
  | some e => rfl

namespace Settles

theorem bind {m : Io FuseRequest α} {f : α → Io FuseRequest β} (idle : l.Idle)
    (first : Steady l m) (rest : ∀ a, Settles l (f a)) : Settles l (m >>= f) := by
  unfold Settles
  rw [Routine.follows_bind]
  refine (first { req := some l.req }).mono fun r s' l' same => ?_
  obtain ⟨rfl, rfl⟩ := same
  cases r with
  | ok a => exact rest a
  | error e => exact settled_same idle

theorem send {what : String} {reply : Reply} (idle : l.Idle) (plain : reply.plain = true)
    (handle : reply.handle l.req = none)
    (mayUse : ∀ fd ∈ (Call.fuseReply l.req reply).refused, l.MayUse fd) :
    Settles l (FuseRequest.send P what reply) := by
  unfold Settles
  rw [FuseRequest.follows_send_some]
  refine ⟨.use mayUse rfl rfl (idle.mayReply plain handle), fun rc _ => ?_⟩
  have after : accounts.after l (.fuseReply l.req reply) rc = { l with owed := false } :=
    idle.after_reply handle rc
  rw [after]
  exact ⟨false, rfl, .refl _⟩

end Settles

/-! What the routines of the cache and of the descriptors do to a ledger. -/

namespace Ledger

def gain (l : Ledger) (fd : Fd) : Ledger := { l with fds := l.fds + Pi.single fd 1 }

def hold (l : Ledger) (a : Addr) : Ledger := { l with shared := l.shared + Pi.single a 1 }

def refer (l : Ledger) (a : Addr) : Ledger := { l with refs := l.refs + Pi.single a 1 }

theorem gain_pos (l : Ledger) (fd : Fd) : 0 < (l.gain fd).fds fd := by simp [gain]

theorem hold_pos (l : Ledger) (a : Addr) : 0 < (l.hold a).shared a := by simp [hold]

@[simp] theorem gain_drop (l : Ledger) (fd : Fd) :
    { l.gain fd with fds := (l.gain fd).fds - Pi.single fd 1 } = l := by
  simp [gain]

theorem gain_sub {reply : Reply} {fd : Fd} (handle : reply.handle req = some fd) :
    ((l.gain fd).fds - fun fd' => if reply.handle req = some fd' then 1 else 0) = l.fds := by
  funext fd'
  simp only [gain, handle, Option.some.injEq, Pi.sub_apply, Pi.add_apply, Pi.single_apply]
  rw [if_congr (eq_comm (a := fd) (b := fd')) rfl rfl, Nat.add_sub_cancel]

theorem sent_gain {reply : Reply} {fd : Fd} (handle : reply.handle req = some fd) :
    (l.gain fd).sent req reply = { l with refs := 0 } := by
  simp only [sent, gain_sub handle]
  rfl

end Ledger

section Rules
open Routine (Follows)
variable {s : σ} {Q : StatusOr Unit → σ → Ledger → Prop}

theorem follows_destroyFd {fd : Fd} (q : Q (.ok ()) s l) :
    Follows accounts (FileDescriptor.destroy fd) s (l.gain fd) Q := by
  rw [follows_closeFd]
  refine ⟨.plain rfl rfl (l.gain_pos fd), fun rc _ => ?_⟩
  have after : accounts.after (l.gain fd) (.sys (.close fd true)) rc = l := l.gain_drop fd
  rw [after]
  exact q

theorem follows_destroyInode {i : Inode} (q : Q (.ok ()) s l) :
    Follows accounts i.destroy s (l.gain i.fd) Q := by
  unfold Inode.destroy
  cases i.pollHandle with
  | none => exact follows_destroyFd q
  | some ph =>
      rw [Routine.follows_bind, Routine.follows_invoke]
      exact ⟨.plain rfl rfl trivial, fun _ _ => follows_destroyFd q⟩

theorem follows_settle {u : Unrefed} (found : ∃ erased, u = .dropped erased) (q : Q (.ok ()) s l) :
    Follows accounts u.settle s { l with fds := l.fds + u.fds } Q := by
  obtain ⟨erased, rfl⟩ := found
  cases erased with
  | none => simpa [Unrefed.settle, Unrefed.fds] using q
  | some i => exact follows_destroyInode q

theorem follows_dropShared {a : Addr} (q : Q (.ok ()) s l) :
    Follows accounts (Inodes.dropShared a) s (l.hold a) Q := by
  have held := l.hold_pos a
  unfold Inodes.dropShared
  rw [Routine.follows_bind, Routine.follows_attempt, Routine.follows_bind, Routine.follows_invoke]
  refine ⟨.touch (Ledger.reaches_shared held) rfl rfl held, fun u found => ?_⟩
  have after : accounts.after (l.hold a) (.dropShared a) u = { l with fds := l.fds + u.fds } := by
    simp [accounts, Ledger.after, Ledger.hold]
  rw [after]
  exact follows_settle found q

theorem follows_cleanup {a : Addr} (held : 0 < l.shared a) (q : Q (.ok ()) s l) :
    Follows accounts (Inodes.unref .cleanup (.node a) 1) s (l.refer a) Q := by
  have referred : 1 ≤ (l.refer a).refs a := by simp [Ledger.refer]
  unfold Inodes.unref
  rw [Routine.follows_bind, Routine.follows_invoke]
  refine ⟨.touch (Ledger.reaches_shared held) rfl rfl ⟨a, rfl, Nat.one_pos, referred⟩, fun u found => ?_⟩
  have after : accounts.after (l.refer a) (.unref .cleanup (.node a) 1) u =
      { l with fds := l.fds + u.fds } := by
    simp [accounts, Ledger.after, Ledger.refer]
  rw [after]
  exact follows_settle found q

theorem follows_ref {a : Addr} {v : Nat} (held : 0 < l.shared a)
    (known : (a, v) ∈ l.seen.generations) (q : Q (.ok ()) s (l.refer a)) :
    Follows accounts (Inodes.ref (.node a) 1) s l Q := by
  unfold Inodes.ref
  rw [Routine.follows_bind, Routine.follows_invoke]
  refine ⟨.touch (Ledger.reaches_shared held) rfl rfl ⟨a, rfl, held, v, known⟩, fun rc found => ?_⟩
  cases found
  exact q

/-- What is still known after `Insert`. -/
def Ledger.insertedInto (l : Ledger) : Ledger :=
  { l with seen := { l.seen with
    devices := []
    generations := l.seen.generations.filter fun p => 0 < l.shared p.1
    unset := none } }

theorem Ledger.Learns.insertedInto (l : Ledger) : l.Learns l.insertedInto :=
  ⟨⟨_, rfl⟩, fun _ h => h, fun _ _ mem pos => List.mem_filter.mpr ⟨mem, decide_eq_true pos⟩⟩

theorem follows_insert {i : Inode} {st : Stat} {Q : StatusOr Addr → σ → Ledger → Prop}
    (unset : i.generation = none) (mem : st ∈ l.seen.stats) (key : i.key = (st.stDev, st.stIno))
    (q : ∀ a l', l.Learns l' → Q (.ok a) s (l'.hold a)) :
    Follows accounts (Inodes.insert i) s (l.gain i.fd) Q := by
  unfold Inodes.insert
  rw [Routine.follows_bind, Routine.follows_invoke]
  refine ⟨.plain rfl rfl ⟨l.gain_pos i.fd, unset, st, mem, key⟩, fun r _ => ?_⟩
  dsimp only
  rw [Routine.follows_bind]
  have next := q r.addr l.insertedInto (.insertedInto l)
  cases fresh : r.fresh with
  | true =>
      have after : accounts.after (l.gain i.fd) (.insert i) r = l.insertedInto.hold r.addr := by
        simp [accounts, Ledger.after, Ledger.gain, Ledger.hold, Ledger.insertedInto, fresh]
      rw [after]
      exact next
  | false =>
      -- the duplicate closes its own descriptor
      have after : accounts.after (l.gain i.fd) (.insert i) r =
          (l.insertedInto.hold r.addr).gain i.fd := by
        simp [accounts, Ledger.after, Ledger.gain, Ledger.hold, Ledger.insertedInto, fresh]
      rw [after]
      exact follows_destroyInode next

end Rules

end Pafs
