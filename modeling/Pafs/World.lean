import Pafs.Resumption.Pool
import Pafs.InodeCache
import Pafs.Dispatch

/-! The mounted daemon as a machine: the inode cache and the descriptor table that its
threads share, and the kernel that sends requests, counts the entries it receives and
forgets them. Every call of a thread is one step. -/
namespace Pafs
open Resumption

/-- Who has to close a descriptor. -/
inductive Owner where
  | root
  | inode (a : Addr)
  | thread
  /-- lent to libfuse: the `fh` of an open file, or a pipe of its own -/
  | handle
  | stream (d : DirPtr)
  | leaked
  deriving DecidableEq

/-- An entry that the kernel has received, with the file its inode stood for. -/
structure Given where
  ino : Addr
  generation : Option Nat
  key : Key
  deriving DecidableEq

structure World where
  root : Inode
  inodes : InodeCache
  fds : Fd → Option Owner
  streams : DirPtr → Option Fd
  directories : Addr → Option DirPtr
  /-- requests that no reply call has been made for -/
  pending : FuseReq → Option Request
  /-- the kernel's lookup counts, less the forgets it has sent -/
  nlookup : Addr → Nat
  /-- lookup counts in forgets that were sent and not yet applied -/
  forgetting : Addr → Nat
  /-- entries of received listings that the kernel does not count -/
  uncounted : Addr → Nat
  /-- live `shared_ptr`s made by `Insert` -/
  shared : Addr → Nat
  /-- `WriteBuf` callbacks that have not returned -/
  writers : Addr → Nat
  /-- callbacks that have not returned -/
  running : Nat
  given : List Given

namespace Request

/-- The ids a request names; the kernel keeps them until the request is answered. A forget
is not among them: it gives counts back. -/
def names : Request → List Addr
  | .lookup ino _ | .getattr ino _ | .setattr ino _ _ _ | .readlink ino | .mknod ino _ _ _
  | .mkdir ino _ _ | .unlink ino _ | .rmdir ino _ | .symlink _ ino _ | .open_ ino _
  | .read ino _ _ _ | .write ino _ _ _ | .flush ino _ | .release ino _ | .fsync ino _ _
  | .opendir ino _ | .readdir ino _ _ _ | .releasedir ino _ | .fsyncdir ino _ _ | .statfs ino
  | .setxattr ino _ _ _ | .getxattr ino _ _ | .listxattr ino _ | .removexattr ino _
  | .access ino _ | .create ino _ _ _ | .getlk ino _ _ | .setlk ino _ _ _ | .bmap ino _ _
  | .ioctl ino _ _ _ _ _ _ | .poll ino _ _ | .writeBuf ino _ _ _ | .retrieveReply _ ino _ _
  | .flock ino _ _ | .fallocate ino _ _ _ _ | .readdirplus ino _ _ _ | .lseek ino _ _ _ => [ino]
  | .rename parent _ newparent _ _ => [parent, newparent]
  | .link ino parent _ => [ino, parent]
  | .copyFileRange inoIn _ _ inoOut _ _ _ _ => [inoIn, inoOut]
  | .forget _ _ | .forgetMulti _ => []

def forgets : Request → List ForgetData
  | .forget ino nlookup => [{ ino, nlookup }]
  | .forgetMulti forgets => forgets
  | _ => []

/-- The descriptors a request lends to its handler. -/
def handles : Request → List Fd
  | .setattr _ _ _ (some fi) => if fi.fh = 0 then [] else [fi.fh]
  | .read _ _ _ (some fi) | .flush _ (some fi) | .fsync _ _ (some fi) => [fi.fh]
  | .writeBuf _ inBuf _ fi => fi.fh :: inBuf.filterMap FuseBuf.fd
  | _ => []

/-- The descriptor a request hands over for good. -/
def released : Request → Option Fd
  | .release _ (some fi) => some fi.fh
  | _ => none

def writes : Request → Option Addr
  | .writeBuf ino _ _ _ => some ino
  | _ => none

end Request

namespace Reply

/-- The entries of a reply. -/
def params : Reply → List EntryParam
  | .entry param | .create param _ => [param]
  | .buf (.dirs true records) => records.map DirRecord.param
  | _ => []

/-- The ids in the entries of a reply. -/
def entries : Reply → List Addr
  | .entry param | .create param _ => [param.ino]
  | .buf (.dirs true records) => records.map fun r => r.param.ino
  | _ => []

/-- The ids the kernel counts, given which names of a listing it counts. -/
def counted (counts : String → Bool) : Reply → List Addr
  | .entry param | .create param _ => [param.ino]
  | .buf (.dirs true records) => (records.filter fun r => counts r.name).map fun r => r.param.ino
  | _ => []

def uncounted (counts : String → Bool) : Reply → List Addr
  | .buf (.dirs true records) => (records.filter fun r => !counts r.name).map fun r => r.param.ino
  | _ => []

theorem entries_eq (reply : Reply) : reply.entries = reply.params.map EntryParam.ino := by
  unfold entries params
  split
  all_goals simp

theorem count_entries (counts : String → Bool) (reply : Reply) (a : Addr) :
    reply.entries.count a = (reply.counted counts).count a + (reply.uncounted counts).count a := by
  unfold entries counted uncounted
  split
  all_goals try simp
  next records =>
    induction records with
    | nil => rfl
    | cons r records ih =>
        cases h : counts r.name <;> simp only [List.filter_cons, h, List.map_cons, List.count_cons,
          Bool.not_true, Bool.not_false, if_true, Bool.false_eq_true, if_false] <;> omega

/-- The descriptor that becomes a file handle when the reply is sent. The `fh` of an open
directory is the address of a `Directory`. -/
def handle (req : FuseReq) : Reply → Option Fd
  | .create _ fi => some fi.fh
  | .openFile fi => if req.opcode = .opendir then none else some fi.fh
  | _ => none

end Reply

namespace World

variable {w : World} {counts : String → Bool}

def initial (root : Inode) (pipes : Fd → Bool) : World where
  root := root
  inodes := .empty
  fds := fun fd => if fd = root.fd then some .root else if pipes fd then some .handle else none
  streams := fun _ => none
  directories := fun _ => none
  pending := fun _ => none
  nlookup := 0
  forgetting := 0
  uncounted := 0
  shared := 0
  writers := 0
  running := 0
  given := []

def inodeAt (w : World) : InodeRef → Option Inode
  | .root => some w.root
  | .node a => (w.inodes.heap a).map Node.inode

/-- A read through a reference; a freed inode reads as anything. -/
def Reads {α : Type} (w : World) (r : InodeRef) (f : Inode → α) (v : α) : Prop :=
  match w.inodeAt r with
  | some i => v = f i
  | none => True

/-- A write to a member of an inode other than its descriptor, number and device. -/
def write (w : World) (r : InodeRef) (f : Inode → Inode) (keeps : ∀ i, (f i).key = i.key) : World :=
  match r with
  | .root => { w with root := f w.root }
  | .node a => { w with inodes := w.inodes.update a f keeps }

def own (w : World) (fd : Fd) (o : Option Owner) : World :=
  { w with fds := Function.update w.fds fd o }

/-- The descriptor of an erased inode belongs to the thread that erased it. -/
def takeErased (w : World) : Unrefed → World
  | .dropped (some i) => w.own i.fd (some .thread)
  | _ => w

/-- `Unref` reads the key through the reference and looks it up. -/
def unref (w : World) (r : InodeRef) (ntimes : Nat) (answer : Unrefed) : World :=
  match w.inodeAt r with
  | some i => { w with inodes := (w.inodes.unref i.key ntimes).2 }.takeErased answer
  | none => w

def Unrefs (w : World) (r : InodeRef) (ntimes : Nat) (answer : Unrefed) : Prop :=
  w.Reads r (fun i => (w.inodes.unref i.key ntimes).1) answer

/-- The kernel receives a reply. -/
def receive (w : World) (counts : String → Bool) (req : FuseReq) (reply : Reply) : World :=
  let w := { w with
    nlookup := w.nlookup + fun a => (reply.counted counts).count a
    uncounted := w.uncounted + fun a => (reply.uncounted counts).count a
    given := w.given ++ reply.params.filterMap fun p =>
      (w.inodes.view p.ino).map fun e => ⟨p.ino, p.generation, e.key⟩ }
  match reply.handle req with
  | some fd => w.own fd (some .handle)
  | none => w

/-- What a call that was answered with `r` does to the world. -/
def effect (counts : String → Bool) (w : World) : (c : Call) → c.Ret → World
  | .sys (.open_ _ _), .ok fd | .sys (.openat _ _ _ _), .ok fd | .sys (.dup _), .ok fd =>
      w.own fd (some .thread)
  -- close(2) frees the descriptor even when it fails
  | .sys (.close fd _), _ => w.own fd none
  | .sys (.fdopendir fd), .ok d =>
      { w.own fd (some (.stream d)) with streams := Function.update w.streams d (some fd) }
  | .sys (.fdopendir fd), .error _ => w.own fd (some .leaked)
  | .sys (.closedir d), _ =>
      match w.streams d with
      | some fd => { w.own fd none with streams := Function.update w.streams d none }
      | none => w
  | .newDirectory d, a => { w with directories := Function.update w.directories a (some d) }
  | .deleteDirectory a, _ => { w with directories := Function.update w.directories a none }
  | .setGeneration r v, _ => w.write r (fun i => { i with generation := some v }) fun _ => rfl
  | .addPollHandle r ph, _ => w.write r (fun i => { i with pollHandle := some ph }) fun _ => rfl
  | .insert i, r =>
      match w.inodes.insert i r.addr with
      | some (inodes, _) =>
          let w := { w with inodes, shared := w.shared + Pi.single r.addr 1 }
          if r.fresh then w.own i.fd (some (.inode r.addr)) else w
      | none => w
  | .ref r ntimes, _ =>
      match w.inodeAt r with
      | some i =>
          match w.inodes.ref i.key ntimes with
          | some inodes => { w with inodes }
          | none => w
      | none => w
  | .unref .cleanup r ntimes, answer => w.unref r ntimes answer
  | .unref .forget r ntimes, answer =>
      match r with
      | .root => w.unref .root ntimes answer
      | .node a =>
          { w.unref (.node a) ntimes answer with
            forgetting := w.forgetting - Pi.single a ntimes }
  | .dropShared a, answer =>
      { w.unref (.node a) 1 answer with shared := w.shared - Pi.single a 1 }
  | .fuseReply req reply, rc =>
      -- libfuse consumes the request whether or not the reply could be sent
      let w := { w with pending := Function.update w.pending req none }
      match rc with
      | none => w.receive counts req reply
      | some _ => w
  | _, _ => w

/-- The answers a call may get. System calls that do not make a descriptor may return
anything. -/
def Answers (w : World) : (c : Call) → c.Ret → Prop
  | .sys (.open_ _ _), .ok fd | .sys (.openat _ _ _ _), .ok fd | .sys (.dup _), .ok fd =>
      w.fds fd = none
  | .sys (.fdopendir _), .ok d => w.streams d = none
  | .sys (.dirfd d), .ok fd => ∀ fd', w.streams d = some fd' → fd = fd'
  | .newDirectory _, a => w.directories a = none
  | .derefDirectory a, d | .deleteDirectory a, d => ∀ d', w.directories a = some d' → d = d'
  | .getFD r, fd => w.Reads r Inode.fd fd
  | .getSourceDevice r, dev => w.Reads r Inode.srcDevNum dev
  | .getGeneration r, v => w.Reads r Inode.generation v
  | .addPollHandle r _, ph | .pollHandle r, ph => w.Reads r Inode.pollHandle ph
  | .insert i, r => ∃ inodes, w.inodes.insert i r.addr = some (inodes, r)
  | .ref r ntimes, rc =>
      w.Reads r (fun i => if (w.inodes.ref i.key ntimes).isSome then none else some i.key) rc
  | .unref _ r ntimes, answer => w.Unrefs r ntimes answer
  | .dropShared a, answer => w.Unrefs (.node a) 1 answer
  | _, _ => True

/-- The kernel sends a forget. -/
def forget (w : World) (d : ForgetData) : World :=
  { w with
    nlookup := w.nlookup - Pi.single d.ino d.nlookup
    forgetting := w.forgetting + Pi.single d.ino d.nlookup }

/-- It never forgets the root or more than it counted, and keeps one count of an id that an
unanswered request names. -/
def MayForget (w : World) (d : ForgetData) : Prop :=
  d.ino ≠ FUSE_ROOT_ID ∧ 0 < d.nlookup ∧ d.nlookup ≤ w.nlookup d.ino ∧
    ∀ req r, w.pending req = some r → d.ino ∈ r.names → d.nlookup < w.nlookup d.ino

def MayForgetAll : World → List ForgetData → Prop
  | _, [] => True
  | w, d :: ds => w.MayForget d ∧ (w.forget d).MayForgetAll ds

/-- A request the kernel may send: it names ids it holds and file handles it was given, and
releases a handle only when no other request uses it. -/
structure MaySend (w : World) (req : FuseReq) (r : Request) : Prop where
  fresh : w.pending req = none
  opcode : req.opcode = r.opcode
  names : ∀ a ∈ r.names, a = FUSE_ROOT_ID ∨ 0 < w.nlookup a
  handles : ∀ fd ∈ r.handles, w.fds fd = some .handle
  released : ∀ fd, r.released = some fd → w.fds fd = some .handle ∧
    ∀ req' r', w.pending req' = some r' → fd ∉ r'.handles
  forgets : w.MayForgetAll r.forgets

def arrive (w : World) (req : FuseReq) (r : Request) : World :=
  let w := r.forgets.foldl forget w
  let w := { w with
    pending := Function.update w.pending req (some r)
    writers := w.writers + fun a => if r.writes = some a then 1 else 0
    running := w.running + 1 }
  match r.released with
  | some fd => w.own fd (some .thread)
  | none => w

def depart (w : World) (r : Request) : World :=
  { w with
    writers := w.writers - fun a => if r.writes = some a then 1 else 0
    running := w.running - 1 }

/-- What only requests and replies change. -/
structure Frame (w w' : World) : Prop where
  device : w'.root.srcDevNum = w.root.srcDevNum
  pending : w'.pending = w.pending
  nlookup : w'.nlookup = w.nlookup
  uncounted : w'.uncounted = w.uncounted
  writers : w'.writers = w.writers
  running : w'.running = w.running
  given : w'.given = w.given

theorem Frame.refl (w : World) : w.Frame w := ⟨rfl, rfl, rfl, rfl, rfl, rfl, rfl⟩

theorem frame_write {r : InodeRef} {f : Inode → Inode} {keeps : ∀ i, (f i).key = i.key} :
    w.Frame (w.write r f keeps) := by
  cases r with
  | root => exact ⟨congrArg Prod.fst (keeps w.root), rfl, rfl, rfl, rfl, rfl, rfl⟩
  | node a => exact ⟨rfl, rfl, rfl, rfl, rfl, rfl, rfl⟩

theorem frame_unref {r : InodeRef} {n : Nat} {answer : Unrefed} : w.Frame (w.unref r n answer) := by
  unfold unref
  split
  · unfold takeErased
    split <;> exact ⟨rfl, rfl, rfl, rfl, rfl, rfl, rfl⟩
  · exact .refl w

theorem frame_effect (counts : String → Bool) (c : Call) (r : c.Ret) (other : ∀ req reply, c ≠ .fuseReply req reply) :
    w.Frame (w.effect counts c r) := by
  cases c with
  | sys s =>
      cases s
      case open_ | openat | dup | fdopendir => cases r <;> exact ⟨rfl, rfl, rfl, rfl, rfl, rfl, rfl⟩
      case closedir d =>
          unfold effect
          dsimp only
          split <;> exact ⟨rfl, rfl, rfl, rfl, rfl, rfl, rfl⟩
      all_goals exact ⟨rfl, rfl, rfl, rfl, rfl, rfl, rfl⟩
  | setGeneration ref v => exact frame_write (f := fun i => { i with generation := some v })
  | addPollHandle ref ph => exact frame_write (f := fun i => { i with pollHandle := some ph })
  | insert i =>
      unfold effect
      dsimp only
      split
      · split <;> exact ⟨rfl, rfl, rfl, rfl, rfl, rfl, rfl⟩
      · exact .refl w
  | ref ref n =>
      unfold effect
      dsimp only
      split
      · split <;> exact ⟨rfl, rfl, rfl, rfl, rfl, rfl, rfl⟩
      · exact .refl w
  | unref site ref n =>
      cases site with
      | cleanup => exact frame_unref
      | forget =>
          cases ref with
          | root => exact frame_unref (r := .root)
          | node a =>
              have frame : w.Frame (w.unref (.node a) n r) := frame_unref
              exact ⟨frame.device, frame.pending, frame.nlookup, frame.uncounted, frame.writers,
                frame.running, frame.given⟩
  | dropShared a =>
      have frame : w.Frame (w.unref (.node a) 1 r) := frame_unref
      exact ⟨frame.device, frame.pending, frame.nlookup, frame.uncounted, frame.writers, frame.running,
        frame.given⟩
  | fuseReply req reply => exact absurd rfl (other req reply)
  | abort site => exact nomatch r
  | _ => exact ⟨rfl, rfl, rfl, rfl, rfl, rfl, rfl⟩

/-- What no call changes. -/
structure Still (w w' : World) : Prop where
  device : w'.root.srcDevNum = w.root.srcDevNum
  writers : w'.writers = w.writers
  running : w'.running = w.running

theorem still_effect (w : World) (counts : String → Bool) (c : Call) (r : c.Ret) :
    w.Still (w.effect counts c r) := by
  by_cases replies : ∃ req reply, c = .fuseReply req reply
  · obtain ⟨req, reply, rfl⟩ := replies
    cases r with
    | some e => exact ⟨rfl, rfl, rfl⟩
    | none =>
        simp only [effect, receive]
        split <;> exact ⟨rfl, rfl, rfl⟩
  · have frame := frame_effect (w := w) counts c r fun req reply same => replies ⟨req, reply, same⟩
    exact ⟨frame.device, frame.writers, frame.running⟩

theorem view_write {r : InodeRef} {f : Inode → Inode} {keeps : ∀ i, (f i).key = i.key}
    (fd : ∀ i, (f i).fd = i.fd) : (w.write r f keeps).inodes.view = w.inodes.view := by
  cases r with
  | root => rfl
  | node a => exact InodeCache.update_view keeps fd

/-- What a call may have written to the inode that it left at an address. -/
def Wrote (c : Call) (a : Addr) (i i' : Inode) : Prop :=
  i' = i ∨ (∃ v, c = .setGeneration (.node a) v ∧ i' = { i with generation := some v }) ∨
    ∃ ph, c = .addPollHandle (.node a) ph ∧ i' = { i with pollHandle := some ph }

theorem inode_of_unref {r : InodeRef} {n : Nat} {answer : Unrefed} {a : Addr} {n' : Node}
    (h : (w.unref r n answer).inodes.heap a = some n') :
    ∃ m, w.inodes.heap a = some m ∧ n'.inode = m.inode := by
  unfold unref at h
  split at h
  · next i _ =>
      refine (InodeCache.retains_unref : w.inodes.Retains (w.inodes.unref i.key n).2) a n' ?_
      unfold takeErased at h
      split at h
      · exact h
      · exact h
  · exact ⟨n', h, rfl⟩

theorem inode_of_write {r : InodeRef} {f : Inode → Inode} {keeps : ∀ i, (f i).key = i.key} {a : Addr}
    {n' : Node} (h : (w.write r f keeps).inodes.heap a = some n') :
    ∃ m, w.inodes.heap a = some m ∧ (n'.inode = m.inode ∨ r = .node a ∧ n'.inode = f m.inode) := by
  cases r with
  | root => exact ⟨n', h, .inl rfl⟩
  | node b =>
      change (w.inodes.update b f keeps).heap a = some n' at h
      rw [InodeCache.update_heap, Function.update_apply] at h
      split at h
      · next here =>
          subst here
          obtain ⟨m, heap, rfl⟩ := Option.map_eq_some_iff.mp h
          exact ⟨m, heap, .inr ⟨rfl, rfl⟩⟩
      · exact ⟨n', h, .inl rfl⟩

/-- An inode that is in the cache after a call was there before, or is the one inserted. -/
theorem inode_of_effect (counts : String → Bool) (c : Call) (r : c.Ret) {a : Addr} {n' : Node}
    (h : (w.effect counts c r).inodes.heap a = some n') :
    (∃ n, w.inodes.heap a = some n ∧ Wrote c a n.inode n'.inode) ∨
      (w.inodes.heap a = none ∧ ∃ i, c = .insert i ∧ n'.inode = i) := by
  have unchanged : (w.effect counts c r).inodes = w.inodes → (∃ n, w.inodes.heap a = some n ∧
      Wrote c a n.inode n'.inode) ∨ (w.inodes.heap a = none ∧ ∃ i, c = .insert i ∧ n'.inode = i) := by
    intro same
    rw [same] at h
    exact .inl ⟨n', h, .inl rfl⟩
  cases c with
  | sys s =>
      cases s
      case open_ | openat | dup | fdopendir => cases r <;> exact unchanged rfl
      case closedir d =>
          apply unchanged
          unfold effect
          dsimp only
          split <;> rfl
      all_goals exact unchanged rfl
  | setGeneration ref v =>
      obtain ⟨n, heap, same | ⟨rfl, wrote⟩⟩ := inode_of_write h
      · exact .inl ⟨n, heap, .inl same⟩
      · exact .inl ⟨n, heap, .inr (.inl ⟨v, rfl, wrote⟩)⟩
  | addPollHandle ref ph =>
      obtain ⟨n, heap, same | ⟨rfl, wrote⟩⟩ := inode_of_write h
      · exact .inl ⟨n, heap, .inl same⟩
      · exact .inl ⟨n, heap, .inr (.inr ⟨ph, rfl, wrote⟩)⟩
  | insert i =>
      unfold effect at h
      dsimp only at h
      split at h
      · next inodes inserted found =>
          have heap : inodes.heap a = some n' := by
            split at h
            · exact h
            · exact h
          obtain ⟨n, old, same⟩ | ⟨free, -, new⟩ := InodeCache.inode_of_insert found heap
          · exact .inl ⟨n, old, .inl same⟩
          · exact .inr ⟨free, i, rfl, new⟩
      · exact .inl ⟨n', h, .inl rfl⟩
  | ref ref k =>
      unfold effect at h
      dsimp only at h
      split at h
      · split at h
        · next inodes found =>
            obtain ⟨n, heap, same⟩ := InodeCache.retains_ref found a n' h
            exact .inl ⟨n, heap, .inl same⟩
        · exact .inl ⟨n', h, .inl rfl⟩
      · exact .inl ⟨n', h, .inl rfl⟩
  | unref site ref k =>
      have old : ∃ m, w.inodes.heap a = some m ∧ n'.inode = m.inode := by
        cases site with
        | cleanup => exact inode_of_unref h
        | forget =>
            cases ref with
            | root => exact inode_of_unref (r := .root) h
            | node b => exact inode_of_unref (r := .node b) h
      obtain ⟨n, heap, same⟩ := old
      exact .inl ⟨n, heap, .inl same⟩
  | dropShared b =>
      obtain ⟨n, heap, same⟩ := inode_of_unref (r := .node b) h
      exact .inl ⟨n, heap, .inl same⟩
  | fuseReply req reply =>
      apply unchanged
      cases r with
      | some e => rfl
      | none =>
          simp only [effect, receive]
          split <;> rfl
  | abort site => exact nomatch r
  | _ => exact unchanged rfl

/-- Forgets change the lookup counts only. -/
theorem foldl_forget (ds : List ForgetData) : ∃ nlookup forgetting, (∀ a, nlookup a ≤ w.nlookup a) ∧
    ds.foldl forget w = { w with nlookup := nlookup, forgetting := forgetting } := by
  induction ds generalizing w with
  | nil => exact ⟨w.nlookup, w.forgetting, fun _ => le_refl _, rfl⟩
  | cons d ds ih =>
      obtain ⟨nlookup, forgetting, le, effect⟩ := ih (w := w.forget d)
      refine ⟨nlookup, forgetting, fun a => (le a).trans (Nat.sub_le _ _), ?_⟩
      rw [List.foldl_cons, effect]
      rfl

theorem arrive_cases (w : World) (req : FuseReq) (r : Request) : ∃ nlookup forgetting fds,
    (∀ a, nlookup a ≤ w.nlookup a) ∧ w.arrive req r = { w with
      nlookup := nlookup
      forgetting := forgetting
      pending := Function.update w.pending req (some r)
      writers := w.writers + fun a => if r.writes = some a then 1 else 0
      running := w.running + 1
      fds := fds } := by
  obtain ⟨nlookup, forgetting, le, effect⟩ := foldl_forget (w := w) r.forgets
  unfold arrive
  rw [effect]
  cases r.released with
  | none => exact ⟨nlookup, forgetting, w.fds, le, rfl⟩
  | some fd => exact ⟨nlookup, forgetting, _, le, rfl⟩

theorem fds_arrive (w : World) (req : FuseReq) (r : Request) :
    (w.arrive req r).fds = r.released.elim w.fds fun fd => Function.update w.fds fd (some .thread) := by
  obtain ⟨nlookup, forgetting, -, effect⟩ := foldl_forget (w := w) r.forgets
  unfold arrive
  rw [effect]
  cases r.released with
  | none => rfl
  | some fd => rfl

end World

/-- The daemon and the kernel. A thread is a callback that libfuse has started for a
request; `counts` says which names of a listing the kernel counts. -/
def daemon (fs : PageAlignFS) (counts : String → Bool) :
    Machine calls World (FuseReq × Request) (Status × FuseRequest) where
  starts w tag p w' := w.MaySend tag.1 tag.2 ∧ w' = w.arrive tag.1 tag.2 ∧
    ∃ handler, fs.serve tag.1 tag.2 = some handler ∧ p = handler { req := none }
  perform w c r w' := w.Answers c r ∧ w' = w.effect counts c r
  leave w tag := w.depart tag.2

abbrev Daemon := Config calls World (FuseReq × Request) (Status × FuseRequest)

/-- The world after a list of answered calls. -/
def World.play (w : World) (counts : String → Bool) (t : List (Event calls)) : World :=
  t.foldl (fun w e => w.effect counts e.1 e.2) w

/-- Every answer in the list is one the world may give. -/
def World.Plays (counts : String → Bool) : World → List (Event calls) → Prop
  | _, [] => True
  | w, e :: t => w.Answers e.1 e.2 ∧ (w.effect counts e.1 e.2).Plays counts t

theorem World.Plays.performs {fs : PageAlignFS} {counts : String → Bool} {w : World}
    {t : List (Event calls)} (h : w.Plays counts t) :
    (daemon fs counts).Performs w t (w.play counts t) := by
  induction t generalizing w with
  | nil => rfl
  | cons e t ih => exact ⟨_, ⟨h.1, rfl⟩, ih h.2⟩

/-- libfuse: "." and ".." of a listing with attributes are not counted. -/
def countsName (name : String) : Bool := name != "." && name != ".."

end Pafs
