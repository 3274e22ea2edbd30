import Pafs.Generations
import Pafs.Growth
import Pafs.Portraits

/-! One request handled alone. A `Stage` is the world together with what the backing file
system does meanwhile: what every directory stream will deliver and which file a new
descriptor stands for. -/
namespace Pafs
open Resumption

/-- What is known of the backing file system while a request is handled. -/
structure Backing where
  /-- what a directory stream delivers after `seekdir` -/
  following : DirPtr → Int → Option (List Dirent)
  /-- the file that a name in the directory denotes -/
  key : String → Option Key
  /-- calls may fail, other than those that fetch the version of a known file -/
  fails : Prop
  /-- whether the version of a file can be fetched -/
  version : Key → Option Bool

namespace Backing

/-- The version of a file may have been fetched. -/
def Gives (B : Backing) (k : Key) : Prop := (∀ name, B.key name ≠ none) → B.version k ≠ some false

/-- Fetching the version of a file may have failed. -/
def Withholds (B : Backing) (k : Key) : Prop := B.fails ∨ B.version k ≠ some true

/-- How the memo of a file can have come about. -/
def Explains (B : Backing) (k : Key) : Memo → Prop
  | none => True
  | some (.ok _) => B.Gives k
  | some (.error _) => B.Withholds k

/-- Nothing is known. -/
def unknown : Backing := ⟨fun _ _ => none, fun _ => none, True, fun _ => none⟩

end Backing


structure Stage where
  world : World
  trail : Trail
  rest : DirPtr → Option (List Dirent)

namespace Stage

def start (w : World) : Stage := ⟨w, .start, fun _ => none⟩

variable (B : Backing) (counts : String → Bool) (st : Stage)

/-- What the streams deliver after a call. -/
def restAfter : (c : Call) → c.Ret → DirPtr → Option (List Dirent)
  | .seekdir d off, _ => Function.update st.rest d (B.following d off)
  | .sys (.readdir d), .ok _ => Function.update st.rest d ((st.rest d).map List.tail)
  | _, _ => st.rest

def after (c : Call) (r : c.Ret) : Stage :=
  ⟨st.world.effect counts c r, st.trail.note c r, st.restAfter B c r⟩

/-- The file behind a descriptor opened since. -/
def file (fd : Fd) : Option Key := (st.trail.name fd).bind B.key

/-- The stage after `fstatat`. -/
def saw (fd : Fd) (s : Stat) : Stage :=
  { st with trail := { st.trail with stat := Function.update st.trail.stat fd (some (s.stDev, s.stIno)) } }

/-- The version of the file behind a descriptor may turn out to be missing. -/
def MayLack (fd : Fd) : Prop :=
  match st.file B fd with
  | some k => B.version k ≠ some true
  | none => B.fails

theorem MayLack.of_file {B : Backing} {st st' : Stage} {fd fd' : Fd} (file : st'.file B fd' = st.file B fd)
    (h : st'.MayLack B fd') : st.MayLack B fd := by
  unfold MayLack at h ⊢
  rw [← file]
  exact h

/-- The answers that the backing file system and the kernel may give. -/
def Admits : (c : Call) → c.Ret → Prop
  | .sys (.readdir d), .ok entry => ∀ es, st.rest d = some es → entry = es.head?
  | .sys (.fstatat fd _ _), .ok s => ∀ k, st.file B fd = some k → (s.stDev, s.stIno) = k
  | .sys (.ioctl fd _), .ok _ => ∀ k, st.file B fd = some k → B.version k ≠ some false
  | .sys (.open_ (.procSelfFd fd) _), .error _ | .sys (.ioctl fd _), .error _ => st.MayLack B fd
  | .sys (.close _ _), _ => True
  | .sys _, .error _ => B.fails
  | .fuseReply _ _, some _ => B.fails
  | _, _ => True

end Stage

def Call.isAbort : Call → Bool
  | .abort _ => true
  | _ => false

/-- A program runs and nothing else does; no `CHECK` fails. -/
def alone (B : Backing) (counts : String → Bool) : Discipline calls Stage where
  allows _ c := c.isAbort = false
  answers st c r := st.world.Answers c r ∧ st.Admits B c r
  after st c r := st.after B counts c r

/-- The references that the program has added to the cache `c`, and what it knows of the
inodes that are new. -/
structure Tracks (B : Backing) (c : InodeCache) (d : Key → Nat) (st : Stage) : Prop where
  grown : Grown c st.world.inodes d
  isOpen : ∀ a n, st.world.inodes.heap a = some n → st.world.fds n.inode.fd ≠ none
  apart : ∀ a b n m, st.world.inodes.heap a = some n → st.world.inodes.heap b = some m →
    n.inode.fd = m.inode.fd → a = b
  files : ∀ a n, st.world.inodes.heap a = some n → c.heap a = none →
    ∃ name, st.trail.name n.inode.fd = some name ∧ ∀ k, B.key name = some k → n.inode.key = k
  memos : ∀ a n, st.world.inodes.heap a = some n → c.heap a = none →
    B.Explains n.inode.key n.inode.generation

/-- What a routine leaves alone: the streams, the replies, the device of the root, and the
inodes for which there were references before. -/
structure Passes (d : Key → Nat) (st st' : Stage) : Prop where
  rest : st'.rest = st.rest
  sent : st'.trail.sent = st.trail.sent
  device : st'.world.root.srcDevNum = st.world.root.srcDevNum
  held : ∀ a k, st.world.keyAt a = some k → 0 < d k → st'.world.keyAt a = some k

namespace Passes

variable {d : Key → Nat} {st st₁ st₂ : Stage}

theorem refl (d : Key → Nat) (st : Stage) : Passes d st st := ⟨rfl, rfl, rfl, fun _ _ h _ => h⟩

theorem trans (h : Passes d st st₁) (h' : Passes d st₁ st₂) : Passes d st st₂ :=
  ⟨h'.rest.trans h.rest, h'.sent.trans h.sent, h'.device.trans h.device,
    fun a k key pos => h'.held a k (h.held a k key pos) pos⟩

theorem mono {d' : Key → Nat} (h : Passes d' st st₁) (le : ∀ k, d k ≤ d' k) : Passes d st st₁ :=
  ⟨h.rest, h.sent, h.device, fun a k key pos => h.held a k key (pos.trans_le (le k))⟩

end Passes

/-- The cache between requests: every entry counts a reference and has its memo set. -/
structure AtRest (c : InodeCache) : Prop where
  live : ∀ a n, c.heap a = some n → 0 < n.refcnt
  memos : ∀ a n, c.heap a = some n → n.inode.generation ≠ none

/-- An open descriptor that no inode in the cache has. -/
structure Unused (w : World) (fd : Fd) : Prop where
  isOpen : w.fds fd ≠ none
  apart : ∀ a n, w.inodes.heap a = some n → n.inode.fd ≠ fd

section Steps
variable {B : Backing} {counts : String → Bool} {c : InodeCache} {d : Key → Nat} {st st' : Stage} {a : Addr}
  {n : Node} {k : Key} {fd : Fd}

theorem World.keyAt_iff {w : World} : w.keyAt a = some k ↔ ∃ n, w.inodes.heap a = some n ∧ n.inode.key = k :=
  ⟨heap_of_keyAt, fun ⟨_, heap, key⟩ => key ▸ keyAt_of_heap heap⟩

theorem Stage.device_after {call : Call} {r : call.Ret} (other : ∀ req reply, call ≠ .fuseReply req reply) :
    (st.after B counts call r).world.root.srcDevNum = st.world.root.srcDevNum :=
  (World.frame_effect counts call r other).device

/-- Descriptors that were open are open still, and nothing else matters. -/
theorem Tracks.kept (h : Tracks B c d st) (inodes : st'.world.inodes = st.world.inodes)
    (fds : ∀ fd, st.world.fds fd ≠ none → st'.world.fds fd ≠ none)
    (names : st'.trail.name = st.trail.name) : Tracks B c d st' := by
  constructor
  · rw [inodes]
    exact h.grown
  · rw [inodes]
    exact fun a n heap => fds _ (h.isOpen a n heap)
  · rw [inodes]
    exact h.apart
  · rw [inodes, names]
    exact h.files
  · rw [inodes]
    exact h.memos

theorem Tracks.congr (h : Tracks B c d st) (inodes : st'.world.inodes = st.world.inodes)
    (fds : st'.world.fds = st.world.fds) (names : st'.trail.name = st.trail.name) : Tracks B c d st' :=
  h.kept inodes (fun _ was => fds ▸ was) names

theorem Passes.congr (inodes : st'.world.inodes = st.world.inodes) (rest : st'.rest = st.rest)
    (sent : st'.trail.sent = st.trail.sent) (device : st'.world.root.srcDevNum = st.world.root.srcDevNum) :
    Passes d st st' := by
  refine ⟨rest, sent, device, fun a k key _ => ?_⟩
  unfold World.keyAt at key ⊢
  rw [inodes]
  exact key

/-- A descriptor is opened. -/
theorem Tracks.opened {name : Option String} (st' : Stage) (h : Tracks B c d st) (free : st.world.fds fd = none)
    (inodes : st'.world.inodes = st.world.inodes)
    (fds : st'.world.fds = Function.update st.world.fds fd (some .thread))
    (names : st'.trail.name = Function.update st.trail.name fd name) : Tracks B c d st' ∧ Unused st'.world fd := by
  have other {a : Addr} {n : Node} (heap : st.world.inodes.heap a = some n) : n.inode.fd ≠ fd := by
    intro same
    exact h.isOpen a n heap (same ▸ free)
  constructor
  · constructor
    · rw [inodes]
      exact h.grown
    · intro a n heap
      rw [inodes] at heap
      rw [fds, Function.update_of_ne (other heap)]
      exact h.isOpen a n heap
    · rw [inodes]
      exact h.apart
    · intro a n heap new
      rw [inodes] at heap
      rw [names, Function.update_of_ne (other heap)]
      exact h.files a n heap new
    · rw [inodes]
      exact h.memos
  · constructor
    · rw [fds, Function.update_self]
      exact Option.some_ne_none _
    · intro a n heap
      rw [inodes] at heap
      exact other heap

/-- A descriptor that no inode has is closed. -/
theorem Tracks.closed (h : Tracks B c d st) (unused : Unused st.world fd)
    (inodes : st'.world.inodes = st.world.inodes)
    (fds : st'.world.fds = Function.update st.world.fds fd none)
    (names : st'.trail.name = st.trail.name) :
    Tracks B c d st' := by
  constructor
  · rw [inodes]
    exact h.grown
  · intro a n heap
    rw [inodes] at heap
    rw [fds, Function.update_of_ne (unused.apart a n heap)]
    exact h.isOpen a n heap
  · rw [inodes]
    exact h.apart
  · rw [inodes, names]
    exact h.files
  · rw [inodes]
    exact h.memos

theorem heap_inserted {i : Inode} {r : Inserted} {c c' : InodeCache} {alloc : Addr}
    (insert : c.insert i alloc = some (c', r)) (heap : c.heap a = some n) :
    ∃ n', c'.heap a = some n' ∧ n'.inode = n.inode := by
  obtain ⟨rfl, free, -, heap'⟩ | ⟨m, -, found, -, heap'⟩ := InodeCache.insert_cases insert
  · have other : a ≠ alloc := by
      rintro rfl
      rw [free] at heap
      cases heap
    exact ⟨n, by rw [heap', Function.update_of_ne other, heap], rfl⟩
  · by_cases same : a = r.addr
    · subst same
      rw [found] at heap
      cases heap
      exact ⟨{ n with refcnt := n.refcnt + 1 }, by rw [heap', Function.update_self], rfl⟩
    · exact ⟨n, by rw [heap', Function.update_of_ne same, heap], rfl⟩

/-- `Insert` of an inode with a descriptor of its own. -/
theorem Tracks.inserted {i : Inode} {r : Inserted} {name : String} (counts : String → Bool) (h : Tracks B c d st)
    (unused : Unused st.world i.fd) (unset : i.generation = none)
    (file : st.trail.name i.fd = some name) (stat : st.trail.stat i.fd = some i.key)
    (key : ∀ k, B.key name = some k → i.key = k) (answers : st.world.Answers (.insert i) r) :
    let st' := st.after B counts (.insert i) r
    Tracks B c (d + Pi.single i.key 1) st' ∧ Passes d st st' ∧
      st'.trail.resolved = st.trail.resolved ++ [(name, i.key)] ∧
      st'.world.keyAt r.addr = some i.key ∧ (r.fresh = false → Unused st'.world i.fd) := by
  intro st'
  obtain ⟨inodes, insert⟩ := answers
  have inodes_eq : st'.world.inodes = inodes := by
    simp only [st', Stage.after, World.effect, insert]
    split <;> rfl
  have fds_eq : st'.world.fds = if r.fresh then Function.update st.world.fds i.fd (some (.inode r.addr))
      else st.world.fds := by
    simp only [st', Stage.after, World.effect, insert]
    split <;> rfl
  have device_eq : st'.world.root.srcDevNum = st.world.root.srcDevNum :=
    Stage.device_after fun _ _ same => by cases same
  have trail_eq : st'.trail = { st.trail with resolved := st.trail.resolved ++ [(name, i.key)] } := by
    simp only [st', Stage.after, Trail.note, file, stat]
  have sent_eq : st'.trail.sent = st.trail.sent := by rw [trail_eq]
  have names_eq : st'.trail.name = st.trail.name := by rw [trail_eq]
  have resolved_eq : st'.trail.resolved = st.trail.resolved ++ [(name, i.key)] := by rw [trail_eq]
  obtain ⟨grown, n, heap_r, key_r⟩ := h.grown.inserted insert
  have isOpen {fd : Fd} (was : st.world.fds fd ≠ none) : st'.world.fds fd ≠ none := by
    rw [fds_eq]
    split
    · rw [Function.update_apply]
      split
      · exact Option.some_ne_none _
      · exact was
    · exact was
  have old {a : Addr} {n' : Node} (heap : st'.world.inodes.heap a = some n') :
      (∃ n, st.world.inodes.heap a = some n ∧ n'.inode = n.inode) ∨
        (r = { addr := a, fresh := true } ∧ n'.inode = i) := by
    rw [inodes_eq] at heap
    obtain was | ⟨-, fresh, same⟩ := InodeCache.inode_of_insert insert heap
    · exact .inl was
    · exact .inr ⟨fresh, same⟩
  refine ⟨⟨by rw [inodes_eq]; exact grown, fun a n' heap => ?_, fun a b n' m' heap heap' same => ?_,
    fun a n' heap new => ?_, fun a n' heap new => ?_⟩, ⟨rfl, sent_eq, device_eq, fun a k held _ => ?_⟩, resolved_eq, ?_,
    fun hit => ⟨?_, ?_⟩⟩
  · obtain ⟨n, was, inode⟩ | ⟨-, inode⟩ := old heap
    · rw [inode]
      exact isOpen (h.isOpen a n was)
    · rw [inode]
      exact isOpen unused.isOpen
  · obtain ⟨n, was, inode⟩ | ⟨fresh, inode⟩ := old heap
    · obtain ⟨m, was', inode'⟩ | ⟨-, inode'⟩ := old heap'
      · rw [inode, inode'] at same
        exact h.apart a b n m was was' same
      · rw [inode, inode'] at same
        exact absurd same (unused.apart a n was)
    · obtain ⟨m, was', inode'⟩ | ⟨fresh', -⟩ := old heap'
      · rw [inode, inode'] at same
        exact absurd same.symm (unused.apart b m was')
      · rw [fresh] at fresh'
        cases fresh'
        rfl
  · rw [names_eq]
    obtain ⟨n, was, inode⟩ | ⟨-, inode⟩ := old heap
    · rw [inode]
      exact h.files a n was new
    · rw [inode]
      exact ⟨name, file, key⟩
  · obtain ⟨n, was, inode⟩ | ⟨-, inode⟩ := old heap
    · rw [inode]
      exact h.memos a n was new
    · rw [inode, unset]
      trivial
  · obtain ⟨n, was, rfl⟩ := World.keyAt_iff.mp held
    obtain ⟨n', now, same⟩ := heap_inserted insert was
    exact World.keyAt_iff.mpr ⟨n', by rw [inodes_eq]; exact now, by rw [same]⟩
  · exact World.keyAt_iff.mpr ⟨n, by rw [inodes_eq]; exact heap_r, key_r⟩
  · exact isOpen unused.isOpen
  · intro a n' heap
    obtain ⟨n, was, inode⟩ | ⟨fresh, -⟩ := old heap
    · rw [inode]
      exact unused.apart a n was
    · rw [fresh] at hit
      cases hit

/-- The entry at one address is counted anew or goes. -/
theorem Tracks.recounted {d' : Key → Nat} {o : Option Node} (h : Tracks B c d st)
    (at_a : st.world.inodes.heap a = some n) (grown : Grown c st'.world.inodes d')
    (heap : st'.world.inodes.heap = Function.update st.world.inodes.heap a o)
    (same : ∀ m, o = some m → m.inode = n.inode)
    (fds : ∀ fd, st.world.fds fd ≠ none → st'.world.fds fd ≠ none)
    (names : st'.trail.name = st.trail.name) :
    Tracks B c d' st' := by
  have old {b : Addr} {m : Node} (at_b : st'.world.inodes.heap b = some m) :
      ∃ m', st.world.inodes.heap b = some m' ∧ m.inode = m'.inode := by
    rw [heap, Function.update_apply] at at_b
    split at at_b
    · next here => exact ⟨n, here ▸ at_a, same m at_b⟩
    · exact ⟨m, at_b, rfl⟩
  constructor
  · exact grown
  · intro b m at_b
    obtain ⟨m', was, inode⟩ := old at_b
    rw [inode]
    exact fds _ (h.isOpen b m' was)
  · intro b b' m m' at_b at_b' fd
    obtain ⟨m₁, was, inode⟩ := old at_b
    obtain ⟨m₂, was', inode'⟩ := old at_b'
    rw [inode, inode'] at fd
    exact h.apart b b' m₁ m₂ was was' fd
  · intro b m at_b new
    obtain ⟨m', was, inode⟩ := old at_b
    rw [names, inode]
    exact h.files b m' was new
  · intro b m at_b new
    obtain ⟨m', was, inode⟩ := old at_b
    rw [inode]
    exact h.memos b m' was new

theorem Tracks.refed {rc : Option Key} (counts : String → Bool) (h : Tracks B c d st) (at_a : st.world.inodes.heap a = some n)
    (live : 0 < n.refcnt) (answers : st.world.Answers (.ref (.node a) 1) rc) :
    let st' := st.after B counts (.ref (.node a) 1) rc
    rc = none ∧ Tracks B c (d + Pi.single n.inode.key 1) st' ∧ Passes d st st' ∧ st'.trail.resolved = st.trail.resolved ∧
      st'.world.keyAt a = some n.inode.key := by
  intro st'
  obtain ⟨inodes, ref, heap⟩ := InodeCache.ref_of_heap at_a 1
  have inode : st.world.inodeAt (.node a) = some n.inode := by simp [World.inodeAt, at_a]
  have inodes_eq : st'.world.inodes = inodes := by
    simp only [st', Stage.after, World.effect, inode, ref]
  have fds_eq : st'.world.fds = st.world.fds := by
    simp only [st', Stage.after, World.effect, inode, ref]
  have device_eq : st'.world.root.srcDevNum = st.world.root.srcDevNum :=
    Stage.device_after fun _ _ same => by cases same
  have self : st'.world.inodes.heap a = some { n with refcnt := n.refcnt + 1 } := by
    rw [inodes_eq, heap, Function.update_self]
  refine ⟨?_, ?_, ⟨rfl, rfl, device_eq, fun b k held _ => ?_⟩, rfl, World.keyAt_iff.mpr ⟨_, self, rfl⟩⟩
  · simpa [World.Answers, World.Reads, inode, ref] using answers
  · refine h.recounted at_a ?_ (by rw [inodes_eq]; exact heap) (fun m same => ?_) (fun fd => ?_) rfl
    · rw [inodes_eq]
      exact h.grown.refed at_a live heap
    · cases same
      rfl
    · rw [fds_eq]
      exact id
  · obtain ⟨m, was, rfl⟩ := World.keyAt_iff.mp held
    by_cases same : b = a
    · subst same
      rw [at_a] at was
      cases was
      exact World.keyAt_iff.mpr ⟨_, self, rfl⟩
    · exact World.keyAt_iff.mpr ⟨m, by rw [inodes_eq, heap, Function.update_of_ne same, was], rfl⟩

/-- A reference that was added is given back. -/
theorem Tracks.unrefed {answer : Unrefed} (st' : Stage) (h : Tracks B c d st) (rest : AtRest c)
    (at_a : st.world.inodes.heap a = some n) (pos : 0 < d n.inode.key)
    (answers : st.world.Unrefs (.node a) 1 answer)
    (inodes : st'.world.inodes = (st.world.unref (.node a) 1 answer).inodes)
    (fds : st'.world.fds = (st.world.unref (.node a) 1 answer).fds) (names : st'.trail.name = st.trail.name)
    (root : st'.world.root = (st.world.unref (.node a) 1 answer).root)
    (streams : st'.rest = st.rest) (sent : st'.trail.sent = st.trail.sent) :
    ∃ erased, answer = .dropped erased ∧ Tracks B c (d - Pi.single n.inode.key 1) st' ∧
      Passes (d - Pi.single n.inode.key 1) st st' ∧
      ∀ i, erased = some i → Unused st'.world i.fd := by
  have grows := h.grown.refcnt at_a
  have le : 1 ≤ n.refcnt := by omega
  obtain ⟨answered, heap⟩ := InodeCache.unref_of_heap at_a le
  have inode : st.world.inodeAt (.node a) = some n.inode := by simp [World.inodeAt, at_a]
  have same : answer = .dropped (if n.refcnt = 1 then some n.inode else none) := by
    rw [← answered]
    simpa [World.Unrefs, World.Reads, inode] using answers
  have inodes_eq : st'.world.inodes.heap = Function.update st.world.inodes.heap a
      (if n.refcnt = 1 then none else some { n with refcnt := n.refcnt - 1 }) := by
    rw [inodes, ← heap]
    simp only [World.unref, inode, World.takeErased]
    split <;> rfl
  have fds_eq : st'.world.fds = if n.refcnt = 1 then Function.update st.world.fds n.inode.fd (some .thread)
      else st.world.fds := by
    rw [fds, same]
    simp only [World.unref, inode]
    split <;> rfl
  have isOpen (fd : Fd) (was : st.world.fds fd ≠ none) : st'.world.fds fd ≠ none := by
    rw [fds_eq]
    split
    · rw [Function.update_apply]
      split
      · exact Option.some_ne_none _
      · exact was
    · exact was
  have device : st'.world.root.srcDevNum = st.world.root.srcDevNum := by
    rw [root]
    exact World.frame_unref.device
  refine ⟨_, same, ?_, ⟨streams, sent, device, fun b k held more => ?_⟩, fun i gone => ?_⟩
  · refine h.recounted at_a (h.grown.unrefed rest.live at_a pos inodes_eq) inodes_eq (fun m kept => ?_)
      isOpen names
    split at kept
    · cases kept
    · cases kept
      rfl
  · obtain ⟨m, was, rfl⟩ := World.keyAt_iff.mp held
    by_cases here : b = a
    · subst here
      rw [at_a] at was
      cases was
      rw [Pi.sub_apply, Pi.single_eq_same] at more
      have twice : n.refcnt ≠ 1 := by omega
      rw [if_neg twice] at inodes_eq
      exact World.keyAt_iff.mpr ⟨{ n with refcnt := n.refcnt - 1 },
        by rw [inodes_eq, Function.update_self], rfl⟩
    · exact World.keyAt_iff.mpr ⟨m, by rw [inodes_eq, Function.update_of_ne here, was], rfl⟩
  · split at gone
    · next last =>
        cases gone
        rw [if_pos last] at inodes_eq
        refine ⟨isOpen _ (h.isOpen a n at_a), fun b m at_b fd => ?_⟩
        rw [inodes_eq, Function.update_apply] at at_b
        split at at_b
        · cases at_b
        · next other => exact other (h.apart b a m n at_b at_a fd)
    · cases gone

/-- The memo of an inode that is new to the cache is filled in. -/
theorem Tracks.memoised {v : Except VersionError Nat} {u : Unit} (counts : String → Bool) (h : Tracks B c d st)
    (at_a : st.world.inodes.heap a = some n) (new : c.heap a = none)
    (explained : B.Explains n.inode.key (some v)) :
    let st' := st.after B counts (.setGeneration (.node a) v) u
    Tracks B c d st' ∧ Passes d st st' ∧ st'.trail.resolved = st.trail.resolved := by
  intro st'
  have heap : st'.world.inodes.heap = Function.update st.world.inodes.heap a
      (some { n with inode := { n.inode with generation := some v } }) := by
    have written := World.heap_write_node (w := st.world) (a := a)
      (f := fun i => { i with generation := some v }) (k := fun _ => rfl)
    rw [at_a] at written
    exact written
  have old {b : Addr} {m : Node} (at_b : st'.world.inodes.heap b = some m) :
      ∃ m', st.world.inodes.heap b = some m' ∧ m.inode.fd = m'.inode.fd ∧ m.inode.key = m'.inode.key := by
    rw [heap, Function.update_apply] at at_b
    split at at_b
    · next here =>
        cases at_b
        exact ⟨n, here ▸ at_a, rfl, rfl⟩
    · exact ⟨m, at_b, rfl, rfl⟩
  refine ⟨⟨?_, fun b m at_b => ?_, fun b b' m m' at_b at_b' same => ?_, fun b m at_b free => ?_,
    fun b m at_b free => ?_⟩, ⟨rfl, rfl, rfl, fun b k held _ => ?_⟩, rfl⟩
  · exact h.grown.wrote (f := fun i => { i with generation := some v }) (fun _ => rfl) new
  · obtain ⟨m', was, fd, -⟩ := old at_b
    rw [fd]
    exact h.isOpen b m' was
  · obtain ⟨m₁, was, fd, -⟩ := old at_b
    obtain ⟨m₂, was', fd', -⟩ := old at_b'
    rw [fd, fd'] at same
    exact h.apart b b' m₁ m₂ was was' same
  · obtain ⟨m', was, fd, key⟩ := old at_b
    rw [fd, key]
    exact h.files b m' was free
  · rw [heap, Function.update_apply] at at_b
    split at at_b
    · cases at_b
      exact explained
    · exact h.memos b m at_b free
  · obtain ⟨m, was, rfl⟩ := World.keyAt_iff.mp held
    by_cases here : b = a
    · subst here
      rw [at_a] at was
      cases was
      refine World.keyAt_iff.mpr ⟨{ n with inode := { n.inode with generation := some v } }, ?_, rfl⟩
      rw [heap, Function.update_self]
    · exact World.keyAt_iff.mpr ⟨m, by rw [heap, Function.update_of_ne here, was], rfl⟩

end Steps

/-- A routine ends with the references `d'`; the inodes held through `d` stay, and the names
it resolved are listed with their keys. -/
structure Leads (B : Backing) (c : InodeCache) (d : Key → Nat) (st : Stage) (d' : Key → Nat)
    (keys : List (String × Key)) (st' : Stage) : Prop where
  tracks : Tracks B c d' st'
  passes : Passes d st st'
  keys : st'.trail.resolved = st.trail.resolved ++ keys

namespace Leads

variable {B : Backing} {c : InodeCache} {d d' d'' : Key → Nat} {st st₁ st₂ : Stage} {ks ks' : List (String × Key)}

theorem refl (h : Tracks B c d st) : Leads B c d st d [] st := ⟨h, .refl d st, (List.append_nil _).symm⟩

theorem trans (h : Leads B c d st d' ks st₁) (le : ∀ k, d k ≤ d' k)
    (h' : Leads B c d' st₁ d'' ks' st₂) : Leads B c d st d'' (ks ++ ks') st₂ :=
  ⟨h'.tracks, h.passes.trans (h'.passes.mono le), by rw [h'.keys, h.keys, List.append_assoc]⟩

/-- A second part that gives references back. -/
theorem back (h : Leads B c d st d' ks st₁) (h' : Leads B c d st₁ d'' [] st₂) :
    Leads B c d st d'' ks st₂ :=
  ⟨h'.tracks, h.passes.trans h'.passes, by rw [h'.keys, h.keys, List.append_nil]⟩

end Leads

/-- One more reference to a key. -/
abbrev plus (d : Key → Nat) (k : Key) : Key → Nat := d + Pi.single k 1

theorem plus_le (d : Key → Nat) (k k' : Key) : d k' ≤ plus d k k' := Nat.le_add_right _ _

theorem plus_pos (d : Key → Nat) (k : Key) : 0 < plus d k k := by simp

theorem plus_sub (d : Key → Nat) (k : Key) : plus d k - Pi.single k 1 = d := by
  funext k'
  simp

/-- Fetching the version of the file with this key may fail; that of a file in the cache
has been fetched before. -/
def Lacks (B : Backing) (c : InodeCache) (k : Key) : Prop :=
  match c.find k with
  | some (_, n) => ∃ e, n.inode.generation = some (.error e)
  | none => B.Withholds k

def Has (B : Backing) (c : InodeCache) (k : Key) : Prop :=
  match c.find k with
  | some (_, n) => ∃ v, n.inode.generation = some (.ok v)
  | none => B.Gives k

theorem Tracks.saw {B : Backing} {c : InodeCache} {d : Key → Nat} {st : Stage} (h : Tracks B c d st) (fd : Fd)
    (s : Stat) : Leads B c d st d [] (st.saw fd s) :=
  ⟨h.congr rfl rfl rfl, .congr rfl rfl rfl rfl, (List.append_nil _).symm⟩

namespace Alone
open Routine (Follows)

variable {σ : Type} {s : σ} {B : Backing} {counts : String → Bool} {c : InodeCache} {d : Key → Nat}
  {st : Stage} {a : Addr} {k : Key} {fd : Fd} {fs : PageAlignFS}

theorem follows_destroyFd {Q : Status → σ → Stage → Prop} (h : Tracks B c d st)
    (unused : Unused st.world fd) (q : ∀ st', Leads B c d st d [] st' → Q (.ok ()) s st') :
    Follows (alone B counts) (FileDescriptor.destroy fd) s st Q := by
  rw [follows_closeFd]
  refine ⟨rfl, fun rc _ => q _ ⟨?_, .congr rfl rfl rfl rfl, (List.append_nil _).symm⟩⟩
  exact h.closed unused rfl rfl rfl

theorem follows_destroyInode {i : Inode} {Q : Status → σ → Stage → Prop} (h : Tracks B c d st)
    (unused : Unused st.world i.fd) (q : ∀ st', Leads B c d st d [] st' → Q (.ok ()) s st') :
    Follows (alone B counts) i.destroy s st Q := by
  unfold Inode.destroy
  cases i.pollHandle with
  | none => exact follows_destroyFd h unused q
  | some ph =>
      rw [Routine.follows_bind, Routine.follows_invoke]
      exact ⟨rfl, fun _ _ => follows_destroyFd h unused q⟩

theorem follows_settle {u : Unrefed} {Q : Status → σ → Stage → Prop}
    (dropped : ∃ erased, u = .dropped erased ∧ Tracks B c d st ∧
      ∀ i, erased = some i → Unused st.world i.fd)
    (q : ∀ st', Leads B c d st d [] st' → Q (.ok ()) s st') :
    Follows (alone B counts) u.settle s st Q := by
  obtain ⟨erased, rfl, h, unused⟩ := dropped
  cases erased with
  | none => exact q st (.refl h)
  | some i => exact follows_destroyInode h (unused i rfl) q

/-- The last copy of a `shared_ptr` dies. -/
theorem follows_dropShared {Q : Status → σ → Stage → Prop} (h : Tracks B c (plus d k) st)
    (rest : AtRest c) (held : st.world.keyAt a = some k)
    (q : ∀ st', Leads B c d st d [] st' → Q (.ok ()) s st') :
    Follows (alone B counts) (Inodes.dropShared a) s st Q := by
  obtain ⟨n, at_a, rfl⟩ := World.keyAt_iff.mp held
  unfold Inodes.dropShared
  rw [Routine.follows_bind, Routine.follows_attempt, Routine.follows_bind, Routine.follows_invoke]
  refine ⟨rfl, fun u answers => ?_⟩
  obtain ⟨erased, rfl, tracks, passes, unused⟩ := h.unrefed
    (st.after B counts (.dropShared a) u) rest at_a (plus_pos d _) answers.1 rfl rfl rfl rfl rfl rfl
  rw [plus_sub] at tracks passes
  refine follows_settle ⟨erased, rfl, tracks, unused⟩ fun st' leads => ?_
  exact q st' ⟨leads.tracks, passes.trans leads.passes, leads.keys⟩

/-- The cleanup after a reply that could not be sent. -/
theorem follows_cleanup {Q : Status → σ → Stage → Prop} (h : Tracks B c (plus d k) st)
    (rest : AtRest c) (held : st.world.keyAt a = some k)
    (q : ∀ st', Leads B c d st d [] st' → Q (.ok ()) s st') :
    Follows (alone B counts) (Inodes.unref .cleanup (.node a) 1) s st Q := by
  obtain ⟨n, at_a, rfl⟩ := World.keyAt_iff.mp held
  unfold Inodes.unref
  rw [Routine.follows_bind, Routine.follows_invoke]
  refine ⟨rfl, fun u answers => ?_⟩
  obtain ⟨erased, rfl, tracks, passes, unused⟩ := h.unrefed
    (st.after B counts (.unref .cleanup (.node a) 1) u) rest at_a (plus_pos d _) answers.1 rfl rfl rfl rfl rfl rfl
  rw [plus_sub] at tracks passes
  refine follows_settle ⟨erased, rfl, tracks, unused⟩ fun st' leads => ?_
  exact q st' ⟨leads.tracks, passes.trans leads.passes, leads.keys⟩

theorem follows_ref {Q : Status → σ → Stage → Prop} (h : Tracks B c d st) (pos : 0 < d k)
    (held : st.world.keyAt a = some k)
    (q : ∀ st', Leads B c d st (plus d k) [] st' → st'.world.keyAt a = some k → Q (.ok ()) s st') :
    Follows (alone B counts) (Inodes.ref (.node a) 1) s st Q := by
  obtain ⟨n, at_a, rfl⟩ := World.keyAt_iff.mp held
  have live : 0 < n.refcnt := by
    rw [h.grown.refcnt at_a]
    omega
  unfold Inodes.ref
  rw [Routine.follows_bind, Routine.follows_invoke]
  refine ⟨rfl, fun rc answers => ?_⟩
  obtain ⟨rfl, tracks, passes, keys, here⟩ := h.refed counts at_a live answers.1
  exact q _ ⟨tracks, passes, keys.trans (List.append_nil _).symm⟩ here

theorem follows_insert {i : Inode} {name : String} {Q : StatusOr Addr → σ → Stage → Prop}
    (h : Tracks B c d st) (unused : Unused st.world i.fd) (unset : i.generation = none)
    (file : st.trail.name i.fd = some name) (stat : st.trail.stat i.fd = some i.key)
    (key : ∀ k, B.key name = some k → i.key = k)
    (q : ∀ a st', Leads B c d st (plus d i.key) [(name, i.key)] st' → st'.world.keyAt a = some i.key →
      Q (.ok a) s st') :
    Follows (alone B counts) (Inodes.insert i) s st Q := by
  unfold Inodes.insert
  rw [Routine.follows_bind, Routine.follows_invoke]
  refine ⟨rfl, fun r answers => ?_⟩
  obtain ⟨tracks, passes, keys, here, spare⟩ := h.inserted counts unused unset file stat key answers.1
  have leads : Leads B c d st (plus d i.key) [(name, i.key)] (st.after B counts (.insert i) r) :=
    ⟨tracks, passes, keys⟩
  dsimp only
  rw [Routine.follows_bind]
  cases fresh : r.fresh with
  | true => exact q r.addr _ leads here
  | false =>
      -- the duplicate closes its own descriptor
      refine follows_destroyInode tracks (spare fresh) fun st' closed => ?_
      have both := leads.trans (plus_le d i.key) closed
      exact q r.addr st' both (closed.passes.held r.addr i.key here (plus_pos d i.key))

theorem follows_statFD {Q : StatusOr Stat → σ → Stage → Prop}
    (failed : ∀ e, B.fails → Q (.error e) s st)
    (q : ∀ s', (∀ k, st.file B fd = some k → (s'.stDev, s'.stIno) = k) → Q (.ok s') s (st.saw fd s')) :
    Follows (alone B counts) (statFD fs.platform fd) s st Q := by
  unfold statFD Syscalls.fstatat
  rw [follows_syscall]
  exact ⟨rfl, fun e answers => failed _ answers.2, fun s' answers => q s' answers.2⟩

theorem follows_create {name : String} {parentFd : Fd} {Q : StatusOr Inode → σ → Stage → Prop}
    (h : Tracks B c d st) (failed : ∀ e st', B.fails → Leads B c d st d [] st' → Q (.error e) s st')
    (q : ∀ i st', Leads B c d st d [] st' → Unused st'.world i.fd → i.generation = none →
      st'.trail.name i.fd = some name → st'.trail.stat i.fd = some i.key →
      (∀ k, B.key name = some k → i.key = k) → Q (.ok i) s st') :
    Follows (alone B counts) (Inode.create fs.platform name parentFd) s st Q := by
  unfold Inode.create Syscalls.openat
  rw [Routine.follows_bind, follows_syscall]
  refine ⟨rfl, fun e answers => failed _ _ answers.2 ⟨h.congr rfl rfl rfl, .congr rfl rfl rfl rfl,
    (List.append_nil _).symm⟩, fun fd answers => ?_⟩
  have free : st.world.fds fd = none := answers.1
  obtain ⟨tracks, unused⟩ := h.opened
    (st.after B counts (.sys (.openat parentFd name (O_PATH ||| O_NOFOLLOW ||| O_CLOEXEC) 0)) (.ok fd))
    free rfl rfl rfl
  have file : (st.after B counts (.sys (.openat parentFd name (O_PATH ||| O_NOFOLLOW ||| O_CLOEXEC) 0))
      (.ok fd)).trail.name fd = some name := Function.update_self ..
  have leads : Leads B c d st d []
      (st.after B counts (.sys (.openat parentFd name (O_PATH ||| O_NOFOLLOW ||| O_CLOEXEC) 0)) (.ok fd)) :=
    ⟨tracks, .congr rfl rfl rfl rfl, (List.append_nil _).symm⟩
  dsimp only
  rw [Routine.follows_bind, Routine.follows_onError]
  refine follows_statFD (fun e fails => ?_) fun s' stat => ?_
  · refine follows_destroyFd tracks unused fun st' closed => ?_
    exact failed e st' fails (leads.trans (fun _ => le_refl _) closed)
  · refine q _ _ (leads.trans (fun _ => le_refl _) (leads.tracks.saw fd s')) unused rfl file
      (Function.update_self ..) fun k key => ?_
    exact stat k ((congrArg (Option.bind · B.key) file).trans key)

theorem follows_findOrCreateInode {parent : InodeRef} {name : String}
    {Q : StatusOr Addr → σ → Stage → Prop} (h : Tracks B c d st)
    (failed : ∀ e st', B.fails → Leads B c d st d [] st' → Q (.error e) s st')
    (q : ∀ a k st', Leads B c d st (plus d k) [(name, k)] st' → st'.world.keyAt a = some k →
      (∀ k', B.key name = some k' → k = k') → Q (.ok a) s st') :
    Follows (alone B counts) (fs.findOrCreateInode parent name) s st Q := by
  unfold PageAlignFS.findOrCreateInode
  rw [Routine.follows_bind, Routine.follows_invoke]
  refine ⟨rfl, fun parentFd _ => ?_⟩
  dsimp only
  rw [Routine.follows_bind]
  refine follows_create h failed fun i st' leads unused unset file stat key => ?_
  refine follows_insert leads.tracks unused unset file stat key fun a st'' inserted here => ?_
  exact q a i.key st'' (leads.trans (fun _ => le_refl _) inserted) here key

/-- The version is read through a second descriptor of the same file. -/
theorem follows_getFileVersionFromPathFD {Q : StatusOr (Except VersionError Nat) → σ → Stage → Prop}
    (h : Tracks B c d st)
    (failed : ∀ e st', st.MayLack B fd → Leads B c d st d [] st' → Q (.ok (.error e)) s st')
    (q : ∀ v st', (∀ k, st.file B fd = some k → B.version k ≠ some false) → Leads B c d st d [] st' →
      Q (.ok (.ok v)) s st') :
    Follows (alone B counts) (getFileVersionFromPathFD fd) s st Q := by
  unfold getFileVersionFromPathFD
  rw [Routine.follows_bind, Routine.follows_invoke]
  refine ⟨rfl, fun opened answers => ?_⟩
  cases opened with
  | error e =>
      exact failed _ _ answers.2 ⟨h.congr rfl rfl rfl, .congr rfl rfl rfl rfl, (List.append_nil _).symm⟩
  | ok myfd =>
      have free : st.world.fds myfd = none := answers.1
      obtain ⟨tracks, unused⟩ := h.opened
        (st.after B counts (.sys (.open_ (.procSelfFd fd) (O_RDONLY ||| O_CLOEXEC))) (.ok myfd))
        free rfl rfl rfl
      have leads : Leads B c d st d []
          (st.after B counts (.sys (.open_ (.procSelfFd fd) (O_RDONLY ||| O_CLOEXEC))) (.ok myfd)) :=
        ⟨tracks, .congr rfl rfl rfl rfl, (List.append_nil _).symm⟩
      have file : (st.after B counts (.sys (.open_ (.procSelfFd fd) (O_RDONLY ||| O_CLOEXEC)))
          (.ok myfd)).file B myfd = st.file B fd :=
        congrArg (Option.bind · B.key) (Function.update_self ..)
      dsimp only
      rw [Routine.follows_bind, Routine.follows_invoke]
      refine ⟨rfl, fun version answers => ?_⟩
      dsimp only
      rw [Routine.follows_bind]
      cases version with
      | error e =>
          refine follows_destroyFd tracks unused fun st' closed => ?_
          exact failed _ st' (Stage.MayLack.of_file file answers.2) (leads.trans (fun _ => le_refl _) closed)
      | ok v =>
          refine follows_destroyFd tracks unused fun st' closed => ?_
          refine q v st' (fun k key => ?_) (leads.trans (fun _ => le_refl _) closed)
          rw [← file] at key
          exact answers.2 k key

/-- A memo that is set tells whether the version is there. -/
theorem lacks_of_memo {n : Node} {e : VersionError} (h : Tracks B c d st)
    (at_a : st.world.inodes.heap a = some n) (memo : n.inode.generation = some (.error e)) :
    Lacks B c n.inode.key := by
  unfold Lacks
  by_cases new : c.heap a = none
  · rw [h.grown.find_of_new at_a new]
    have explained := h.memos a n at_a new
    rw [memo] at explained
    exact explained
  · obtain ⟨m, found, same⟩ := h.grown.find_of_old at_a new
    rw [found]
    exact ⟨e, same ▸ memo⟩

theorem has_of_memo {n : Node} {v : Nat} (h : Tracks B c d st)
    (at_a : st.world.inodes.heap a = some n) (memo : n.inode.generation = some (.ok v)) :
    Has B c n.inode.key := by
  unfold Has
  by_cases new : c.heap a = none
  · rw [h.grown.find_of_new at_a new]
    have explained := h.memos a n at_a new
    rw [memo] at explained
    exact explained
  · obtain ⟨m, found, same⟩ := h.grown.find_of_old at_a new
    rw [found]
    exact ⟨v, same ▸ memo⟩

/-- The fetched version, or the failure, goes into the memo. -/
theorem follows_setGeneration {v : Except VersionError Nat} {Q : StatusOr Nat → σ → Stage → Prop}
    (h : Tracks B c d st) (held : st.world.keyAt a = some k) (new : c.heap a = none)
    (explained : B.Explains k (some v))
    (q : ∀ st', Leads B c d st d [] st' → Q (versionStatus fs.platform v) s st') :
    Follows (alone B counts) (do
      Routine.invoke (I := calls) (.setGeneration (.node a) v)
      Routine.ofExcept (versionStatus fs.platform v)) s st Q := by
  obtain ⟨n, at_a, rfl⟩ := World.keyAt_iff.mp held
  rw [Routine.follows_bind, Routine.follows_invoke]
  refine ⟨rfl, fun u _ => ?_⟩
  obtain ⟨tracks, passes, keys⟩ := h.memoised counts (u := u) at_a new explained
  exact q _ ⟨tracks, passes, keys.trans (List.append_nil _).symm⟩

theorem follows_getGeneration {Q : StatusOr Nat → σ → Stage → Prop} (h : Tracks B c d st)
    (rest : AtRest c) (pos : 0 < d k) (held : st.world.keyAt a = some k)
    (failed : ∀ e st', Lacks B c k → Leads B c d st d [] st' → Q (.error e) s st')
    (q : ∀ v st', Has B c k → Leads B c d st d [] st' → Q (.ok v) s st') :
    Follows (alone B counts) (Inode.getGeneration fs.platform (.node a)) s st Q := by
  obtain ⟨n, at_a, rfl⟩ := World.keyAt_iff.mp held
  unfold Inode.getGeneration
  rw [Routine.follows_bind, Routine.follows_invoke]
  refine ⟨rfl, fun memo answers => ?_⟩
  have read : memo = n.inode.generation := World.reads_node at_a answers.1
  dsimp only
  rcases memo with _ | e | v
  · -- an unset memo: the file is new, and its version is fetched
    have new : c.heap a = none := by
      by_contra was
      obtain ⟨m, found, same⟩ := h.grown.find_of_old at_a was
      refine rest.memos a m (InodeCache.find_eq_some_iff.mp found).1 ?_
      rw [same]
      exact read.symm
    have absent := h.grown.find_of_new at_a new
    obtain ⟨name, file, key⟩ := h.files a n at_a new
    rw [Routine.follows_bind, Routine.follows_invoke]
    refine ⟨rfl, fun fd answers => ?_⟩
    have own : fd = n.inode.fd := World.reads_node at_a answers.1
    subst own
    dsimp only
    rw [Routine.follows_bind]
    refine follows_getFileVersionFromPathFD h (fun e st' lacks leads => ?_) fun v st' gives leads => ?_
    · have withholds : B.Withholds n.inode.key := by
        have lacks : st.MayLack B n.inode.fd := lacks
        unfold Stage.MayLack Stage.file at lacks
        rw [file] at lacks
        split at lacks
        · next k known =>
            rw [key k known]
            exact .inr lacks
        · exact .inl lacks
      have here := leads.passes.held a _ held pos
      refine follows_setGeneration leads.tracks here new withholds fun st'' set => ?_
      refine failed _ st'' ?_ (leads.trans (fun _ => le_refl _) set)
      unfold Lacks
      rw [absent]
      exact withholds
    · have given : B.Gives n.inode.key := by
        intro named
        obtain ⟨k, known⟩ := Option.ne_none_iff_exists'.mp (named name)
        rw [key k known]
        exact gives k ((congrArg (Option.bind · B.key) file).trans known)
      have here := leads.passes.held a _ held pos
      refine follows_setGeneration leads.tracks here new given fun st'' set => ?_
      refine q v st'' ?_ (leads.trans (fun _ => le_refl _) set)
      unfold Has
      rw [absent]
      exact given
  · exact failed _ _ (lacks_of_memo h at_a read.symm) (.refl h)
  · exact q v _ (has_of_memo h at_a read.symm) (.refl h)

theorem follows_createFuseEntryParam {withGeneration : Bool} {Q : StatusOr EntryParam → σ → Stage → Prop}
    (h : Tracks B c d st) (rest : AtRest c) (pos : 0 < d k) (held : st.world.keyAt a = some k)
    (failed : ∀ e st', B.fails ∨ withGeneration = true ∧ Lacks B c k → Leads B c d st d [] st' →
      Q (.error e) s st')
    (q : ∀ p st', EntryParam.ino p = a → (withGeneration = true → Has B c k) → Leads B c d st d [] st' →
      Q (.ok p) s st') :
    Follows (alone B counts) (fs.createFuseEntryParam a withGeneration) s st Q := by
  unfold PageAlignFS.createFuseEntryParam
  rw [Routine.follows_bind, Routine.follows_invoke]
  refine ⟨rfl, fun fd _ => ?_⟩
  dsimp only
  rw [Routine.follows_bind]
  refine follows_statFD (fun e fails => failed e _ (.inl fails) (.refl h)) fun attr _ => ?_
  have seen := h.saw fd attr
  cases withGeneration with
  | false => exact q _ _ rfl nofun seen
  | true =>
      dsimp only
      rw [if_pos rfl, Routine.follows_bind]
      refine follows_getGeneration seen.tracks rest pos held (fun e st' lacks leads => ?_)
        fun v st' has leads => ?_
      · exact failed e st' (.inr ⟨rfl, lacks⟩) (seen.trans (fun _ => le_refl _) leads)
      · exact q _ st' rfl (fun _ => has) (seen.trans (fun _ => le_refl _) leads)

/-- A reply is sent or it is not; in both cases the request is gone. -/
theorem follows_send {req : FuseReq} {what : String} {reply : Reply} {Q : Status → FuseRequest → Stage → Prop}
    (h : Tracks B c d st)
    (failed : ∀ e st', B.fails → Leads B c d st d [] st' → Q (.error e) ⟨none⟩ st')
    (q : ∀ st', Tracks B c d st' → st'.trail.resolved = st.trail.resolved →
      st'.trail.sent = st.trail.sent ++ [reply] → st'.world.inodes = st.world.inodes →
      Q (.ok ()) ⟨none⟩ st') :
    Follows (alone B counts) (FuseRequest.send fs.platform what reply) ⟨some req⟩ st Q := by
  rw [FuseRequest.follows_send_some]
  refine ⟨rfl, fun rc answers => ?_⟩
  cases rc with
  | some e =>
      refine failed _ _ answers.2 ⟨h.congr rfl rfl rfl, .congr rfl rfl rfl rfl, ?_⟩
      exact (List.append_nil _).symm
  | none =>
      refine q _ ?_ rfl rfl ?_
      · refine h.kept ?_ (fun fd was => ?_) rfl
        · simp only [alone, Stage.after, World.effect, World.receive]
          split <;> rfl
        · simp only [alone, Stage.after, World.effect, World.receive]
          split
          · simp only [World.own, Function.update_apply]
            split
            · exact Option.some_ne_none _
            · exact was
          · exact was
      · simp only [alone, Stage.after, World.effect, World.receive]
        split <;> rfl

end Alone

section Runs
variable {B : Backing} {fs : PageAlignFS} {counts : String → Bool} {root : Inode} {pipes : Fd → Bool}
  {w : World} {st : Stage} {t : List (Event calls)}

theorem Stage.run_world (st : Stage) (t : List (Event calls)) :
    ((alone B counts).run st t).world = st.world.play counts t := by
  induction t generalizing st with
  | nil => rfl
  | cons e t ih => exact ih (st.after B counts e.1 e.2)

theorem Stage.run_trail (st : Stage) (t : List (Event calls)) :
    ((alone B counts).run st t).trail = t.foldl (fun tr e => tr.note e.1 e.2) st.trail := by
  induction t generalizing st with
  | nil => rfl
  | cons e t ih => exact ih (st.after B counts e.1 e.2)

theorem Stage.run_start (w : World) (t : List (Event calls)) :
    ((alone B counts).run (.start w) t).trail = Trail.ofEvents t := run_trail (.start w) t

/-- If nothing is known of the backing file system, it may answer whatever the world may. -/
theorem World.Plays.admits (h : st.world.Plays counts t) (rest : st.rest = fun _ => none) :
    (alone .unknown counts).Admits st t := by
  have unknown (st : Stage) (fd : Fd) : st.file .unknown fd = none := Option.bind_fun_none _
  induction t generalizing st with
  | nil => trivial
  | cons e t ih =>
      refine ⟨⟨h.1, ?_⟩, ih h.2 ?_⟩
      · unfold Stage.Admits
        split
        · intro es known
          rw [rest] at known
          cases known
        · intro k known
          rw [unknown] at known
          cases known
        · intro k known
          rw [unknown] at known
          cases known
        · unfold Stage.MayLack
          rw [unknown]
          trivial
        · unfold Stage.MayLack
          rw [unknown]
          trivial
        all_goals trivial
      · change st.restAfter .unknown e.1 e.2 = _
        unfold Stage.restAfter
        rw [rest]
        split
        · exact Function.update_eq_self_iff.mpr rfl
        · exact Function.update_eq_self_iff.mpr rfl
        · rfl

/-- In every state in which nothing is running. -/
theorem atRest_of_reach {ok : World → Label calls (FuseReq × Request) → Prop}
    (run : (daemon fs counts).Reach ok (.initial root pipes) ⟨w, []⟩) : AtRest w.inodes := by
  have holds := Protocol.holds_of_reach (memoising fs counts)
    ⟨Inv.initial root pipes, fun a n heap => (nomatch heap)⟩ (run.mono fun _ _ _ => trivial)
  obtain ⟨inv, memoised⟩ := holds.quiescent rfl
  constructor
  · intro a n heap
    exact (inv.counts.relied_of_heap heap).1
  · intro a n heap
    exact memoised a n heap (inv.counts.relied_of_heap heap).2

theorem tracks_arrive {ok : World → Label calls (FuseReq × Request) → Prop}
    (run : (daemon fs counts).Reach ok (.initial root pipes) ⟨w, []⟩) (req : FuseReq) (r : Request) :
    Tracks B w.inodes 0 (.start (w.arrive req r)) := by
  have inv : Inv w 0 := (bookkeeping_holds run).quiescent rfl
  have inodes : (w.arrive req r).inodes = w.inodes := by
    obtain ⟨nlookup, forgetting, fds, -, arrive⟩ := w.arrive_cases req r
    rw [arrive]
  have owner {a : Addr} {n : Node} (heap : (w.arrive req r).inodes.heap a = some n) :
      w.fds n.inode.fd = some (.inode a) := by
    rw [inodes] at heap
    rw [inv.descriptors.inode, InodeCache.view_of_heap heap]
    rfl
  have old {a : Addr} {n : Node} (heap : (w.arrive req r).inodes.heap a = some n)
      (new : w.inodes.heap a = none) : False := by
    rw [inodes, new] at heap
    cases heap
  constructor
  · change Grown w.inodes (w.arrive req r).inodes 0
    rw [inodes]
    exact .refl w.inodes
  · intro a n heap
    change (w.arrive req r).fds n.inode.fd ≠ none
    rw [World.fds_arrive]
    cases r.released with
    | none =>
        rw [Option.elim_none, owner heap]
        exact Option.some_ne_none _
    | some fd =>
        rw [Option.elim_some, Function.update_apply, owner heap]
        split
        · exact Option.some_ne_none _
        · exact Option.some_ne_none _
  · intro a b n m heap heap' same
    have here := owner heap
    rw [same, owner heap'] at here
    cases here
    rfl
  · exact fun a n heap new => (old heap new).elim
  · exact fun a n heap new => (old heap new).elim

end Runs

end Pafs
