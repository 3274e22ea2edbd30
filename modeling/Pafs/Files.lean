import Pafs.Filing
import Pafs.Fds
import Pafs.Identity
import Pafs.Polls

/-! Which file every descriptor is a descriptor of. An observer knows; the daemon knows only
what `stat` says. In every interleaving, what is done for a request is done to the files that
stand behind the ids that the request names. -/
namespace Pafs
open Resumption

/-- What an observer knows of files. -/
structure FileBooks where
  /-- the file that a descriptor is of -/
  file : Fd → Key
  /-- the files that the next names to be opened will lead to -/
  names : Nat → Key
  /-- the name by which the file of a descriptor was created, if that is how it was opened -/
  created : Fd → Option (Key × String)
  /-- the inodes whose ids the kernel keeps with its open file handles -/
  handles : Fd → Option InodeRef
  /-- the ids that an unanswered request names -/
  asked : FuseReq → List Addr

namespace FileBooks

variable {g : FileBooks} {fd : Fd}

/-- A name is opened, and perhaps created. -/
def opens (g : FileBooks) (fd : Fd) (name : Option (Key × String)) : FileBooks :=
  { g with
    file := Function.update g.file fd (g.names 0)
    names := fun n => g.names (n + 1)
    created := Function.update g.created fd name }

/-- Another descriptor of the same file. -/
def reopens (g : FileBooks) (old fd : Fd) : FileBooks :=
  { g with file := Function.update g.file fd (g.file old), created := Function.update g.created fd none }

def delivers (g : FileBooks) (fd : Fd) (r : Option InodeRef) : FileBooks :=
  { g with handles := Function.update g.handles fd r }

/-- `/proc/self/fd` leads to the file of the descriptor, and so does `dup`. -/
def note (g : FileBooks) : (c : Call) → c.Ret → FileBooks
  | .sys (.open_ (.procSelfFd old) _), .ok fd | .sys (.dup old), .ok fd => g.reopens old fd
  | .sys (.open_ (.plain _) _), .ok fd => g.opens fd none
  | .sys (.openat dir name flags _), .ok fd => g.opens fd (if flags.has O_CREAT then some (g.file dir, name) else none)
  | .fuseReply req (.openFile fi), none =>
      if req.opcode = .opendir then g else g.delivers fi.fh ((g.asked req).head?.map getInode)
  | .fuseReply _ (.create param fi), none => g.delivers fi.fh (some (.node param.ino))
  | _, _ => g

def arrives (g : FileBooks) (tag : FuseReq × Request) : FileBooks :=
  { g with
    asked := Function.update g.asked tag.1 tag.2.names
    handles := fun fd => if tag.2.released = some fd then none else g.handles fd
    created := fun fd => if tag.2.released = some fd then none else g.created fd }

/-- The kernel remembers an id while a file is open under it, and names the two together. -/
def comes (w : World) (tag : FuseReq × Request) (g g' : FileBooks) : Prop :=
  (∀ ino fd, tag.2.handleOf = some (ino, fd) → g.handles fd = some (getInode ino)) ∧ g' = g.arrives tag ∧
    ∀ fd a, g'.handles fd = some (.node a) → 0 < (w.arrive tag.1 tag.2).nlookup a

/-- A call changes what is known of the descriptor that it opened, and of no other one. -/
theorem note_taken {w : World} {c : Call} {ret : c.Ret} (answers : w.Answers c ret) (taken : w.fds fd ≠ none) :
    (g.note c ret).file fd = g.file fd ∧ (g.note c ret).created fd = g.created fd := by
  have new {β : Type} (f : Fd → β) {fd' : Fd} {v : β} (free : w.fds fd' = none) :
      Function.update f fd' v fd = f fd := by
    apply Function.update_of_ne
    rintro rfl
    exact taken free
  cases c with
  | sys s =>
      cases s
      case open_ path flags =>
          cases ret with
          | error e => cases path <;> exact ⟨rfl, rfl⟩
          | ok fd' => cases path <;> exact ⟨new _ answers, new _ answers⟩
      case openat | dup =>
          cases ret with
          | error e => exact ⟨rfl, rfl⟩
          | ok fd' => exact ⟨new _ answers, new _ answers⟩
      all_goals exact ⟨rfl, rfl⟩
  | fuseReply req reply =>
      cases ret with
      | some e => cases reply <;> exact ⟨rfl, rfl⟩
      | none =>
          cases reply
          case openFile fi =>
              unfold note
              dsimp only
              split <;> exact ⟨rfl, rfl⟩
          all_goals exact ⟨rfl, rfl⟩
  | _ => exact ⟨rfl, rfl⟩

theorem file_note {w : World} {c : Call} {ret : c.Ret} (answers : w.Answers c ret) (taken : w.fds fd ≠ none) :
    (g.note c ret).file fd = g.file fd := (note_taken answers taken).1

theorem asked_note (g : FileBooks) (c : Call) (ret : c.Ret) : (g.note c ret).asked = g.asked := by
  unfold note
  split
  all_goals first
    | rfl
    | (split <;> rfl)

/-- A reply that delivers a handle, and the inode that the kernel has opened. -/
inductive Delivery (g : FileBooks) : Event calls → Fd → Option InodeRef → Prop
  | open_ {req : FuseReq} {fi : FileInfo} : req.opcode ≠ .opendir →
      Delivery g ⟨.fuseReply req (.openFile fi), none⟩ fi.fh ((g.asked req).head?.map getInode)
  | create {req : FuseReq} {param : EntryParam} {fi : FileInfo} :
      Delivery g ⟨.fuseReply req (.create param fi), none⟩ fi.fh (some (.node param.ino))

theorem handles_note (g : FileBooks) (c : Call) (ret : c.Ret) : (g.note c ret).handles = g.handles ∨
    ∃ fd r, g.Delivery ⟨c, ret⟩ fd r ∧ (g.note c ret).handles = Function.update g.handles fd r := by
  unfold note
  split
  case h_5 req fi =>
      split
      · exact .inl rfl
      · next other => exact .inr ⟨_, _, .open_ other, rfl⟩
  case h_6 => exact .inr ⟨_, _, .create, rfl⟩
  all_goals exact .inl rfl

theorem Delivery.handle {c : Call} {ret : c.Ret} {r : Option InodeRef} (h : g.Delivery ⟨c, ret⟩ fd r) :
    ∃ req reply, (⟨c, ret⟩ : Event calls) = ⟨.fuseReply req reply, none⟩ ∧ reply.handle req = some fd := by
  cases h with
  | open_ other => exact ⟨_, _, rfl, if_neg other⟩
  | create => exact ⟨_, _, rfl, rfl⟩

end FileBooks

/-- An inode that is there after a call was there before with the same descriptor, number and
device, or is the one inserted. -/
theorem World.inodeAt_effect {w : World} (counts : String → Bool) (c : Call) (ret : c.Ret) {r : InodeRef}
    {i' : Inode} (after : (w.effect counts c ret).inodeAt r = some i') :
    (∃ i, w.inodeAt r = some i ∧ i'.fd = i.fd ∧ i'.key = i.key) ∨ (w.inodeAt r = none ∧ c = .insert i') := by
  cases r with
  | root =>
      cases after
      refine .inl ⟨w.root, rfl, ?_⟩
      by_cases version : ∃ v, c = .setGeneration .root v
      · obtain ⟨v, rfl⟩ := version
        exact ⟨rfl, rfl⟩
      · by_cases poll : ∃ ph, c = .addPollHandle .root ph
        · obtain ⟨ph, rfl⟩ := poll
          exact ⟨rfl, rfl⟩
        · rw [not_exists] at version poll
          rw [root_effect counts ret version poll]
          exact ⟨rfl, rfl⟩
  | node a =>
      obtain ⟨n', heap', rfl⟩ := Option.map_eq_some_iff.mp after
      obtain ⟨n, heap, wrote⟩ | ⟨free, i, rfl, same⟩ := inode_of_effect counts c ret heap'
      · refine .inl ⟨n.inode, by simp [inodeAt, heap], ?_, wrote.key⟩
        rcases wrote with same | ⟨v, -, same⟩ | ⟨ph, -, same⟩
        all_goals rw [same]
      · exact .inr ⟨by simp [inodeAt, free], by rw [same]⟩

variable {fs : PageAlignFS} {counts : String → Bool} {w : World} {g : FileBooks} {x : World × FileBooks}
  {l : Ledger} {k : Work} {f : Multiset Ledger} {fd : Fd} {r : InodeRef}

/-- The ledger of accounts and the work of a thread are about the same thread. -/
structure Agrees (l : Ledger) (k : Work) : Prop where
  request : k.request = l.request
  owed : k.owed = l.owed
  shared : k.shared = l.shared
  own : ∀ fd ∈ k.own, 0 < l.fds fd

/-- What a thread knows is so. -/
structure Knows (x : World × FileBooks) (k : Work) : Prop where
  keys : ∀ fd key, (fd, key) ∈ k.keys → fd ∈ k.own ∧ x.2.file fd = key
  stands : ∀ fd r i, (fd, r) ∈ k.stands → k.Reaches r → x.1.inodeAt r = some i →
    x.2.file fd = i.key ∧ (fd = i.fd ∨ fd ∈ k.own)
  stats : ∀ r key i, (r, key) ∈ k.stats → k.Reaches r → x.1.inodeAt r = some i → i.key = key
  created : ∀ fd r name i, (fd, r, name) ∈ k.created → k.Reaches r → x.1.inodeAt r = some i →
    fd ∈ k.own ∧ x.2.created fd = some (i.key, name)
  twins : ∀ fd fd', (fd, fd') ∈ k.twins → (fd ∈ k.own ∧ fd' ∈ k.own) ∧ x.2.file fd = x.2.file fd'

theorem Agrees.owner (agrees : Agrees l k) (inv : Inv w (l ::ₘ f)) (own : fd ∈ k.own) : w.fds fd = some .thread :=
  inv.descriptors.held (agrees.own fd own)

/-- The inodes that a thread reaches are there. -/
theorem Agrees.live (agrees : Agrees l k) (inv : Inv w (l ::ₘ f)) (reaches : k.Reaches r) :
    ∃ i, w.inodeAt r = some i := by
  cases r with
  | root => exact ⟨w.root, rfl⟩
  | node a =>
      have kept : l.Reaches (.node a) := by
        rcases reaches with named | held
        · rw [agrees.owed, agrees.request] at named
          exact .inl named
        · rw [agrees.shared] at held
          exact .inr (.inl held)
      obtain ⟨e, view⟩ := World.view_of_refcnt (kept.live inv)
      obtain ⟨n, heap, -⟩ := InodeCache.heap_of_view view
      exact ⟨n.inode, by simp [World.inodeAt, heap]⟩

/-- The descriptor of an inode is open. -/
theorem Inv.inode_taken (inv : Inv w f) {i : Inode} (here : w.inodeAt r = some i) : w.fds i.fd ≠ none := by
  cases r with
  | root =>
      cases here
      rw [inv.descriptors.root]
      exact Option.some_ne_none _
  | node a =>
      obtain ⟨n, heap, rfl⟩ := Option.map_eq_some_iff.mp here
      rw [inv.descriptors.inode_of_heap heap]
      exact Option.some_ne_none _

/-- What a thread knows stays so, whichever thread makes a call. -/
theorem Knows.effect {c : Call} {ret : c.Ret} (h : Knows (w, g) k) (agrees : Agrees l k) (inv : Inv w (l ::ₘ f))
    (answers : w.Answers c ret) : Knows (w.effect counts c ret, g.note c ret) k := by
  have taken {fd : Fd} (own : fd ∈ k.own) : w.fds fd ≠ none := by
    rw [agrees.owner inv own]
    exact Option.some_ne_none _
  have owned {fd : Fd} (own : fd ∈ k.own) : (g.note c ret).file fd = g.file fd :=
    FileBooks.file_note answers (taken own)
  have before {r : InodeRef} {i' : Inode} (reaches : k.Reaches r)
      (after : (w.effect counts c ret).inodeAt r = some i') :
      ∃ i, w.inodeAt r = some i ∧ i'.fd = i.fd ∧ i'.key = i.key := by
    rcases World.inodeAt_effect counts c ret after with old | ⟨gone, -⟩
    · exact old
    · obtain ⟨i, here⟩ := agrees.live inv reaches
      rw [gone] at here
      cases here
  constructor
  · intro fd key mem
    obtain ⟨own, file⟩ := h.keys fd key mem
    exact ⟨own, (owned own).trans file⟩
  · intro fd r i' mem reaches after
    obtain ⟨i, here, sameFd, sameKey⟩ := before reaches after
    obtain ⟨file, whose⟩ := h.stands fd r i mem reaches here
    have open_ : w.fds fd ≠ none := by
      rcases whose with rfl | own
      · exact inv.inode_taken here
      · exact taken own
    refine ⟨?_, ?_⟩
    · rw [sameKey, ← file]
      exact FileBooks.file_note answers open_
    · rw [sameFd]
      exact whose
  · intro r key i' mem reaches after
    obtain ⟨i, here, -, sameKey⟩ := before reaches after
    rw [sameKey]
    exact h.stats r key i mem reaches here
  · intro fd r name i' mem reaches after
    obtain ⟨i, here, -, sameKey⟩ := before reaches after
    obtain ⟨own, created⟩ := h.created fd r name i mem reaches here
    refine ⟨own, ?_⟩
    rw [sameKey, ← created]
    exact (FileBooks.note_taken answers (taken own)).2
  · intro fd fd' mem
    obtain ⟨⟨own, own'⟩, same⟩ := h.twins fd fd' mem
    refine ⟨⟨own, own'⟩, ?_⟩
    dsimp only at same ⊢
    rw [owned own, owned own', same]

/-! What a thread learns from one call, when the world has changed already. -/

namespace Knows

theorem gain (h : Knows x k) (fd : Fd) : Knows x (k.gain fd) where
  keys fd' key mem := ⟨.inr (h.keys fd' key mem).1, (h.keys fd' key mem).2⟩
  stands fd' r i mem reaches here :=
    ⟨(h.stands fd' r i mem reaches here).1, (h.stands fd' r i mem reaches here).2.imp id .inr⟩
  stats := h.stats
  created fd' r name i mem reaches here :=
    have known := h.created fd' r name i mem reaches here
    ⟨.inr known.1, known.2⟩
  twins fd₁ fd₂ mem :=
    have known := h.twins fd₁ fd₂ mem
    ⟨⟨.inr known.1.1, .inr known.1.2⟩, known.2⟩

theorem lose (h : Knows x k) (fd : Fd) : Knows x (k.lose fd) where
  keys fd' key mem := ⟨⟨(h.keys fd' key mem.1).1, mem.2⟩, (h.keys fd' key mem.1).2⟩
  stands fd' r i mem reaches here :=
    have known := h.stands fd' r i mem.1 reaches here
    ⟨known.1, known.2.imp id fun own => ⟨own, mem.2⟩⟩
  stats := h.stats
  created fd' r name i mem reaches here :=
    have known := h.created fd' r name i mem.1 reaches here
    ⟨⟨known.1, mem.2⟩, known.2⟩
  twins fd₁ fd₂ mem :=
    have known := h.twins fd₁ fd₂ mem.1
    ⟨⟨⟨known.1.1, mem.2.1⟩, known.1.2, mem.2.2⟩, known.2⟩

/-- The name that was opened leads to the file that the thread has created under it, if it
has created one. -/
theorem opens {dir : Fd} {name : String} {flags : Flags} (h : Knows x k)
    (made : flags.has O_CREAT = true → x.2.created fd = some (x.2.file dir, name))
    (leads : ∀ fd' ∈ k.own, x.2.created fd' = some (x.2.file dir, name) → x.2.file fd = x.2.file fd')
    (live : ∀ r, k.Reaches r → ∃ i, x.1.inodeAt r = some i) :
    Knows x (k.opens dir name flags fd) := by
  constructor
  · exact (h.gain fd).keys
  · exact (h.gain fd).stands
  · exact h.stats
  · intro fd' r name' i mem reaches here
    rcases mem with mem | ⟨new, creat, named, stands⟩
    · exact (h.gain fd).created fd' r name' i mem reaches here
    · dsimp only at new named stands
      subst new named
      refine ⟨Set.mem_insert _ _, ?_⟩
      rw [made creat, (h.stands dir r i stands reaches here).1]
  · rintro fd₁ fd₂ (mem | ⟨new, r, reaches, stands, created⟩)
    · exact (h.gain fd).twins fd₁ fd₂ mem
    · dsimp only at new created
      subst new
      obtain ⟨i, here⟩ := live r reaches
      obtain ⟨own, named⟩ := h.created fd₂ r name i created reaches here
      refine ⟨⟨Set.mem_insert _ _, .inr own⟩, leads fd₂ own ?_⟩
      rw [named, (h.stands dir r i stands reaches here).1]

theorem reopen {old : Fd} (h : Knows x k) (same : x.2.file fd = x.2.file old) : Knows x (k.reopen old fd) := by
  constructor
  · exact (h.gain fd).keys
  · intro fd' r i mem reaches here
    rcases mem with mem | ⟨new, mem⟩
    · exact (h.gain fd).stands fd' r i mem reaches here
    · dsimp only at new mem
      subst new
      refine ⟨?_, .inr (Set.mem_insert _ _)⟩
      rw [same]
      exact (h.stands old r i mem reaches here).1
  · exact h.stats
  · exact (h.gain fd).created
  · exact (h.gain fd).twins

theorem sawKey {key : Key} (h : Knows x k) (told : key = x.2.file fd) : Knows x (k.sawKey fd key) := by
  subst told
  constructor
  · intro fd' key' mem
    rcases mem with mem | ⟨same, own⟩
    · exact h.keys fd' key' mem
    · cases same
      exact ⟨own, rfl⟩
  · exact h.stands
  · intro r key' i mem reaches here
    rcases mem with mem | ⟨same, mem⟩
    · exact h.stats r key' i mem reaches here
    · dsimp only at same mem
      subst same
      exact (h.stands fd r i mem reaches here).1.symm
  · exact h.created
  · exact h.twins

theorem reads (h : Knows x k) (nodes : ∀ i, x.1.inodeAt r = some i → x.2.file i.fd = i.key)
    (read : ∀ i, x.1.inodeAt r = some i → fd = i.fd) : Knows x (k.reads fd r) := by
  constructor
  · exact h.keys
  · intro fd' r' i mem reaches here
    rcases mem with same | mem
    · cases same
      obtain rfl := read i here
      exact ⟨nodes i here, .inl rfl⟩
    · exact h.stands fd' r' i mem reaches here
  · exact h.stats
  · exact h.created
  · exact h.twins

/-- The thread reaches less. -/
theorem narrow {k' : Work} (h : Knows x k) (keys : k'.keys = k.keys) (own : k'.own = k.own)
    (stands : k'.stands ⊆ k.stands) (stats : k'.stats ⊆ k.stats) (created : k'.created ⊆ k.created)
    (twins : k'.twins = k.twins)
    (less : ∀ r, k'.Reaches r → (∃ fd, (fd, r) ∈ k'.stands) ∨ (∃ key, (r, key) ∈ k'.stats) ∨
      (∃ fd name, (fd, r, name) ∈ k'.created) → k.Reaches r) :
    Knows x k' where
  keys fd key mem := by
    rw [own]
    rw [keys] at mem
    exact h.keys fd key mem
  stands fd r i mem reaches here := by
    rw [own]
    exact h.stands fd r i (stands mem) (less r reaches (.inl ⟨fd, mem⟩)) here
  stats r key i mem reaches here := h.stats r key i (stats mem) (less r reaches (.inr (.inl ⟨key, mem⟩))) here
  created fd r name i mem reaches here := by
    rw [own]
    exact h.created fd r name i (created mem) (less r reaches (.inr (.inr ⟨fd, name, mem⟩))) here
  twins fd fd' mem := by
    rw [own]
    rw [twins] at mem
    exact h.twins fd fd' mem

theorem found (h : Knows x k) (a : Addr) : Knows x (k.found a) := by
  refine h.narrow rfl rfl (fun p mem => mem.1) (fun p mem => mem.1) (fun p mem => mem.1) rfl fun r reaches used => ?_
  cases r with
  | root => trivial
  | node b =>
      rcases reaches with named | held
      · exact .inl named
      · by_cases same : b = a
        · subst same
          rcases used with ⟨fd, mem⟩ | ⟨key, mem⟩ | ⟨fd, name, mem⟩
          · exact .inr (mem.2 rfl)
          · exact .inr (mem.2 rfl)
          · exact .inr (mem.2 rfl)
        · right
          simpa [Work.found, Pi.single_apply, same] using held

/-- The file that went to the cache is that of its inode, and so is the file of a twin. -/
theorem inserted {r : Inserted} {key : Key} (h : Knows x k) (seen : (fd, key) ∈ k.keys)
    (here : ∀ i, x.1.inodeAt (.node r.addr) = some i → i.key = key) : Knows x (k.inserted fd r) := by
  have kept : Knows x ((if r.fresh then k.lose fd else k).found r.addr) := by
    split
    · exact (h.lose fd).found r.addr
    · exact h.found r.addr
  constructor
  · exact kept.keys
  · intro fd' r' i mem reaches at_
    rcases mem with mem | ⟨same, other, twin⟩
    · exact kept.stands fd' r' i mem reaches at_
    · dsimp only at same other twin
      subst same
      obtain ⟨⟨-, own⟩, file⟩ := h.twins fd fd' twin
      refine ⟨?_, .inr ?_⟩
      · rw [← file, (h.keys fd key seen).2, here i at_]
      · unfold Work.inserted
        split
        · exact ⟨own, other⟩
        · exact own
  · exact kept.stats
  · exact kept.created
  · exact kept.twins

theorem answered (h : Knows x k) : Knows x { k with owed := false } := by
  refine h.narrow rfl rfl subset_rfl subset_rfl subset_rfl rfl fun r reaches _ => ?_
  cases r with
  | root => trivial
  | node a =>
      rcases reaches with ⟨owed, -⟩ | held
      · cases owed
      · exact .inr held

theorem dropShared (h : Knows x k) (a : Addr) : Knows x { k with shared := k.shared - Pi.single a 1 } := by
  refine h.narrow rfl rfl subset_rfl subset_rfl subset_rfl rfl fun r reaches _ => ?_
  cases r with
  | root => trivial
  | node b =>
      rcases reaches with named | held
      · exact .inl named
      · exact .inr (lt_of_lt_of_le held (Nat.sub_le _ _))

theorem takes (h : Knows x k) (u : Unrefed) : Knows x (k.takes u) := by
  rcases u with key | _ | _ | i
  · exact h
  · exact h
  · exact h
  · exact h.gain i.fd

theorem sent (h : Knows x k) (req : FuseReq) (reply : Reply) : Knows x (k.sent req reply) := by
  unfold Work.sent
  split
  · exact h.lose _
  · exact h

end Knows

/-- `stat` tells the file of a descriptor. A name under which a thread has created a file leads
to that file as long as the thread has the descriptor: nobody replaces it before the reply. -/
def Truthful (x : World × FileBooks) : Label calls (FuseReq × Request) → Prop
  | .act _ ⟨.sys (.fstatat fd path _), .ok st⟩ => path = "" → st.key = x.2.file fd
  | .act _ ⟨.sys (.openat dir name _ _), .ok _⟩ => ∀ fd, x.1.fds fd = some .thread →
      x.2.created fd = some (x.2.file dir, name) → x.2.names 0 = x.2.file fd
  | _ => True

/-- The daemon asks for the file of a descriptor, not of a name. -/
theorem Asked.path_eq {m : Means} {request : Request} {path : String} {flag : Flags}
    (asked : Asked m request (.sys (.fstatat fd path flag))) : path = "" := by
  generalize call : Call.sys (.fstatat fd path flag) = c at asked
  cases asked
  case statFound | statEntry | statAttributes =>
      cases call
      rfl
  case fsync same | fsyncdir same =>
      cases call
      split at same <;> cases same
  all_goals cases call

/-- It opens names in the directories of inodes. -/
theorem Asked.stands_directory {m : Means} {request : Request} {name : String} {flags : Flags} {mode : Nat}
    (asked : Asked m request (.sys (.openat fd name flags mode))) : ∃ r, m.stands fd r := by
  generalize call : Call.sys (.openat fd name flags mode) = c at asked
  cases asked
  case find here _ | create here | opendir here =>
      cases call
      exact ⟨_, here⟩
  case fsync same | fsyncdir same =>
      cases call
      split at same <;> cases same
  all_goals cases call

/-- A descriptor of the file of an inode is open. -/
theorem Knows.taken (h : Knows (w, g) k) (agrees : Agrees l k) (inv : Inv w (l ::ₘ f)) (stands : k.Stands fd r) :
    w.fds fd ≠ none := by
  rcases stands with ⟨known, reaches⟩ | ⟨owed, ino, named, lent, -⟩
  · obtain ⟨i, here⟩ := agrees.live inv reaches
    rcases (h.stands fd r i known reaches here).2 with rfl | own
    · exact inv.inode_taken here
    · rw [agrees.owner inv own]
      exact Option.some_ne_none _
  · have mem : fd ∈ l.request.handles := by
      rw [← agrees.request]
      exact Request.mem_handles named lent
    rw [inv.requests.handles l.req l.request (inv.requests.owner (agrees.owed ▸ owed)) fd mem]
    exact Option.some_ne_none _

/-- What is learnt from opening a name. -/
theorem Knows.openedAt {tag : FuseReq × Request} {dir : Fd} {name : String} {flags : Flags} {mode : Nat}
    (h : Knows (w.effect counts (.sys (.openat dir name flags mode)) (.ok fd),
      g.note (.sys (.openat dir name flags mode)) (.ok fd)) k) (agrees : Agrees l k) (inv : Inv w (l ::ₘ f))
    (answers : w.Answers (.sys (.openat dir name flags mode)) (.ok fd))
    (truthful : Truthful (w, g) (.act tag ⟨.sys (.openat dir name flags mode), .ok fd⟩)) (other : fd ≠ dir) :
    Knows (w.effect counts (.sys (.openat dir name flags mode)) (.ok fd),
      g.note (.sys (.openat dir name flags mode)) (.ok fd)) (k.opens dir name flags fd) := by
  have free : w.fds fd = none := answers
  have sameDir : Function.update g.file fd (g.names 0) dir = g.file dir := Function.update_of_ne other.symm ..
  have kept {fd' : Fd} (own : fd' ∈ k.own) : fd' ≠ fd := by
    rintro rfl
    rw [agrees.owner inv own] at free
    cases free
  refine h.opens (fun creat => ?_) (fun fd' own created => ?_) fun r reaches => ?_
  · change Function.update g.created fd _ fd = some (Function.update g.file fd (g.names 0) dir, name)
    rw [Function.update_self, if_pos creat, sameDir]
  · change Function.update g.created fd _ fd' = some (Function.update g.file fd (g.names 0) dir, name) at created
    change Function.update g.file fd (g.names 0) fd = Function.update g.file fd (g.names 0) fd'
    rw [Function.update_of_ne (kept own), sameDir] at created
    rw [Function.update_self, Function.update_of_ne (kept own)]
    exact truthful fd' (agrees.owner inv own) created
  · obtain ⟨i, here⟩ := agrees.live inv reaches
    exact ⟨i, by cases r <;> exact here⟩

/-- What a thread learns from a call is so. -/
theorem Knows.after {tag : FuseReq × Request} {c : Call} {ret : c.Ret}
    (before : Knows (w, g) k) (h : Knows (w.effect counts c ret, g.note c ret) k) (agrees : Agrees l k)
    (inv : Inv w (l ::ₘ f)) (allows : k.Allows c) (answers : w.Answers c ret) (truthful : Truthful (w, g) (.act tag ⟨c, ret⟩))
    (nodes : ∀ r i, w.inodeAt r = some i → g.file i.fd = i.key) :
    Knows (w.effect counts c ret, g.note c ret) (k.after c ret) := by
  cases c with
  | sys s =>
      cases s
      case open_ path flags =>
          cases ret with
          | error e => cases path <;> exact h
          | ok fd =>
              cases path with
              | plain path => exact h.gain fd
              | procSelfFd old =>
                  refine h.reopen ?_
                  change Function.update g.file fd (g.file old) fd = Function.update g.file fd (g.file old) old
                  rw [Function.update_self, Function.update_apply]
                  split <;> rfl
      case openat dir name flags mode =>
          cases ret with
          | error e => exact h
          | ok fd =>
              obtain ⟨r, stands⟩ := (allows.asked rfl).stands_directory
              have free : w.fds fd = none := answers
              refine h.openedAt agrees inv answers truthful fun same => ?_
              rw [same] at free
              exact before.taken agrees inv stands free
      case dup old =>
          cases ret with
          | error e => exact h
          | ok fd => exact h.gain fd
      case close fd byDestructor => exact h.lose fd
      case fdopendir fd => exact h.lose fd
      case fstatat fd path flag =>
          cases ret with
          | error e => exact h
          | ok st => exact h.sawKey (truthful (allows.asked rfl).path_eq)
      case dirfd d =>
          cases ret with
          | error e => exact h
          | ok fd => exact h.narrow rfl rfl subset_rfl subset_rfl subset_rfl rfl fun _ reaches _ => reaches
      all_goals exact h
  | getFD r =>
      refine h.reads (nodes r) fun i here => ?_
      have read : w.Reads r Inode.fd ret := answers
      have here : w.inodeAt r = some i := here
      rw [World.Reads, here] at read
      exact read
  | insert i =>
      refine h.inserted allows.permits fun i' here => ?_
      have stored : (w.effect counts (.insert i) ret).keyAt ret.addr = some i.key := World.keyAt_insert answers
      obtain ⟨n, heap, rfl⟩ := Option.map_eq_some_iff.mp here
      rw [World.keyAt_of_heap heap] at stored
      exact Option.some.inj stored
  | derefDirectory dir | deleteDirectory dir =>
      exact h.narrow rfl rfl subset_rfl subset_rfl subset_rfl rfl fun _ reaches _ => reaches
  | unref site r n => exact h.takes ret
  | dropShared a =>
      have taken := (h.takes ret).dropShared a
      rcases ret with key | _ | _ | i
      · exact taken
      · exact taken
      · exact taken
      · exact taken
  | fuseReply req reply =>
      cases ret with
      | none => exact h.answered.sent req reply
      | some e => exact h.answered
  | abort site => cases ret
  | _ => exact h

/-! The two ledgers of a thread change together. -/

namespace Agrees

theorem same {l' : Ledger} {k' : Work} (h : Agrees l k) (ledger : l.Same l') (request : k'.request = k.request)
    (owed : k'.owed = k.owed) (shared : k'.shared = k.shared) (own : k'.own = k.own) : Agrees l' k' where
  request := request.trans (h.request.trans ledger.request.symm)
  owed := owed.trans (h.owed.trans ledger.owed.symm)
  shared := shared.trans (h.shared.trans ledger.shared.symm)
  own fd mem := by
    rw [ledger.fds]
    rw [own] at mem
    exact h.own fd mem

theorem gain (h : Agrees l k) (fd : Fd) : Agrees { l with fds := l.fds + Pi.single fd 1 } (k.gain fd) where
  request := h.request
  owed := h.owed
  shared := h.shared
  own fd' own := by
    rcases own with rfl | own
    · simp
    · exact lt_of_lt_of_le (h.own fd' own) (Nat.le_add_right _ _)

theorem lose (h : Agrees l k) (fd : Fd) : Agrees { l with fds := l.fds - Pi.single fd 1 } (k.lose fd) where
  request := h.request
  owed := h.owed
  shared := h.shared
  own fd' own := by
    obtain ⟨own, other⟩ := own
    change 0 < (l.fds - Pi.single fd 1 : Fd → Nat) fd'
    rw [Pi.sub_apply, Pi.single_eq_of_ne other]
    exact h.own fd' own

theorem takes (h : Agrees l k) (u : Unrefed) : Agrees { l with fds := l.fds + u.fds } (k.takes u) := by
  rcases u with key | _ | _ | i
  · exact h
  · exact h
  · exact h
  · exact h.gain i.fd

theorem sent (h : Agrees l k) (req : FuseReq) (reply : Reply) : Agrees (l.sent req reply) (k.sent req reply) := by
  have fds (fd : Fd) (mem : fd ∈ (k.sent req reply).own) : 0 < (l.sent req reply).fds fd := by
    change 0 < l.fds fd - if reply.handle req = some fd then 1 else 0
    unfold Work.sent at mem
    split at mem
    · next fd' handle =>
        obtain ⟨own, other⟩ := mem
        have kept : ¬ reply.handle req = some fd := by
          rw [handle, Option.some.injEq]
          exact fun same => other same.symm
        rw [if_neg kept]
        exact h.own fd own
    · next nothing =>
        rw [nothing, if_neg (by simp)]
        exact h.own fd mem
  unfold Work.sent at fds ⊢
  split at fds
  · exact ⟨h.request, h.owed, h.shared, fds⟩
  · exact ⟨h.request, h.owed, h.shared, fds⟩

theorem after {c : Call} {ret : c.Ret} (h : Agrees l k) (allows : l.Allows c) :
    Agrees (l.after c ret) (k.after c ret) := by
  have permits := allows.permits
  have kept : Agrees l k := h
  cases c with
  | sys s =>
      cases s
      case open_ path flags =>
          cases ret with
          | error e => cases path <;> exact h
          | ok fd =>
              cases path with
              | plain path => exact h.gain fd
              | procSelfFd old => exact ⟨h.request, h.owed, h.shared, (h.gain fd).own⟩
      case openat dir name flags mode =>
          cases ret with
          | error e => exact h
          | ok fd => exact ⟨h.request, h.owed, h.shared, (h.gain fd).own⟩
      case dup old =>
          cases ret with
          | error e => exact h
          | ok fd => exact h.gain fd
      case close fd byDestructor => exact h.lose fd
      case fdopendir fd => exact h.lose fd
      case fstatat | dirfd =>
          cases ret with
          | error e => exact h
          | ok _ => exact ⟨h.request, h.owed, h.shared, h.own⟩
      all_goals exact h
  | getFD r => exact ⟨h.request, h.owed, h.shared, h.own⟩
  | derefDirectory dir | deleteDirectory dir => exact ⟨h.request, h.owed, h.shared, h.own⟩
  | getSourceDevice r => exact ⟨h.request, h.owed, h.shared, h.own⟩
  | getGeneration r =>
      cases r with
      | root => exact h
      | node a => exact h.same (.sawGeneration l a ret) rfl rfl rfl rfl
  | setGeneration r v =>
      cases r with
      | root => exact h
      | node a => exact h.same (.sawGeneration l a (some v)) rfl rfl rfl rfl
  | insert i =>
      have shared : k.shared + Pi.single ret.addr 1 = l.shared + Pi.single ret.addr 1 := by rw [h.shared]
      cases fresh : ret.fresh with
      | true =>
          have lost := h.lose i.fd
          refine ⟨?_, ?_, ?_, ?_⟩
          all_goals simp only [Work.after, Work.inserted, Ledger.after, fresh, if_true]
          · exact lost.request
          · exact lost.owed
          · exact shared
          · exact lost.own
      | false =>
          refine ⟨?_, ?_, ?_, ?_⟩
          all_goals simp only [Work.after, Work.inserted, Ledger.after, fresh, Bool.false_eq_true, if_false]
          · exact h.request
          · exact h.owed
          · exact shared
          · exact h.own
  | ref r n =>
      cases r with
      | root => exact h
      | node a => exact ⟨h.request, h.owed, h.shared, h.own⟩
  | unref site r n =>
      have taken := h.takes ret
      cases site with
      | cleanup =>
          obtain ⟨a, rfl, -⟩ := permits
          exact ⟨taken.request, taken.owed, taken.shared, taken.own⟩
      | forget =>
          obtain ⟨a, rfl, -⟩ := permits
          exact ⟨taken.request, taken.owed, taken.shared, taken.own⟩
  | dropShared a =>
      have taken := h.takes ret
      refine ⟨taken.request, taken.owed, ?_, taken.own⟩
      change k.shared - _ = l.shared - _
      rw [h.shared]
  | fuseReply req reply =>
      have answered : Agrees { l with owed := false } { k with owed := false } := ⟨h.request, rfl, h.shared, h.own⟩
      cases ret with
      | none => exact answered.sent req reply
      | some e => exact answered
  | abort site => cases ret
  | _ => exact h

end Agrees

/-- What the observer knows of the request of a thread. -/
structure Asks (g : FileBooks) (l : Ledger) (k : Work) : Prop where
  asked : k.owed = true → g.asked l.req = k.request.names
  lent : k.owed = true → ∀ ino fd, k.request.handleOf = some (ino, fd) → k.request.released = none →
    g.handles fd = some (getInode ino)

/-- An open file handle is of the file whose id the kernel has opened. -/
structure Handled (x : World × FileBooks) (fd : Fd) (r : InodeRef) : Prop where
  owner : x.1.fds fd = some .handle
  known : ∀ a, r = .node a → 0 < x.1.nlookup a
  file : ∀ i, x.1.inodeAt r = some i → x.2.file fd = i.key

/-- A reply delivers a descriptor of its own thread. -/
theorem Ledger.Allows.delivered {c : Call} {ret : c.Ret} {o : Option InodeRef} (allows : l.Allows c)
    (inv : Inv w (l ::ₘ f)) (delivery : g.Delivery ⟨c, ret⟩ fd o) : w.fds fd = some .thread := by
  obtain ⟨req, reply, event, handle⟩ := delivery.handle
  cases event
  have may : l.MayReply req reply := allows.permits
  exact inv.descriptors.held (may.handle fd handle)

theorem Asks.effect {c : Call} {ret : c.Ret} (h : Asks g l k) (agrees : Agrees l k) (inv : Inv w (l ::ₘ f))
    (own : ∀ fd o, g.Delivery ⟨c, ret⟩ fd o → w.fds fd = some .thread) : Asks (g.note c ret) l k := by
  constructor
  · intro owed
    rw [g.asked_note]
    exact h.asked owed
  · intro owed ino fd named lent
    have here := h.lent owed ino fd named lent
    rcases g.handles_note c ret with same | ⟨fd', o, delivery, new⟩
    · rw [same]
      exact here
    · have mem : fd ∈ l.request.handles := by
        rw [← agrees.request]
        exact Request.mem_handles named lent
      have owner := inv.requests.handles l.req l.request (inv.requests.owner (agrees.owed ▸ owed)) fd mem
      have other : fd ≠ fd' := by
        rintro rfl
        rw [own fd o delivery] at owner
        cases owner
      rw [new, Function.update_of_ne other]
      exact here

theorem Asks.after {c : Call} {ret : c.Ret} (h : Asks g l k) (agrees : Agrees l k)
    (agrees' : Agrees (l.after c ret) (k.after c ret)) : Asks g (l.after c ret) (k.after c ret) := by
  have req : (l.after c ret).req = l.req := congrArg Prod.fst (l.tag_after c ret)
  have request : (k.after c ret).request = k.request := by
    rw [agrees'.request, agrees.request]
    exact congrArg Prod.snd (l.tag_after c ret)
  have before (owed : (k.after c ret).owed = true) : k.owed = true := by
    rw [agrees'.owed] at owed
    rw [agrees.owed]
    exact Ledger.owed_after owed
  constructor
  · intro owed
    rw [req, request]
    exact h.asked (before owed)
  · intro owed
    rw [request]
    exact h.lent (before owed)

/-- The kernel keeps its handles, whatever a thread calls. -/
theorem Inv.keeps_handle {c : Call} {ret : c.Ret} (inv : Inv w (l ::ₘ f)) (allows : l.Allows c)
    (answers : w.Answers c ret) (owner : w.fds fd = some .handle) :
    (w.effect counts c ret).fds fd = some .handle := by
  rcases inv.transfers allows answers with ⟨same, -⟩ | ⟨fd', o, new, transfer⟩
  · rw [same]
    exact owner
  · have other : fd ≠ fd' := by
      rintro rfl
      rw [owner] at transfer
      cases transfer
    rw [new, Function.update_of_ne other]
    exact owner

theorem World.nlookup_grows (w : World) (counts : String → Bool) (c : Call) (ret : c.Ret) (a : Addr) :
    w.nlookup a ≤ (w.effect counts c ret).nlookup a := by
  by_cases replies : ∃ req reply, c = .fuseReply req reply
  · obtain ⟨req, reply, rfl⟩ := replies
    cases ret with
    | some e => exact le_refl _
    | none =>
        simp only [effect, receive]
        split
        · exact Nat.le_add_right _ _
        · exact Nat.le_add_right _ _
  · have frame := frame_effect (w := w) counts c ret fun req reply same => replies ⟨req, reply, same⟩
    rw [frame.nlookup]

/-- A reply with a handle makes it the kernel's. -/
theorem World.fds_delivered {req : FuseReq} {reply : Reply} (handle : reply.handle req = some fd) :
    (w.effect counts (.fuseReply req reply) none).fds fd = some .handle := by
  simp only [effect, receive, handle, own, Function.update_self]

/-- The inode of an open file is in the cache. -/
theorem Handled.live (h : Handled x fd r) (inv : Inv x.1 f) : ∃ i, x.1.inodeAt r = some i := by
  cases r with
  | root => exact ⟨x.1.root, rfl⟩
  | node a =>
      obtain ⟨e, view⟩ := World.view_of_refcnt (inv.counts.nlookup_pos (h.known a rfl))
      obtain ⟨n, heap, -⟩ := InodeCache.heap_of_view view
      exact ⟨n.inode, by simp [World.inodeAt, heap]⟩

theorem Handled.effect {c : Call} {ret : c.Ret} (h : Handled (w, g) fd r) (inv : Inv w (l ::ₘ f))
    (allows : l.Allows c) (answers : w.Answers c ret) : Handled (w.effect counts c ret, g.note c ret) fd r := by
  constructor
  · exact inv.keeps_handle allows answers h.owner
  · intro a same
    exact (h.known a same).trans_le (w.nlookup_grows counts c ret a)
  · intro i' after
    have taken : w.fds fd ≠ none := by
      rw [h.owner]
      exact Option.some_ne_none _
    have file : (g.note c ret).file fd = g.file fd := FileBooks.file_note answers taken
    rcases World.inodeAt_effect counts c ret after with ⟨i, here, -, same⟩ | ⟨gone, -⟩
    · exact (file.trans (h.file i here)).trans same.symm
    · obtain ⟨i, here⟩ := h.live inv
      dsimp only at here
      rw [gone] at here
      cases here

/-- The handle that a reply delivers is of the file that the request has opened. -/
theorem FileBooks.Delivery.handled {c : Call} {ret : c.Ret} {o : Option InodeRef}
    (delivery : g.Delivery ⟨c, ret⟩ fd o) (opened : o = some r) (inv : Inv w (l ::ₘ f)) (allows : l.Allows c)
    (works : k.Allows c) (agrees : Agrees l k) (asks : Asks g l k)
    (knows : Knows (w.effect counts c ret, g.note c ret) k) :
    Handled (w.effect counts c ret, g.note c ret) fd r := by
  cases delivery with
  | @open_ req fi other =>
      have may : l.MayReply req (.openFile fi) := allows.permits
      have owed : k.owed = true := agrees.owed.trans may.owed
      obtain ⟨own, ino, info, request, stands⟩ : fi.fh ∈ k.own ∧ ∃ ino info, k.request = .open_ ino info ∧
          (fi.fh, getInode ino) ∈ k.stands := works.permits.2.resolve_left other
      have named : ino ∈ k.request.names := by
        rw [request]
        exact List.mem_cons_self
      have here : r = getInode ino := by
        have asked := asks.asked owed
        rw [← may.own, request] at asked
        rw [asked] at opened
        exact (Option.some.inj opened).symm
      subst here
      constructor
      · exact World.fds_delivered (if_neg other)
      · intro a same
        unfold getInode at same
        split at same
        · cases same
        · next notRoot =>
            cases same
            rw [agrees.request] at named
            have known := inv.requests.names l.req l.request (inv.requests.owner may.owed) ino named notRoot
            exact known.trans_le (w.nlookup_grows counts _ _ ino)
      · intro i here
        exact (knows.stands fi.fh (getInode ino) i stands (Work.reaches_getInode owed named) here).1
  | @create req param fi =>
      cases opened
      obtain ⟨describes, -, stands⟩ := works.permits
      have held := (describes param List.mem_cons_self).1
      have handle : Reply.handle req (.create param fi) = some fi.fh := rfl
      constructor
      · exact World.fds_delivered handle
      · rintro a ⟨⟩
        have counted : (w.effect counts (.fuseReply req (.create param fi)) none).nlookup param.ino =
            w.nlookup param.ino + 1 := by
          simp [World.effect, World.receive, World.own, Reply.handle, Reply.counted]
        change 0 < (w.effect counts (.fuseReply req (.create param fi)) none).nlookup param.ino
        omega
      · intro i here
        exact (knows.stands fi.fh _ i stands (.inr held) here).1

/-- A descriptor that comes to a thread is none of those it has. -/
theorem Agrees.expects {c : Call} {ret : c.Ret} (agrees : Agrees l k) (inv : Inv w (l ::ₘ f)) (allows : l.Allows c)
    (answers : w.Answers c ret) : k.Expects c ret := by
  have free {fd : Fd} (free : w.fds fd = none) : fd ∉ k.own := by
    intro own
    rw [agrees.owner inv own] at free
    cases free
  have erased {a : Addr} {n : Nat} {i : Inode} (unrefs : w.Unrefs (.node a) n (.dropped (some i))) (pos : 0 < n)
      (le : n ≤ w.refcnt a) : i.fd ∉ k.own := by
    intro own
    obtain ⟨e, inodes, view, ⟨-, -, ⟨i', same, dropped⟩, -⟩ | ⟨-, -, kept, -⟩⟩ := World.unref_cases unrefs pos le
    · cases dropped
      have owner : w.fds e.fd = some (.inode a) := (inv.descriptors.inode a e.fd).mpr (by rw [view]; rfl)
      rw [← same, agrees.owner inv own] at owner
      cases owner
    · cases kept
  have permits := allows.permits
  cases c with
  | sys s =>
      cases s
      case open_ | openat | dup =>
          cases ret with
          | error e => trivial
          | ok fd => exact free answers
      all_goals trivial
  | unref site r n =>
      rcases ret with key | _ | _ | i
      · trivial
      · trivial
      · trivial
      · cases site with
        | cleanup =>
            obtain ⟨a, rfl, pos, le⟩ := permits
            have counted := inv.counts.held a
            exact erased answers pos (by omega)
        | forget =>
            obtain ⟨a, rfl, pos, le⟩ := permits
            have counted := inv.counts.held a
            exact erased answers pos (by omega)
  | dropShared a =>
      rcases ret with key | _ | _ | i
      · trivial
      · trivial
      · trivial
      · have held : 0 < l.shared a := permits
        have counted := inv.counts.held a
        exact erased answers Nat.one_pos (by omega)
  | _ => trivial

/-! The books of files are right in every configuration. -/

/-- Neither the inodes nor the files have changed. -/
theorem Knows.same {x' : World × FileBooks} (h : Knows x k) (inodes : ∀ r, x'.1.inodeAt r = x.1.inodeAt r)
    (file : x'.2.file = x.2.file) (created : ∀ fd ∈ k.own, x'.2.created fd = x.2.created fd) : Knows x' k where
  keys fd key mem := by
    rw [file]
    exact h.keys fd key mem
  stands fd r i mem reaches here := by
    rw [file]
    rw [inodes] at here
    exact h.stands fd r i mem reaches here
  stats r key i mem reaches here := by
    rw [inodes] at here
    exact h.stats r key i mem reaches here
  created fd r name i mem reaches here := by
    rw [inodes] at here
    obtain ⟨own, named⟩ := h.created fd r name i mem reaches here
    exact ⟨own, (created fd own).trans named⟩
  twins fd fd' mem := by
    rw [file]
    exact h.twins fd fd' mem

/-- A thread that has just come knows nothing. -/
theorem Knows.opening (tag : FuseReq × Request) : Knows x (.opening tag) where
  keys _ _ mem := absurd mem (Set.notMem_empty _)
  stands _ _ _ mem := absurd mem (Set.notMem_empty _)
  stats _ _ _ mem := absurd mem (Set.notMem_empty _)
  created _ _ _ _ mem := absurd mem (Set.notMem_empty _)
  twins _ _ mem := absurd mem (Set.notMem_empty _)

/-- The nodes, the kernel's handles and what the threads know. -/
structure Filed (x : World × FileBooks) (f : Multiset (Ledger × Work)) : Prop where
  nodes : ∀ r i, x.1.inodeAt r = some i → x.2.file i.fd = i.key
  handles : ∀ fd r, x.2.handles fd = some r → Handled x fd r
  agrees : ∀ p ∈ f, Agrees p.1 p.2
  knows : ∀ p ∈ f, Knows x p.2
  asks : ∀ p ∈ f, Asks x.2 p.1 p.2

/-- The invariant seen from any one thread. -/
theorem Inv.at {f : Multiset (Ledger × Work)} {p : Ledger × Work} (inv : Inv w (f.map Prod.fst)) (mem : p ∈ f) :
    ∃ rest, Inv w (p.1 ::ₘ rest) := by
  obtain ⟨rest, rfl⟩ := Multiset.exists_cons_of_mem mem
  rw [Multiset.map_cons] at inv
  exact ⟨_, inv⟩

namespace Filed

variable {f : Multiset (Ledger × Work)}

theorem act {tag : FuseReq × Request} {c : Call} {ret : c.Ret} (h : Filed (w, g) ((l, k) ::ₘ f))
    (inv : Inv w (l ::ₘ f.map Prod.fst)) (allows : l.Allows c) (works : k.Allows c) (answers : w.Answers c ret)
    (truthful : Truthful (w, g) (.act tag ⟨c, ret⟩)) :
    Filed (w.effect counts c ret, g.note c ret) ((l.after c ret, k.after c ret) ::ₘ f) := by
  have mine : (l, k) ∈ (l, k) ::ₘ f := Multiset.mem_cons_self _ _
  have agrees := h.agrees _ mine
  have agrees' : Agrees (l.after c ret) (k.after c ret) := agrees.after allows
  have all : Inv w (((l, k) ::ₘ f).map Prod.fst) := by
    rw [Multiset.map_cons]
    exact inv
  have knows (p : Ledger × Work) (mem : p ∈ (l, k) ::ₘ f) : Knows (w.effect counts c ret, g.note c ret) p.2 := by
    obtain ⟨rest, inv⟩ := all.at mem
    exact (h.knows p mem).effect (h.agrees p mem) inv answers
  have asks (p : Ledger × Work) (mem : p ∈ (l, k) ::ₘ f) : Asks (g.note c ret) p.1 p.2 := by
    obtain ⟨rest, inv'⟩ := all.at mem
    exact (h.asks p mem).effect (h.agrees p mem) inv' fun fd o delivery => allows.delivered inv delivery
  constructor
  · intro r i' after
    rcases World.inodeAt_effect counts c ret after with ⟨i, here, sameFd, sameKey⟩ | ⟨-, rfl⟩
    · rw [sameFd, sameKey, ← h.nodes r i here]
      exact FileBooks.file_note answers (inv.inode_taken here)
    · have seen : (i'.fd, i'.key) ∈ k.keys := works.permits
      exact ((h.knows _ mine).keys _ _ seen).2
  · intro fd r opened
    change (g.note c ret).handles fd = some r at opened
    rcases g.handles_note c ret with same | ⟨fd', o, delivery, new⟩
    · rw [same] at opened
      exact (h.handles fd r opened).effect inv allows answers
    · rw [new, Function.update_apply] at opened
      split at opened
      · next here =>
          subst here
          exact delivery.handled opened inv allows works agrees (h.asks _ mine) (knows _ mine)
      · exact (h.handles fd r opened).effect inv allows answers
  · intro p mem
    rcases Multiset.mem_cons.mp mem with rfl | mem
    · exact agrees'
    · exact h.agrees p (Multiset.mem_cons_of_mem mem)
  · intro p mem
    rcases Multiset.mem_cons.mp mem with rfl | mem
    · exact (h.knows _ mine).after (knows _ mine) agrees inv works answers truthful h.nodes
    · exact knows p (Multiset.mem_cons_of_mem mem)
  · intro p mem
    rcases Multiset.mem_cons.mp mem with rfl | mem
    · exact (asks _ mine).after agrees agrees'
    · exact asks p (Multiset.mem_cons_of_mem mem)

theorem arrived {g' : FileBooks} {tag : FuseReq × Request} (opts : Options) (h : Filed (w, g) f)
    (inv : Inv w (f.map Prod.fst)) (send : w.MaySend tag.1 tag.2) (comes : FileBooks.comes w tag g g') :
    Filed (w.arrive tag.1 tag.2, g') ((.opening opts tag, .opening tag) ::ₘ f) := by
  obtain ⟨named, rfl, remembered⟩ := comes
  have inodes (r : InodeRef) : (w.arrive tag.1 tag.2).inodeAt r = w.inodeAt r := w.inodeAt_arrive tag.1 tag.2 r
  have unreleased {fd : Fd} {r : InodeRef} (opened : (if tag.2.released = some fd then none else g.handles fd) = some r) :
      tag.2.released ≠ some fd ∧ g.handles fd = some r := by
    split at opened
    · cases opened
    · next kept => exact ⟨kept, opened⟩
  constructor
  · intro r i here
    exact h.nodes r i (inodes r ▸ here)
  · intro fd r opened
    obtain ⟨kept, was⟩ := unreleased opened
    have handled := h.handles fd r was
    constructor
    · change (w.arrive tag.1 tag.2).fds fd = some .handle
      rw [World.fds_arrive]
      cases released : tag.2.released with
      | none => exact handled.owner
      | some fd' =>
          have other : fd ≠ fd' := by
            rintro rfl
            exact kept released
          exact (Function.update_of_ne other ..).trans handled.owner
    · intro a same
      subst same
      exact remembered fd a opened
    · intro i here
      exact handled.file i (inodes r ▸ here)
  · intro p mem
    rcases Multiset.mem_cons.mp mem with rfl | mem
    · refine ⟨rfl, rfl, rfl, fun fd own => ?_⟩
      have own : tag.2.released = some fd := own
      simp [Ledger.opening, own]
    · exact h.agrees p mem
  · intro p mem
    rcases Multiset.mem_cons.mp mem with rfl | mem
    · exact .opening tag
    · refine (h.knows p mem).same inodes rfl fun fd own => if_neg fun released => ?_
      obtain ⟨rest, inv⟩ := inv.at mem
      have owner := (h.agrees p mem).owner inv own
      rw [(send.released fd released).1] at owner
      cases owner
  · intro p mem
    rcases Multiset.mem_cons.mp mem with rfl | mem
    · refine ⟨fun _ => Function.update_self .., fun _ ino fd handle lent => ?_⟩
      have kept : tag.2.released ≠ some fd := by
        rw [show tag.2.released = none from lent]
        simp
      change (if tag.2.released = some fd then none else g.handles fd) = _
      rw [if_neg kept]
      exact named ino fd handle
    · have asks := h.asks p mem
      have agrees := h.agrees p mem
      obtain ⟨rest, inv⟩ := inv.at mem
      have pending (owed : p.2.owed = true) : w.pending p.1.req = some p.1.request :=
        inv.requests.owner (agrees.owed ▸ owed)
      constructor
      · intro owed
        have other : p.1.req ≠ tag.1 := by
          intro same
          have waiting := pending owed
          rw [same, send.fresh] at waiting
          cases waiting
        exact (Function.update_of_ne other ..).trans (asks.asked owed)
      · intro owed ino fd handle lent
        have kept : tag.2.released ≠ some fd := by
          intro released
          apply (send.released fd released).2 _ _ (pending owed)
          rw [← agrees.request]
          exact Request.mem_handles handle lent
        change (if tag.2.released = some fd then none else g.handles fd) = _
        rw [if_neg kept]
        exact asks.lent owed ino fd handle lent

theorem leaves {p : Ledger × Work} (h : Filed (w, g) (p ::ₘ f)) (r : Request) : Filed (w.depart r, g) f where
  nodes ref i here := by
    apply h.nodes ref i
    cases ref <;> exact here
  handles fd ref opened :=
    have handled := h.handles fd ref opened
    ⟨handled.owner, handled.known, fun i here => handled.file i (by cases ref <;> exact here)⟩
  agrees q mem := h.agrees q (Multiset.mem_cons_of_mem mem)
  knows q mem :=
    (h.knows q (Multiset.mem_cons_of_mem mem)).same (fun ref => by cases ref <;> rfl) rfl fun _ _ => rfl
  asks q mem := h.asks q (Multiset.mem_cons_of_mem mem)

end Filed

/-! The daemon with the observer of files beside it. -/

def FileBooks.initial (root : Inode) (files : Fd → Key) (names : Nat → Key) : FileBooks where
  file := Function.update files root.fd root.key
  names := names
  created := fun _ => none
  handles := fun _ => none
  asked := fun _ => []

section Runs
variable {root : Inode} {pipes : Fd → Bool} {files : Fd → Key} {names : Nat → Key}

/-- The daemon and the kernel, with the books on files. -/
def filed (fs : PageAlignFS) (counts : String → Bool) :
    Machine calls (World × FileBooks) (FuseReq × Request) (Status × FuseRequest) :=
  (daemon fs counts).observed FileBooks.comes FileBooks.note

/-- A thread with the calls that it has made. -/
abbrev Recording := Thread calls (FuseReq × Request) (Status × FuseRequest) × List (Event calls)

abbrev FiledDaemon := Config calls (World × FileBooks) (FuseReq × Request) (Status × FuseRequest)

theorem Filed.initial (root : Inode) (pipes : Fd → Bool) (files : Fd → Key) (names : Nat → Key) :
    Filed (.initial root pipes, .initial root files names) 0 where
  nodes r i here := by
    cases r with
    | root =>
        cases here
        exact Function.update_self ..
    | node a => cases here
  handles fd r opened := by cases opened
  agrees p mem := absurd mem (Multiset.notMem_zero p)
  knows p mem := absurd mem (Multiset.notMem_zero p)
  asks p mem := absurd mem (Multiset.notMem_zero p)

/-- All three sets of books. -/
def filekeeping (fs : PageAlignFS) (counts : String → Bool) :
    Protocol (filed fs counts) Truthful (Ledger × Work) :=
  ((bookkeeping fs counts).observed FileBooks.comes FileBooks.note).extend (fun _ _ _ => trivial) filing
    Work.opening (fun _ => True) Filed
    (by
      rintro ⟨w, g⟩ tag p ⟨w', g'⟩ f ⟨⟨send, rfl, handler, served, rfl⟩, comes⟩ - inv h
      exact ⟨Filing.follows_serve served send.opcode _, h.arrived fs.opts inv send comes⟩)
    (by
      rintro ⟨w, g⟩ ⟨w', g'⟩ l k f c r allows works ⟨⟨answers, rfl⟩, rfl⟩ truthful inv h
      have agrees := h.agrees _ (Multiset.mem_cons_self _ _)
      exact ⟨agrees.expects inv allows answers, h.act inv allows works answers truthful⟩)
    (by
      rintro ⟨w, g⟩ l k f - - - h
      exact h.leaves l.request)

theorem filekeeping_holds {s : FiledDaemon}
    (run : (filed fs counts).Reach Truthful (.initial root pipes, .initial root files names) s) :
    (filekeeping fs counts).Holds s := by
  refine Protocol.holds_of_reach (filekeeping fs counts) ⟨?_, Filed.initial root pipes files names⟩ run
  rw [Multiset.map_zero]
  exact Inv.initial root pipes

/-- An open descriptor of the file that an inode stands for. -/
def IsOf (x : World × FileBooks) (fd : Fd) (r : InodeRef) : Prop :=
  x.1.fds fd ≠ none ∧ ∃ i, x.1.inodeAt r = some i ∧ x.2.file fd = i.key

/-- What a thread has to show for the calls that it has made. -/
def workOf (tag : FuseReq × Request) (done : List (Event calls)) : Work := filing.run (.opening tag) done

/-- What a thread that has made these calls may use: open descriptors of the files that the
inodes stand for, and what its calls have opened or told. -/
def meansOf (x : World × FileBooks) (tag : FuseReq × Request) (done : List (Event calls)) : Means where
  stands := IsOf x
  own fd := fd ∈ (workOf tag done).own ∧ x.1.fds fd = some .thread
  holds a := 0 < (workOf tag done).shared a
  stream d := d ∈ (workOf tag done).streams
  streamFd fd := fd ∈ (workOf tag done).streamFds

/-- Whatever is about to be done for a request is what it asks for, done to the files that the
ids in it stand for. -/
def ServiceAsked (x : World × FileBooks) (ps : List Recording) : Prop :=
  ∀ p ∈ ps, ∀ c next, p.1.prog = .call c next → c.serves = true → Asked (meansOf x p.1.tag p.2) p.1.tag.2 c

/-- What a thread knows of a descriptor is so. -/
theorem Filed.isOf {f : Multiset (Ledger × Work)} (h : Filed x ((l, k) ::ₘ f)) (inv : Inv x.1 (l ::ₘ f.map Prod.fst))
    (stands : k.Stands fd r) : IsOf x fd r := by
  have mine : (l, k) ∈ (l, k) ::ₘ f := Multiset.mem_cons_self _ _
  have agrees := h.agrees _ mine
  rcases stands with ⟨known, reaches⟩ | ⟨owed, ino, named, lent, rfl⟩
  · obtain ⟨i, here⟩ := agrees.live inv reaches
    obtain ⟨file, whose⟩ := (h.knows _ mine).stands fd r i known reaches here
    refine ⟨?_, i, here, file⟩
    rcases whose with rfl | own
    · exact inv.inode_taken here
    · rw [agrees.owner inv own]
      exact Option.some_ne_none _
  · have opened := (h.asks _ mine).lent owed ino fd named lent
    have handled := h.handles fd (getInode ino) opened
    obtain ⟨i, here⟩ := handled.live inv
    exact ⟨by rw [handled.owner]; exact Option.some_ne_none _, i, here, handled.file i here⟩

/-- What a thread may use is there to be used. -/
theorem Filed.within {f : Multiset (Ledger × Work)} {tag : FuseReq × Request} {done : List (Event calls)}
    (h : Filed x ((l, workOf tag done) ::ₘ f)) (inv : Inv x.1 (l ::ₘ f.map Prod.fst)) :
    (workOf tag done).means.Within (meansOf x tag done) := by
  have agrees := h.agrees _ (Multiset.mem_cons_self _ _)
  exact ⟨fun fd r stands => h.isOf inv stands, fun fd own => ⟨own, agrees.owner inv own⟩, fun _ here => here,
    fun _ here => here, fun _ here => here⟩

/-- The second ledger of a thread is what it has to show for its calls. -/
theorem ledger_filekeeping (p : Recording) : (filekeeping fs counts).ledger p =
    ((bookkeeping fs counts).D.run (.opening fs.opts p.1.tag) p.2, workOf p.1.tag p.2) :=
  Discipline.run_prod ..

theorem filekeeping_recorded {ps : List Recording}
    (run : (filed fs counts).Recorded Truthful (.initial root pipes, .initial root files names) x ps) :
    (∀ p ∈ ps, Protocol.Owns (filekeeping fs counts) p.1 ((filekeeping fs counts).ledger p)) ∧
      (filekeeping fs counts).Inv x (ps.map (filekeeping fs counts).ledger : List _) := by
  refine Protocol.holds_of_recorded (filekeeping fs counts) ⟨?_, Filed.initial root pipes files names⟩ run
  rw [Multiset.map_zero]
  exact Inv.initial root pipes

/-- One thread of a recorded run among the others. -/
theorem filekeeping_at {ps : List Recording} {p : Recording}
    (run : (filed fs counts).Recorded Truthful (.initial root pipes, .initial root files names) x ps) (mem : p ∈ ps) :
    ∃ l f, (l.req, l.request) = p.1.tag ∧ Filed x ((l, workOf p.1.tag p.2) ::ₘ f) ∧ Inv x.1 (l ::ₘ f.map Prod.fst) ∧
      ∀ c next, p.1.prog = .call c next → (workOf p.1.tag p.2).Allows c := by
  obtain ⟨owns, inv, filed⟩ := filekeeping_recorded run
  have own := owns p mem
  obtain ⟨pre, post, rfl⟩ := List.append_of_mem mem
  rw [Protocol.coe_map_middle, ledger_filekeeping] at inv filed
  rw [Multiset.map_cons] at inv
  rw [ledger_filekeeping] at own
  exact ⟨_, _, own.tag, filed, inv, fun c next prog => (own.allows prog).2⟩

/-- In every run of any number of requests, in whatever order their steps are taken. -/
theorem service_asked {ps : List Recording}
    (run : (filed fs counts).Recorded Truthful (.initial root pipes, .initial root files names) x ps) :
    ServiceAsked x ps := by
  intro p mem c next prog serves
  obtain ⟨l, f, tag, filed, inv, works⟩ := filekeeping_at run mem
  have request : (workOf p.1.tag p.2).request = p.1.tag.2 := by
    rw [(filed.agrees _ (Multiset.mem_cons_self _ _)).request, ← tag]
  rw [← request]
  exact ((works c next prog).asked serves).mono (filed.within inv)

/-- The attributes that are about to be sent with an id are those of the file it stands for. -/
def RepliesDescribe (s : FiledDaemon) : Prop :=
  ∀ t ∈ s.threads, ∀ req reply next, t.prog = .call (.fuseReply req reply) next →
    (∀ param ∈ reply.params, ∃ i, s.world.1.inodeAt (.node param.ino) = some i ∧ param.attr.key = i.key) ∧
      ∀ st timeout, reply = .attr st timeout →
        ∃ ino ∈ t.tag.2.names, ∃ i, s.world.1.inodeAt (getInode ino) = some i ∧ st.key = i.key

theorem replies_describe {s : FiledDaemon}
    (run : (filed fs counts).Reach Truthful (.initial root pipes, .initial root files names) s) : RepliesDescribe s := by
  intro t mem req reply next prog
  obtain ⟨⟨l, k⟩, f, owns, inv, filed⟩ := (filekeeping_holds run).of_mem mem
  obtain ⟨allows, works⟩ := owns.allows prog
  have tag : (l.req, l.request) = t.tag := owns.tag
  rw [Multiset.map_cons] at inv
  have mine : (l, k) ∈ (l, k) ::ₘ f := Multiset.mem_cons_self _ _
  have agrees := filed.agrees _ mine
  have knows := filed.knows _ mine
  have may : l.MayReply req reply := allows.permits
  constructor
  · intro param mem
    obtain ⟨held, described⟩ := works.permits.1 param mem
    have reaches : k.Reaches (.node param.ino) := .inr held
    obtain ⟨i, here⟩ := agrees.live inv reaches
    exact ⟨i, here, (knows.stats _ _ i described reaches here).symm⟩
  · rintro st timeout rfl
    obtain ⟨ino, named, described⟩ := works.permits.2
    have reaches := Work.reaches_getInode (agrees.owed.trans may.owed) named
    obtain ⟨i, here⟩ := agrees.live inv reaches
    have request : t.tag.2 = k.request := by rw [agrees.request, ← tag]
    rw [request]
    exact ⟨ino, named, i, here, (knows.stats _ _ i described reaches here).symm⟩

/-- The descriptors that a thread may put into a call: those that its own calls have opened, those
that the kernel has lent it, those of the root and of the inodes in the cache, and the one that
`dirfd` has told it. -/
def Rightful (w : World) (request : Request) (k : Work) (fd : Fd) : Prop :=
  (fd ∈ k.own ∧ w.fds fd = some .thread) ∨ (fd ∈ request.handles ∧ w.fds fd = some .handle) ∨ w.IsPathFd fd ∨
    fd ∈ k.streamFds

/-- The calls that each thread has made give it a right to every descriptor of its next call; what
they have opened is open, and not what those of another thread have opened. -/
structure Apart (w : World) (ps : List Recording) : Prop where
  rightful : ∀ p ∈ ps, ∀ c next, p.1.prog = .call c next → ∀ fd ∈ c.uses,
    Rightful w p.1.tag.2 (workOf p.1.tag p.2) fd
  opened : ∀ p ∈ ps, ∀ fd ∈ (workOf p.1.tag p.2).own, w.fds fd = some .thread
  disjoint : ps.Pairwise fun p q => Disjoint (workOf p.1.tag p.2).own (workOf q.1.tag q.2).own

/-- What a thread may name is its own, or belongs to what it reaches or was lent. -/
theorem Filed.rightful {f : Multiset (Ledger × Work)} (h : Filed x ((l, k) ::ₘ f))
    (inv : Inv x.1 (l ::ₘ f.map Prod.fst)) (may : k.MayName fd) : Rightful x.1 l.request k fd := by
  have mine : (l, k) ∈ (l, k) ::ₘ f := Multiset.mem_cons_self _ _
  have agrees := h.agrees _ mine
  rcases may with own | ⟨r, known, reaches⟩ | ⟨owed, lent⟩ | stream
  · exact .inl ⟨own, agrees.owner inv own⟩
  · obtain ⟨i, here⟩ := agrees.live inv reaches
    obtain ⟨-, rfl | own⟩ := (h.knows _ mine).stands fd r i known reaches here
    · refine .inr (.inr (.inl ?_))
      cases r with
      | root =>
          cases here
          exact .inl rfl
      | node a =>
          obtain ⟨n, heap, rfl⟩ := Option.map_eq_some_iff.mp here
          exact .inr ⟨a, n, heap, rfl⟩
    · exact .inl ⟨own, agrees.owner inv own⟩
  · rw [agrees.request] at lent
    exact .inr (.inl ⟨lent, inv.requests.handles l.req l.request (inv.requests.owner (agrees.owed ▸ owed)) fd lent⟩)
  · exact .inr (.inr (.inr stream))

/-- A number that the ledgers of a list have at most once between them. -/
theorem pairwise_of_total {β : Type} {g : β → Nat} {xs : List β} (once : total g xs ≤ 1) :
    xs.Pairwise fun a b => 0 < g a → 0 < g b → False := by
  induction xs with
  | nil => exact .nil
  | cons a xs ih =>
      rw [← Multiset.cons_coe, total_cons] at once
      refine .cons (fun b mem mine theirs => ?_) (ih (by omega))
      have le : g b ≤ total g xs := le_total_of_mem (Multiset.mem_coe.mpr mem)
      omega

/-- What two threads have opened is not the same. -/
theorem Filed.disjoint {ps : List (Ledger × Work)} (h : Filed x (ps : Multiset (Ledger × Work)))
    (inv : Inv x.1 ((ps : Multiset (Ledger × Work)).map Prod.fst)) : ps.Pairwise fun p q => Disjoint p.2.own q.2.own := by
  rw [List.pairwise_iff_forall_sublist]
  intro p q sub
  rw [Set.disjoint_left]
  intro fd mine theirs
  have once : total (fun p : Ledger × Work => p.1.fds fd) (ps : Multiset _) ≤ 1 := by
    have thread := inv.descriptors.thread fd
    rw [total, Multiset.map_map] at thread
    refine le_of_eq_of_le thread ?_
    split <;> omega
  have both := List.pairwise_iff_forall_sublist.mp (pairwise_of_total once) sub
  have there {p : Ledger × Work} (mem : p ∈ ps) : Agrees p.1 p.2 := h.agrees p (Multiset.mem_coe.mpr mem)
  exact both ((there (sub.subset List.mem_cons_self)).own fd mine)
    ((there (sub.subset (List.mem_cons_of_mem _ List.mem_cons_self))).own fd theirs)

theorem apart {ps : List Recording}
    (run : (filed fs counts).Recorded Truthful (.initial root pipes, .initial root files names) x ps) :
    Apart x.1 ps := by
  constructor
  · intro p mem c next prog fd uses
    obtain ⟨l, f, tag, filed, inv, works⟩ := filekeeping_at run mem
    have request : l.request = p.1.tag.2 := congrArg Prod.snd tag
    rw [← request]
    exact filed.rightful inv ((works c next prog).names fd uses)
  · intro p mem fd own
    obtain ⟨l, f, -, filed, inv, -⟩ := filekeeping_at run mem
    exact (filed.agrees _ (Multiset.mem_cons_self _ _)).owner inv own
  · obtain ⟨-, inv, filed⟩ := filekeeping_recorded run
    refine (List.pairwise_map.mp (filed.disjoint inv)).imp fun {p q} apart => ?_
    rw [ledger_filekeeping, ledger_filekeeping] at apart
    exact apart

/-- The descriptor of every inode is open and of the file that the inode stands for, and so is
every file handle that the kernel has received and not released. -/
structure FilesKept (x : World × FileBooks) : Prop where
  nodes : ∀ r i, x.1.inodeAt r = some i → IsOf x i.fd r
  handles : ∀ fd r, x.2.handles fd = some r → x.1.fds fd = some .handle ∧ IsOf x fd r

theorem files_kept {s : FiledDaemon}
    (run : (filed fs counts).Reach Truthful (.initial root pipes, .initial root files names) s) :
    FilesKept s.world := by
  obtain ⟨f, inv, filed⟩ := (filekeeping_holds run).inv
  have inv : Inv s.world.1 (f.map Prod.fst) := inv
  constructor
  · intro r i here
    exact ⟨inv.inode_taken here, i, here, filed.nodes r i here⟩
  · intro fd r opened
    have handled := filed.handles fd r opened
    refine ⟨handled.owner, by rw [handled.owner]; exact Option.some_ne_none _, ?_⟩
    obtain ⟨i, here⟩ := handled.live inv
    exact ⟨i, here, handled.file i here⟩

end Runs

namespace Sample

/-! The file is looked up, opened and about to be written. In another run it is created. -/

def createTag : FuseReq × Request := (⟨3, .create⟩, .create FUSE_ROOT_ID "f" 0o644 (some ⟨1, 0, false, false⟩))

def createEvents : List (Event calls) :=
  [⟨.logInode .root, ()⟩, ⟨.getFD .root, (4 : Int)⟩,
    ⟨.sys (.openat 4 "f" ((1 ||| O_CLOEXEC ||| O_CREAT) &&& ~~~O_NOFOLLOW) 0o644), .ok (12 : Int)⟩,
    ⟨.getFD .root, (4 : Int)⟩,
    ⟨.sys (.openat 4 "f" (O_PATH ||| O_NOFOLLOW ||| O_CLOEXEC) 0), .ok (9 : Int)⟩,
    ⟨.sys (.fstatat 9 "" (AT_EMPTY_PATH ||| AT_SYMLINK_NOFOLLOW)), .ok fileStat⟩,
    ⟨.insert ⟨9, 77, 8, none, none⟩, { addr := 4096, fresh := true }⟩,
    ⟨.getSourceDevice .root, (8 : Nat)⟩, ⟨.getSourceDevice (.node 4096), (8 : Nat)⟩,
    ⟨.getFD (.node 4096), (9 : Int)⟩,
    ⟨.sys (.fstatat 9 "" (AT_EMPTY_PATH ||| AT_SYMLINK_NOFOLLOW)), .ok fileStat⟩,
    ⟨.getGeneration (.node 4096), none⟩, ⟨.getFD (.node 4096), (9 : Int)⟩,
    ⟨.sys (.open_ (.procSelfFd 9) (O_RDONLY ||| O_CLOEXEC)), .ok (10 : Int)⟩,
    ⟨.sys (.ioctl 10 FS_IOC_GETVERSION), .ok (1 : Nat)⟩, ⟨.sys (.close 10 true), .ok ()⟩,
    ⟨.setGeneration (.node 4096) (.ok 1), ()⟩, ⟨.ref (.node 4096) 1, none⟩,
    ⟨.fuseReply ⟨3, .create⟩ (.create ⟨4096, some 1, fileStat, 0, 0⟩ ⟨1, 12, false, true⟩), none⟩,
    ⟨.dropShared 4096, .dropped none⟩]

def fileMade : World := ((mounted.arrive createTag.1 createTag.2).play countsName createEvents).depart createTag.2

def fileBooks : FileBooks := .initial rootInode (fun _ => (8, 77)) fun _ => (8, 77)

def fileEvents : List (Event calls) := lookupEvents ++ openEvents ++ createEvents

/-- What the observer knows all the time: there is only one file, beside the root. -/
def Regular (g : FileBooks) : Prop :=
  (∀ fd, fd ≠ 4 → g.file fd = (8, 77)) ∧ (∀ n, g.names n = (8, 77)) ∧ g.created 4 = none

theorem regular_note {g : FileBooks} {e : Event calls} (mem : e ∈ fileEvents) (h : Regular g) :
    Regular (g.note e.1 e.2) := by
  obtain ⟨file, names, created⟩ := h
  have updated (fd fd' : Fd) (other : fd' ≠ 4) : Function.update g.file fd (8, 77) fd' = (8, 77) := by
    rw [Function.update_apply]
    split
    · rfl
    · exact file fd' other
  fin_cases mem
  all_goals first
    | exact ⟨file, names, created⟩
    | refine ⟨fun fd other => ?_, fun n => ?_, ?_⟩
  all_goals simp_all [FileBooks.note, FileBooks.opens, FileBooks.reopens]

theorem regular_fold {g : FileBooks} {t : List (Event calls)} (sub : t ⊆ fileEvents) (h : Regular g) :
    Regular (t.foldl (fun g e => g.note e.1 e.2) g) := by
  induction t generalizing g with
  | nil => exact h
  | cons e t ih =>
      obtain ⟨mem, sub⟩ := List.cons_subset.mp sub
      exact ih sub (regular_note mem h)

/-- A name leads to the file, whoever has created it. -/
theorem truthful_regular {x : World × FileBooks} {tag : FuseReq × Request} {e : Event calls}
    (mem : e ∈ fileEvents) (h : Regular x.2) : Truthful x (.act tag e) := by
  obtain ⟨file, names, unmade⟩ := h
  have leads {fd : Fd} {name : Key × String} (made : x.2.created fd = some name) : x.2.names 0 = x.2.file fd := by
    have other : fd ≠ 4 := by
      rintro rfl
      rw [unmade] at made
      cases made
    rw [names, file fd other]
  fin_cases mem
  all_goals first
    | trivial
    | exact fun _ => (file 9 (by decide)).symm
    | exact fun fd _ made => leads made

/-- A thread of the sample runs alone. -/
theorem run_filed {w : World} {g : FileBooks} {tag : FuseReq × Request} {p q : Prog calls (Status × FuseRequest)}
    {t : List (Event calls)}
    (h : (filed .onLinux countsName).Reach Truthful (mounted, fileBooks) ⟨(w, g), [⟨tag, p⟩]⟩)
    (steps : Steps p t q) (plays : w.Plays countsName t) (sub : t ⊆ fileEvents) (now : Regular g) :
    (filed .onLinux countsName).Reach Truthful (mounted, fileBooks)
      ⟨(w.play countsName t, t.foldl (fun g e => g.note e.1 e.2) g), [⟨tag, q⟩]⟩ := by
  have performs : (filed .onLinux countsName).Performs (w, g) t
      (w.play countsName t, t.foldl (fun g e => g.note e.1 e.2) g) := Machine.Performs.observed plays.performs g
  refine h.runWhile (P := fun x => Regular x.2) steps performs now ?_ ?_
  · rintro ⟨w₁, g₁⟩ ⟨w₂, g₂⟩ e mem regular ⟨-, noted⟩
    dsimp only at noted
    subst noted
    exact regular_note (sub mem) regular
  · intro x regular e mem
    exact truthful_regular (sub mem) regular

theorem starts_lookup : (filed .onLinux countsName).Reach Truthful (mounted, fileBooks)
    ⟨(mounted.arrive lookupTag.1 lookupTag.2, fileBooks.arrives lookupTag), [⟨lookupTag, lookupCallback⟩]⟩ := by
  have comes : FileBooks.comes mounted lookupTag fileBooks (fileBooks.arrives lookupTag) :=
    ⟨fun _ _ named => (by cases named), rfl, fun _ _ opened => (by cases opened)⟩
  exact .step .init (.arrive ⟨⟨maySend_lookup, rfl, _, rfl, rfl⟩, comes⟩) trivial

theorem regular_initial : Regular fileBooks := by
  refine ⟨fun fd other => ?_, fun _ => rfl, rfl⟩
  change Function.update (fun _ => (8, 77)) 4 rootInode.key fd = _
  exact Function.update_of_ne other ..

theorem regular_arrives {g : FileBooks} {tag : FuseReq × Request} (h : Regular g) : Regular (g.arrives tag) := by
  refine ⟨h.1, h.2.1, ?_⟩
  change (if tag.2.released = some 4 then none else g.created 4) = none
  rw [h.2.2, ite_self]

theorem lookup_subset : lookupEvents ⊆ fileEvents := List.subset_append_of_subset_left _ (List.subset_append_left _ _)

theorem open_subset : openEvents ⊆ fileEvents := List.subset_append_of_subset_left _ (List.subset_append_right _ _)

theorem create_subset : createEvents ⊆ fileEvents := List.subset_append_right _ _

theorem reach_filed_lookedUp : ∃ g, Regular g ∧ g.handles = (fun _ => none) ∧
    (filed .onLinux countsName).Reach Truthful (mounted, fileBooks) ⟨(lookedUp, g), []⟩ := by
  have plays : (mounted.arrive lookupTag.1 lookupTag.2).Plays countsName lookupEvents :=
    ⟨trivial, rfl, rfl, trivial, ⟨_, rfl⟩, rfl, rfl, rfl, trivial, rfl, rfl, rfl, trivial, trivial,
      trivial, rfl, trivial, trivial⟩
  obtain ⟨next, steps, done⟩ := steps_lookup
  have replied := run_filed starts_lookup steps plays lookup_subset (regular_arrives regular_initial)
  let g := lookupEvents.foldl (fun g e => g.note e.1 e.2) (fileBooks.arrives lookupTag)
  have drop : (filed .onLinux countsName).perform (lookupReplied, g) (.dropShared 4096) (.dropped none)
      (lookupReplied.effect countsName (.dropShared 4096) (.dropped none), g) := ⟨⟨rfl, rfl⟩, rfl⟩
  have dropped := replied.step (.act_head drop) trivial
  rw [done] at dropped
  exact ⟨g, regular_fold lookup_subset (regular_arrives regular_initial), rfl, dropped.step .leave_head trivial⟩

theorem reach_filed_opened : ∃ g, Regular g ∧ g.handles = Function.update (fun _ => none) 11 (some (.node 4096)) ∧
    (filed .onLinux countsName).Reach Truthful (mounted, fileBooks) ⟨(opened, g), []⟩ := by
  obtain ⟨g, regular, closed, looked⟩ := reach_filed_lookedUp
  have send : lookedUp.MaySend openTag.1 openTag.2 := by
    refine ⟨idle_lookedUp _, rfl, fun a h => .inr ?_, fun _ h => (nomatch h), fun _ h => (nomatch h), trivial⟩
    cases List.mem_singleton.mp h
    decide +kernel
  have none_left : (g.arrives openTag).handles = fun _ => none := by
    funext fd
    simp [FileBooks.arrives, closed]
  have comes : FileBooks.comes lookedUp openTag g (g.arrives openTag) := by
    refine ⟨fun _ _ named => (by cases named), rfl, fun fd a opened => ?_⟩
    rw [none_left] at opened
    cases opened
  have starts : (filed .onLinux countsName).starts (lookedUp, g) openTag _ (_, g.arrives openTag) :=
    ⟨⟨send, rfl, _, rfl, rfl⟩, comes⟩
  have started := looked.step (.arrive starts) trivial
  have plays : (lookedUp.arrive openTag.1 openTag.2).Plays countsName openEvents :=
    ⟨trivial, rfl, rfl, trivial, trivial⟩
  have steps : Exec (callback linux (some .onLinux) openTag.1 .replyFailure
      (fun fs : PageAlignFS => fs.open_ 4096 ⟨1, 0, false, false⟩) { req := none }) openEvents
      (.ok (), { req := none }) := .step _ (.step _ (.step _ (.step _ (.refl _))))
  have arrived : Regular (g.arrives openTag) := regular_arrives regular
  have ran := run_filed started steps plays open_subset arrived
  refine ⟨_, regular_fold open_subset arrived, ?_, ran.step .leave_head trivial⟩
  have asked : (g.arrives openTag).asked openTag.1 = [4096] := by
    change Function.update g.asked openTag.1 openTag.2.names openTag.1 = _
    rw [Function.update_self]
    rfl
  have delivered : (openEvents.foldl (fun g e => g.note e.1 e.2) (g.arrives openTag)).handles =
      Function.update (g.arrives openTag).handles 11 (((g.arrives openTag).asked openTag.1).head?.map getInode) := rfl
  rw [delivered, asked, none_left]
  rfl

theorem reach_filed_created : ∃ g, g.handles 12 = some (.node 4096) ∧
    (filed .onLinux countsName).Reach Truthful (mounted, fileBooks) ⟨(fileMade, g), []⟩ := by
  have send : mounted.MaySend createTag.1 createTag.2 :=
    ⟨rfl, rfl, fun _ h => .inl (List.mem_singleton.mp h), fun _ h => (nomatch h), fun _ h => (nomatch h), trivial⟩
  have comes : FileBooks.comes mounted createTag fileBooks (fileBooks.arrives createTag) :=
    ⟨fun _ _ named => (by cases named), rfl, fun _ _ opened => (by cases opened)⟩
  have starts : (filed .onLinux countsName).starts (mounted, fileBooks) createTag _ (_, fileBooks.arrives createTag) :=
    ⟨⟨send, rfl, _, rfl, rfl⟩, comes⟩
  have started : (filed .onLinux countsName).Reach Truthful (mounted, fileBooks) _ := .step .init (.arrive starts) trivial
  have plays : (mounted.arrive createTag.1 createTag.2).Plays countsName createEvents :=
    ⟨trivial, rfl, rfl, rfl, rfl, trivial, ⟨_, rfl⟩, rfl, rfl, rfl, trivial, rfl, rfl, rfl, trivial, trivial,
      trivial, rfl, trivial, rfl, trivial⟩
  have steps : Exec (callback linux (some .onLinux) createTag.1 .replyFailure
      (fun fs : PageAlignFS => fs.create FUSE_ROOT_ID "f" 0o644 ⟨1, 0, false, false⟩) { req := none }) createEvents
      (.ok (), { req := none }) :=
    .step _ (.step _ (.step _ (.step _ (.step _ (.step _ (.step _ (.step _ (.step _ (.step _ (.step _ (.step _
      (.step _ (.step _ (.step _ (.step _ (.step _ (.step _ (.step _ (.step _ (.refl _))))))))))))))))))))
  have ran := run_filed started steps plays create_subset (regular_arrives regular_initial)
  refine ⟨_, ?_, ran.step .leave_head trivial⟩
  have delivered : (createEvents.foldl (fun g e => g.note e.1 e.2) (fileBooks.arrives createTag)).handles =
      Function.update (fileBooks.arrives createTag).handles 12 (some (.node 4096)) := rfl
  rw [delivered, Function.update_self]

theorem reach_filed_copying : ∃ g next, g.handles 11 = some (.node 4096) ∧
    (filed .onLinux countsName).Reach Truthful (mounted, fileBooks)
      ⟨(copying, g), [⟨writeTag, .call (.fuseBufCopy [⟨1, some 11, 0⟩] [⟨1, none, 0⟩]) next⟩]⟩ := by
  obtain ⟨g, -, handles, opens⟩ := reach_filed_opened
  have kept : (g.arrives writeTag).handles = Function.update (fun _ => none) 11 (some (.node 4096)) := by
    funext fd
    simp [FileBooks.arrives, handles, writeTag, Request.released]
  have comes : FileBooks.comes opened writeTag g (g.arrives writeTag) := by
    refine ⟨?_, rfl, fun fd a handle => ?_⟩
    · rintro ino fd ⟨⟩
      rw [handles]
      exact Function.update_self ..
    · rw [kept, Function.update_apply] at handle
      split at handle
      · cases handle
        decide +kernel
      · cases handle
  have starts : (filed .onLinux countsName).starts (opened, g) writeTag _ (_, g.arrives writeTag) :=
    ⟨⟨maySend_write, rfl, _, rfl, rfl⟩, comes⟩
  have started := opens.step (.arrive starts) trivial
  have logged : (filed .onLinux countsName).perform (opened.arrive writeTag.1 writeTag.2, g.arrives writeTag)
      (.logInode (.node 4096)) () (copying, g.arrives writeTag) := ⟨⟨trivial, rfl⟩, rfl⟩
  refine ⟨g.arrives writeTag, _, ?_, started.step (.act_head logged) trivial⟩
  rw [kept]
  exact Function.update_self ..

theorem recorded_copying : ∃ p : Recording, ∃ next,
    p.1.prog = .call (.fuseBufCopy [⟨1, some 11, 0⟩] [⟨1, none, 0⟩]) next ∧ ∃ g,
      (filed .onLinux countsName).Recorded Truthful (mounted, fileBooks) (copying, g) [p] := by
  obtain ⟨g, next, -, run⟩ := reach_filed_copying
  obtain ⟨ps, threads, recorded⟩ := run.recorded
  obtain ⟨p, rest, rfl, thread, none_left⟩ := List.map_eq_cons_iff.mp threads
  obtain rfl := List.map_eq_nil_iff.mp none_left
  exact ⟨p, next, congrArg Thread.prog thread, g, recorded⟩

end Sample

open Sample in
/-- The data is about to go to descriptor 11, under which the kernel has opened the file. -/
theorem service_asked_write : ∃ x, ∃ p : Recording, ∃ next,
    p.1.prog = .call (.fuseBufCopy [⟨1, some 11, 0⟩] [⟨1, none, 0⟩]) next ∧ ServiceAsked x [p] := by
  obtain ⟨p, next, prog, g, run⟩ := recorded_copying
  exact ⟨_, p, next, prog, service_asked run⟩

open Sample in
theorem apart_write : ∃ w, ∃ p : Recording, ∃ next,
    p.1.prog = .call (.fuseBufCopy [⟨1, some 11, 0⟩] [⟨1, none, 0⟩]) next ∧ Apart w [p] := by
  obtain ⟨p, next, prog, g, run⟩ := recorded_copying
  exact ⟨_, p, next, prog, apart run⟩

open Sample in
/-- The file was created under its name, and looked up by it. -/
theorem files_kept_created : ∃ g, g.handles 12 = some (.node 4096) ∧ FilesKept (fileMade, g) := by
  obtain ⟨g, handle, run⟩ := reach_filed_created
  exact ⟨g, handle, files_kept run⟩

open Sample in
/-- The entry of the file is about to be sent. -/
theorem replies_describe_lookup : ∃ s : FiledDaemon, s.Next (.fuseReply ⟨2, .lookup⟩ (.entry entry)) ∧
    RepliesDescribe s := by
  obtain ⟨next, -, steps, -⟩ := steps_lookup_unsent
  have sub : lookupEvents.dropLast ⊆ fileEvents := fun e mem => lookup_subset (List.mem_of_mem_dropLast mem)
  have run := run_filed starts_lookup steps plays_unsent sub (regular_arrives regular_initial)
  exact ⟨_, ⟨_, .head _, next, rfl⟩, replies_describe run⟩

end Pafs
