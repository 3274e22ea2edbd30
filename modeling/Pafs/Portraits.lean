import Pafs.World
import Pafs.Replies
import Pafs.Resumption.Product
import Pafs.Resumption.Annals

/-! What a request finds out about the names that it resolves. For every name there is a
portrait: the file that was found under it, the id that the cache returned for it, and what was
then read through that id. A reply that carries entries carries these portraits and no others. -/
namespace Pafs
open Resumption
open Routine (Follows Safe)

/-- What the calls of a request tell: which names were resolved to which files, and what
was replied. -/
structure Trail where
  /-- the name by which a descriptor was opened -/
  name : Fd → Option String
  /-- the file that a descriptor was last seen to stand for -/
  stat : Fd → Option Key
  /-- the names whose files were inserted into the cache -/
  resolved : List (String × Key)
  /-- the replies that reached the kernel -/
  sent : List Reply

namespace Trail

def start : Trail := ⟨fun _ => none, fun _ => none, [], []⟩

def note (tr : Trail) : (c : Call) → c.Ret → Trail
  | .sys (.openat _ name _ _), .ok fd => { tr with name := Function.update tr.name fd (some name) }
  | .sys (.open_ (.procSelfFd old) _), .ok fd =>
      { tr with name := Function.update tr.name fd (tr.name old) }
  | .sys (.fstatat fd _ _), .ok s =>
      { tr with stat := Function.update tr.stat fd (some (s.stDev, s.stIno)) }
  | .insert i, _ =>
      match tr.name i.fd, tr.stat i.fd with
      | some name, some k => { tr with resolved := tr.resolved ++ [(name, k)] }
      | _, _ => tr
  | .fuseReply _ reply, none => { tr with sent := tr.sent ++ [reply] }
  | _, _ => tr

def ofEvents (t : List (Event calls)) : Trail := t.foldl (fun tr e => tr.note e.1 e.2) start

end Trail

/-- A name that was resolved. -/
structure Portrait where
  name : String
  /-- the file, as `fstatat` told for the descriptor by which the name was opened -/
  key : Key
  /-- the id that `Insert` returned -/
  ino : Addr
  /-- the descriptor of the inode at the id -/
  fd : Option Fd
  /-- a descriptor that was opened through it -/
  reopened : Option Fd
  attr : Option Stat
  generation : Option Nat

namespace Portrait

/-- Only the first attributes and the first version that are read count. -/
def note (q : Portrait) : (c : Call) → c.Ret → Portrait
  | .getFD r, fd => if r = .node q.ino then { q with fd := some fd } else q
  | .sys (.fstatat fd _ _), .ok st => if q.fd = some fd ∧ q.attr = none then { q with attr := some st } else q
  | .sys (.open_ (.procSelfFd old) _), .ok fd => if q.fd = some old then { q with reopened := some fd } else q
  | .sys (.ioctl fd _), .ok v =>
      if q.reopened = some fd ∧ q.generation = none then { q with generation := some v } else q
  | .getGeneration r, some (.ok v) =>
      if r = .node q.ino ∧ q.generation = none then { q with generation := some v } else q
  | _, _ => q

/-- The entry that `CreateFuseEntryParam` makes of what was read. -/
structure Makes (opts : Options) (withGeneration : Bool) (q : Portrait) (param : EntryParam) : Prop where
  ino : param.ino = q.ino
  attr : q.attr = some param.attr
  generation : param.generation = if withGeneration then q.generation else none
  fetched : withGeneration = true → q.generation.isSome = true
  attrTimeout : param.attrTimeout = opts.kernelAttributeTimeout
  entryTimeout : param.entryTimeout = opts.kernelEntryTimeout

variable {q : Portrait} {opts : Options} {withGeneration : Bool} {param : EntryParam}

/-- What is known of a name stays. -/
structure Grows (q q' : Portrait) : Prop where
  name : q'.name = q.name
  key : q'.key = q.key
  ino : q'.ino = q.ino
  attr : ∀ st, q.attr = some st → q'.attr = some st
  generation : ∀ v, q.generation = some v → q'.generation = some v

theorem Grows.refl (q : Portrait) : q.Grows q := ⟨rfl, rfl, rfl, fun _ h => h, fun _ h => h⟩

theorem Grows.trans {q q' q'' : Portrait} (h : q.Grows q') (h' : q'.Grows q'') : q.Grows q'' where
  name := h'.name.trans h.name
  key := h'.key.trans h.key
  ino := h'.ino.trans h.ino
  attr st known := h'.attr st (h.attr st known)
  generation v known := h'.generation v (h.generation v known)

theorem grows_note (q : Portrait) (c : Call) (r : c.Ret) : q.Grows (q.note c r) := by
  unfold note
  split
  case h_6 => exact .refl q
  all_goals split
  case h_2.isTrue new =>
      refine ⟨rfl, rfl, rfl, fun st known => ?_, fun _ h => h⟩
      rw [new.2] at known
      cases known
  case h_4.isTrue new | h_5.isTrue new =>
      refine ⟨rfl, rfl, rfl, fun _ h => h, fun v known => ?_⟩
      rw [new.2] at known
      cases known
  all_goals exact ⟨rfl, rfl, rfl, fun _ h => h, fun _ h => h⟩

theorem Makes.grows {q' : Portrait} (h : q.Makes opts withGeneration param) (grows : q.Grows q') :
    q'.Makes opts withGeneration param := by
  refine ⟨h.ino.trans grows.ino.symm, grows.attr _ h.attr, ?_, fun more => ?_, h.attrTimeout, h.entryTimeout⟩
  · cases withGeneration with
    | false => exact h.generation
    | true =>
        obtain ⟨v, known⟩ := Option.isSome_iff_exists.mp (h.fetched rfl)
        rw [h.generation, if_pos rfl, if_pos rfl, known, grows.generation v known]
  · obtain ⟨v, known⟩ := Option.isSome_iff_exists.mp (h.fetched more)
    rw [grows.generation v known]
    rfl

end Portrait

/-- The portraits of a request, in the order in which the names were resolved. -/
structure Gallery where
  trail : Trail
  done : List Portrait
  current : Option Portrait

namespace Gallery

def start : Gallery := ⟨.start, [], none⟩

def portraits (g : Gallery) : List Portrait := g.done ++ g.current.toList

/-- A name is resolved when the inode of its file goes to the cache. -/
def note (g : Gallery) (c : Call) (r : c.Ret) : Gallery :=
  match c, r with
  | .insert i, r =>
      match g.trail.name i.fd, g.trail.stat i.fd with
      | some name, some key =>
          { trail := g.trail.note (.insert i) r
            done := g.portraits
            current := some ⟨name, key, r.addr, none, none, none, none⟩ }
      | _, _ => { g with trail := g.trail.note (.insert i) r }
  | c, r => { g with trail := g.trail.note c r, current := g.current.map fun q => q.note c r }

def ofEvents (t : List (Event calls)) : Gallery := t.foldl (fun g e => g.note e.1 e.2) start

theorem ofEvents_concat (t : List (Event calls)) (e : Event calls) :
    ofEvents (t ++ [e]) = (ofEvents t).note e.1 e.2 := by
  unfold ofEvents
  rw [List.foldl_append]
  rfl

variable {g : Gallery} {c : Call} {r : c.Ret}

theorem trail_note (g : Gallery) (c : Call) (r : c.Ret) : (g.note c r).trail = g.trail.note c r := by
  cases c with
  | insert i =>
      unfold note
      dsimp only
      split <;> rfl
  | _ => rfl

theorem trail_ofEvents (t : List (Event calls)) : (ofEvents t).trail = Trail.ofEvents t := by
  induction t using List.reverseRecOn with
  | nil => rfl
  | append_singleton t e ih =>
      rw [ofEvents_concat, trail_note, ih]
      unfold Trail.ofEvents
      rw [List.foldl_append]
      rfl

/-- The calls by which no name is resolved. -/
theorem note_other (other : ∀ i, c ≠ .insert i) :
    g.note c r = { g with trail := g.trail.note c r, current := g.current.map fun q => q.note c r } := by
  cases c with
  | insert i => exact absurd rfl (other i)
  | _ => rfl

/-- What a reply says of names is what the request has found out. -/
def Shows (opts : Options) (g : Gallery) : Reply → Prop
  | .entry param | .create param _ => ∃ q, g.portraits = [q] ∧ q.Makes opts true param
  | .buf (.dirs plus records) => List.Forall₂ (fun q r => q.name = r.name ∧ q.Makes opts plus r.param)
      (g.portraits.take records.length) records
  | _ => True

/-- The entries of a reply, each with the file that the request found under its name. -/
def told (g : Gallery) (reply : Reply) : List Given :=
  List.zipWith (fun p q => ⟨p.ino, p.generation, q.key⟩) reply.params g.portraits

end Gallery

/-- The calls that do not concern names: what may still be done for a request that has been
answered. -/
def Call.calm : Call → Bool
  | .sys (.close ..) | .dropShared _ | .unref .. | .destroyPollHandle _ | .pollHandle _ | .notifyPoll _
  | .abort _ => true
  | _ => false

/-- The replies that carry no entries. -/
def Reply.nameless : Reply → Bool
  | .entry _ | .create _ _ | .buf (.dirs _ _) => false
  | _ => true

/-- The calls by which no name is resolved and no entry is told. -/
def Call.nameless : Call → Bool
  | .insert _ | .getGeneration _ | .setGeneration _ _ | .fuseReply _ _ => false
  | _ => true

/-- What a thread has found out, and what it has in hand. -/
structure Sitting where
  gallery : Gallery
  /-- the inodes that it holds by `shared_ptr`, the last one first -/
  live : List (Addr × Key)
  owed : Bool

namespace Sitting

def opening : Sitting := ⟨.start, [], true⟩

def Allows (opts : Options) (st : Sitting) (c : Call) : Prop :=
  (st.owed = false → c.calm = true) ∧
    match c with
    | .insert i => (∃ name, st.gallery.trail.name i.fd = some name) ∧ st.gallery.trail.stat i.fd = some i.key
    | .getGeneration r => ∃ q, st.gallery.current = some q ∧ r = .node q.ino ∧ (q.ino, q.key) ∈ st.live
    | .setGeneration r v => ∃ q, st.gallery.current = some q ∧ r = .node q.ino ∧ (q.ino, q.key) ∈ st.live ∧
        ∀ n, v = .ok n → q.generation = some n
    | .fuseReply _ reply => st.gallery.Shows opts reply ∧
        ∀ q ∈ st.gallery.portraits.take reply.params.length, (q.ino, q.key) ∈ st.live
    | _ => True

def after (st : Sitting) (c : Call) (r : c.Ret) : Sitting where
  gallery := st.gallery.note c r
  live :=
    match c, r with
    | .insert i, r => (r.addr, i.key) :: st.live
    | .dropShared a, _ => st.live.eraseP fun p => p.1 = a
    | _, _ => st.live
  owed :=
    match c with
    | .fuseReply _ _ => false
    | _ => st.owed

end Sitting

def portraying (opts : Options) : Discipline calls Sitting where
  allows := Sitting.Allows opts
  answers _ _ _ := True
  after := Sitting.after

/-- The calls that take an inode in hand, put one down or tell the kernel of one. -/
def Call.moves : Call → Bool
  | .insert _ | .dropShared _ | .fuseReply _ _ => true
  | _ => false

theorem Gallery.note_idle {g : Gallery} {c : Call} {r : c.Ret} (other : ∀ i, c ≠ .insert i)
    (trail : g.trail.note c r = g.trail) (same : ∀ q : Portrait, q.note c r = q) : g.note c r = g := by
  rw [note_other other, trail]
  have current : (g.current.map fun q => q.note c r) = g.current := by
    cases g.current with
    | none => rfl
    | some q => exact congrArg some (same q)
  rw [current]

theorem Gallery.note_calm (g : Gallery) {c : Call} (calm : c.calm = true) (r : c.Ret) : g.note c r = g := by
  cases c with
  | sys s =>
      cases s
      case close => exact note_idle (by simp) rfl fun _ => rfl
      all_goals cases calm
  | dropShared | unref | destroyPollHandle | pollHandle | notifyPoll | abort =>
      exact note_idle (by simp) rfl fun _ => rfl
  | _ => cases calm

namespace Sitting

variable {opts : Options} {st : Sitting} {c : Call} {r : c.Ret} {plus : Bool} {records : List DirRecord}
  {q : Portrait}

theorem allows_calm (st : Sitting) (calm : c.calm = true) : (portraying opts).allows st c := by
  refine ⟨fun _ => calm, ?_⟩
  cases c with
  | insert | getGeneration | setGeneration | fuseReply => cases calm
  | _ => trivial

theorem allows_nameless (owed : st.owed = true) (nameless : c.nameless = true) : (portraying opts).allows st c := by
  refine ⟨fun done => ?_, ?_⟩
  · rw [owed] at done
    cases done
  · cases c with
    | insert | getGeneration | setGeneration | fuseReply => cases nameless
    | _ => trivial

/-- An inode is put down. -/
def drop (st : Sitting) (a : Addr) : Sitting := { st with live := st.live.eraseP fun p => p.1 = a }

theorem after_calm (st : Sitting) (calm : c.calm = true) (stays : ∀ a, c ≠ .dropShared a) (r : c.Ret) :
    st.after c r = st := by
  have gallery := st.gallery.note_calm calm r
  unfold after
  rw [gallery]
  cases c with
  | dropShared a => exact absurd rfl (stays a)
  | insert | fuseReply => cases calm
  | _ => rfl

theorem after_dropShared (st : Sitting) (a : Addr) (u : Unrefed) : st.after (.dropShared a) u = st.drop a := by
  have gallery := st.gallery.note_calm (c := .dropShared a) rfl u
  unfold after
  rw [gallery]
  rfl

theorem after_eq (stays : c.moves = false) (r : c.Ret) : st.after c r =
    { st with gallery :=
      { st.gallery with
        trail := st.gallery.trail.note c r
        current := st.gallery.current.map fun q => q.note c r } } := by
  cases c with
  | insert | dropShared | fuseReply => cases stays
  | _ => rfl

/-- The records in the buffer are those of the names that were resolved. -/
structure Hung (opts : Options) (plus : Bool) (st : Sitting) (records : List DirRecord) : Prop where
  owed : st.owed = true
  shows : List.Forall₂ (fun q r => q.name = r.name ∧ q.Makes opts plus r.param) st.gallery.portraits records
  live : plus = true → ∀ q ∈ st.gallery.portraits, (q.ino, q.key) ∈ st.live

/-- The same, with one more name that has been resolved. -/
structure Drawing (opts : Options) (plus : Bool) (st : Sitting) (records : List DirRecord) (q : Portrait) :
    Prop where
  owed : st.owed = true
  shows : List.Forall₂ (fun q r => q.name = r.name ∧ q.Makes opts plus r.param) st.gallery.done records
  current : st.gallery.current = some q
  live : ∃ rest, st.live = (q.ino, q.key) :: rest ∧
    (plus = true → ∀ p ∈ st.gallery.done, (p.ino, p.key) ∈ rest)

/-- The same when the last name found no room. -/
structure Listing (opts : Options) (plus : Bool) (st : Sitting) (records : List DirRecord) : Prop where
  owed : st.owed = true
  shows : List.Forall₂ (fun q r => q.name = r.name ∧ q.Makes opts plus r.param)
    (st.gallery.portraits.take records.length) records
  live : plus = true → ∀ q ∈ st.gallery.portraits.take records.length, (q.ino, q.key) ∈ st.live

theorem forall₂_current {R : Portrait → DirRecord → Prop} {f : Portrait → Portrait} {done : List Portrait}
    {current : Option Portrait} (h : List.Forall₂ R (done ++ current.toList) records)
    (keeps : ∀ q r, R q r → R (f q) r) : List.Forall₂ R (done ++ (current.map f).toList) records := by
  induction done generalizing records with
  | nil =>
      cases current with
      | none => exact h
      | some q =>
          cases h with
          | cons here rest => exact .cons (keeps q _ here) rest
  | cons q done ih =>
      cases h with
      | cons here rest => exact .cons here (ih rest)

theorem makes_note {plus : Bool} (q : Portrait) (rec : DirRecord) (h : q.name = rec.name ∧ q.Makes opts plus rec.param) :
    (q.note c r).name = rec.name ∧ (q.note c r).Makes opts plus rec.param := by
  have grows := q.grows_note c r
  exact ⟨grows.name.trans h.1, h.2.grows grows⟩

namespace Hung

theorem fresh (opts : Options) (plus : Bool) : opening.Hung opts plus [] := by
  refine ⟨rfl, .nil, fun _ q mem => ?_⟩
  cases mem

theorem after (h : st.Hung opts plus records) (stays : c.moves = false) (r : c.Ret) :
    (st.after c r).Hung opts plus records := by
  rw [after_eq stays]
  refine ⟨h.owed, forall₂_current h.shows fun q rec made => makes_note q rec made, fun more q mem => ?_⟩
  rcases List.mem_append.mp mem with mem | mem
  · exact h.live more q (List.mem_append_left _ mem)
  · obtain ⟨q₀, here, rfl⟩ := Option.map_eq_some_iff.mp (Option.mem_toList.mp mem)
    have grows := q₀.grows_note c r
    rw [grows.ino, grows.key]
    exact h.live more q₀ (List.mem_append_right _ (Option.mem_toList.mpr here))

theorem listing (h : st.Hung opts plus records) : st.Listing opts plus records := by
  have all : st.gallery.portraits.take records.length = st.gallery.portraits := by
    rw [← h.shows.length_eq, List.take_length]
  refine ⟨h.owed, ?_, ?_⟩
  · rw [all]
    exact h.shows
  · rw [all]
    exact h.live

end Hung

namespace Drawing

theorem after (h : st.Drawing opts plus records q) (stays : c.moves = false) (r : c.Ret) :
    (st.after c r).Drawing opts plus records (q.note c r) := by
  have grows := q.grows_note c r
  rw [after_eq stays]
  refine ⟨h.owed, h.shows, ?_, ?_⟩
  · dsimp only
    rw [h.current]
    rfl
  · rw [grows.ino, grows.key]
    exact h.live

theorem portraits (h : st.Drawing opts plus records q) : st.gallery.portraits = st.gallery.done ++ [q] := by
  unfold Gallery.portraits
  rw [h.current]
  rfl

theorem mem (h : st.Drawing opts plus records q) : (q.ino, q.key) ∈ st.live := by
  obtain ⟨rest, live, -⟩ := h.live
  rw [live]
  exact List.mem_cons_self

/-- The entry is added. -/
theorem hang (h : st.Drawing opts plus records q) {rec : DirRecord} (name : q.name = rec.name)
    (makes : q.Makes opts plus rec.param) : st.Hung opts plus (records ++ [rec]) := by
  refine ⟨h.owed, ?_, fun more p mem => ?_⟩
  · rw [h.portraits]
    exact List.rel_append h.shows (.cons ⟨name, makes⟩ .nil)
  · obtain ⟨rest, live, others⟩ := h.live
    rw [h.portraits, List.mem_append, List.mem_singleton] at mem
    rw [live]
    rcases mem with mem | rfl
    · exact List.mem_cons_of_mem _ (others more p mem)
    · exact List.mem_cons_self

/-- There was no room for the entry, and its inode is put down. -/
theorem listing (h : st.Drawing opts plus records q) : (st.drop q.ino).Listing opts plus records := by
  have taken : (st.drop q.ino).gallery.portraits.take records.length = st.gallery.done := by
    change st.gallery.portraits.take _ = _
    rw [h.portraits, ← h.shows.length_eq, List.take_left]
  refine ⟨h.owed, ?_, ?_⟩
  · rw [taken]
    exact h.shows
  · rw [taken]
    obtain ⟨rest, live, others⟩ := h.live
    intro more p mem
    unfold drop
    rw [live, List.eraseP_cons_of_pos (by simp)]
    exact others more p mem

end Drawing

end Sitting

/-! The routines of the cache. -/

namespace Portraying

variable {σ : Type} {P : Platform} {fs : PageAlignFS} {opts : Options} {st : Sitting} {s : σ} {plus : Bool}
  {records : List DirRecord} {q : Portrait}

theorem closeFd {fd : Fd} {Q : Status → σ → Sitting → Prop} (done : Q (.ok ()) s st) :
    Follows (portraying opts) (FileDescriptor.destroy fd) s st Q := by
  rw [follows_closeFd]
  refine ⟨st.allows_calm rfl, fun rc _ => ?_⟩
  change Q _ _ (st.after _ _)
  rw [st.after_calm rfl (by simp)]
  exact done

theorem destroyInode {i : Inode} {Q : Status → σ → Sitting → Prop} (done : Q (.ok ()) s st) :
    Follows (portraying opts) i.destroy s st Q := by
  unfold Inode.destroy
  cases i.pollHandle with
  | none => exact closeFd done
  | some ph =>
      rw [Routine.follows_bind, Routine.follows_invoke]
      refine ⟨st.allows_calm rfl, fun r _ => ?_⟩
      change Follows _ _ _ (st.after _ _) _
      rw [st.after_calm rfl (by simp)]
      exact closeFd done

theorem settle {u : Unrefed} {Q : Status → σ → Sitting → Prop} (done : ∀ r, Q r s st) :
    Follows (portraying opts) u.settle s st Q := by
  rcases u with key | _ | erased
  · exact done _
  · unfold Unrefed.settle
    rw [follows_check]
    exact ⟨fun _ => done _, fun _ => st.allows_calm rfl⟩
  · cases erased with
    | none => exact done _
    | some i => exact destroyInode (done _)

theorem unref {site : UnrefSite} {r : InodeRef} {n : Nat} {Q : Status → σ → Sitting → Prop} (done : ∀ r, Q r s st) :
    Follows (portraying opts) (Inodes.unref site r n) s st Q := by
  unfold Inodes.unref
  rw [Routine.follows_bind, Routine.follows_invoke]
  refine ⟨st.allows_calm rfl, fun u _ => ?_⟩
  change Follows _ _ _ (st.after _ _) _
  rw [st.after_calm rfl (by simp)]
  exact settle done

theorem dropShared {a : Addr} {Q : Status → σ → Sitting → Prop} (done : Q (.ok ()) s (st.drop a)) :
    Follows (portraying opts) (Inodes.dropShared a) s st Q := by
  unfold Inodes.dropShared
  rw [Routine.follows_bind, Routine.follows_attempt, Routine.follows_bind, Routine.follows_invoke]
  refine ⟨st.allows_calm rfl, fun u _ => ?_⟩
  change Follows _ _ _ (st.after _ _) _
  rw [st.after_dropShared a u]
  exact settle fun _ => done

/-- What is done when a request has been dealt with leaves it dealt with. -/
theorem dropAllShared {as : List Addr} {Q : Status → σ → Sitting → Prop} {owed : Bool} (mine : st.owed = owed)
    (done : ∀ st', st'.owed = owed → Q (.ok ()) s st') :
    Follows (portraying opts) (Inodes.dropAllShared as) s st Q := by
  induction as generalizing st with
  | nil => exact done st mine
  | cons a as ih =>
      unfold Inodes.dropAllShared
      rw [Routine.follows_bind]
      exact dropShared (ih mine)

theorem unrefAll {as : List Addr} {Q : Status → σ → Sitting → Prop} (done : Q (.ok ()) s st) :
    Follows (portraying opts) (Inodes.unrefAll as) s st Q := by
  induction as with
  | nil => exact done
  | cons a as ih =>
      unfold Inodes.unrefAll
      rw [Routine.follows_bind, Routine.follows_attempt]
      exact unref fun _ => ih

theorem after_ref (st : Sitting) (r : InodeRef) (n : Nat) (rc : Option Key) : st.after (.ref r n) rc = st := by
  have gallery : st.gallery.note (.ref r n) rc = st.gallery :=
    Gallery.note_idle (by simp) rfl fun _ => rfl
  unfold Sitting.after
  rw [gallery]

theorem ref {r : InodeRef} {n : Nat} {Q : Status → σ → Sitting → Prop} (owed : st.owed = true)
    (done : ∀ r, Q r s st) : Follows (portraying opts) (Inodes.ref r n) s st Q := by
  unfold Inodes.ref
  rw [Routine.follows_bind, Routine.follows_invoke]
  refine ⟨Sitting.allows_nameless owed rfl, fun rc _ => ?_⟩
  change Follows _ _ _ (st.after _ _) _
  rw [after_ref]
  cases rc with
  | none => exact done _
  | some key => exact done _

/-- The name is opened, its file is looked at, and the inode goes to the cache. -/
theorem findOrCreateInode {parent : InodeRef} {name : String} {Q : StatusOr Addr → σ → Sitting → Prop}
    (h : st.Hung fs.opts plus records) (failed : ∀ e st', st'.Hung fs.opts plus records → Q (.error e) s st')
    (ok : ∀ st' q, st'.Drawing fs.opts plus records q → q.name = name → q.attr = none → q.generation = none →
      Q (.ok q.ino) s st') :
    Follows (portraying fs.opts) (fs.findOrCreateInode parent name) s st Q := by
  unfold PageAlignFS.findOrCreateInode Inode.create Syscalls.openat
  rw [Routine.follows_bind, Routine.follows_invoke]
  refine ⟨Sitting.allows_nameless h.owed rfl, fun parentFd _ => ?_⟩
  have h₁ : (st.after (.getFD parent) parentFd).Hung fs.opts plus records := h.after (c := .getFD parent) rfl parentFd
  change Follows (portraying fs.opts) _ s (st.after (.getFD parent) parentFd) _
  generalize st.after (.getFD parent) parentFd = st₁ at h₁ ⊢
  rw [Routine.follows_bind, Routine.follows_bind, follows_syscall]
  refine ⟨Sitting.allows_nameless h₁.owed rfl, fun e _ => failed _ _ (h₁.after rfl _), fun fd _ => ?_⟩
  have h₂ := h₁.after (c := .sys (.openat parentFd name (O_PATH ||| O_NOFOLLOW ||| O_CLOEXEC) 0)) rfl (.ok fd)
  have named : (st₁.after (.sys (.openat parentFd name (O_PATH ||| O_NOFOLLOW ||| O_CLOEXEC) 0))
      (.ok fd)).gallery.trail.name fd = some name := by
    rw [Sitting.after_eq rfl]
    exact Function.update_self ..
  dsimp only [portraying]
  generalize st₁.after (.sys (.openat parentFd name (O_PATH ||| O_NOFOLLOW ||| O_CLOEXEC) 0)) (.ok fd) = st₂
    at h₂ named ⊢
  rw [Routine.follows_bind, Routine.follows_onError]
  unfold Pafs.statFD Syscalls.fstatat
  rw [follows_syscall]
  refine ⟨Sitting.allows_nameless h₂.owed rfl, fun e _ => ?_, fun stat _ => ?_⟩
  · exact closeFd (failed _ _ (h₂.after rfl _))
  have h₃ := h₂.after (c := .sys (.fstatat fd "" (AT_EMPTY_PATH ||| AT_SYMLINK_NOFOLLOW))) rfl (.ok stat)
  have named' : (st₂.after (.sys (.fstatat fd "" (AT_EMPTY_PATH ||| AT_SYMLINK_NOFOLLOW)))
      (.ok stat)).gallery.trail.name fd = some name := by
    rw [Sitting.after_eq rfl]
    exact named
  have seen : (st₂.after (.sys (.fstatat fd "" (AT_EMPTY_PATH ||| AT_SYMLINK_NOFOLLOW)))
      (.ok stat)).gallery.trail.stat fd = some (stat.stDev, stat.stIno) := by
    rw [Sitting.after_eq rfl]
    exact Function.update_self ..
  dsimp only [portraying]
  generalize st₂.after (.sys (.fstatat fd "" (AT_EMPTY_PATH ||| AT_SYMLINK_NOFOLLOW))) (.ok stat) = st₃
    at h₃ named' seen ⊢
  rw [Routine.follows_pure]
  dsimp only
  unfold Inodes.insert
  rw [Routine.follows_bind, Routine.follows_invoke]
  let i : Inode := ⟨fd, stat.stIno, stat.stDev, none, none⟩
  refine ⟨⟨fun done => ?_, ⟨name, named'⟩, seen⟩, fun r _ => ?_⟩
  · rw [h₃.owed] at done
    cases done
  let q : Portrait := ⟨name, i.key, r.addr, none, none, none, none⟩
  have drawing : (st₃.after (.insert i) r).Drawing fs.opts plus records q := by
    have gallery : st₃.gallery.note (.insert i) r =
        ⟨st₃.gallery.trail.note (.insert i) r, st₃.gallery.portraits, some q⟩ := by
      unfold Gallery.note
      dsimp only [i]
      rw [named', seen]
      rfl
    unfold Sitting.after
    rw [gallery]
    exact ⟨h₃.owed, h₃.shows, rfl, st₃.live, rfl, h₃.live⟩
  change Follows (portraying fs.opts) _ s (st₃.after (.insert i) r) _
  rw [Routine.follows_bind]
  cases fresh : r.fresh with
  | true => exact ok _ q drawing rfl rfl rfl
  | false =>
      rw [doIf, if_pos (by rfl)]
      refine destroyInode ?_
      exact ok _ q drawing rfl rfl rfl

theorem getFileVersionFromPathFD {fd : Fd} {Q : StatusOr (Except VersionError Nat) → σ → Sitting → Prop}
    (h : st.Drawing opts plus records q) (fd' : q.fd = some fd) (generation : q.generation = none)
    (done : ∀ v st' q', st'.Drawing opts plus records q' → q.Grows q' →
      (∀ n, v = .ok n → q'.generation = some n) → Q (.ok v) s st') :
    Follows (portraying opts) (getFileVersionFromPathFD fd) s st Q := by
  unfold Pafs.getFileVersionFromPathFD
  rw [Routine.follows_bind, Routine.follows_invoke]
  refine ⟨Sitting.allows_nameless h.owed rfl, fun opened _ => ?_⟩
  have grows₁ := q.grows_note (.sys (.open_ (.procSelfFd fd) (O_RDONLY ||| O_CLOEXEC))) opened
  have h₁ := h.after (c := .sys (.open_ (.procSelfFd fd) (O_RDONLY ||| O_CLOEXEC))) rfl opened
  cases opened with
  | error e => exact done _ _ _ h₁ grows₁ (by simp)
  | ok myfd =>
      have noted : q.note (.sys (.open_ (.procSelfFd fd) (O_RDONLY ||| O_CLOEXEC))) (.ok myfd) =
          { q with reopened := some myfd } := if_pos fd'
      rw [noted] at h₁ grows₁
      dsimp only [portraying]
      generalize st.after (.sys (.open_ (.procSelfFd fd) (O_RDONLY ||| O_CLOEXEC))) (.ok myfd) = st₁ at h₁ ⊢
      rw [Routine.follows_bind, Routine.follows_invoke]
      refine ⟨Sitting.allows_nameless h₁.owed rfl, fun version _ => ?_⟩
      have h₂ := h₁.after (c := .sys (.ioctl myfd FS_IOC_GETVERSION)) rfl version
      have grows₂ := Portrait.grows_note { q with reopened := some myfd } (.sys (.ioctl myfd FS_IOC_GETVERSION)) version
      have grows : q.Grows _ := grows₁.trans grows₂
      dsimp only
      rw [Routine.follows_bind]
      apply closeFd
      cases version with
      | error e => exact done _ _ _ h₂ grows (by simp)
      | ok v =>
          refine done _ _ _ h₂ grows fun n same => ?_
          cases same
          have noted : Portrait.note { q with reopened := some myfd } (.sys (.ioctl myfd FS_IOC_GETVERSION)) (.ok v) =
              { q with reopened := some myfd, generation := some v } := if_pos ⟨rfl, generation⟩
          rw [noted]

/-- The version of the portrait is the one that was memoised or that has been fetched. -/
theorem getGeneration {Q : StatusOr Nat → σ → Sitting → Prop} (h : st.Drawing opts plus records q)
    (generation : q.generation = none)
    (failed : ∀ e st' q', st'.Drawing opts plus records q' → q.Grows q' → Q (.error e) s st')
    (ok : ∀ v st' q', st'.Drawing opts plus records q' → q.Grows q' → q'.generation = some v → Q (.ok v) s st') :
    Follows (portraying opts) (Inode.getGeneration P (.node q.ino)) s st Q := by
  have busy {st' : Sitting} {c : Call} (owed : st'.owed = true) (done : st'.owed = false) : c.calm = true := by
    rw [owed] at done
    cases done
  unfold Inode.getGeneration
  rw [Routine.follows_bind, Routine.follows_invoke]
  refine ⟨⟨busy h.owed, q, h.current, rfl, h.mem⟩, fun memo _ => ?_⟩
  have h₁ := h.after (c := .getGeneration (.node q.ino)) rfl memo
  have grows₁ := q.grows_note (.getGeneration (.node q.ino)) memo
  rcases memo with _ | e | v
  · change st.after _ _ |>.Drawing opts plus records q at h₁
    dsimp only [portraying]
    generalize st.after (.getGeneration (.node q.ino)) none = st₁ at h₁ ⊢
    rw [Routine.follows_bind, Routine.follows_invoke]
    refine ⟨Sitting.allows_nameless h₁.owed rfl, fun fd _ => ?_⟩
    have noted : q.note (.getFD (.node q.ino)) fd = { q with fd := some fd } := if_pos rfl
    have h₂ := h₁.after (c := .getFD (.node q.ino)) rfl fd
    have grows₂ := q.grows_note (.getFD (.node q.ino)) fd
    rw [noted] at h₂ grows₂
    dsimp only
    rw [Routine.follows_bind]
    refine getFileVersionFromPathFD h₂ rfl generation fun v st' q' h₃ grows₃ fetched => ?_
    have grows : q.Grows q' := grows₂.trans grows₃
    have ino : InodeRef.node q.ino = .node q'.ino := congrArg _ grows.ino.symm
    dsimp only
    rw [Routine.follows_bind, Routine.follows_invoke]
    refine ⟨⟨busy h₃.owed, q', h₃.current, ino, h₃.mem, fetched⟩, fun u _ => ?_⟩
    have h₄ := h₃.after (c := .setGeneration (.node q.ino) v) rfl u
    cases v with
    | error e => exact failed _ _ _ h₄ grows
    | ok n => exact ok n _ _ h₄ grows (fetched n rfl)
  · exact failed _ _ _ h₁ grows₁
  · refine ok v _ _ h₁ grows₁ ?_
    have noted : q.note (.getGeneration (.node q.ino)) (some (.ok v)) = { q with generation := some v } :=
      if_pos ⟨rfl, generation⟩
    rw [noted]

/-- What is read through the id goes into the portrait, and from there into the entry. -/
theorem createFuseEntryParam {Q : StatusOr EntryParam → σ → Sitting → Prop} (h : st.Drawing fs.opts plus records q)
    (attr : q.attr = none) (generation : q.generation = none)
    (failed : ∀ e st' q', st'.Drawing fs.opts plus records q' → q'.ino = q.ino → Q (.error e) s st')
    (ok : ∀ param st' q', st'.Drawing fs.opts plus records q' → q.Grows q' → q'.Makes fs.opts plus param →
      Q (.ok param) s st') :
    Follows (portraying fs.opts) (fs.createFuseEntryParam q.ino plus) s st Q := by
  unfold PageAlignFS.createFuseEntryParam
  rw [Routine.follows_bind, Routine.follows_invoke]
  refine ⟨Sitting.allows_nameless h.owed rfl, fun fd _ => ?_⟩
  have noted : q.note (.getFD (.node q.ino)) fd = { q with fd := some fd } := if_pos rfl
  have h₁ := h.after (c := .getFD (.node q.ino)) rfl fd
  have grows₁ := q.grows_note (.getFD (.node q.ino)) fd
  rw [noted] at h₁ grows₁
  dsimp only [portraying]
  generalize st.after (.getFD (.node q.ino)) fd = st₁ at h₁ ⊢
  rw [Routine.follows_bind]
  unfold Pafs.statFD Syscalls.fstatat
  rw [follows_syscall]
  refine ⟨Sitting.allows_nameless h₁.owed rfl, fun e _ => ?_, fun stat _ => ?_⟩
  · exact failed _ _ _ (h₁.after (c := .sys (.fstatat fd "" (AT_EMPTY_PATH ||| AT_SYMLINK_NOFOLLOW))) rfl (.error e)) rfl
  have seen : Portrait.note { q with fd := some fd } (.sys (.fstatat fd "" (AT_EMPTY_PATH ||| AT_SYMLINK_NOFOLLOW)))
      (.ok stat) = { q with fd := some fd, attr := some stat } := if_pos ⟨rfl, attr⟩
  have h₂ := h₁.after (c := .sys (.fstatat fd "" (AT_EMPTY_PATH ||| AT_SYMLINK_NOFOLLOW))) rfl (.ok stat)
  have grows₂ := grows₁.trans (Portrait.grows_note _ (.sys (.fstatat fd "" (AT_EMPTY_PATH ||| AT_SYMLINK_NOFOLLOW)))
    (.ok stat))
  rw [seen] at h₂ grows₂
  dsimp only
  cases plus with
  | false => exact ok _ _ _ h₂ grows₂ ⟨rfl, rfl, rfl, by simp, rfl, rfl⟩
  | true =>
      rw [if_pos rfl, Routine.follows_bind]
      refine getGeneration (q := { q with fd := some fd, attr := some stat }) h₂ generation
        (fun e st' q' h₃ grows₃ => failed e st' q' h₃ grows₃.ino) fun v st' q' h₃ grows₃ fetched => ?_
      refine ok _ _ q' h₃ (grows₂.trans grows₃) ⟨grows₃.ino.symm, grows₃.attr _ rfl, ?_, fun _ => ?_, rfl, rfl⟩
      · exact fetched.symm
      · rw [fetched]
        rfl

/-! Replies. -/

theorem send {req : FuseReq} {what : String} {reply : Reply} {Q : Status → FuseRequest → Sitting → Prop}
    (owed : st.owed = true) (shows : st.gallery.Shows opts reply)
    (live : ∀ q ∈ st.gallery.portraits.take reply.params.length, (q.ino, q.key) ∈ st.live)
    (done : ∀ rc st', st'.owed = false → Q (errnoToStatus P rc what) ⟨none⟩ st') :
    Follows (portraying opts) (FuseRequest.send P what reply) ⟨some req⟩ st Q := by
  rw [FuseRequest.follows_send_some]
  refine ⟨⟨fun gone => ?_, shows, live⟩, fun rc _ => done rc _ rfl⟩
  rw [owed] at gone
  cases gone

theorem follows_epilogue {finish : Finish} {status : Status} {self : FuseRequest} (owed : st.owed = self.req.isSome) :
    Follows (portraying opts) (epilogue P finish status) self st fun _ _ _ => True := by
  obtain ⟨req⟩ := self
  cases req with
  | none =>
      rw [Follows, epilogue_gone]
      trivial
  | some req =>
      rw [Follows, epilogue_owed]
      have nameless : (finish.reply P status).nameless = true := by
        rcases finish <;> rcases status with e | _ <;> rfl
      refine ⟨⟨fun gone => ?_, ?_⟩, fun _ _ => trivial⟩
      · rw [owed] at gone
        cases gone
      · generalize finish.reply P status = reply at nameless
        cases reply
        case entry | create => cases nameless
        case buf b =>
            cases b with
            | bytes => exact ⟨trivial, fun q mem => by simp [Reply.params] at mem⟩
            | dirs => cases nameless
        all_goals exact ⟨trivial, fun q mem => by simp [Reply.params] at mem⟩

/-- Both `ReplyWithLookup` and `ReplyWithCreate`. -/
theorem replyWithEntry {req : FuseReq} {parent : InodeRef} {name what : String} {mk : EntryParam → Reply}
    (h : st.Hung fs.opts true []) (entry : ∀ param, (mk param).params = [param])
    (shows : ∀ (g : Gallery) q param, g.portraits = [q] → q.Makes fs.opts true param → g.Shows fs.opts (mk param)) :
    Follows (portraying fs.opts) (fs.replyWithEntry parent name fun param =>
      FuseRequest.send fs.platform what (mk param)) ⟨some req⟩ st fun _ s' st' => st'.owed = s'.req.isSome := by
  unfold PageAlignFS.replyWithEntry
  rw [Routine.follows_bind]
  refine findOrCreateInode h (fun e st' h' => h'.owed) fun st₁ q h₁ named attr generation => ?_
  have dropped {self : FuseRequest} {st' : Sitting} (mine : st'.owed = self.req.isSome) :
      Follows (portraying fs.opts) (Inodes.dropShared q.ino) self st' fun _ s' st' => st'.owed = s'.req.isSome :=
    dropShared mine
  dsimp only
  rw [Routine.follows_andFinally, Routine.follows_bind, Routine.follows_invoke]
  refine ⟨Sitting.allows_nameless h₁.owed rfl, fun parentDevice _ => ?_⟩
  have h₂ := h₁.after (c := .getSourceDevice parent) rfl parentDevice
  change (st₁.after _ _).Drawing fs.opts true [] q at h₂
  dsimp only [portraying]
  generalize st₁.after (.getSourceDevice parent) parentDevice = st₂ at h₂ ⊢
  rw [Routine.follows_bind, Routine.follows_invoke]
  refine ⟨Sitting.allows_nameless h₂.owed rfl, fun device _ => ?_⟩
  have h₃ := h₂.after (c := .getSourceDevice (.node q.ino)) rfl device
  change (st₂.after _ _).Drawing fs.opts true [] q at h₃
  dsimp only
  generalize st₂.after (.getSourceDevice (.node q.ino)) device = st₃ at h₃ ⊢
  rw [Routine.follows_ite]
  refine ⟨fun _ => dropped h₃.owed, fun _ => ?_⟩
  rw [Routine.follows_bind]
  refine createFuseEntryParam h₃ attr generation (fun e st' q' h₄ _ => dropped h₄.owed)
    fun param st₄ q' h₄ grows makes => ?_
  dsimp only
  rw [Routine.follows_bind]
  refine ref h₄.owed fun r => ?_
  cases r with
  | error e => exact dropped h₄.owed
  | ok _ =>
      dsimp only
      rw [Routine.follows_onError]
      have only : st₄.gallery.portraits = [q'] := by
        rw [h₄.portraits, List.forall₂_nil_right_iff.mp h₄.shows]
        rfl
      refine send h₄.owed (shows _ q' param only makes) (fun p mem => ?_) fun rc st₅ gone => ?_
      · rw [entry, only] at mem
        cases List.mem_singleton.mp mem
        exact h₄.mem
      · cases errnoToStatus fs.platform rc what with
        | ok _ => exact dropped gone
        | error e => exact unref fun _ => dropped gone

theorem replyWithLookup {req : FuseReq} {parent : InodeRef} {name : String} (h : st.Hung fs.opts true []) :
    Follows (portraying fs.opts) (fs.replyWithLookup parent name) ⟨some req⟩ st
      fun _ s' st' => st'.owed = s'.req.isSome :=
  replyWithEntry h (fun _ => rfl) fun _ q _ only makes => ⟨q, only, makes⟩

theorem replyWithCreate {req : FuseReq} {parent : InodeRef} {name : String} {fi : FileInfo}
    (h : st.Hung fs.opts true []) :
    Follows (portraying fs.opts) (fs.replyWithCreate parent name fi) ⟨some req⟩ st
      fun _ s' st' => st'.owed = s'.req.isSome :=
  replyWithEntry h (fun _ => rfl) fun _ q _ only makes => ⟨q, only, makes⟩

/-! Listings. -/

theorem addDirEntry {dirs : FuseDirsBuilder} {name : String} {param : EntryParam} {offset : Int}
    {Q : StatusOr (Option { d' : FuseDirsBuilder // dirs.Grows d' }) → σ → Sitting → Prop} (full : Q (.ok none) s st)
    (added : ∀ (next : { d' // dirs.Grows d' }) size, next.1.buf = dirs.buf ++ [⟨name, param, offset, size⟩] →
      Q (.ok (some next)) s st) : Follows (portraying opts) (dirs.addDirEntry P name param offset) s st Q := by
  unfold FuseDirsBuilder.addDirEntry
  dsimp only
  split
  · rw [Routine.follows_bind, follows_check]
    exact ⟨fun _ => added _ _ rfl, fun _ => st.allows_calm rfl⟩
  · exact full

/-- One round: the buffer grows by the record of the name that was read, or not at all. -/
theorem readDirRound {dirInode : InodeRef} {dir : DirPtr} {dirs : FuseDirsBuilder}
    {Q : StatusOr (PageAlignFS.ReadDirRound dirs) → σ → Sitting → Prop} (h : st.Hung fs.opts dirs.plus dirs.buf)
    (failed : ∀ e st', st'.owed = true → Q (.error e) s st')
    (stopped : ∀ st', st'.Listing fs.opts dirs.plus dirs.buf → Q (.ok .stop) s st')
    (added : ∀ next grows inode st', st'.Hung fs.opts dirs.plus next.buf → Q (.ok (.added next grows inode)) s st') :
    Follows (portraying fs.opts) (fs.readDirRound dirInode dir dirs) s st Q := by
  unfold PageAlignFS.readDirRound Syscalls.readdir
  rw [Routine.follows_bind, follows_syscall]
  refine ⟨Sitting.allows_nameless h.owed rfl, fun e _ => failed _ _ h.owed, fun entry _ => ?_⟩
  have h₁ := h.after (c := .sys (.readdir dir)) rfl (.ok entry)
  dsimp only [portraying]
  generalize st.after (.sys (.readdir dir)) (.ok entry) = st₁ at h₁ ⊢
  cases entry with
  | none => exact stopped _ h₁.listing
  | some entry =>
      dsimp only
      rw [Routine.follows_bind]
      refine findOrCreateInode h₁ (fun e st' h' => failed _ _ h'.owed) fun st₂ q h₂ named attr generation => ?_
      dsimp only
      rw [Routine.follows_bind, Routine.follows_onError, Routine.follows_bind]
      refine createFuseEntryParam h₂ attr generation (fun e st' q' h₃ _ => ?_) fun param st₃ q' h₃ grows makes => ?_
      · exact dropShared (failed _ _ h₃.owed)
      · have ino : q.ino = q'.ino := grows.ino.symm
        have name : q'.name = entry.dName := grows.name.trans named
        rw [ino]
        dsimp only
        rw [Routine.follows_bind]
        refine addDirEntry ?_ fun next size buf => ?_
        · dsimp only
          rw [Routine.follows_pure]
          dsimp only
          rw [Routine.follows_bind]
          exact dropShared (stopped _ h₃.listing)
        · have hung : st₃.Hung fs.opts dirs.plus next.1.buf := by
            rw [buf]
            exact h₃.hang name makes
          dsimp only
          rw [Routine.follows_bind]
          cases more : dirs.plus with
          | false =>
              rw [doIf, if_neg Bool.false_ne_true, Routine.follows_pure]
              dsimp only
              rw [Routine.follows_pure]
              dsimp only
              rw [if_neg Bool.false_ne_true, Routine.follows_bind]
              refine dropShared (added _ _ _ _ ⟨hung.owed, hung.shows, fun plus => ?_⟩)
              rw [more] at plus
              cases plus
          | true =>
              rw [doIf, if_pos rfl]
              refine ref h₃.owed fun r => ?_
              cases r with
              | error e => exact dropShared (failed _ _ h₃.owed)
              | ok _ =>
                  dsimp only
                  rw [Routine.follows_pure]
                  dsimp only
                  rw [if_pos rfl, Routine.follows_pure]
                  exact added _ _ _ _ hung

theorem readDirLoop {dirInode : InodeRef} {dir : DirPtr} {room : Nat} {dirs : FuseDirsBuilder} {inodes : List Addr}
    {Q : StatusOr (StatusOr FuseDirsBuilder × List Addr) → σ → Sitting → Prop}
    (fits : dirs.maxsize - dirs.size < room) (h : st.Hung fs.opts dirs.plus dirs.buf)
    (failed : ∀ e inodes st', st'.owed = true → Q (.ok (.error e, inodes)) s st')
    (listed : ∀ d inodes st', d.plus = dirs.plus → st'.Listing fs.opts d.plus d.buf → Q (.ok (.ok d, inodes)) s st') :
    Follows (portraying fs.opts) (fs.readDirLoop dirInode dir room dirs inodes fits) s st Q := by
  induction room generalizing dirs inodes st with
  | zero => exact absurd fits (Nat.not_lt_zero _)
  | succ room ih =>
      unfold PageAlignFS.readDirLoop
      rw [Routine.follows_bind, Routine.follows_attempt]
      refine readDirRound h (fun e st' owed => failed e inodes st' owed) (fun st' listing => ?_)
        fun next grows inode st' hung => ?_
      · exact listed dirs inodes st' rfl listing
      · have same : next.plus = dirs.plus := grows.plus
        rw [← same] at hung
        refine ih _ hung fun d inodes st' plus => ?_
        exact listed d inodes st' (plus.trans same)

theorem readDirInternal {req : FuseReq} {dirInode : InodeRef} {size : Nat} {off : Int} {fi : FileInfo} {plus : Bool}
    (h : st.Hung fs.opts true []) :
    Follows (portraying fs.opts) (fs.readDirInternal dirInode size off fi plus) ⟨some req⟩ st
      fun _ s' st' => st'.owed = s'.req.isSome := by
  have dropped {as : List Addr} {self : FuseRequest} {st' : Sitting} (mine : st'.owed = self.req.isSome) :
      Follows (portraying fs.opts) (Inodes.dropAllShared as) self st' fun _ s' st' => st'.owed = s'.req.isSome :=
    dropAllShared mine fun _ owed => owed
  have undone {as : List Addr} {self : FuseRequest} {st' : Sitting} (mine : st'.owed = self.req.isSome) :
      Follows (portraying fs.opts) (Inodes.unrefAll as) self st' fun _ s' st' =>
        Follows (portraying fs.opts) (Inodes.dropAllShared as) s' st' fun _ s' st' => st'.owed = s'.req.isSome :=
    unrefAll (dropped mine)
  unfold PageAlignFS.readDirInternal Syscalls.seekdir
  rw [Routine.follows_bind, Routine.follows_invoke]
  refine ⟨Sitting.allows_nameless h.owed rfl, fun dir _ => ?_⟩
  have h₁ := h.after (c := .derefDirectory fi.fh.toNat) rfl dir
  dsimp only [portraying]
  generalize st.after (.derefDirectory fi.fh.toNat) dir = st₁ at h₁ ⊢
  rw [Routine.follows_bind, Routine.follows_invoke]
  refine ⟨Sitting.allows_nameless h₁.owed rfl, fun u _ => ?_⟩
  have h₂ := h₁.after (c := .seekdir dir off) rfl u
  dsimp only
  generalize st₁.after (.seekdir dir off) u = st₂ at h₂ ⊢
  -- nothing has been resolved so far, so it is all one whether attributes are asked for
  have start : st₂.Hung fs.opts plus [] := by
    refine ⟨h₂.owed, ?_, fun _ => h₂.live rfl⟩
    have shows := h₂.shows
    revert shows
    generalize st₂.gallery.portraits = qs
    intro shows
    cases shows
    exact .nil
  rw [Routine.follows_bind]
  refine readDirLoop _ start (fun e inodes st' owed => ?_)
    fun d inodes st' same listing => ?_
  · dsimp only
    rw [Routine.follows_andFinally, Routine.follows_onError, Routine.follows_bind, Routine.follows_ofExcept]
    exact undone owed
  · dsimp only
    rw [Routine.follows_andFinally, Routine.follows_onError, Routine.follows_bind, Routine.follows_ofExcept]
    unfold FuseDirsBuilder.reply
    dsimp only
    rw [Routine.follows_bind, follows_check]
    refine ⟨fun _ => ?_, fun _ => st'.allows_calm rfl⟩
    refine send listing.owed listing.shows (fun q mem => ?_) fun rc st'' gone => ?_
    · cases more : d.plus with
      | false =>
          rw [more] at mem
          simp [Reply.params] at mem
      | true =>
          rw [more] at mem
          have taken : (Reply.buf (.dirs true d.buf)).params.length = d.buf.length := List.length_map ..
          rw [taken] at mem
          exact listing.live more q mem
    · cases errnoToStatus fs.platform rc "fuse_reply_buf" with
      | ok _ => exact dropped gone
      | error e => exact undone gone

/-! The handlers. -/

/-- From the beginning of a request the code answers it at most once, and after that leaves names
alone. -/
def Ends (opts : Options) {α : Type} (m : Io FuseRequest α) : Prop := ∀ req st, st.Hung opts true [] →
  Follows (portraying opts) m ⟨some req⟩ st fun _ s' st' => st'.owed = s'.req.isSome

namespace Ends

variable {α β : Type} {m : Io FuseRequest α} {ino : Addr} {what message : String}

theorem pure (a : α) : Ends opts (pure a : Io FuseRequest α) := fun _ _ h => h.owed

theorem fail (e : Error) : Ends opts (Routine.fail e : Io FuseRequest α) := fun _ _ h => h.owed

theorem call {c : Call} {f : c.Ret → Io FuseRequest α} (nameless : c.nameless = true) (stays : c.moves = false)
    (rest : ∀ r, Ends opts (f r)) : Ends opts (Routine.invoke (I := calls) c >>= f) := by
  intro req st h
  rw [Routine.follows_bind, Routine.follows_invoke]
  exact ⟨Sitting.allows_nameless h.owed nameless, fun r _ => rest r req _ (h.after stays r)⟩

theorem logged {r : InodeRef} (rest : Ends opts m) : Ends opts (do
    Routine.invoke (I := calls) (.logInode r)
    m) := call rfl rfl fun _ => rest

theorem withFD {r : InodeRef} {f : Fd → Io FuseRequest α} (rest : ∀ fd, Ends opts (f fd)) :
    Ends opts (Routine.invoke (I := calls) (.getFD r) >>= f) := call rfl rfl rest

theorem sys {c : Sys} {f : c.Ret → Io FuseRequest α} (rest : ∀ v, Ends opts (f v)) :
    Ends opts (syscall P c message >>= f) := by
  intro req st h
  rw [Routine.follows_bind, follows_syscall]
  exact ⟨Sitting.allows_nameless h.owed rfl, fun e _ => h.owed, fun v _ => rest v req _ (h.after rfl _)⟩

theorem last {c : Sys} : Ends opts (syscall P c message : Io FuseRequest c.Ret) := by
  intro req st h
  rw [follows_syscall]
  exact ⟨Sitting.allows_nameless h.owed rfl, fun _ _ => h.owed, fun _ _ => h.owed⟩

theorem check {site : CheckSite} {holds : Bool} (rest : Ends opts m) : Ends opts (do
    Pafs.check site holds
    m) := by
  intro req st h
  rw [Routine.follows_bind, follows_check]
  exact ⟨fun _ => rest req st h, fun _ => st.allows_calm rfl⟩

theorem shows_nameless {g : Gallery} {reply : Reply} (nameless : reply.nameless = true) : g.Shows opts reply := by
  cases reply with
  | entry | create => cases nameless
  | buf b =>
      cases b with
      | bytes => trivial
      | dirs => cases nameless
  | _ => trivial

theorem params_nameless {reply : Reply} (nameless : reply.nameless = true) : reply.params = [] := by
  cases reply with
  | entry | create => cases nameless
  | buf b =>
      cases b with
      | bytes => rfl
      | dirs => cases nameless
  | _ => rfl

theorem send {reply : Reply} (nameless : reply.nameless = true) : Ends opts (FuseRequest.send P what reply) := by
  intro req st h
  refine Portraying.send h.owed (shows_nameless nameless) (fun q mem => ?_) fun _ _ gone => gone
  rw [params_nameless nameless] at mem
  cases mem

theorem closing {fd : Fd} (h : Ends opts m) : Ends opts (m.onError (FileDescriptor.destroy fd)) := by
  intro req st fresh
  rw [Routine.follows_onError]
  refine (h req st fresh).mono fun r s' st' owed => ?_
  cases r with
  | ok _ => exact owed
  | error e => exact closeFd owed

theorem closed {fd : Fd} (h : Ends opts m) : Ends opts (m.andFinally (FileDescriptor.destroy fd)) := by
  intro req st fresh
  rw [Routine.follows_andFinally]
  exact (h req st fresh).mono fun r s' st' owed => closeFd owed

theorem replyWithLookup {parent : InodeRef} {name : String} : Ends fs.opts (fs.replyWithLookup parent name) :=
  fun _ _ h => Portraying.replyWithLookup h

theorem replyWithAttrs {r : InodeRef} : Ends fs.opts (fs.replyWithAttrs r) := withFD fun _ => sys fun _ => send rfl

/-- A step of `SetAttr` that may be left out. -/
theorem setting {condition : Bool} {set rest : Handler}
    (step : ∀ req st, st.Hung opts true [] → Follows (portraying opts) set ⟨some req⟩ st fun _ s' st' =>
      s' = ⟨some req⟩ ∧ st'.Hung opts true []) (ends : Ends opts rest) : Ends opts (do
    doIf condition set
    rest) := by
  intro req st h
  rw [Routine.follows_bind]
  cases condition with
  | false => exact ends req st h
  | true =>
      refine (step req st h).mono fun r s' st' after => ?_
      obtain ⟨rfl, h'⟩ := after
      cases r with
      | ok _ => exact ends req st' h'
      | error e => exact h'.owed

theorem setAttrOn {r : InodeRef} {fd : Fd} {attr : Stat} {toSet : Flags} :
    Ends fs.opts (fs.setAttrOn r fd attr toSet) := by
  have step {c : Sys} {message : String} (req : FuseReq) (st : Sitting) (h : st.Hung fs.opts true []) :
      Follows (portraying fs.opts) (syscall fs.platform c message : Io FuseRequest c.Ret) ⟨some req⟩ st
        fun _ s' st' => s' = ⟨some req⟩ ∧ st'.Hung fs.opts true [] := by
    rw [follows_syscall]
    exact ⟨Sitting.allows_nameless h.owed rfl, fun _ _ => ⟨rfl, h.after rfl _⟩, fun _ _ => ⟨rfl, h.after rfl _⟩⟩
  exact setting step (setting step (setting step (setting step replyWithAttrs)))

theorem setAttr {attr : Stat} {toSet : Flags} {fi : FileInfo} : Ends fs.opts (fs.setAttr ino attr toSet fi) := by
  refine logged ?_
  split
  · exact withFD fun _ => sys fun _ => closed setAttrOn
  · exact setAttrOn

theorem readLink : Ends fs.opts (fs.readLink ino) := by
  refine logged (withFD fun fd => sys fun buf => ?_)
  split
  · exact fail _
  · exact send rfl

theorem create {name : String} {mode : Nat} {fi : FileInfo} : Ends fs.opts (fs.create ino name mode fi) :=
  logged (withFD fun _ => sys fun _ => closing fun _ _ h => Portraying.replyWithCreate h)

theorem syncFd {datasync : Bool} {fd : Fd} : Ends fs.opts (fs.syncFd datasync fd : Io FuseRequest Unit) := by
  cases datasync with
  | true => exact last
  | false => exact last

theorem getXAttr {name : String} {size : Nat} : Ends fs.opts (fs.getXAttr ino name size) := by
  refine logged (withFD fun fd req st h => ?_)
  unfold Syscalls.getxattr
  rw [Routine.follows_bind, Routine.follows_bind, follows_syscall]
  refine ⟨Sitting.allows_nameless h.owed rfl, fun _ _ => h.owed, fun r _ => ?_⟩
  have h₁ := h.after (c := .sys (.getxattr (.procSelfFd fd) name size)) rfl (.ok r)
  dsimp only
  rw [Routine.follows_bind, follows_check]
  exact ⟨fun _ => check (send rfl) req _ h₁, fun _ => Sitting.allows_calm _ rfl⟩

theorem listXAttr {size : Nat} : Ends fs.opts (fs.listXAttr ino size) :=
  logged (withFD fun _ => sys fun _ => check (send rfl))

theorem releaseDir {fi : FileInfo} : Ends opts (PageAlignFS.releaseDir ino fi) := by
  refine logged (call rfl rfl fun d => ?_)
  intro req st h
  rw [follows_closeDir]
  exact ⟨Sitting.allows_nameless h.owed rfl, fun _ _ => h.owed⟩

theorem forgetMulti {forgets : List ForgetData} : Ends opts (PageAlignFS.forgetMulti forgets) := by
  intro req st h
  induction forgets with
  | nil => exact h.owed
  | cons forget forgets ih =>
      unfold PageAlignFS.forgetMulti
      rw [Routine.follows_bind]
      refine unref fun r => ?_
      cases r with
      | ok _ => exact ih
      | error e => exact h.owed

/-- The inode is told of a write when the request has been answered. -/
theorem notifyPollEvent {r : InodeRef} {Q : Status → FuseRequest → Sitting → Prop} {self : FuseRequest}
    (done : ∀ r, Q r self st) : Follows (portraying opts) (Inode.notifyPollEvent P r) self st Q := by
  have still (c : Call) (calm : c.calm = true) (stays : ∀ a, c ≠ .dropShared a) (ret : c.Ret) :
      (portraying opts).after st c ret = st := st.after_calm calm stays ret
  unfold Inode.notifyPollEvent
  rw [Routine.follows_bind, Routine.follows_invoke]
  refine ⟨st.allows_calm rfl, fun present _ => ?_⟩
  rw [still _ rfl (by simp)]
  cases present with
  | none => exact done _
  | some _ =>
      dsimp only
      rw [Routine.follows_bind, Routine.follows_invoke]
      refine ⟨st.allows_calm rfl, fun handle _ => ?_⟩
      rw [still _ rfl (by simp)]
      cases handle with
      | none => exact done _
      | some ph =>
          dsimp only
          rw [Routine.follows_bind, Routine.follows_invoke]
          refine ⟨st.allows_calm rfl, fun rc _ => ?_⟩
          rw [still _ rfl (by simp)]
          exact done _

theorem writeBuf {inBuf : FuseBufVec} {off : Int} {fi : FileInfo} : Ends fs.opts (fs.writeBuf ino inBuf off fi) := by
  refine logged (call rfl rfl fun copied => ?_)
  cases copied with
  | error e => exact fail _
  | ok nb =>
      intro req st h
      dsimp only
      rw [Routine.follows_bind, Routine.follows_attempt]
      refine Portraying.send h.owed trivial (fun q mem => ?_) fun rc st' gone => ?_
      · simp [Reply.params] at mem
      · dsimp only
        rw [Routine.follows_bind, Routine.follows_attempt]
        exact notifyPollEvent fun _ => gone

theorem poll {ph : Option PollPtr} : Ends fs.opts (fs.poll ino ph) := by
  have polled : Ends fs.opts (do
      let fd ← Routine.invoke (I := calls) (.getFD (getInode ino))
      let polled ← Syscalls.poll fs.platform fd PageAlignFS.pollEvents
      Pafs.check .pollCount (polled.1 ≤ 1)
      FuseRequest.replyPoll fs.platform polled.2) := withFD fun _ => sys fun _ => check (send rfl)
  refine logged ?_
  cases ph with
  | none => exact polled
  | some ph =>
      intro req st h
      rw [Routine.follows_bind]
      unfold Inode.addPollHandle
      rw [Routine.follows_bind, Routine.follows_invoke]
      refine ⟨Sitting.allows_nameless h.owed rfl, fun old _ => ?_⟩
      have h₁ := h.after (c := .addPollHandle (getInode ino) ph) rfl old
      cases old with
      | none => exact polled req _ h₁
      | some o =>
          dsimp only [portraying]
          rw [Routine.follows_invoke]
          exact ⟨Sitting.allows_nameless h₁.owed rfl, fun u _ => polled req _ (h₁.after (c := .destroyPollHandle o) rfl u)⟩

/-- Every handler. -/
theorem invocation : {r : Request} → {method : PageAlignFS → Handler} →
    pageAlignFSOps.invocation r = some method → Ends fs.opts (method fs)
  | .lookup .., _, rfl => logged replyWithLookup
  | .forget .., _, rfl => logged fun _ _ h => unref fun _ => h.owed
  | .getattr .., _, rfl => logged replyWithAttrs
  | .setattr _ _ _ (some _), _, rfl => setAttr
  | .readlink .., _, rfl => readLink
  | .mknod .., _, rfl | .mkdir .., _, rfl | .symlink .., _, rfl =>
      logged (withFD fun _ => sys fun _ => replyWithLookup)
  | .unlink .., _, rfl | .rmdir .., _, rfl => logged (withFD fun _ => last)
  | .rename .., _, rfl => logged (logged (withFD fun _ => withFD fun _ => last))
  | .link .., _, rfl => logged (logged (withFD fun _ => withFD fun _ => sys fun _ => replyWithLookup))
  | .open_ _ (some _), _, rfl => logged (withFD fun _ => sys fun _ => closing (send rfl))
  | .read _ _ _ (some _), _, rfl => logged (send rfl)
  | .flush _ (some _), _, rfl => logged (sys fun _ => last)
  | .release _ (some _), _, rfl => logged last
  | .fsync _ _ (some _), _, rfl => logged syncFd
  | .opendir _ (some _), _, rfl =>
      logged (withFD fun _ => sys fun _ => sys fun _ => call rfl rfl fun _ => send rfl)
  | .readdir _ _ _ (some _), _, rfl | .readdirplus _ _ _ (some _), _, rfl =>
      logged fun _ _ h => readDirInternal h
  | .releasedir _ (some _), _, rfl => releaseDir
  | .fsyncdir _ _ (some _), _, rfl => logged (call rfl rfl fun _ => sys fun _ => syncFd)
  | .statfs .., _, rfl => logged (withFD fun _ => sys fun _ => send rfl)
  | .setxattr .., _, rfl | .removexattr .., _, rfl | .access .., _, rfl => logged (withFD fun _ => last)
  | .getxattr .., _, rfl => getXAttr
  | .listxattr .., _, rfl => listXAttr
  | .create _ _ _ (some _), _, rfl => create
  | .getlk _ (some _) _, _, rfl => logged (withFD fun _ => sys fun _ => send rfl)
  | .setlk _ (some _) _ _, _, rfl => logged (withFD fun _ => sys fun _ => pure ())
  | .poll _ (some _) _, _, rfl => poll
  | .writeBuf .., _, rfl => writeBuf
  | .forgetMulti _, _, rfl => forgetMulti
  | .flock _ (some _) _, _, rfl | .fallocate _ _ _ _ (some _), _, rfl => logged (withFD fun _ => last)
  | .copyFileRange _ _ (some _) _ _ (some _) _ _, _, rfl =>
      logged (logged (withFD fun _ => withFD fun _ => sys fun _ => send rfl))
  | .lseek _ _ _ (some _), _, rfl => logged (withFD fun _ => sys fun _ => send rfl)

end Ends

/-- Every callback tells of names what it has found out. -/
theorem follows_serve {req : FuseReq} {r : Request} {handler : Handler} (served : fs.serve req r = some handler) :
    Follows (portraying fs.opts) handler ⟨none⟩ .opening fun _ _ _ => True := by
  obtain ⟨method, invoked⟩ | null := invocation_or_null served
  · rw [PageAlignFS.serve, asFuseLowLevelOps_of_invocation invoked] at served
    cases served
    rw [follows_callback]
    exact (Ends.invocation invoked req .opening (.fresh _ _)).mono fun status s st owed => follows_epilogue owed
  · obtain ⟨next, aborts⟩ := asFuseLowLevelOps_of_null served null ⟨none⟩
    rw [Follows, aborts]
    refine ⟨Sitting.allows_calm _ rfl, fun impossible => ?_⟩
    cases impossible

end Portraying

theorem Trail.sent_note (tr : Trail) {c : Call} (r : c.Ret) (other : ∀ req reply, c ≠ .fuseReply req reply) :
    (tr.note c r).sent = tr.sent := by
  unfold note
  split
  case h_4 =>
      split <;> rfl
  case h_5 => exact absurd rfl (other _ _)
  all_goals rfl

theorem Gallery.portraits_reply (g : Gallery) (req : FuseReq) (reply : Reply) (rc : Option Errno) :
    (g.note (.fuseReply req reply) rc).portraits = g.portraits := by
  unfold portraits note
  cases g.current <;> rfl

/-- The names and files of the portraits are those of the trail. -/
theorem Gallery.resolved (t : List (Event calls)) :
    (ofEvents t).portraits.map (fun q => (q.name, q.key)) = (Trail.ofEvents t).resolved := by
  rw [← trail_ofEvents]
  induction t using List.reverseRecOn with
  | nil => rfl
  | append_singleton t e ih =>
      obtain ⟨c, r⟩ := e
      rw [ofEvents_concat]
      revert ih
      generalize ofEvents t = g
      intro ih
      by_cases inserts : ∃ i, c = .insert i
      · obtain ⟨i, rfl⟩ := inserts
        unfold note Trail.note
        cases name : g.trail.name i.fd with
        | none =>
            dsimp only
            rw [name]
            exact ih
        | some name' =>
            cases key : g.trail.stat i.fd with
            | none =>
                dsimp only
                rw [name, key]
                exact ih
            | some key' =>
                dsimp only
                rw [name, key]
                dsimp only [portraits, Option.toList_some]
                rw [List.map_append]
                exact congrArg (· ++ _) ih
      · have other : ∀ i, c ≠ .insert i := fun i same => inserts ⟨i, same⟩
        have same : (g.note c r).trail.resolved = g.trail.resolved := by
          rw [trail_note]
          unfold Trail.note
          split
          case h_4 => exact absurd rfl (other _)
          all_goals rfl
        rw [same, ← ih, note_other other]
        unfold portraits
        rw [List.map_append, List.map_append]
        cases g.current with
        | none => rfl
        | some q =>
            have grows := q.grows_note c r
            simp [grows.name, grows.key]

namespace Sitting

variable {opts : Options} {st : Sitting}

/-- What the kernel has been sent shows what was found out. -/
structure Honest (opts : Options) (st : Sitting) : Prop where
  unsent : st.owed = true → st.gallery.trail.sent = []
  shows : ∀ reply ∈ st.gallery.trail.sent, st.gallery.Shows opts reply

theorem Honest.after {c : Call} (allows : st.Allows opts c) (h : st.Honest opts) (r : c.Ret) :
    (st.after c r).Honest opts := by
  cases mine : st.owed with
  | false =>
      have calm := allows.1 mine
      have gallery : (st.after c r).gallery = st.gallery := st.gallery.note_calm calm r
      have owed : (st.after c r).owed = false := by
        cases c with
        | fuseReply => rfl
        | _ => exact mine
      refine ⟨fun still => ?_, ?_⟩
      · rw [owed] at still
        cases still
      · rw [gallery]
        exact h.shows
  | true =>
      have nothing := h.unsent mine
      by_cases replies : ∃ req reply, c = .fuseReply req reply
      · obtain ⟨req, reply, rfl⟩ := replies
        refine ⟨nofun, fun reply' mem => ?_⟩
        have same : reply' = reply := by
          cases r with
          | some e =>
              change reply' ∈ st.gallery.trail.sent at mem
              rw [nothing] at mem
              cases mem
          | none =>
              change reply' ∈ st.gallery.trail.sent ++ [reply] at mem
              rw [nothing] at mem
              exact List.mem_singleton.mp mem
        subst same
        have shows := allows.2.1
        have portraits := st.gallery.portraits_reply req reply' r
        change (st.gallery.note (.fuseReply req reply') r).Shows opts reply'
        unfold Gallery.Shows at shows ⊢
        rw [portraits]
        exact shows
      · have other : ∀ req reply, c ≠ .fuseReply req reply := fun req reply same => replies ⟨req, reply, same⟩
        have sent : (st.after c r).gallery.trail.sent = [] := by
          change (st.gallery.note c r).trail.sent = []
          rw [Gallery.trail_note, Trail.sent_note _ _ other, nothing]
        refine ⟨fun _ => sent, fun reply mem => ?_⟩
        rw [sent] at mem
        cases mem

theorem gallery_run (t : List (Event calls)) :
    ((portraying opts).run .opening t).gallery = Gallery.ofEvents t := by
  induction t using List.reverseRecOn with
  | nil => rfl
  | append_singleton t e ih =>
      rw [Gallery.ofEvents_concat, ← ih, Discipline.run, List.foldl_append]
      rfl

end Sitting

theorem portraying_admits (opts : Options) (st : Sitting) (t : List (Event calls)) :
    (portraying opts).Admits st t := by
  induction t generalizing st with
  | nil => trivial
  | cons e t ih => exact ⟨trivial, ih _⟩

/-- Along a complete execution, whatever reached the kernel shows what was found out. -/
theorem Portraying.Ends.shows {opts : Options} {m : Handler} {req : FuseReq} {t : List (Event calls)}
    {out : Status × FuseRequest} (h : Ends opts m) (exec : Exec (m ⟨some req⟩) t out) :
    ∀ reply ∈ (Trail.ofEvents t).sent, (Gallery.ofEvents t).Shows opts reply := by
  have honest : Sitting.opening.Honest opts := by
    refine ⟨fun _ => rfl, fun reply mem => ?_⟩
    cases mem
  have follows := Prog.Follows.keeps (h req .opening (.fresh _ _)) honest
    fun st c r allows _ honest => honest.after allows r
  have final := (follows.exec exec (portraying_admits _ _ _)).2.shows
  rw [Sitting.gallery_run, Gallery.trail_ofEvents] at final
  exact final

end Pafs
