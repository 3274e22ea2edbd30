import Pafs.Identity
import Pafs.Portraits

/-! Node ids. A live id stands for one file and a file has one live id; the pair of an id and
a generation can still come back for another file. Which file an entry is about is read off the
calls that were made for its request: it is the file that was found under the name. -/
namespace Pafs
open Resumption

/-- What has been done for a request since it came. -/
def doneFor (req : FuseReq) (labels : List (Label calls (FuseReq × Request))) : List (Event calls) :=
  doneSince (fun tag => tag.1 = req) labels

/-- What the kernel is told by one step after others. -/
def tells (labels : List (Label calls (FuseReq × Request))) : Label calls (FuseReq × Request) → List Given
  | .act tag ⟨.fuseReply _ reply, none⟩ => (Gallery.ofEvents (doneFor tag.1 labels)).told reply
  | _ => []

variable {fs : PageAlignFS} {counts : String → Bool} {root : Inode} {pipes : Fd → Bool} {s s' : Daemon}
  {w : World} {l m : Ledger} {st : Sitting} {f : Multiset Ledger} {a : Addr} {k : Key} {c : Call} {r : c.Ret}
  {labels : List (Label calls (FuseReq × Request))} {label : Label calls (FuseReq × Request)}

/-- What a thread holds, it knows by its file. -/
structure Recognises (w : World) (l : Ledger) (st : Sitting) : Prop where
  owed : st.owed = l.owed
  held : ∀ a, (st.live.map Prod.fst).count a ≤ l.shared a
  keys : ∀ p ∈ st.live, w.keyAt p.1 = some p.2

theorem Recognises.pos (h : Recognises w l st) {p : Addr × Key} (mem : p ∈ st.live) : 0 < l.shared p.1 :=
  (List.count_pos_iff.mpr (List.mem_map_of_mem mem)).trans_le (h.held p.1)

theorem Inv.kept (inv : Inv w f) (mem : m ∈ f) (held : 0 < m.shared a) : 0 < w.refcnt a := by
  obtain ⟨f, rfl⟩ := Multiset.exists_cons_of_mem mem
  exact inv.counts.shared_pos (Multiset.mem_cons_self m f) held

/-- An inode that is held before and after a call keeps its file. -/
theorem World.keyAt_held (before : 0 < w.refcnt a) (after : 0 < (w.effect counts c r).refcnt a)
    (key : w.keyAt a = some k) : (w.effect counts c r).keyAt a = some k := by
  obtain ⟨k', here⟩ := keyAt_of_refcnt after
  rw [here, ← keyAt_effect counts before here, key]

theorem Ledger.shared_same (other : ∀ i, c ≠ .insert i) (stays : ∀ a, c ≠ .dropShared a) :
    (l.after c r).shared = l.shared := by
  unfold after
  split
  case h_10 => exact absurd rfl (other _)
  case h_14 => exact absurd rfl (stays _)
  all_goals first
    | rfl
    | exact (Same.sawGeneration _ _ _).shared
    | (split <;> rfl)

theorem Ledger.owed_same (other : ∀ req reply, c ≠ .fuseReply req reply) : (l.after c r).owed = l.owed := by
  unfold after
  split
  case h_15 => exact absurd rfl (other _ _)
  all_goals first
    | rfl
    | exact (Same.sawGeneration _ _ _).owed

theorem Recognises.act (answers : w.Answers c r) (inv : Inv w (l ::ₘ f))
    (inv' : Inv (w.effect counts c r) (l.after c r ::ₘ f)) (h : Recognises w l st) :
    Recognises (w.effect counts c r) (l.after c r) (st.after c r) := by
  have mine : l ∈ l ::ₘ f := Multiset.mem_cons_self l f
  have mine' : l.after c r ∈ l.after c r ::ₘ f := Multiset.mem_cons_self _ f
  have owed : (st.after c r).owed = (l.after c r).owed := by
    by_cases replies : ∃ req reply, c = .fuseReply req reply
    · obtain ⟨req, reply, rfl⟩ := replies
      cases r <;> rfl
    · have other : ∀ req reply, c ≠ .fuseReply req reply := fun req reply same => replies ⟨req, reply, same⟩
      rw [Ledger.owed_same other, ← h.owed]
      cases c with
      | fuseReply req reply => exact absurd rfl (other req reply)
      | _ => rfl
  have old {p : Addr × Key} (mem : p ∈ st.live) (still : 0 < (l.after c r).shared p.1) :
      (w.effect counts c r).keyAt p.1 = some p.2 :=
    World.keyAt_held (inv.kept mine (h.pos mem)) (inv'.kept mine' still) (h.keys p mem)
  by_cases inserts : ∃ i, c = .insert i
  · obtain ⟨i, rfl⟩ := inserts
    have shared : (l.after (.insert i) r).shared = l.shared + Pi.single r.addr 1 := rfl
    refine ⟨owed, fun a => ?_, fun p mem => ?_⟩
    · change (r.addr :: st.live.map Prod.fst).count a ≤ _
      have held := h.held a
      rw [shared, List.count_cons, Pi.add_apply, Pi.single_apply]
      simp only [beq_iff_eq, @eq_comm _ a]
      omega
    · rcases List.mem_cons.mp mem with rfl | mem
      · exact World.keyAt_insert answers
      · refine old mem ?_
        rw [shared]
        exact Nat.add_pos_left (h.pos mem) _
  have other : ∀ i, c ≠ .insert i := fun i same => inserts ⟨i, same⟩
  by_cases drops : ∃ a, c = .dropShared a
  · obtain ⟨a, rfl⟩ := drops
    have live : (st.after (.dropShared a) r).live.map Prod.fst = (st.live.map Prod.fst).erase a := by
      rw [List.erase_eq_eraseP', List.eraseP_map]
      rfl
    have held (b : Addr) : ((st.after (.dropShared a) r).live.map Prod.fst).count b ≤
        (l.after (.dropShared a) r).shared b := by
      have before := h.held b
      change _ ≤ l.shared b - (Pi.single a 1 : Addr → Nat) b
      rw [live, Pi.single_apply]
      by_cases same : b = a
      · subst same
        rw [List.count_erase_self, if_pos rfl]
        omega
      · rw [List.count_erase_of_ne same, if_neg same]
        exact before
    refine ⟨owed, held, fun p mem => ?_⟩
    have pos : 0 < (l.after (.dropShared a) r).shared p.1 :=
      (List.count_pos_iff.mpr (List.mem_map_of_mem mem)).trans_le (held p.1)
    exact old (List.mem_of_mem_eraseP mem) pos
  have stays : ∀ a, c ≠ .dropShared a := fun a same => drops ⟨a, same⟩
  have live : (st.after c r).live = st.live := by
    cases c with
    | insert i => exact absurd rfl (other i)
    | dropShared a => exact absurd rfl (stays a)
    | _ => rfl
  have shared : (l.after c r).shared = l.shared := Ledger.shared_same other stays
  refine ⟨owed, ?_, fun p mem => ?_⟩
  · rw [live, shared]
    exact h.held
  · rw [live] at mem
    refine old mem ?_
    rw [shared]
    exact h.pos mem

/-- The others keep what they know. -/
theorem Recognises.other (inv : Inv w (l ::ₘ f)) (inv' : Inv (w.effect counts c r) (l.after c r ::ₘ f)) (mem : m ∈ f)
    (h : Recognises w m st) : Recognises (w.effect counts c r) m st := by
  refine ⟨h.owed, h.held, fun p live => ?_⟩
  have held := h.pos live
  exact World.keyAt_held (inv.kept (Multiset.mem_cons_of_mem mem) held) (inv'.kept (Multiset.mem_cons_of_mem mem) held)
    (h.keys p live)

/-- The books, with what every thread knows of the names it has resolved. -/
def recognising (fs : PageAlignFS) (counts : String → Bool) :
    Protocol (daemon fs counts) (fun _ _ => True) (Ledger × Sitting) :=
  (bookkeeping fs counts).extend (fun _ _ _ => trivial) (portraying fs.opts) (fun _ => .opening) (fun _ => True)
    (fun w f => ∀ p ∈ f, Recognises w p.1 p.2)
    (by
      rintro w tag p w' f ⟨send, rfl, handler, served, rfl⟩ - - h
      refine ⟨Portraying.follows_serve served, fun q mem => ?_⟩
      rcases Multiset.mem_cons.mp mem with rfl | mem
      · refine ⟨rfl, fun a => Nat.zero_le _, fun p mem => ?_⟩
        cases mem
      · refine ⟨(h q mem).owed, (h q mem).held, fun p live => ?_⟩
        rw [World.keyAt_arrive]
        exact (h q mem).keys p live)
    (by
      rintro w w' l st f c r allows - ⟨answers, rfl⟩ - inv h
      obtain ⟨-, inv'⟩ := (bookkeeping fs counts).act allows ⟨answers, rfl⟩ trivial inv
      refine ⟨trivial, fun q mem => ?_⟩
      rcases Multiset.mem_cons.mp mem with rfl | mem
      · exact (h _ (Multiset.mem_cons_self _ _)).act answers inv inv'
      · have known := h q (Multiset.mem_cons_of_mem mem)
        exact known.other inv inv' (Multiset.mem_map_of_mem Prod.fst mem))
    (by
      rintro w l st f - - - h q mem
      have known := h q (Multiset.mem_cons_of_mem mem)
      exact ⟨known.owed, known.held, known.keys⟩)

/-- A version that was read from a file that had been found under a name. -/
structure Fetch where
  ino : Addr
  key : Key
  version : Nat
  deriving DecidableEq

/-- What one step after others reads of the versions of files: the descriptor is one that was
opened through the inode of the name that was resolved last. -/
def fetches (labels : List (Label calls (FuseReq × Request))) : Label calls (FuseReq × Request) → List Fetch
  | .act tag ⟨.sys (.ioctl fd _), .ok v⟩ =>
      match (Gallery.ofEvents (doneFor tag.1 labels)).current with
      | some q => if q.reopened = some fd then [⟨q.ino, q.key, v⟩] else []
      | none => []
  | _ => []

/-- All entries that the kernel was told. -/
def toldSoFar : List (Label calls (FuseReq × Request)) → List Given
  | [] => []
  | label :: labels => toldSoFar labels ++ tells labels label

/-- All versions that were read. -/
def fetchedSoFar : List (Label calls (FuseReq × Request)) → List Fetch
  | [] => []
  | label :: labels => fetchedSoFar labels ++ fetches labels label

/-- The books of a run: what is known of names and versions was told by the run's own calls. -/
structure Recorded (labels : List (Label calls (FuseReq × Request))) (w : World) (f : Multiset (Ledger × Sitting)) :
    Prop where
  known : ∀ p ∈ f, p.1.owed = true → p.2.gallery = Gallery.ofEvents (doneFor p.1.req labels)
  memo : ∀ a n v, w.inodes.heap a = some n → n.inode.generation = some (.ok v) →
    ⟨a, n.inode.key, v⟩ ∈ fetchedSoFar labels
  seen : ∀ p ∈ f, p.1.owed = true → ∀ q ∈ p.2.gallery.portraits, ∀ v, q.generation = some v →
    ⟨q.ino, q.key, v⟩ ∈ fetchedSoFar labels
  told : ∀ g ∈ toldSoFar labels, ∃ v, g.generation = some v ∧ ⟨g.ino, g.key, v⟩ ∈ fetchedSoFar labels

/-- What the kernel is to learn of a name. -/
def Portrait.given (q : Portrait) : Given := ⟨q.ino, q.generation, q.key⟩

theorem zipWith_take {α β γ : Type} {R : β → α → Prop} {F : α → β → γ} {G : β → γ} {ps : List α} {qs : List β}
    (h : List.Forall₂ R (qs.take ps.length) ps) (same : ∀ q p, R q p → F p q = G q) :
    List.zipWith F ps qs = (qs.take ps.length).map G := by
  induction ps generalizing qs with
  | nil => rfl
  | cons p ps ih =>
      cases qs with
      | nil => cases h
      | cons q qs =>
          cases h with
          | cons here rest =>
              rw [List.zipWith_cons_cons, ih rest, same q p here]
              rfl

namespace Gallery

variable {opts : Options} {g : Gallery} {reply : Reply}

theorem Shows.makes (shows : g.Shows opts reply) :
    List.Forall₂ (fun q p => q.Makes opts true p) (g.portraits.take reply.params.length) reply.params := by
  cases reply with
  | entry param | create param =>
      obtain ⟨q, only, made⟩ := shows
      rw [only]
      exact .cons made .nil
  | buf b =>
      cases b with
      | dirs plus records =>
          cases plus with
          | false => exact .nil
          | true =>
              unfold Reply.params
              rw [List.length_map, List.forall₂_map_right_iff]
              exact shows.imp fun _ _ here => here.2
      | _ => exact .nil
  | _ => exact .nil

/-- Every entry of a reply is told, with the file of its name. -/
theorem told_eq (shows : g.Shows opts reply) :
    g.told reply = (g.portraits.take reply.params.length).map Portrait.given :=
  zipWith_take shows.makes fun q p made => by
    unfold Portrait.given
    rw [made.ino, made.generation]
    rfl

theorem told_ino (shows : g.Shows opts reply) : (g.told reply).map Given.ino = reply.entries := by
  rw [told_eq shows, Reply.entries_eq, List.map_map]
  have made := shows.makes
  generalize g.portraits.take reply.params.length = qs at made ⊢
  generalize reply.params = ps at made ⊢
  induction made with
  | nil => rfl
  | cons here _ ih => exact congrArg₂ List.cons here.ino.symm ih

theorem fetched_of_told (shows : g.Shows opts reply) :
    ∀ q ∈ g.portraits.take reply.params.length, ∃ v, q.generation = some v := by
  have made := shows.makes
  generalize g.portraits.take reply.params.length = qs at made ⊢
  generalize reply.params = ps at made
  induction made with
  | nil =>
      intro q mem
      cases mem
  | cons here _ ih =>
      intro q mem
      rcases List.mem_cons.mp mem with rfl | mem
      · exact Option.isSome_iff_exists.mp (here.fetched rfl)
      · exact ih q mem

end Gallery

section DoneFor
variable {tag : FuseReq × Request} {req : FuseReq} {e : Event calls}

theorem doneFor_act : doneFor tag.1 (.act tag e :: labels) = doneFor tag.1 labels ++ [e] :=
  doneSince_act (decide_eq_true rfl)

theorem doneFor_act_other (other : tag.1 ≠ req) : doneFor req (.act tag e :: labels) = doneFor req labels :=
  doneSince_act_other (decide_eq_false other)

theorem doneFor_arrive : doneFor tag.1 (.arrive tag :: labels) = [] := doneSince_arrive (decide_eq_true rfl)

theorem doneFor_arrive_other (other : tag.1 ≠ req) : doneFor req (.arrive tag :: labels) = doneFor req labels :=
  doneSince_arrive_other (decide_eq_false other)

end DoneFor

/-- A version of a name is known from one call. -/
theorem Portrait.generation_note {q : Portrait} {v : Nat} (h : (q.note c r).generation = some v) :
    q.generation = some v ∨ (∃ fd cmd, (⟨c, r⟩ : Event calls) = ⟨.sys (.ioctl fd cmd), .ok v⟩ ∧ q.reopened = some fd) ∨
      (⟨c, r⟩ : Event calls) = ⟨.getGeneration (.node q.ino), some (.ok v)⟩ := by
  unfold note at h
  split at h
  case h_4 fd cmd v' =>
    split at h
    · next new =>
        cases h
        exact .inr (.inl ⟨fd, cmd, rfl, new.1⟩)
    · exact .inl h
  case h_5 i v' =>
    split at h
    · next new =>
        cases h
        rw [new.1]
        exact .inr (.inr rfl)
    · exact .inl h
  all_goals first
    | exact .inl h
    | (split at h <;> exact .inl h)

/-- The portraits after a call: those from before, the last one perhaps with more on it, and
perhaps a new one without a version. -/
theorem Gallery.mem_note {g : Gallery} {q' : Portrait} (mem : q' ∈ (g.note c r).portraits) :
    q' ∈ g.portraits ∨ (∃ q, g.current = some q ∧ q' = q.note c r) ∨ q'.generation = none := by
  by_cases inserts : ∃ i, c = .insert i
  · obtain ⟨i, rfl⟩ := inserts
    unfold note at mem
    dsimp only at mem
    split at mem
    · rcases List.mem_append.mp mem with mem | mem
      · exact .inl mem
      · cases Option.mem_toList.mp mem
        exact .inr (.inr rfl)
    · exact .inl mem
  · rw [note_other fun i same => inserts ⟨i, same⟩] at mem
    rcases List.mem_append.mp mem with mem | mem
    · exact .inl (List.mem_append_left _ mem)
    · obtain ⟨q, here, rfl⟩ := Option.map_eq_some_iff.mp (Option.mem_toList.mp mem)
      exact .inr (.inl ⟨q, here, rfl⟩)

theorem Gallery.mem_current {g : Gallery} {q : Portrait} (here : g.current = some q) : q ∈ g.portraits :=
  List.mem_append_right _ (Option.mem_toList.mpr here)

theorem Ledger.owed_before (h : (l.after c r).owed = true) : l.owed = true := by
  by_cases replies : ∃ req reply, c = .fuseReply req reply
  · obtain ⟨req, reply, rfl⟩ := replies
    cases r <;> cases h
  · rwa [owed_same fun req reply same => replies ⟨req, reply, same⟩] at h

namespace Recorded

variable {ps : Multiset (Ledger × Sitting)} {tag : FuseReq × Request}

theorem arrive (inv : Inv w (ps.map Prod.fst)) (h : Recorded labels w ps) (send : w.MaySend tag.1 tag.2) (opts : Options) :
    Recorded (.arrive tag :: labels) (w.arrive tag.1 tag.2) ((.opening opts tag, .opening) ::ₘ ps) := by
  have fetched : fetchedSoFar (.arrive tag :: labels) = fetchedSoFar labels := List.append_nil _
  have told : toldSoFar (.arrive tag :: labels) = toldSoFar labels := List.append_nil _
  refine ⟨fun p mem owed => ?_, ?_, fun p mem owed => ?_, ?_⟩
  · rcases Multiset.mem_cons.mp mem with rfl | mem
    · change _ = Gallery.ofEvents (doneFor tag.1 _)
      rw [doneFor_arrive]
      rfl
    · have other : tag.1 ≠ p.1.req := by
        intro same
        have pending := inv.requests.pending p.1 (Multiset.mem_map_of_mem Prod.fst mem) owed
        rw [← same, send.fresh] at pending
        cases pending
      rw [doneFor_arrive_other other]
      exact h.known p mem owed
  · obtain ⟨nlookup, forgetting, fds, -, arrive⟩ := w.arrive_cases tag.1 tag.2
    rw [fetched, arrive]
    exact h.memo
  · rw [fetched]
    rcases Multiset.mem_cons.mp mem with rfl | mem
    · intro q listed
      cases listed
    · exact h.seen p mem owed
  · rw [fetched, told]
    exact h.told

theorem leave (h : Recorded labels w ((l, st) ::ₘ ps)) : Recorded (.leave tag :: labels) (w.depart tag.2) ps := by
  have fetched : fetchedSoFar (.leave tag :: labels) = fetchedSoFar labels := List.append_nil _
  have told : toldSoFar (.leave tag :: labels) = toldSoFar labels := List.append_nil _
  refine ⟨fun p mem owed => h.known p (Multiset.mem_cons_of_mem mem) owed, ?_, fun p mem owed => ?_, ?_⟩
  · rw [fetched]
    exact h.memo
  · rw [fetched]
    exact h.seen p (Multiset.mem_cons_of_mem mem) owed
  · rw [fetched, told]
    exact h.told

theorem known_act {opts : Options} (allows : st.Allows opts c) (inv : Inv w (l ::ₘ ps.map Prod.fst))
    (mine : Recognises w l st) (same : tag.1 = l.req) (h : Recorded labels w ((l, st) ::ₘ ps)) :
    ∀ p ∈ ((l.after c r, st.after c r) ::ₘ ps : Multiset (Ledger × Sitting)), p.1.owed = true →
      p.2.gallery = Gallery.ofEvents (doneFor p.1.req (.act tag ⟨c, r⟩ :: labels)) := by
  intro p mem owed
  rcases Multiset.mem_cons.mp mem with rfl | mem
  · have before := h.known _ (Multiset.mem_cons_self _ _) (Ledger.owed_before owed)
    have req : (l.after c r).req = tag.1 := (congrArg Prod.fst (Ledger.tag_after l c r)).trans same.symm
    dsimp only at before ⊢
    rw [req, doneFor_act, Gallery.ofEvents_concat, same, ← before]
    rfl
  · have before := h.known p (Multiset.mem_cons_of_mem mem) owed
    by_cases owes : l.owed = true
    · have other := inv.requests.other owes (Multiset.mem_map_of_mem Prod.fst mem) owed
      rw [doneFor_act_other (same ▸ other.symm)]
      exact before
    · -- the request may have come again under the same id, what is left to do tells nothing
      have calm : c.calm = true := allows.1 (mine.owed.trans (Bool.eq_false_iff.mpr owes))
      by_cases again : tag.1 = p.1.req
      · rw [← again, doneFor_act, Gallery.ofEvents_concat, Gallery.note_calm _ calm, again]
        exact before
      · rw [doneFor_act_other again]
        exact before

theorem seen_current {q : Portrait} {v : Nat} {p : Ledger × Sitting} (h : Recorded labels w ps) (mem : p ∈ ps)
    (owed : p.1.owed = true) (current : p.2.gallery.current = some q) (generation : q.generation = some v) :
    ⟨q.ino, q.key, v⟩ ∈ fetchedSoFar labels :=
  h.seen p mem owed q (Gallery.mem_current current) v generation

theorem memo_act {opts : Options} {a : Addr} {n' : Node} {v : Nat} (permits : l.Permits c) (allows : st.Allows opts c)
    (mine : Recognises w l st) (h : Recorded labels w ((l, st) ::ₘ ps))
    (heap' : (w.effect counts c r).inodes.heap a = some n') (memo : n'.inode.generation = some (.ok v)) :
    ⟨a, n'.inode.key, v⟩ ∈ fetchedSoFar labels := by
  obtain ⟨n, heap, wrote⟩ | ⟨-, i, rfl, rfl⟩ := World.inode_of_effect counts c r heap'
  · rw [wrote.key]
    obtain same | ⟨v', rfl, same⟩ | ⟨ph, -, same⟩ := wrote
    · rw [same] at memo
      exact h.memo a n v heap memo
    · rw [same] at memo
      cases memo
      obtain ⟨calm, q, current, here, live, generation⟩ := allows
      cases here
      have key := mine.keys _ live
      rw [World.keyAt_of_heap heap] at key
      have owed : l.owed = true := by
        rw [← mine.owed]
        by_contra done
        cases calm (Bool.eq_false_iff.mpr done)
      have seen := h.seen_current (Multiset.mem_cons_self _ _) owed current (generation v rfl)
      rwa [Option.some.inj key]
    · rw [same] at memo
      exact h.memo a n v heap memo
  · have unset := permits.2.1
    rw [unset] at memo
    cases memo

theorem seen_act {opts : Options} {q' : Portrait} {v : Nat} (allows : st.Allows opts c) (answers : w.Answers c r)
    (mine : Recognises w l st) (same : tag.1 = l.req) (h : Recorded labels w ((l, st) ::ₘ ps))
    (owed' : (l.after c r).owed = true) (mem : q' ∈ (st.after c r).gallery.portraits) (generation : q'.generation = some v) :
    ⟨q'.ino, q'.key, v⟩ ∈ fetchedSoFar (.act tag ⟨c, r⟩ :: labels) := by
  have here := Multiset.mem_cons_self (l, st) ps
  have owed := Ledger.owed_before owed'
  obtain old | ⟨q, current, rfl⟩ | unset := Gallery.mem_note mem
  · exact List.mem_append_left _ (h.seen _ here owed q' old v generation)
  · have grows := q.grows_note c r
    rw [grows.ino, grows.key]
    obtain known | ⟨fd, cmd, event, reopened⟩ | event := Portrait.generation_note generation
    · exact List.mem_append_left _ (h.seen_current here owed current known)
    · cases event
      refine List.mem_append_right _ ?_
      unfold fetches
      dsimp only
      rw [same, ← h.known _ here owed]
      dsimp only
      rw [current]
      dsimp only
      rw [if_pos reopened]
      exact List.mem_singleton_self _
    · cases event
      obtain ⟨-, q₀, current', -, live⟩ := allows
      cases current.symm.trans current'
      have key : w.keyAt q.ino = some q.key := mine.keys _ live
      obtain ⟨n, heap, key⟩ := World.heap_of_keyAt key
      rw [← key]
      exact List.mem_append_left _ (h.memo q.ino n v heap (World.reads_node heap answers).symm)
  · rw [unset] at generation
    cases generation

theorem told_act {opts : Options} {g : Given} (allows : st.Allows opts c) (permits : l.Permits c)
    (same : tag.1 = l.req) (h : Recorded labels w ((l, st) ::ₘ ps)) (mem : g ∈ tells labels (.act tag ⟨c, r⟩)) :
    ∃ v, g.generation = some v ∧ ⟨g.ino, g.key, v⟩ ∈ fetchedSoFar labels := by
  unfold tells at mem
  split at mem
  · next req reply event =>
    cases event
    have owed : l.owed = true := permits.owed
    have here := Multiset.mem_cons_self (l, st) ps
    rw [same, ← h.known _ here owed, Gallery.told_eq allows.2.1] at mem
    obtain ⟨q, listed, rfl⟩ := List.mem_map.mp mem
    obtain ⟨v, generation⟩ := Gallery.fetched_of_told allows.2.1 q listed
    exact ⟨v, generation, h.seen _ here owed q (List.mem_of_mem_take listed) v generation⟩
  · cases mem

theorem act {opts : Options} (permits : l.Permits c) (allows : st.Allows opts c) (answers : w.Answers c r)
    (inv : Inv w (l ::ₘ ps.map Prod.fst)) (mine : Recognises w l st) (same : tag.1 = l.req)
    (h : Recorded labels w ((l, st) ::ₘ ps)) :
    Recorded (.act tag ⟨c, r⟩ :: labels) (w.effect counts c r) ((l.after c r, st.after c r) ::ₘ ps) := by
  refine ⟨h.known_act allows inv mine same, fun a n v heap memo => ?_, fun p mem owed q listed v generation => ?_,
    fun g mem => ?_⟩
  · exact List.mem_append_left _ (h.memo_act permits allows mine heap memo)
  · rcases Multiset.mem_cons.mp mem with rfl | mem
    · exact h.seen_act allows answers mine same owed listed generation
    · exact List.mem_append_left _ (h.seen p (Multiset.mem_cons_of_mem mem) owed q listed v generation)
  · rcases List.mem_append.mp mem with mem | mem
    · obtain ⟨v, generation, fetched⟩ := h.told g mem
      exact ⟨v, generation, List.mem_append_left _ fetched⟩
    · obtain ⟨v, generation, fetched⟩ := h.told_act allows permits same mem
      exact ⟨v, generation, List.mem_append_left _ fetched⟩

end Recorded

/-- The books of a run are kept by every step. -/
def recording (fs : PageAlignFS) (counts : String → Bool) : Annals (recognising fs counts) where
  Inv := Recorded
  arrive := by
    rintro labels w tag p w' f ⟨send, rfl, -⟩ - inv h
    exact h.arrive inv.1 send fs.opts
  act := by
    rintro labels w w' ⟨l, st⟩ f c r ⟨permits, allows⟩ ⟨answers, rfl⟩ - inv h
    have base := inv.1
    rw [Multiset.map_cons] at base
    exact h.act permits.permits allows answers base (inv.2 _ (Multiset.mem_cons_self _ _)) rfl
  leave := by
    rintro labels w ⟨l, st⟩ f - - h
    exact h.leave

theorem recorded (run : (daemon fs counts).History (fun _ _ => True) (.initial root pipes) labels s) :
    (recognising fs counts).Matched
      (fun w f => (recognising fs counts).Inv w f ∧ Recorded labels w f) s := by
  refine (recording fs counts).matched ⟨Inv.initial root pipes, fun p mem => absurd mem (Multiset.notMem_zero p)⟩ ?_ run
  refine ⟨fun p mem => absurd mem (Multiset.notMem_zero p), fun a n v heap => ?_,
    fun p mem => absurd mem (Multiset.notMem_zero p), fun g mem => ?_⟩
  · cases heap
  · cases mem

/-- The step by which the kernel is told of an entry. -/
structure Receives (fs : PageAlignFS) (counts : String → Bool) (labels : List (Label calls (FuseReq × Request)))
    (s : Daemon) (label : Label calls (FuseReq × Request)) (s' : Daemon) (g : Given) : Prop where
  step : (daemon fs counts).Step s label s'
  told : g ∈ tells labels label

/-- A thread that replies knows the names that its reply is about. -/
theorem shows_of_step {req : FuseReq} {reply : Reply} {tag : FuseReq × Request} {e : Option Errno}
    (run : (daemon fs counts).History (fun _ _ => True) (.initial root pipes) labels s)
    (step : (daemon fs counts).Step s (.act tag ⟨.fuseReply req reply, e⟩) s') :
    ∃ g : Gallery, g = Gallery.ofEvents (doneFor tag.1 labels) ∧ g.Shows fs.opts reply ∧
      ∀ q ∈ g.portraits.take reply.params.length, s.world.keyAt q.ino = some q.key := by
  have matched := recorded run
  cases step with
  | @act w w' _ _ r next pre post perform =>
      obtain ⟨before, after, ⟨l, st⟩, -, -, -, own, inv, recorded⟩ := matched.split
      have mine := inv.2 _ (Multiset.mem_cons_self _ _)
      obtain ⟨permits, allows⟩ := own.follows.1
      have owed : l.owed = true := permits.permits.owed
      have same : l.req = tag.1 := congrArg Prod.fst own.tag
      refine ⟨st.gallery, ?_, allows.2.1, fun q mem => mine.keys _ (allows.2.2 q mem)⟩
      rw [← same]
      exact recorded.known _ (Multiset.mem_cons_self _ _) owed

/-- Every entry of a reply that reaches the kernel is told. -/
theorem tells_entries {req : FuseReq} {reply : Reply} {tag : FuseReq × Request}
    (run : (daemon fs counts).History (fun _ _ => True) (.initial root pipes) labels s)
    (step : (daemon fs counts).Step s (.act tag ⟨.fuseReply req reply, none⟩) s') :
    (tells labels (.act tag ⟨.fuseReply req reply, none⟩)).map Given.ino = reply.entries := by
  obtain ⟨g, rfl, shows, -⟩ := shows_of_step run step
  exact Gallery.told_ino shows

/-- While the kernel is told of an id, the file that was found is the one at the id. -/
theorem Receives.keyAt {g : Given}
    (run : (daemon fs counts).History (fun _ _ => True) (.initial root pipes) labels s)
    (h : Receives fs counts labels s label s' g) :
    s.world.keyAt g.ino = some g.key ∧ s'.world.keyAt g.ino = some g.key := by
  obtain ⟨step, told⟩ := h
  unfold tells at told
  split at told
  · next tag req reply =>
    obtain ⟨gallery, rfl, shows, keys⟩ := shows_of_step run step
    rw [Gallery.told_eq shows] at told
    obtain ⟨q, listed, rfl⟩ := List.mem_map.mp told
    have key : s.world.keyAt q.ino = some q.key := keys q listed
    refine ⟨key, ?_⟩
    cases step with
    | @act w w' _ _ _ next pre post perform =>
        obtain ⟨-, rfl⟩ := perform
        obtain ⟨-, inodes⟩ := w.replied_eq counts req reply
        unfold World.keyAt at key ⊢
        dsimp only at key ⊢
        rw [inodes]
        exact key
  · cases told

/-- Of two entries that the kernel receives, in one reply or in two between which the id of
the first is not completely forgotten, the ids are equal exactly if the files are. -/
theorem ids_equal_iff {s₁ : Daemon} {g₁ g₂ : Given}
    (run : (daemon fs counts).History (fun _ _ => True) (.initial root pipes) labels s)
    (first : Receives fs counts labels s label s₁ g₁)
    (second : Receives fs counts labels s label s₁ g₂ ∨ ∃ between s₂ label' s₃,
      (daemon fs counts).Path (Remembered g₁.ino) s₁ between s₂ ∧
      Receives fs counts (between ++ label :: labels) s₂ label' s₃ g₂) :
    g₁.ino = g₂.ino ↔ g₁.key = g₂.key := by
  have here : ∃ s₂ : Daemon, s₂.world.keyAt g₁.ino = some g₁.key ∧ s₂.world.keyAt g₂.ino = some g₂.key := by
    rcases second with together | ⟨between, s₂, label', s₃, path, later⟩
    · exact ⟨s, (first.keyAt run).1, (together.keyAt run).1⟩
    · have run' := run.step first.step trivial
      have still := (keyAt_path run'.reach path (first.keyAt run).2).2
      exact ⟨s₂, still, (later.keyAt (run'.path path)).1⟩
  obtain ⟨s₂, key₁, key₂⟩ := here
  constructor
  · intro same
    rw [same, key₂] at key₁
    exact (Option.some.inj key₁).symm
  · intro same
    rw [same] at key₁
    exact World.keyAt_injective key₁ key₂

namespace Sample

/-- The file has a second name in the source directory. -/
def linkTag : FuseReq × Request := (⟨5, .lookup⟩, .lookup FUSE_ROOT_ID "g")

def linkEvents : List (Event calls) :=
  [⟨.logInode .root, ()⟩, ⟨.getFD .root, (4 : Int)⟩,
    ⟨.sys (.openat 4 "g" (O_PATH ||| O_NOFOLLOW ||| O_CLOEXEC) 0), .ok (10 : Int)⟩,
    ⟨.sys (.fstatat 10 "" (AT_EMPTY_PATH ||| AT_SYMLINK_NOFOLLOW)), .ok fileStat⟩,
    ⟨.insert ⟨10, 77, 8, none, none⟩, { addr := 4096, fresh := false }⟩, ⟨.sys (.close 10 true), .ok ()⟩,
    ⟨.getSourceDevice .root, (8 : Nat)⟩, ⟨.getSourceDevice (.node 4096), (8 : Nat)⟩,
    ⟨.getFD (.node 4096), (9 : Int)⟩,
    ⟨.sys (.fstatat 9 "" (AT_EMPTY_PATH ||| AT_SYMLINK_NOFOLLOW)), .ok fileStat⟩,
    ⟨.getGeneration (.node 4096), some (.ok 1)⟩, ⟨.ref (.node 4096) 1, none⟩]

def linkWorld : World := (lookedUp.arrive linkTag.1 linkTag.2).play countsName linkEvents

def linkCallback : Prog calls (Status × FuseRequest) :=
  callback linux (some .onLinux) linkTag.1 .replyFailure
    (fun fs : PageAlignFS => fs.lookup FUSE_ROOT_ID "g") { req := none }

theorem steps_link : ∃ next, Steps linkCallback linkEvents (.call (.fuseReply ⟨5, .lookup⟩ (.entry entry)) next) :=
  ⟨_, .step _ (.step _ (.step _ (.step _ (.step _ (.step _ (.step _ (.step _ (.step _ (.step _
    (.step _ (.step _ (.refl _))))))))))))⟩

theorem linkEvents_other {e : Event calls} (mem : e ∈ linkEvents) (req : FuseReq) (reply : Reply) :
    e.1 ≠ .fuseReply req reply := by
  intro same
  fin_cases mem <;> cases same

theorem remembered_effect {w w' : World} {c : Call} {r : c.Ret} (other : ∀ req reply, c ≠ .fuseReply req reply)
    (h : 0 < w.nlookup a + w.uncounted a) (perform : (daemon fs countsName).perform w c r w') :
    0 < w'.nlookup a + w'.uncounted a := by
  obtain ⟨-, rfl⟩ := perform
  have frame := World.frame_effect (w := w) countsName c r other
  rw [frame.nlookup, frame.uncounted]
  exact h

/-- The steps before the first reply, and those from it to the second one. -/
def linkBefore : List (Label calls (FuseReq × Request)) := actsOf lookupTag lookupEvents.dropLast ++ [.arrive lookupTag]

def linkReply (tag : FuseReq × Request) : Label calls (FuseReq × Request) :=
  .act tag ⟨.fuseReply tag.1 (.entry entry), none⟩

def linkBetween : List (Label calls (FuseReq × Request)) :=
  actsOf linkTag linkEvents ++ [.arrive linkTag, .leave lookupTag, .act lookupTag ⟨.dropShared 4096, .dropped none⟩]

end Sample

open Sample in
/-- The same file is looked up under two names. -/
theorem ids_equal_hard_link : ∃ s s₁ s₂ s₃ : Daemon,
    (daemon .onLinux countsName).History (fun _ _ => True) mounted linkBefore s ∧
    Receives .onLinux countsName linkBefore s (linkReply lookupTag) s₁ given ∧
    (daemon .onLinux countsName).Path (Remembered given.ino) s₁ linkBetween s₂ ∧
    Receives .onLinux countsName (linkBetween ++ linkReply lookupTag :: linkBefore) s₂ (linkReply linkTag) s₃ given ∧
    (given.ino = given.ino ↔ given.key = given.key) := by
  obtain ⟨next, next', steps, dropping, done⟩ := steps_lookup_unsent
  obtain ⟨linkNext, linkSteps⟩ := steps_link
  have started : (daemon .onLinux countsName).History (fun _ _ => True) mounted [.arrive lookupTag]
      ⟨mounted.arrive lookupTag.1 lookupTag.2, [⟨lookupTag, lookupCallback⟩]⟩ :=
    .step .init (.arrive ⟨maySend_lookup, rfl, _, rfl, rfl⟩) trivial
  have run := started.run steps plays_unsent.performs fun _ _ _ => trivial
  have reply : (daemon .onLinux countsName).Step
      ⟨unsent, [⟨lookupTag, .call (.fuseReply ⟨2, .lookup⟩ (.entry entry)) next⟩]⟩ (linkReply lookupTag)
      ⟨lookupReplied, [⟨lookupTag, next none⟩]⟩ := .act_head ⟨trivial, rfl⟩
  have first : Receives .onLinux countsName linkBefore _ (linkReply lookupTag) _ given := ⟨reply, by decide +kernel⟩
  rw [dropping] at first
  have drop : (daemon .onLinux countsName).Step
      ⟨lookupReplied, [⟨lookupTag, .call (.dropShared 4096) next'⟩]⟩
      (.act lookupTag ⟨.dropShared 4096, .dropped none⟩)
      ⟨lookupReplied.effect countsName (.dropShared 4096) (.dropped none),
        [⟨lookupTag, next' (.dropped none)⟩]⟩ := .act_head ⟨rfl, rfl⟩
  rw [done] at drop
  have leave : (daemon .onLinux countsName).Step
      ⟨lookupReplied.effect countsName (.dropShared 4096) (.dropped none),
        [⟨lookupTag, .done (.ok (), { req := none })⟩]⟩ (.leave lookupTag) ⟨lookedUp, []⟩ := .leave_head
  have send : lookedUp.MaySend linkTag.1 linkTag.2 := by
    refine ⟨rfl, rfl, fun _ h => .inl (List.mem_singleton.mp h), fun _ h => ?_, fun _ h => ?_, trivial⟩
    · cases h
    · cases h
  have arrive : (daemon .onLinux countsName).Step ⟨lookedUp, []⟩ (.arrive linkTag)
      ⟨lookedUp.arrive linkTag.1 linkTag.2, [⟨linkTag, linkCallback⟩]⟩ :=
    .arrive ⟨send, rfl, _, rfl, rfl⟩
  have linkPlays : (lookedUp.arrive linkTag.1 linkTag.2).Plays countsName linkEvents :=
    ⟨trivial, rfl, rfl, trivial, ⟨_, rfl⟩, trivial, rfl, rfl, rfl, trivial, rfl, rfl, trivial⟩
  have replied : 0 < lookupReplied.nlookup 4096 + lookupReplied.uncounted 4096 := by decide +kernel
  have kept : 0 < lookedUp.nlookup 4096 + lookedUp.uncounted 4096 := by decide +kernel
  have start : (daemon .onLinux countsName).Path (Remembered given.ino)
      ⟨lookupReplied, [⟨lookupTag, .call (.dropShared 4096) next'⟩]⟩
      [.arrive linkTag, .leave lookupTag, .act lookupTag ⟨.dropShared 4096, .dropped none⟩]
      ⟨lookedUp.arrive linkTag.1 linkTag.2, [⟨linkTag, linkCallback⟩]⟩ :=
    (((Machine.Path.refl replied).step drop replied).step leave kept).step arrive kept
  have path := start.run (P := fun w => 0 < w.nlookup given.ino + w.uncounted given.ino) linkSteps
    linkPlays.performs kept fun w₁ w₂ e mem => remembered_effect (linkEvents_other mem)
  have again : (daemon .onLinux countsName).Step
      ⟨linkWorld, [⟨linkTag, .call (.fuseReply ⟨5, .lookup⟩ (.entry entry)) linkNext⟩]⟩ (linkReply linkTag)
      ⟨linkWorld.effect countsName (.fuseReply ⟨5, .lookup⟩ (.entry entry)) none,
        [⟨linkTag, linkNext none⟩]⟩ := .act_head ⟨trivial, rfl⟩
  have second : Receives .onLinux countsName (linkBetween ++ linkReply lookupTag :: linkBefore) _ (linkReply linkTag) _
      given := ⟨again, by decide +kernel⟩
  exact ⟨_, _, _, _, run, first, path, second, ids_equal_iff run first (.inr ⟨_, _, _, _, path, second⟩)⟩

/-! Pairs of an id and a generation over a whole run. -/

/-- Entries with the same id and generation are for the same file. -/
def PairsUnique (labels : List (Label calls (FuseReq × Request))) : Prop :=
  ∀ g ∈ toldSoFar labels, ∀ g' ∈ toldSoFar labels, g.ino = g'.ino → g.generation = g'.generation → g.key = g'.key

/-- Of two files that the allocator gave the same address at different times, the versions differ. -/
def VersionsApart (labels : List (Label calls (FuseReq × Request))) : Prop :=
  ∀ x ∈ fetchedSoFar labels, ∀ y ∈ fetchedSoFar labels, x.ino = y.ino → x.key ≠ y.key → x.version ≠ y.version

instance : Decidable (PairsUnique labels) := inferInstanceAs (Decidable (∀ g ∈ toldSoFar labels, _))

instance : Decidable (VersionsApart labels) := inferInstanceAs (Decidable (∀ x ∈ fetchedSoFar labels, _))

/-- In every run in which the versions that are read tell the files at one address apart, no
pair of an id and a generation is used for two files. -/
theorem pairsUnique_of_versions
    (run : (daemon fs counts).History (fun _ _ => True) (.initial root pipes) labels s)
    (apart : VersionsApart labels) : PairsUnique labels := by
  intro g mem g' mem' ino generation
  obtain ⟨ps, -, -, -, recorded⟩ := recorded run
  obtain ⟨v, known, fetched⟩ := recorded.told g mem
  obtain ⟨v', known', fetched'⟩ := recorded.told g' mem'
  rw [known, known'] at generation
  by_contra differ
  exact apart _ fetched _ fetched' ino differ (Option.some.inj generation)

namespace Sample

/-! After a forget the allocator returns the same address for another file, with version `v`. -/

def otherTag : FuseReq × Request := (⟨7, .lookup⟩, .lookup FUSE_ROOT_ID "h")

def otherEvents (v : Nat) : List (Event calls) :=
  [⟨.logInode .root, ()⟩, ⟨.getFD .root, (4 : Int)⟩,
    ⟨.sys (.openat 4 "h" (O_PATH ||| O_NOFOLLOW ||| O_CLOEXEC) 0), .ok (9 : Int)⟩,
    ⟨.sys (.fstatat 9 "" (AT_EMPTY_PATH ||| AT_SYMLINK_NOFOLLOW)), .ok otherStat⟩,
    ⟨.insert ⟨9, 78, 8, none, none⟩, { addr := 4096, fresh := true }⟩,
    ⟨.getSourceDevice .root, (8 : Nat)⟩, ⟨.getSourceDevice (.node 4096), (8 : Nat)⟩,
    ⟨.getFD (.node 4096), (9 : Int)⟩,
    ⟨.sys (.fstatat 9 "" (AT_EMPTY_PATH ||| AT_SYMLINK_NOFOLLOW)), .ok otherStat⟩,
    ⟨.getGeneration (.node 4096), none⟩, ⟨.getFD (.node 4096), (9 : Int)⟩,
    ⟨.sys (.open_ (.procSelfFd 9) (O_RDONLY ||| O_CLOEXEC)), .ok (10 : Int)⟩,
    ⟨.sys (.ioctl 10 FS_IOC_GETVERSION), .ok v⟩, ⟨.sys (.close 10 true), .ok ()⟩,
    ⟨.setGeneration (.node 4096) (.ok v), ()⟩, ⟨.ref (.node 4096) 1, none⟩,
    ⟨.fuseReply ⟨7, .lookup⟩ (.entry ⟨4096, some v, otherStat, 0, 0⟩), none⟩,
    ⟨.dropShared 4096, .dropped none⟩]

/-- The steps of one request that is served alone. -/
def served (tag : FuseReq × Request) (t : List (Event calls)) (labels : List (Label calls (FuseReq × Request))) :
    List (Label calls (FuseReq × Request)) := .leave tag :: (actsOf tag t ++ .arrive tag :: labels)

def reuse (v : Nat) : List (Label calls (FuseReq × Request)) :=
  served otherTag (otherEvents v) (served forgetTag forgetEvents
    (served lookupTag (lookupEvents ++ [⟨.dropShared 4096, .dropped none⟩]) []))

theorem history_forgotten : (daemon .onLinux countsName).History (fun _ _ => True) mounted
    (served forgetTag forgetEvents (served lookupTag (lookupEvents ++ [⟨.dropShared 4096, .dropped none⟩]) []))
    ⟨forgotten, []⟩ := by
  have steps : Exec lookupCallback (lookupEvents ++ [⟨.dropShared 4096, .dropped none⟩]) (.ok (), { req := none }) :=
    .step _ (.step _ (.step _ (.step _ (.step _ (.step _ (.step _ (.step _ (.step _ (.step _ (.step _
      (.step _ (.step _ (.step _ (.step _ (.step _ (.step _ (.step _ (.refl _))))))))))))))))))
  have plays : (mounted.arrive lookupTag.1 lookupTag.2).Plays countsName
      (lookupEvents ++ [⟨.dropShared 4096, .dropped none⟩]) :=
    ⟨trivial, rfl, rfl, trivial, ⟨_, rfl⟩, rfl, rfl, rfl, trivial, rfl, rfl, rfl, trivial, trivial, trivial, rfl,
      trivial, rfl, trivial⟩
  have starts : (daemon .onLinux countsName).starts mounted lookupTag _ _ := ⟨maySend_lookup, rfl, _, rfl, rfl⟩
  have reached : (daemon .onLinux countsName).History (fun _ _ => True) mounted _ ⟨lookedUp, []⟩ :=
    Machine.History.init.serve starts steps plays.performs (fun _ => trivial) (fun _ _ _ => trivial) fun _ => trivial
  have send : lookedUp.MaySend forgetTag.1 forgetTag.2 := by
    refine ⟨idle_lookedUp _, rfl, fun _ h => ?_, fun _ h => ?_, fun _ h => ?_, ?_⟩
    · cases h
    · cases h
    · cases h
    · refine ⟨⟨by decide, by decide, by decide +kernel, fun req r asked => ?_⟩, trivial⟩
      rw [idle_lookedUp] at asked
      cases asked
  have forgetPlays : (lookedUp.arrive forgetTag.1 forgetTag.2).Plays countsName forgetEvents :=
    ⟨trivial, rfl, trivial, trivial, trivial⟩
  have comes : (daemon .onLinux countsName).starts lookedUp forgetTag _ _ := ⟨send, rfl, _, rfl, rfl⟩
  exact reached.serve comes steps_forget forgetPlays.performs (fun _ => trivial) (fun _ _ _ => trivial)
    fun _ => trivial

theorem history_reuse (v : Nat) : ∃ s, (daemon .onLinux countsName).History (fun _ _ => True) mounted (reuse v) s := by
  have send : forgotten.MaySend otherTag.1 otherTag.2 := by
    refine ⟨rfl, rfl, fun _ h => .inl (List.mem_singleton.mp h), fun _ h => ?_, fun _ h => ?_, trivial⟩
    · cases h
    · cases h
  have plays : (forgotten.arrive otherTag.1 otherTag.2).Plays countsName (otherEvents v) :=
    ⟨trivial, rfl, rfl, trivial, ⟨_, rfl⟩, rfl, rfl, rfl, trivial, rfl, rfl, rfl, trivial, trivial, trivial, rfl,
      trivial, rfl, trivial⟩
  have steps : Exec (callback linux (some .onLinux) otherTag.1 .replyFailure
      (fun fs : PageAlignFS => fs.lookup FUSE_ROOT_ID "h") { req := none }) (otherEvents v) (.ok (), { req := none }) :=
    .step _ (.step _ (.step _ (.step _ (.step _ (.step _ (.step _ (.step _ (.step _ (.step _ (.step _
      (.step _ (.step _ (.step _ (.step _ (.step _ (.step _ (.step _ (.refl _))))))))))))))))))
  have starts : (daemon .onLinux countsName).starts forgotten otherTag _ _ := ⟨send, rfl, _, rfl, rfl⟩
  exact ⟨_, history_forgotten.serve starts steps plays.performs (fun _ => trivial) (fun _ _ _ => trivial)
    fun _ => trivial⟩

end Sample

open Sample in
/-- The address 4096 stands for two files one after the other, and their versions differ. -/
theorem pairsUnique_reuse : toldSoFar (reuse 2) = [given, ⟨4096, some 2, (8, 78)⟩] ∧ PairsUnique (reuse 2) := by
  obtain ⟨s, run⟩ := history_reuse 2
  exact ⟨by decide +kernel, pairsUnique_of_versions run (by decide +kernel)⟩

open Sample in
/-- The pair (4096, 1) stands for the files 77 and 78. -/
theorem pairs_reused : (∃ s, (daemon .onLinux countsName).History (fun _ _ => True) mounted (reuse 1) s) ∧
    ¬ PairsUnique (reuse 1) :=
  ⟨history_reuse 1, by decide +kernel⟩

end Pafs
