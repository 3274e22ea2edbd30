import Pafs.Lifetime
import Pafs.Resumption.Watch

/-! Polling. An inode has room for one poll handle, while any number of open files can be
polled. A write notifies the handle that is there. -/
namespace Pafs
open Resumption
open Routine (Follows)

namespace World

variable {w : World} {r : InodeRef} {i : Inode}

theorem inodeAt_arrive (w : World) (req : FuseReq) (request : Request) (r : InodeRef) :
    (w.arrive req request).inodeAt r = w.inodeAt r := by
  obtain ⟨nlookup, forgetting, fds, -, arrived⟩ := w.arrive_cases req request
  rw [arrived]
  cases r <;> rfl

theorem inodeAt_write (w : World) (r : InodeRef) (f : Inode → Inode) (keeps : ∀ i, (f i).key = i.key) :
    (w.write r f keeps).inodeAt r = (w.inodeAt r).map f := by
  cases r with
  | root => rfl
  | node a =>
      change ((w.inodes.update a f keeps).heap a).map Node.inode = ((w.inodes.heap a).map Node.inode).map f
      rw [InodeCache.update_heap, Function.update_self, Option.map_map, Option.map_map]
      rfl

theorem root_unref {n : Nat} {answer : Unrefed} : (w.unref r n answer).root = w.root := by
  unfold unref
  split
  · unfold takeErased
    split <;> rfl
  · rfl

/-- Only two calls write to the root. -/
theorem root_effect (counts : String → Bool) {c : Call} (ret : c.Ret)
    (noVersion : ∀ v, c ≠ .setGeneration .root v) (noPoll : ∀ ph, c ≠ .addPollHandle .root ph) :
    (w.effect counts c ret).root = w.root := by
  cases c with
  | sys s =>
      cases s
      case open_ | openat | dup | fdopendir => cases ret <;> rfl
      case closedir d =>
          unfold effect
          dsimp only
          split <;> rfl
      all_goals rfl
  | setGeneration ref v =>
      cases ref with
      | root => exact absurd rfl (noVersion v)
      | node a => rfl
  | addPollHandle ref ph =>
      cases ref with
      | root => exact absurd rfl (noPoll ph)
      | node a => rfl
  | insert i =>
      unfold effect
      dsimp only
      split
      · split <;> rfl
      · rfl
  | ref ref n =>
      unfold effect
      dsimp only
      split
      · split <;> rfl
      · rfl
  | unref site ref n =>
      cases site with
      | cleanup => exact root_unref
      | forget => cases ref <;> exact root_unref
  | dropShared a => exact root_unref
  | fuseReply req reply =>
      cases ret with
      | some e => rfl
      | none =>
          simp only [effect, receive]
          split <;> rfl
  | abort site => cases ret
  | _ => rfl

/-- The poll handle of an inode that stays is the old one, or the one that a Poll gave it. -/
theorem pollHandle_of_effect (counts : String → Bool) (c : Call) (ret : c.Ret) {i' : Inode}
    (before : w.inodeAt r = some i) (after : (w.effect counts c ret).inodeAt r = some i') :
    i'.pollHandle = i.pollHandle ∨ ∃ ph, c = .addPollHandle r ph ∧ i'.pollHandle = some ph := by
  cases r with
  | root =>
      cases before
      cases after
      by_cases version : ∃ v, c = .setGeneration .root v
      · obtain ⟨v, rfl⟩ := version
        exact .inl rfl
      · by_cases poll : ∃ ph, c = .addPollHandle .root ph
        · obtain ⟨ph, rfl⟩ := poll
          exact .inr ⟨ph, rfl, rfl⟩
        · rw [not_exists] at version poll
          exact .inl (congrArg Inode.pollHandle (root_effect counts ret version poll))
  | node a =>
      obtain ⟨n, heap, rfl⟩ := Option.map_eq_some_iff.mp before
      obtain ⟨n', heap', rfl⟩ := Option.map_eq_some_iff.mp after
      obtain ⟨m, old, same | ⟨v, -, wrote⟩ | ⟨ph, added, wrote⟩⟩ | ⟨free, -⟩ :=
        inode_of_effect counts c ret heap'
      · rw [heap] at old
        cases old
        exact .inl (congrArg Inode.pollHandle same)
      · rw [heap] at old
        cases old
        rw [wrote]
        exact .inl rfl
      · exact .inr ⟨ph, added, congrArg Inode.pollHandle wrote⟩
      · rw [heap] at free
        cases free

end World

section Polling
variable {File : Type} {file : PollPtr → File} {ino : Addr} {ph : PollPtr} {fs : PageAlignFS}
  {counts : String → Bool}

/-- The inode is in the cache before the step. -/
def StaysCached (ino : Addr) (w : World) (_ : Label calls (FuseReq × Request)) : Prop :=
  w.inodeAt (getInode ino) ≠ none

/-- A step that gives the inode a poll handle gives it one of this open file. -/
def PollsFile (file : PollPtr → File) (ino : Addr) (f : File) (label : Label calls (FuseReq × Request)) : Prop :=
  ∀ tag ph old, label = .act tag ⟨.addPollHandle (getInode ino) ph, old⟩ → file ph = f

/-- The data was copied. -/
def Copied (t : List (Event calls)) : Prop := ∃ dst src nb, ⟨.fuseBufCopy dst src, .ok nb⟩ ∈ t

def Notifies (file : PollPtr → File) (f : File) (t : List (Event calls)) : Prop :=
  ∃ ph rc, ⟨.notifyPoll ph, rc⟩ ∈ t ∧ file ph = f

/-- From `s` on, in runs of such steps, every `WriteBuf` of the inode that copies its data
notifies this open file. -/
def Wakes (fs : PageAlignFS) (counts : String → Bool) (file : PollPtr → File) (ino : Addr) (f : File)
    (ok : World → Label calls (FuseReq × Request) → Prop) (s : Daemon) : Prop :=
  ∀ s₁ s₂ req inBuf off fi t result, (daemon fs counts).Onward ok s s₁ →
    (daemon fs counts).Watch ok (req, .writeBuf ino inBuf off fi) s₁ t (.done result) s₂ →
    Copied t → Notifies file f t

/-- The inode, if it is there, has a poll handle of this open file. -/
def World.PolledBy (w : World) (file : PollPtr → File) (ino : Addr) (f : File) : Prop :=
  ∀ i, w.inodeAt (getInode ino) = some i → ∃ ph, i.pollHandle = some ph ∧ file ph = f

theorem polledBy_of_add (counts : String → Bool) (w : World) (old : Option PollPtr) :
    (w.effect counts (.addPollHandle (getInode ino) ph) old).PolledBy file ino (file ph) := by
  intro i here
  have written : ((w.inodeAt (getInode ino)).map fun i => { i with pollHandle := some ph }) = some i := by
    rw [← w.inodeAt_write (getInode ino) (fun i => { i with pollHandle := some ph }) fun _ => rfl]
    exact here
  obtain ⟨i, -, rfl⟩ := Option.map_eq_some_iff.mp written
  exact ⟨ph, rfl, rfl⟩

/-- One step: while the inode stays, only a Poll gives it another handle. -/
theorem stable_polledBy (f : File) : (daemon fs counts).Stable
    (fun w label => StaysCached ino w label ∧ PollsFile file ino f label) (·.PolledBy file ino f) := by
  intro s label s' step admitted polled
  cases step with
  | arrive starts =>
      obtain ⟨-, rfl, -⟩ := starts
      intro i here
      rw [World.inodeAt_arrive] at here
      exact polled i here
  | @act w w' tag c ret next pre post perform =>
      obtain ⟨-, rfl⟩ := perform
      intro i' here
      obtain ⟨i, before⟩ := Option.ne_none_iff_exists'.mp admitted.1
      rcases World.pollHandle_of_effect counts c ret before here with same | ⟨ph, rfl, added⟩
      · obtain ⟨ph, handle, own⟩ := polled i before
        exact ⟨ph, same.trans handle, own⟩
      · exact ⟨ph, added, admitted.2 tag ph ret rfl⟩
  | leave =>
      intro i here
      exact polled i here

/-- The ledger of a writer is what it has done; it finds the handle of the open file. -/
def heeding (file : PollPtr → File) (ino : Addr) (f : File) : Discipline calls (List (Event calls)) where
  allows _ _ := True
  answers _ c ret :=
    match c, ret with
    | .pollHandle r, answer => r = getInode ino → ∃ ph, answer = some ph ∧ file ph = f
    | _, _ => True
  after t c ret := t ++ [⟨c, ret⟩]

namespace Heeding

variable {f : File} {σ α : Type} {t : List (Event calls)}

theorem run_eq (t₀ t : List (Event calls)) : (heeding file ino f).run t₀ t = t₀ ++ t := by
  induction t generalizing t₀ with
  | nil => exact (List.append_nil t₀).symm
  | cons e t ih =>
      rw [List.append_cons]
      exact ih (t₀ ++ [e])

/-- Nothing that was done is forgotten. -/
theorem follows_notified {m : Io σ α} {s : σ} (done : Notifies file f t) :
    Follows (heeding file ino f) m s t fun _ _ t' => Notifies file f t' := by
  suffices grows : ∀ {β : Type} (p : Prog calls β) (t : List (Event calls)), Notifies file f t →
      p.Follows (heeding file ino f) t fun _ t' => Notifies file f t' from grows (m s) t done
  intro β p
  induction p with
  | done a => exact fun _ done => done
  | call c next ih =>
      intro t done
      refine ⟨trivial, fun ret _ => ih ret (t ++ [⟨c, ret⟩]) ?_⟩
      obtain ⟨ph, rc, mem, own⟩ := done
      exact ⟨ph, rc, List.mem_append_left _ mem, own⟩

theorem follows_notifyPollEvent {P : Platform} {s : σ} {Q : StatusOr Unit → σ → List (Event calls) → Prop}
    (notified : ∀ r s' t', Notifies file f t' → Q r s' t') :
    Follows (heeding file ino f) (Inode.notifyPollEvent P (getInode ino)) s t Q := by
  unfold Inode.notifyPollEvent
  rw [Routine.follows_bind, Routine.follows_invoke]
  refine ⟨trivial, fun present answer => ?_⟩
  obtain ⟨_, rfl, -⟩ := answer rfl
  dsimp only
  rw [Routine.follows_bind, Routine.follows_invoke]
  refine ⟨trivial, fun handle answer => ?_⟩
  obtain ⟨ph, rfl, own⟩ := answer rfl
  dsimp only
  rw [Routine.follows_bind, Routine.follows_invoke]
  refine ⟨trivial, fun rc _ => ?_⟩
  dsimp only
  rw [Routine.follows_ofExcept]
  exact notified _ _ _ ⟨ph, rc, List.mem_append_right _ List.mem_cons_self, own⟩

/-- After the copy the handler gets to the notification, whatever becomes of its reply. -/
theorem follows_writeBuf {req : FuseReq} {inBuf : FuseBufVec} {off : Int} {fi : FileInfo} :
    Follows (heeding file ino f) (fs.writeBuf ino inBuf off fi) ⟨some req⟩ [] fun _ _ t =>
      Notifies file f t ∨
        ∃ dst src e, t = [⟨.logInode (getInode ino), ()⟩, ⟨.fuseBufCopy dst src, .error e⟩] := by
  unfold PageAlignFS.writeBuf
  rw [Routine.follows_bind, Routine.follows_invoke]
  refine ⟨trivial, fun _ _ => ?_⟩
  dsimp only
  rw [Routine.follows_bind, Routine.follows_invoke]
  refine ⟨trivial, fun copied _ => ?_⟩
  cases copied with
  | error e => exact .inr ⟨_, _, e, rfl⟩
  | ok nb =>
      dsimp only
      rw [Routine.follows_bind, Routine.follows_attempt, FuseRequest.replyWrite, FuseRequest.follows_send_some]
      refine ⟨trivial, fun rc _ => ?_⟩
      dsimp only
      rw [Routine.follows_bind, Routine.follows_attempt]
      apply follows_notifyPollEvent
      intro r s' t' notified
      exact .inl notified

theorem follows_serve {handler : Handler} {req : FuseReq} {inBuf : FuseBufVec} {off : Int} {fi : FileInfo}
    (served : fs.serve req (.writeBuf ino inBuf off fi) = some handler) :
    Follows (heeding file ino f) handler ⟨none⟩ [] fun _ _ t => Copied t → Notifies file f t := by
  cases served
  change Follows (heeding file ino f) (callback fs.platform (some fs) req .replyNone
    fun fs : PageAlignFS => fs.writeBuf ino inBuf off fi) ⟨none⟩ [] _
  rw [follows_callback]
  refine follows_writeBuf.mono fun status s t outcome => ?_
  rcases outcome with notified | ⟨dst, src, e, rfl⟩
  · exact (follows_notified notified).mono fun _ _ _ notified _ => notified
  · -- the copy failed: all that is left is a reply
    obtain ⟨req⟩ := s
    cases req with
    | none =>
        rw [Follows, epilogue_gone]
        rintro ⟨dst, src, nb, mem⟩
        simp at mem
    | some req =>
        rw [Follows, epilogue_owed]
        refine ⟨trivial, fun rc _ => ?_⟩
        rintro ⟨dst, src, nb, mem⟩
        simp [heeding] at mem

end Heeding

theorem answers_of_polledBy {w : World} {f : File} {tag : FuseReq × Request} {c : Call} {ret : c.Ret}
    {t : List (Event calls)} (here : w.PolledBy file ino f) (stays : StaysCached ino w (.act tag ⟨c, ret⟩))
    (answers : w.Answers c ret) : (heeding file ino f).answers t c ret := by
  cases c
  case pollHandle r =>
    rintro rfl
    obtain ⟨i, cached⟩ := Option.ne_none_iff_exists'.mp stays
    have read : w.Reads (getInode ino) Inode.pollHandle ret := answers
    rw [World.Reads, cached] at read
    obtain ⟨ph, handle, own⟩ := here i cached
    exact ⟨ph, read.trans handle, own⟩
  all_goals trivial

/-- A Poll has given the inode its handle. As long as the inode stays in the cache and no
other open file is polled on it, every write notifies the open file. -/
theorem wakes_of_only_poller {s s' : Daemon} {req : FuseReq} {fi : Option FileInfo} {old : Option PollPtr}
    (polled : (daemon fs counts).Step s
      (.act (req, .poll ino fi (some ph)) ⟨.addPollHandle (getInode ino) ph, old⟩) s') :
    Wakes fs counts file ino (file ph)
      (fun w label => StaysCached ino w label ∧ PollsFile file ino (file ph) label) s' := by
  intro s₁ s₂ req' inBuf off fi' t result meanwhile write copied
  have registered : s'.world.PolledBy file ino (file ph) := by
    cases polled with
    | act perform =>
        obtain ⟨-, rfl⟩ := perform
        exact polledBy_of_add counts _ old
  have starts : ∀ w p w', (daemon fs counts).starts w (req', .writeBuf ino inBuf off fi') p w' →
      p.Follows (heeding file ino (file ph)) [] fun _ t => Copied t → Notifies file (file ph) t := by
    rintro w p w' ⟨-, -, handler, served, rfl⟩
    exact Heeding.follows_serve served
  obtain ⟨-, follows⟩ := write.follows (stable_polledBy (file ph))
    (meanwhile.stable (stable_polledBy (file ph)) registered) starts fun w l c ret w' here admitted perform =>
      answers_of_polledBy here admitted.1 perform.1
  rw [Heeding.run_eq] at follows
  exact follows copied

end Polling

/-- No other callback copies data in the meantime. -/
def OnlyWrite (first : FuseReq) (label : Label calls (FuseReq × Request)) : Prop :=
  ∀ tag dst src nb, label = .act tag ⟨.fuseBufCopy dst src, .ok nb⟩ → tag.1 = first

namespace Sample

/-! The open file is polled, by one poller and then by another, and written. -/

def pollTag (n : Nat) (ph : PollPtr) : FuseReq × Request :=
  (⟨n, .poll⟩, .poll 4096 (some ⟨1, 11, false, true⟩) (some ph))

def pollTail (n : Nat) : List (Event calls) :=
  [⟨.getFD (.node 4096), (9 : Int)⟩,
    ⟨.sys (.poll 9 PageAlignFS.pollEvents), .ok ((0 : Nat), (0 : BitVec 16))⟩,
    ⟨.fuseReply ⟨n, .poll⟩ (.poll 0), none⟩]

def secondPoll : List (Event calls) :=
  [⟨.logInode (.node 4096), ()⟩, ⟨.addPollHandle (.node 4096) 702, some (701 : Nat)⟩,
    ⟨.destroyPollHandle 701, ()⟩] ++ pollTail 21

def asked : World :=
  (opened.arrive (pollTag 20 701).1 (pollTag 20 701).2).play countsName [⟨.logInode (.node 4096), ()⟩]

def registered : World := asked.effect countsName (.addPollHandle (.node 4096) 701) none

def polledOnce : World := (registered.play countsName (pollTail 20)).depart (pollTag 20 701).2

def polledTwice : World :=
  ((polledOnce.arrive (pollTag 21 702).1 (pollTag 21 702).2).play countsName secondPoll).depart (pollTag 21 702).2

/-- The write, which finds this handle. -/
def notifying (ph : PollPtr) : List (Event calls) :=
  writeEvents ++ [⟨.pollHandle (.node 4096), some ph⟩, ⟨.pollHandle (.node 4096), some ph⟩,
    ⟨.notifyPoll ph, none⟩]

theorem idle_opened (req : FuseReq) : opened.pending req = none :=
  idle_again idle_lookedUp openTag.1 openTag.2 req

theorem copied_notifying (ph : PollPtr) : Copied (notifying ph) :=
  ⟨[⟨1, some 11, 0⟩], [⟨1, none, 0⟩], 1, .tail _ (.head _)⟩

theorem idle_polledOnce (req : FuseReq) : polledOnce.pending req = none :=
  idle_again idle_opened (pollTag 20 701).1 (pollTag 20 701).2 req

theorem idle_polledTwice (req : FuseReq) : polledTwice.pending req = none :=
  idle_again idle_polledOnce (pollTag 21 702).1 (pollTag 21 702).2 req

theorem cached_polledOnce : polledOnce.inodeAt (.node 4096) ≠ none := by decide

theorem cached_polledTwice : polledTwice.inodeAt (.node 4096) ≠ none := by decide

/-- None of these events takes the inode out of the cache. -/
theorem cached_effect {w : World} {e : Event calls}
    (mem : e ∈ pollTail 20 ++ secondPoll ++ notifying 701 ++ notifying 702) (cached : w.inodeAt (.node 4096) ≠ none) :
    (w.effect countsName e.1 e.2).inodeAt (.node 4096) ≠ none := by
  simp only [pollTail, secondPoll, notifying, writeEvents, List.cons_append, List.nil_append, List.mem_cons,
    List.not_mem_nil, or_false] at mem
  have added : (w.effect countsName (.addPollHandle (.node 4096) 702) (some (701 : Nat))).inodeAt
      (.node 4096) ≠ none := by
    have written : (w.effect countsName (.addPollHandle (.node 4096) 702) (some (701 : Nat))).inodeAt (.node 4096) =
        (w.inodeAt (.node 4096)).map fun i => { i with pollHandle := some 702 } :=
      w.inodeAt_write (.node 4096) (fun i => { i with pollHandle := some 702 }) fun _ => rfl
    rw [written]
    simpa using cached
  rcases mem with rfl | rfl | rfl | rfl | rfl | rfl | rfl | rfl | rfl | rfl | rfl | rfl | rfl | rfl | rfl |
    rfl | rfl | rfl | rfl | rfl | rfl
  case inr.inr.inr.inr.inl => exact added
  all_goals exact cached

/-- Only the write copies data. -/
theorem onlyWrite_act {tag : FuseReq × Request} {e : Event calls}
    (mem : e ∈ pollTail 20 ++ secondPoll) : OnlyWrite writeTag.1 (.act tag e) := by
  rintro tag' dst src nb same
  cases same
  simp [pollTail, secondPoll] at mem

theorem maySend_secondPoll : polledOnce.MaySend (pollTag 21 702).1 (pollTag 21 702).2 := by
  refine ⟨idle_polledOnce _, rfl, fun a h => .inr ?_, fun _ h => (nomatch h), fun _ h => (nomatch h), trivial⟩
  cases List.mem_singleton.mp h
  decide +kernel

/-- The first poller has come as far as its handle. -/
theorem reach_asked : ∃ next, (daemon .onLinux countsName).Reach (fun _ _ => True) mounted
      ⟨asked, [⟨pollTag 20 701, .call (.addPollHandle (.node 4096) 701) next⟩]⟩ ∧
    Exec (next none) (pollTail 20) (.ok (), { req := none }) := by
  have send : opened.MaySend (pollTag 20 701).1 (pollTag 20 701).2 := by
    refine ⟨idle_opened _, rfl, fun a h => .inr ?_, fun _ h => (nomatch h), fun _ h => (nomatch h), trivial⟩
    cases List.mem_singleton.mp h
    decide +kernel
  have started : (daemon .onLinux countsName).Reach (fun _ _ => True) mounted
      ⟨opened.arrive (pollTag 20 701).1 (pollTag 20 701).2, [⟨pollTag 20 701, callback linux (some .onLinux)
        (pollTag 20 701).1 .replyFailure (fun fs : PageAlignFS => fs.poll 4096 (some 701)) { req := none }⟩]⟩ :=
    reached_opened.step (.arrive ⟨send, rfl, _, rfl, rfl⟩) trivial
  have steps : ∃ next, Steps (callback linux (some .onLinux) (pollTag 20 701).1 .replyFailure
      (fun fs : PageAlignFS => fs.poll 4096 (some 701)) { req := none }) [⟨.logInode (.node 4096), ()⟩]
      (.call (.addPollHandle (.node 4096) 701) next) ∧ Exec (next none) (pollTail 20) (.ok (), { req := none }) :=
    ⟨_, .step _ (.refl _), .step _ (.step _ (.step _ (.refl _)))⟩
  obtain ⟨next, steps, rest⟩ := steps
  have plays : (opened.arrive (pollTag 20 701).1 (pollTag 20 701).2).Plays countsName
      [⟨.logInode (.node 4096), ()⟩] := ⟨trivial, trivial⟩
  exact ⟨next, started.run steps plays.performs fun _ _ _ => trivial, rest⟩

section Runs
variable {ok : World → Label calls (FuseReq × Request) → Prop}

theorem keeps_cached {t : List (Event calls)}
    (mem : ∀ e ∈ t, e ∈ pollTail 20 ++ secondPoll ++ notifying 701 ++ notifying 702) (w w' : World)
    (e : Event calls) (listed : e ∈ t) (cached : w.inodeAt (.node 4096) ≠ none)
    (performs : (daemon .onLinux countsName).perform w e.1 e.2 w') : w'.inodeAt (.node 4096) ≠ none := by
  obtain ⟨-, rfl⟩ := performs
  exact cached_effect (mem e listed) cached

/-- The first poller gets its handle and its reply. -/
theorem onward_polledOnce {next : Option PollPtr → Prog calls (Status × FuseRequest)}
    (rest : Exec (next none) (pollTail 20) (.ok (), { req := none }))
    (acts : ∀ w : World, w.inodeAt (.node 4096) ≠ none → ∀ e ∈ pollTail 20, ok w (.act (pollTag 20 701) e))
    (goes : ∀ w : World, w.inodeAt (.node 4096) ≠ none → ok w (.leave (pollTag 20 701))) :
    (daemon .onLinux countsName).Onward ok ⟨registered, [⟨pollTag 20 701, next none⟩]⟩ ⟨polledOnce, []⟩ := by
  have plays : registered.Plays countsName (pollTail 20) := ⟨rfl, trivial, trivial, trivial⟩
  have here : (daemon .onLinux countsName).Onward ok ⟨registered, [⟨pollTag 20 701, next none⟩]⟩
      ⟨registered, [⟨pollTag 20 701, next none⟩]⟩ := .refl
  have done := here.run rest plays.performs (J := fun w => w.inodeAt (.node 4096) ≠ none) (by decide)
    (keeps_cached fun e mem => by simp [mem]) acts
  exact done.step .leave_head (goes _ (by decide))

/-- The second poller takes its place. -/
theorem onward_polledTwice {s : Daemon} (once : (daemon .onLinux countsName).Onward ok s ⟨polledOnce, []⟩)
    (come : ∀ w : World, w.inodeAt (.node 4096) ≠ none → ok w (.arrive (pollTag 21 702)))
    (acts : ∀ w : World, w.inodeAt (.node 4096) ≠ none → ∀ e ∈ secondPoll, ok w (.act (pollTag 21 702) e))
    (goes : ∀ w : World, w.inodeAt (.node 4096) ≠ none → ok w (.leave (pollTag 21 702))) :
    (daemon .onLinux countsName).Onward ok s ⟨polledTwice, []⟩ := by
  have steps : Exec (callback linux (some .onLinux) (pollTag 21 702).1 .replyFailure
      (fun fs : PageAlignFS => fs.poll 4096 (some 702)) { req := none }) secondPoll (.ok (), { req := none }) :=
    .step _ (.step _ (.step _ (.step _ (.step _ (.step _ (.refl _))))))
  have plays : (polledOnce.arrive (pollTag 21 702).1 (pollTag 21 702).2).Plays countsName secondPoll :=
    ⟨trivial, rfl, trivial, rfl, trivial, trivial, trivial⟩
  have started := once.step (.arrive ⟨maySend_secondPoll, rfl, _, rfl, rfl⟩) (come _ (by decide))
  have done := started.run steps plays.performs (J := fun w => w.inodeAt (.node 4096) ≠ none) (by decide)
    (keeps_cached fun e mem => by simp [mem]) acts
  exact done.step .leave_head (goes _ (by decide))

theorem watch_write {w : World} {ph : PollPtr} (send : w.MaySend writeTag.1 writeTag.2)
    (cached : w.inodeAt (.node 4096) ≠ none)
    (plays : (w.arrive writeTag.1 writeTag.2).Plays countsName (notifying ph))
    (listed : ∀ e ∈ notifying ph, e ∈ pollTail 20 ++ secondPoll ++ notifying 701 ++ notifying 702)
    (come : ok w (.arrive writeTag))
    (acts : ∀ w : World, w.inodeAt (.node 4096) ≠ none → ∀ e ∈ notifying ph, ok w (.act writeTag e)) :
    ∃ s, (daemon .onLinux countsName).Watch ok writeTag ⟨w, []⟩ (notifying ph)
      (.done (.ok (), { req := none })) s := by
  have steps : Exec (callback linux (some .onLinux) writeTag.1 .replyNone
      (fun fs : PageAlignFS => fs.writeBuf 4096 [⟨1, none, 0⟩] 0 ⟨1, 11, false, true⟩) { req := none })
      (notifying ph) (.ok (), { req := none }) :=
    .step _ (.step _ (.step _ (.step _ (.step _ (.step _ (.refl _))))))
  have started : (daemon .onLinux countsName).Watch ok writeTag ⟨w, []⟩ [] _ _ :=
    .arrive (.arrive ⟨send, rfl, _, rfl, rfl⟩) come
  have cached' : (w.arrive writeTag.1 writeTag.2).inodeAt (.node 4096) ≠ none := by
    rw [World.inodeAt_arrive]
    exact cached
  exact ⟨_, started.run steps plays.performs cached' (keeps_cached listed) acts⟩

end Runs

theorem maySend_lastWrite {w : World} (fresh : w.pending writeTag.1 = none) (known : 0 < w.nlookup 4096)
    (handle : w.fds 11 = some .handle) : w.MaySend writeTag.1 writeTag.2 := by
  refine ⟨fresh, rfl, fun a h => .inr ?_, fun fd h => ?_, fun _ h => (nomatch h), trivial⟩
  · cases List.mem_singleton.mp h
    exact known
  · cases List.mem_singleton.mp h
    exact handle

end Sample

open Sample in
/-- With one poller the write finds its handle. -/
theorem write_notifies_poller : ∃ s s' : Daemon, (daemon .onLinux countsName).Watch
      (fun w label => StaysCached 4096 w label ∧ PollsFile id 4096 701 label) writeTag s (notifying 701)
      (.done (.ok (), { req := none })) s' ∧ Notifies id 701 (notifying 701) := by
  obtain ⟨next, -, rest⟩ := reach_asked
  have polled : (daemon .onLinux countsName).Step
      ⟨asked, [⟨pollTag 20 701, .call (.addPollHandle (.node 4096) 701) next⟩]⟩
      (.act (pollTag 20 701) ⟨.addPollHandle (getInode 4096) 701, none⟩)
      ⟨registered, [⟨pollTag 20 701, next none⟩]⟩ := .act_head ⟨rfl, rfl⟩
  have meanwhile : (daemon .onLinux countsName).Onward
      (fun w label => StaysCached 4096 w label ∧ PollsFile id 4096 701 label)
      ⟨registered, [⟨pollTag 20 701, next none⟩]⟩ ⟨polledOnce, []⟩ := by
    refine onward_polledOnce rest (fun w cached e mem => ⟨cached, ?_⟩) fun w cached => ⟨cached, ?_⟩
    · rintro tag ph old same
      cases same
      simp [pollTail] at mem
    · intro tag ph old same
      cases same
  obtain ⟨s', write⟩ : ∃ s', (daemon .onLinux countsName).Watch
      (fun w label => StaysCached 4096 w label ∧ PollsFile id 4096 701 label) writeTag ⟨polledOnce, []⟩
      (notifying 701) (.done (.ok (), { req := none })) s' := by
    refine watch_write (maySend_lastWrite (idle_polledOnce _) (by decide +kernel) rfl) cached_polledOnce
      ⟨trivial, trivial, trivial, rfl, rfl, trivial, trivial⟩ (fun e mem => by simp [mem]) ⟨?_, ?_⟩
      fun w cached e mem => ⟨cached, ?_⟩
    · exact cached_polledOnce
    · intro tag ph old same
      cases same
    · rintro tag ph old same
      cases same
      simp [notifying, writeEvents] at mem
  exact ⟨_, s', write, wakes_of_only_poller polled _ _ _ _ _ _ _ _ meanwhile write
    (copied_notifying 701)⟩

open Sample in
/-- The second poller's handle takes the place of the first one's, and the write notifies
the second poller only. -/
theorem earlier_poller_lost : ¬ ∀ (fs : PageAlignFS) (counts : String → Bool) (root : Inode) (pipes : Fd → Bool)
    (file : PollPtr → PollPtr) (ino : Addr) (ph : PollPtr) (s s' : Daemon) (req first : FuseReq)
    (fi : Option FileInfo) (old : Option PollPtr),
    (daemon fs counts).Reach (fun _ _ => True) (.initial root pipes) s →
      (daemon fs counts).Step s (.act (req, .poll ino fi (some ph)) ⟨.addPollHandle (getInode ino) ph, old⟩) s' →
      Wakes fs counts file ino (file ph) (fun w label => StaysCached ino w label ∧ OnlyWrite first label) s' := by
  intro always
  obtain ⟨next, reached, rest⟩ := reach_asked
  have polled : (daemon .onLinux countsName).Step
      ⟨asked, [⟨pollTag 20 701, .call (.addPollHandle (.node 4096) 701) next⟩]⟩
      (.act (pollTag 20 701) ⟨.addPollHandle (getInode 4096) 701, none⟩)
      ⟨registered, [⟨pollTag 20 701, next none⟩]⟩ := .act_head ⟨rfl, rfl⟩
  have once : (daemon .onLinux countsName).Onward
      (fun w label => StaysCached 4096 w label ∧ OnlyWrite writeTag.1 label)
      ⟨registered, [⟨pollTag 20 701, next none⟩]⟩ ⟨polledOnce, []⟩ := by
    refine onward_polledOnce rest (fun w cached e mem => ⟨cached, onlyWrite_act ?_⟩) fun w cached => ⟨cached, ?_⟩
    · exact List.mem_append_left _ mem
    · intro tag dst src nb same
      cases same
  have twice : (daemon .onLinux countsName).Onward
      (fun w label => StaysCached 4096 w label ∧ OnlyWrite writeTag.1 label)
      ⟨registered, [⟨pollTag 20 701, next none⟩]⟩ ⟨polledTwice, []⟩ := by
    refine onward_polledTwice once (fun w cached => ⟨cached, ?_⟩)
      (fun w cached e mem => ⟨cached, onlyWrite_act (List.mem_append_right _ mem)⟩) fun w cached => ⟨cached, ?_⟩
    · intro tag dst src nb same
      cases same
    · intro tag dst src nb same
      cases same
  obtain ⟨s', write⟩ : ∃ s', (daemon .onLinux countsName).Watch
      (fun w label => StaysCached 4096 w label ∧ OnlyWrite writeTag.1 label) writeTag ⟨polledTwice, []⟩
      (notifying 702) (.done (.ok (), { req := none })) s' := by
    refine watch_write (maySend_lastWrite (idle_polledTwice _) (by decide +kernel) rfl) cached_polledTwice
      ⟨trivial, trivial, trivial, rfl, rfl, trivial, trivial⟩ (fun e mem => by simp [mem]) ⟨?_, ?_⟩
      fun w cached e mem => ⟨cached, ?_⟩
    · exact cached_polledTwice
    · intro tag dst src nb same
      cases same
    · rintro tag dst src nb same
      cases same
      rfl
  obtain ⟨ph, rc, mem, own⟩ := always _ _ _ _ id 4096 701 _ _ _ writeTag.1 _ _ reached polled _ _ _ _ _ _ _ _
    twice write (copied_notifying 702)
  cases own
  simp [notifying, writeEvents] at mem

end Pafs
