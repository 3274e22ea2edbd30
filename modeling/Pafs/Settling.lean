import Pafs.Anatomy
import Pafs.Dirs
import Pafs.Pollers
import Pafs.Resumption.Effort

/-! Every callback ends. How many calls it makes at most is known from its request, whatever
is answered and whatever the other threads do; and no call has to wait for another thread, so
the daemon comes to rest when no more requests arrive. -/
namespace Pafs
open Resumption
open Routine (Follows Spends)

namespace Spending

variable {σ : Type} {P : Platform} {fs : PageAlignFS} {req : FuseReq}

theorem closeFd (fd : Fd) : Spends 1 (FileDescriptor.destroy fd : Io σ Unit) :=
  .bind (.invoke (I := calls) _) fun _ => .pure ()

theorem destroy_inode (i : Inode) : Spends 2 (i.destroy : Io σ Unit) := by
  unfold Inode.destroy
  cases i.pollHandle with
  | none => exact (closeFd i.fd).mono (by omega)
  | some ph => exact .bind (.invoke (I := calls) (.destroyPollHandle ph)) fun _ => closeFd i.fd

theorem settle (answer : Unrefed) : Spends 2 (answer.settle : Io σ Unit) := by
  cases answer with
  | missing key => exact (Spends.fail _).mono (Nat.zero_le 2)
  | checkFailed =>
      intro s k enough
      exact ⟨lt_of_lt_of_le Nat.two_pos enough, fun impossible => (by cases impossible)⟩
  | dropped erased =>
      cases erased with
      | none => exact (Spends.pure ()).mono (Nat.zero_le 2)
      | some i => exact destroy_inode i

theorem unref (site : UnrefSite) (r : InodeRef) (n : Nat) : Spends 3 (Inodes.unref site r n : Io σ Unit) :=
  .bind (n := 1) (k := 2) (.invoke (I := calls) _) settle

theorem dropShared (a : Addr) : Spends 3 (Inodes.dropShared a : Io σ Unit) :=
  .bind (n := 3) (k := 0) (.attempt (.bind (n := 1) (k := 2) (.invoke (I := calls) _) settle)) fun _ => .pure ()

theorem syscall (c : Sys) (message : String) : Spends 1 (syscall P c message : Io σ c.Ret) := by
  apply Spends.bind (k := 0) (.invoke (I := calls) (.sys c))
  intro rc
  cases rc with
  | error e => exact .fail _
  | ok v => exact .pure v

theorem findOrCreateInode (parent : InodeRef) (path : String) :
    Spends 7 (fs.findOrCreateInode parent path : Io σ Addr) := by
  have created (parentFd : Fd) : Spends 3 (Inode.create fs.platform path parentFd : Io σ Inode) := by
    refine .bind (n := 1) (k := 2) (syscall _ _) fun fd => ?_
    exact .bind (n := 2) (.onError (syscall _ _) (closeFd fd)) fun st => .pure _
  have inserted (i : Inode) : Spends 3 (Inodes.insert i : Io σ Addr) := by
    refine .bind (n := 1) (k := 2) (.invoke (I := calls) _) fun r => ?_
    refine .bind (n := 2) (k := 0) ?_ fun _ => .pure _
    cases r.fresh with
    | true => exact (Spends.pure ()).mono (Nat.zero_le 2)
    | false => exact destroy_inode i
  exact .bind (n := 1) (k := 6) (.invoke (I := calls) _) fun parentFd => (created parentFd).bind inserted

theorem addsUp : AddsUp fun σ α n (m : Io σ α) => Spends n m where
  mono le h := h.mono le
  pure := .pure
  fail := .fail
  ofExcept := .ofExcept
  getLocal := .getLocal
  setLocal := .setLocal
  bind := .bind
  attempt := .attempt
  onError := .onError
  andFinally := .andFinally
  invoke c _ := .invoke (I := calls) c
  unref := unref
  dropShared := dropShared
  findOrCreateInode _ := findOrCreateInode

theorem notifyPollEvent (r : InodeRef) : Spends 3 (Inode.notifyPollEvent P r : Io σ Unit) := by
  refine .bind (n := 1) (k := 2) (.invoke (I := calls) _) fun present => ?_
  cases present with
  | none => exact (Spends.pure ()).mono (Nat.zero_le 2)
  | some _ =>
      refine .bind (n := 1) (k := 1) (.invoke (I := calls) _) fun handle => ?_
      cases handle with
      | none => exact (Spends.pure ()).mono (Nat.zero_le 1)
      | some ph => exact .bind (.invoke (I := calls) _) fun rc => .ofExcept _

/-- Every listed inode is one of a round, and the last round lists none. -/
theorem follows_readDirLoop (dirInode : InodeRef) (dir : DirPtr) {room : Nat} {dirs : FuseDirsBuilder}
    {inodes : List Addr} (fits : dirs.maxsize - dirs.size < room) (s : σ) (k : Nat) (enough : 24 * room ≤ k) :
    Follows (countdown calls) (fs.readDirLoop dirInode dir room dirs inodes fits) s k fun listed _ k' =>
      k ≤ k' + 24 * room ∧ ∀ r, listed = .ok r → r.2.length < inodes.length + room := by
  induction room generalizing dirs inodes k s with
  | zero => exact absurd fits (Nat.not_lt_zero _)
  | succ room ih =>
      unfold PageAlignFS.readDirLoop
      rw [Routine.follows_bind, Routine.follows_attempt]
      apply (addsUp.readDirRound dirInode dir dirs s k (by omega)).mono
      intro round s' k' spent
      dsimp only
      cases round with
      | error e =>
          refine ⟨by omega, ?_⟩
          rintro r ⟨⟩
          dsimp only
          omega
      | ok round =>
          cases round with
          | stop =>
              refine ⟨by omega, ?_⟩
              rintro r ⟨⟩
              dsimp only
              omega
          | added next grows inode =>
              apply (ih _ s' k' (by omega)).mono
              rintro listed s'' k'' ⟨spent', shorter⟩
              refine ⟨by omega, fun r same => ?_⟩
              have less := shorter r same
              have one : inode.toList.length ≤ 1 := by cases inode <;> simp
              rw [List.length_append] at less
              omega

theorem readDirInternal (dirInode : InodeRef) (size : Nat) (off : Int) (fi : FileInfo) (plus : Bool) :
    Spends (30 * (size + 1) + 4) (fs.readDirInternal dirInode size off fi plus) := by
  refine Spends.mono (n := 1 + (1 + (30 * size + 26))) ?_ (by omega)
  refine .bind (.invoke (I := calls) _) fun dir => .bind (.invoke (I := calls) _) fun _ s k enough => ?_
  rw [Routine.follows_bind]
  apply (follows_readDirLoop dirInode dir _ s k (by omega)).mono
  rintro listed s' k' ⟨spent, shorter⟩
  cases listed with
  | error e =>
      dsimp only
      omega
  | ok listed =>
      obtain ⟨listed, inodes⟩ := listed
      have few := shorter _ rfl
      dsimp only [List.length_nil] at few ⊢
      have sent : Spends 2 (Routine.ofExcept listed >>= fun dirs : FuseDirsBuilder => dirs.reply fs.platform) :=
        .bind (.ofExcept listed) fun dirs => .bind (addsUp.check _ _) fun _ => addsUp.send _ _
      have ends := Spends.andFinally (sent.onError (addsUp.unrefAll inodes)) (addsUp.dropAllShared inodes)
      apply (ends s' k' (by omega)).mono
      intro r s'' k'' spent'
      omega

end Spending

/-- How many calls the callback for a request makes at most. -/
def Request.bound (r : Request) : Nat := r.effort + 2

theorem serve_within {fs : PageAlignFS} {req : FuseReq} {r : Request} {handler : Handler}
    (served : fs.serve req r = some handler) (s : FuseRequest) : Prog.Within (handler s) r.bound := by
  obtain ⟨method, invoked⟩ | null := invocation_or_null served
  · rw [PageAlignFS.serve, asFuseLowLevelOps_of_invocation invoked] at served
    cases served
    have handled : Spends r.effort (method fs) := by
      refine Spending.addsUp.invocation Spending.readDirInternal invoked (fun ino fi ph same => ?_)
        fun ino inBuf off fi _ => Spending.notifyPollEvent _
      refine .bind (n := 1) (k := 1) (.invoke (I := calls) _) fun old => ?_
      cases old with
      | none => exact (Spends.pure ()).mono (Nat.zero_le 1)
      | some o => exact .invoke (I := calls) _
    have follows : Follows (countdown calls) (callback fs.platform (some fs) req r.opcode.finish method) s r.bound
        fun _ _ _ => True := by
      rw [follows_callback]
      apply (handled _ r.bound (by unfold Request.bound; omega)).mono
      intro status s' k' spent
      have left : 2 ≤ k' := by
        unfold Request.bound at spent
        omega
      exact (Spending.addsUp.epilogue _ status s' k' left).mono fun _ _ _ _ => trivial
    exact follows
  · obtain ⟨next, aborts⟩ := asFuseLowLevelOps_of_null served null s
    rw [aborts]
    exact ⟨Nat.succ_pos _, fun impossible => (by cases impossible)⟩

/-! There is an answer to every call of the daemon's own. -/

/-- The calls of the kernel and of libfuse. -/
def Call.outside : Call → Bool
  | .sys _ | .seekdir .. | .fuseReply .. | .fuseBufCopy .. | .notifyPoll _ | .destroyPollHandle _ => true
  | _ => false

/-- Where one address is free, `Insert` succeeds. -/
theorem InodeCache.exists_insert {c : InodeCache} {a : Addr} (i : Inode) (free : c.heap a = none) :
    ∃ (r : Inserted) (c' : InodeCache), c.insert i r.addr = some (c', r) := by
  cases known : c.find i.key with
  | some p =>
      refine ⟨⟨p.1, false⟩, ?_⟩
      unfold insert
      split
      · next found =>
          rw [known] at found
          cases found
          exact ⟨_, rfl⟩
      · next absent =>
          rw [known] at absent
          cases absent
  | none =>
      refine ⟨⟨a, true⟩, ?_⟩
      unfold insert
      split
      · next found =>
          rw [known] at found
          cases found
      · rw [dif_pos free]
        exact ⟨_, rfl⟩

namespace World

variable {w : World}

/-- There is memory left for another node and another `Directory`. -/
structure Roomy (w : World) : Prop where
  directories : {a | w.directories a ≠ none}.Finite
  nodes : {a | w.inodeAt (.node a) ≠ none}.Finite

theorem Roomy.initial (root : Inode) (pipes : Fd → Bool) : (World.initial root pipes).Roomy := by
  constructor
  · simp [World.initial]
  · simp [World.initial, inodeAt, InodeCache.empty]

/-- A call makes at most one `Directory`. -/
theorem directory_of_effect (counts : String → Bool) {c : Call} (r : c.Ret) :
    ∃ a, ∀ b, (w.effect counts c r).directories b ≠ none → b = a ∨ w.directories b ≠ none := by
  have same (still : (w.effect counts c r).directories = w.directories) :
      ∃ a, ∀ b, (w.effect counts c r).directories b ≠ none → b = a ∨ w.directories b ≠ none := by
    refine ⟨0, fun b there => .inr ?_⟩
    rw [still] at there
    exact there
  cases moves : c.movesDirectory with
  | false => exact same (directories_effect counts r moves).1
  | true =>
      cases c with
      | sys s =>
          cases s
          case fdopendir => cases r <;> exact same rfl
          case closedir =>
              apply same
              unfold effect
              dsimp only
              split <;> rfl
          all_goals cases moves
      | newDirectory d =>
          refine ⟨r, fun b there => ?_⟩
          change Function.update w.directories r (some d) b ≠ none at there
          rw [Function.update_apply] at there
          split at there
          · next here => exact .inl here
          · exact .inr there
      | deleteDirectory a =>
          refine ⟨a, fun b there => ?_⟩
          change Function.update w.directories a none b ≠ none at there
          rw [Function.update_apply] at there
          split at there
          · next here => exact .inl here
          · exact .inr there
      | _ => cases moves

/-- A call makes at most one node. -/
theorem node_of_effect (counts : String → Bool) {c : Call} {r : c.Ret} (answers : w.Answers c r) :
    ∃ a, ∀ b, (w.effect counts c r).inodeAt (.node b) ≠ none → b = a ∨ w.inodeAt (.node b) ≠ none := by
  by_cases inserts : ∃ i, c = .insert i
  · obtain ⟨i, rfl⟩ := inserts
    refine ⟨r.addr, fun b there => ?_⟩
    obtain same | ⟨-, new⟩ := inodeAt_insert counts answers
    · rw [same] at there
      exact .inr there
    · rw [new, Function.update_apply] at there
      split at there
      · next here => exact .inl (InodeRef.node.inj here)
      · exact .inr there
  · refine ⟨0, fun b there => .inr fun gone => ?_⟩
    obtain ⟨i', after⟩ := Option.ne_none_iff_exists'.mp there
    obtain ⟨n', heap', rfl⟩ := Option.map_eq_some_iff.mp after
    obtain ⟨n, heap, -⟩ | ⟨-, i, rfl, -⟩ := inode_of_effect counts c r heap'
    · simp [inodeAt, heap] at gone
    · exact inserts ⟨i, rfl⟩

theorem Roomy.effect (counts : String → Bool) {c : Call} {r : c.Ret} (h : w.Roomy) (answers : w.Answers c r) :
    (w.effect counts c r).Roomy := by
  obtain ⟨a, directory⟩ := directory_of_effect (w := w) counts r
  obtain ⟨a', node⟩ := node_of_effect counts answers
  exact ⟨(h.directories.insert a).subset directory, (h.nodes.insert a').subset node⟩

theorem exists_reads {α : Type} (w : World) (r : InodeRef) (f : Inode → α) (default : α) :
    ∃ v, w.Reads r f v := by
  unfold Reads
  cases w.inodeAt r with
  | none => exact ⟨default, trivial⟩
  | some i => exact ⟨f i, rfl⟩

/-- A directory that is looked at, or taken away. -/
theorem exists_directory (w : World) (a : Addr) : ∃ d : DirPtr, ∀ d', w.directories a = some d' → d = d' := by
  cases w.directories a with
  | none => exact ⟨0, fun d' there => (by cases there)⟩
  | some d => exact ⟨d, fun d' there => Option.some.inj there⟩

theorem Roomy.exists_insert (h : w.Roomy) (i : Inode) : ∃ r, w.Answers (.insert i) r := by
  obtain ⟨a, free⟩ := h.nodes.infinite_compl.nonempty
  have unused : w.inodes.heap a = none := by
    by_contra used
    obtain ⟨n, heap⟩ := Option.ne_none_iff_exists'.mp used
    exact free (by simp [inodeAt, heap])
  obtain ⟨r, c', inserted⟩ := InodeCache.exists_insert i unused
  exact ⟨r, c', inserted⟩

/-- No call of the daemon's own waits for another thread; a failed check has no answer at all. -/
theorem Roomy.answered (h : w.Roomy) (c : Call) (own : c.outside = false) (passes : ∀ site, c ≠ .abort site) :
    ∃ r, w.Answers c r := by
  cases c with
  | newDirectory d =>
      obtain ⟨a, free⟩ := h.directories.infinite_compl.nonempty
      exact ⟨a, not_not.mp free⟩
  | derefDirectory a => exact w.exists_directory a
  | deleteDirectory a => exact w.exists_directory a
  | getFD ref => exact w.exists_reads ref Inode.fd 0
  | getSourceDevice ref => exact w.exists_reads ref Inode.srcDevNum 0
  | getGeneration ref => exact w.exists_reads ref Inode.generation none
  | addPollHandle ref ph => exact w.exists_reads ref Inode.pollHandle none
  | pollHandle ref => exact w.exists_reads ref Inode.pollHandle none
  | insert i => exact h.exists_insert i
  | ref ref n => exact w.exists_reads ref _ none
  | unref site ref n => exact w.exists_reads ref _ .checkFailed
  | dropShared a => exact w.exists_reads (.node a) _ .checkFailed
  | abort site => exact absurd rfl (passes site)
  | logInode ref => exact ⟨(), trivial⟩
  | setGeneration ref v => exact ⟨(), trivial⟩
  | _ => cases own

end World

section Runs
variable {fs : PageAlignFS} {counts : String → Bool} {root : Inode} {pipes : Fd → Bool} {s s' : Daemon}

theorem starts_within {w w' : World} {tag : FuseReq × Request} {p : Prog calls (Status × FuseRequest)}
    (starts : (daemon fs counts).starts w tag p w') : p.Within tag.2.bound := by
  obtain ⟨-, -, handler, served, rfl⟩ := starts
  exact serve_within served _

/-- Among any other threads, and however its calls are answered, a callback makes no more calls
than its request accounts for. -/
theorem callback_ends {ok : World → Label calls (FuseReq × Request) → Prop} {req : FuseReq} {r : Request}
    {t : List (Event calls)} {p : Prog calls (Status × FuseRequest)}
    (watch : (daemon fs counts).Watch ok (req, r) s t p s') : t.length ≤ r.bound := by
  obtain ⟨k, -, le⟩ := watch.within fun w p w' starts => starts_within starts
  exact Nat.le_of_add_right_le le

open Sample in
/-- The listing of a directory with one entry, with attributes. -/
theorem callback_ends_listed : ∃ s', (daemon .onLinux countsName).Watch (fun _ _ => True) listTag ⟨dirOpened, []⟩
    listEvents (.done (.ok (), { req := none })) s' ∧ listEvents.length ≤ listTag.2.bound := by
  have send : dirOpened.MaySend listTag.1 listTag.2 :=
    ⟨rfl, rfl, fun a h => .inl (List.mem_singleton.mp h), fun _ h => (nomatch h),
      fun _ h => (nomatch h), trivial⟩
  have plays : (dirOpened.arrive listTag.1 listTag.2).Plays countsName listEvents :=
    ⟨trivial, fun _ h => Option.some.inj h, trivial, trivial, rfl, rfl, trivial, ⟨_, rfl⟩, rfl, trivial, rfl, rfl, rfl,
      trivial, trivial, trivial, rfl, trivial, trivial, rfl, trivial⟩
  have steps : Exec (callback linux (some .onLinux) listTag.1 .replyAlways
      (fun fs : PageAlignFS => fs.readDirPlus FUSE_ROOT_ID 200 0 ⟨0, 500, false, false⟩)
      { req := none }) listEvents (.ok (), { req := none }) :=
    .step _ (.step _ (.step _ (.step _ (.step _ (.step _ (.step _ (.step _ (.step _ (.step _
      (.step _ (.step _ (.step _ (.step _ (.step _ (.step _ (.step _ (.step _ (.step _ (.step _
      (.refl _))))))))))))))))))))
  have started : (daemon .onLinux countsName).Watch (fun _ _ => True) listTag ⟨dirOpened, []⟩ [] _ _ :=
    .arrive (.arrive ⟨send, rfl, _, rfl, rfl⟩) trivial
  have watch := started.run steps plays.performs (J := fun _ => True) trivial (fun _ _ _ _ _ _ => trivial)
    fun _ _ _ _ => trivial
  exact ⟨_, watch, callback_ends watch⟩

theorem roomy_of_reach (run : (daemon fs counts).Reach (fun _ _ => True) (.initial root pipes) s) :
    s.world.Roomy := by
  induction run with
  | init => exact .initial root pipes
  | step _ step _ ih =>
      cases step with
      | arrive starts =>
          obtain ⟨-, rfl, -⟩ := starts
          obtain ⟨nlookup, forgetting, fds, -, arrived⟩ := World.arrive_cases _ _ _
          rw [arrived]
          exact ⟨ih.directories, ih.nodes⟩
      | act perform =>
          obtain ⟨answers, rfl⟩ := perform
          exact ih.effect counts answers
      | leave => exact ⟨ih.directories, ih.nodes⟩

/-- The outside may keep back its answers, and nothing else is kept back. -/
def KeepsBack (ok : World → Label calls (FuseReq × Request) → Prop) : Prop :=
  (∀ w tag (c : Call) r, c.outside = false → ok w (.act tag ⟨c, r⟩)) ∧ ∀ w tag, ok w (.leave tag)

/-- The outside does not answer the next call of the thread, or a `CHECK` of it is about to fail. -/
def Waits (ok : World → Label calls (FuseReq × Request) → Prop) (w : World)
    (t : Thread calls (FuseReq × Request) (Status × FuseRequest)) : Prop :=
  ∃ c next, t.prog = .call c next ∧
    ((∃ site, c = .abort site) ∨ (c.outside = true ∧ ∀ r, w.Answers c r → ¬ ok w (.act t.tag ⟨c, r⟩)))

/-- A thread that does not wait for the outside can go on, whatever the others wait for. -/
theorem goes_on {ok : World → Label calls (FuseReq × Request) → Prop} (keeps : KeepsBack ok)
    (run : (daemon fs counts).Reach (fun _ _ => True) (.initial root pipes) s)
    {t : Thread calls (FuseReq × Request) (Status × FuseRequest)} (mem : t ∈ s.threads) :
    Waits ok s.world t ∨ ∃ label s', (daemon fs counts).Step s label s' ∧ ok s.world label ∧ ¬ label.Arrives := by
  obtain ⟨answered, left⟩ := keeps
  have roomy := roomy_of_reach run
  obtain ⟨w, ts⟩ := s
  obtain ⟨pre, post, rfl⟩ := List.append_of_mem mem
  obtain ⟨tag, p⟩ := t
  cases p with
  | done a => exact .inr ⟨_, _, .leave, left w tag, fun ⟨_, same⟩ => by cases same⟩
  | call c next =>
      have acts {r : c.Ret} (answers : w.Answers c r) (admitted : ok w (.act tag ⟨c, r⟩)) :
          ∃ label s', (daemon fs counts).Step ⟨w, pre ++ ⟨tag, .call c next⟩ :: post⟩ label s' ∧ ok w label ∧
            ¬ label.Arrives :=
        ⟨_, _, .act (r := r) ⟨answers, rfl⟩, admitted, fun ⟨_, same⟩ => by cases same⟩
      by_cases aborts : ∃ site, c = .abort site
      · exact .inl ⟨c, next, rfl, .inl aborts⟩
      · cases outside : c.outside with
        | true =>
            by_cases unanswered : ∀ r, w.Answers c r → ¬ ok w (.act tag ⟨c, r⟩)
            · exact .inl ⟨c, next, rfl, .inr ⟨outside, unanswered⟩⟩
            · push Not at unanswered
              obtain ⟨r, answers, admitted⟩ := unanswered
              exact .inr (acts answers admitted)
        | false =>
            obtain ⟨r, answers⟩ := roomy.answered c outside (not_exists.mp aborts)
            exact .inr (acts answers (answered w tag c r outside))

/-- What is left to be done when no more requests arrive. -/
structure ComesToRest (fs : PageAlignFS) (counts : String → Bool) (s : Daemon) : Prop where
  /-- every run ends, after so many steps at most -/
  ends : ∀ t s', (daemon fs counts).Continues s t s' → (∀ label ∈ t, ¬ label.Arrives) →
    t.length ≤ (s.threads.map fun thread => thread.tag.2.bound + 1).sum
  /-- in a run that cannot be carried on every thread that is left waits for the outside -/
  waits : ∀ ok, KeepsBack ok → ∀ t s', (daemon fs counts).Continues s t s' → (∀ label ∈ t, ¬ label.Arrives) →
    (∀ label s'', (daemon fs counts).Step s' label s'' → ok s'.world label → label.Arrives) →
    ∀ thread ∈ s'.threads, Waits ok s'.world thread

theorem comes_to_rest (run : (daemon fs counts).Reach (fun _ _ => True) (.initial root pipes) s) :
    ComesToRest fs counts s := by
  constructor
  · intro t s' onward stays
    let cost : FuseReq × Request → Nat := fun tag => tag.2.bound
    have each : ∀ t ∈ s.threads, t.prog.Within (cost t.tag) :=
      run.within fun w tag p w' starts => starts_within starts
    obtain ⟨k, -, le⟩ := onward.length_le (Config.within_of_each each) stays
    exact Nat.le_of_add_right_le le
  · intro ok keeps t s' onward stays stuck thread mem
    obtain waits | ⟨label, s'', step, admitted, stays'⟩ := goes_on keeps (onward.reach run) mem
    · exact waits
    · exact absurd (stuck label s'' step admitted) stays'

open Sample in
/-- A poller has come as far as its handle. -/
theorem comes_to_rest_asked : ∃ s : Daemon, s.threads ≠ [] ∧ ComesToRest .onLinux countsName s := by
  obtain ⟨next, reached, -⟩ := reach_asked
  exact ⟨_, List.cons_ne_nil _ _, comes_to_rest reached⟩

end Runs

end Pafs
