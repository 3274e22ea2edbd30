import Pafs.Alone

/-! The requests that are answered with an entry. Whatever fails on the way, the cache is
left as it was; if nothing does, it has one reference more. -/
namespace Pafs
open Resumption

/-- The state in which an entry for `name` has been sent, and one reference kept for it. -/
structure Entered (B : Backing) (c : InodeCache) (d : Key → Nat) (st : Stage) (name : String)
    (reply : EntryParam → Reply) (k : Key) (st' : Stage) : Prop where
  tracks : Tracks B c (plus d k) st'
  resolved : st'.trail.resolved = st.trail.resolved ++ [(name, k)]
  sent : ∃ p, st'.trail.sent = st.trail.sent ++ [reply p] ∧ st'.world.keyAt p.ino = some k
  has : Has B c k
  denotes : ∀ k', B.key name = some k' → k = k'

/-- What can keep a name from being sent as an entry, given what the device of the parent
may be. -/
structure Refused (B : Backing) (c : InodeCache) (Parent : Dev → Prop) (name : String) (k : Key) : Prop where
  denotes : ∀ k', B.key name = some k' → k = k'
  cause : Lacks B c k ∨ ∃ dev, Parent dev ∧ dev ≠ k.1

namespace Alone
open Routine (Follows)

variable {B : Backing} {counts : String → Bool} {c : InodeCache} {d : Key → Nat} {st : Stage}
  {a : Addr} {k : Key} {fs : PageAlignFS} {req : FuseReq} {parent : InodeRef} {name : String}

theorem follows_replyWithEntry {what : String} {reply : EntryParam → Reply} (Parent : Dev → Prop)
    {Q : Status → FuseRequest → Stage → Prop} (h : Tracks B c d st) (rest : AtRest c)
    (device : ∀ k' st' dev, Tracks B c (plus d k') st' →
      st'.world.root.srcDevNum = st.world.root.srcDevNum →
      st'.world.Reads parent Inode.srcDevNum dev → Parent dev)
    (failed : ∀ e s' st', B.fails ∨ (∃ k, Refused B c Parent name k) → Tracks B c d st' → Q (.error e) s' st')
    (q : ∀ k st', Entered B c d st name reply k st' → Q (.ok ()) ⟨none⟩ st') :
    Follows (alone B counts)
      (fs.replyWithEntry parent name fun param => FuseRequest.send fs.platform what (reply param))
      ⟨some req⟩ st Q := by
  unfold PageAlignFS.replyWithEntry
  rw [Routine.follows_bind]
  refine follows_findOrCreateInode h (fun e st' fails leads => failed e _ st' (.inl fails) leads.tracks)
    fun a k st₁ inserted here denotes => ?_
  dsimp only
  -- every exit drops the `shared_ptr`
  have drop {e : Error} {s : FuseRequest} {st₂ : Stage} (cause : B.fails ∨ ∃ k, Refused B c Parent name k)
      (leads : Leads B c (plus d k) st₁ (plus d k) [] st₂) :
      Follows (alone B counts) (Inodes.dropShared a) s st₂ fun _ s' st' => Q (.error e) s' st' := by
    have held := leads.passes.held a k here (plus_pos d k)
    exact follows_dropShared leads.tracks rest held fun st' dropped => failed e s st' cause dropped.tracks
  rw [Routine.follows_andFinally, Routine.follows_bind, Routine.follows_invoke]
  refine ⟨rfl, fun parentDevice parentReads => ?_⟩
  dsimp only
  rw [Routine.follows_bind, Routine.follows_invoke]
  refine ⟨rfl, fun own ownReads => ?_⟩
  dsimp only
  obtain ⟨n, at_a, key⟩ := World.keyAt_iff.mp here
  have ownDevice : own = k.1 := (World.reads_node at_a ownReads.1).trans (congrArg Prod.fst key)
  split
  · next mismatch =>
      have known := device k st₁ parentDevice inserted.tracks inserted.passes.device parentReads.1
      have cause : Refused B c Parent name k :=
        ⟨denotes, .inr ⟨parentDevice, known, fun same => mismatch (same.trans ownDevice.symm)⟩⟩
      exact drop (.inr ⟨k, cause⟩) (.refl inserted.tracks)
  · rw [Routine.follows_bind]
    refine follows_createFuseEntryParam inserted.tracks rest (plus_pos d k) here (fun e st₂ cause leads => ?_)
      fun p st₂ ino has leads => ?_
    · refine drop (cause.imp id fun lacks => ?_) leads
      exact ⟨k, denotes, .inl lacks.2⟩
    · have here₂ := leads.passes.held a k here (plus_pos d k)
      dsimp only
      rw [Routine.follows_bind]
      refine follows_ref leads.tracks (plus_pos d k) here₂ fun st₃ refed here₃ => ?_
      dsimp only
      rw [Routine.follows_onError]
      have upto : Leads B c (plus d k) st₁ (plus (plus d k) k) [] st₃ :=
        leads.trans (fun _ => le_refl _) refed
      refine follows_send refed.tracks (fun e st₄ fails unsent => ?_)
        fun st₄ tracks resolved sent inodes => ?_
      · have here₄ := unsent.passes.held a k here₃ (plus_pos _ k)
        refine follows_cleanup unsent.tracks rest here₄ fun st₅ undone => ?_
        have back := upto.back ⟨unsent.tracks, unsent.passes.mono (plus_le _ k), unsent.keys⟩
        exact drop (.inl fails) (back.back undone)
      · have here₄ : st₄.world.keyAt a = some k := by
          unfold World.keyAt at here₃ ⊢
          rw [inodes]
          exact here₃
        refine follows_dropShared tracks rest here₄ fun st₅ dropped => q k st₅ ?_
        refine ⟨dropped.tracks, ?_, ?_, has rfl, denotes⟩
        · rw [dropped.keys, resolved, upto.keys, inserted.keys, List.append_nil, List.append_nil]
        · refine ⟨p, ?_, ?_⟩
          · rw [dropped.passes.sent, sent, upto.passes.sent, inserted.passes.sent]
          · rw [ino]
            exact dropped.passes.held a k here₄ (plus_pos d k)

/-- The cache after an entry request: one reference more, or nothing. -/
def Settled (c : InodeCache) (name : String) : Status → Stage → Prop
  | .ok _, st => ∃ k, Grown c st.world.inodes (plus 0 k) ∧ st.trail.resolved = [(name, k)]
  | .error _, st => Grown c st.world.inodes 0

theorem follows_replyWithSettled {what : String} {reply : EntryParam → Reply} (h : Tracks B c 0 st)
    (rest : AtRest c) (fresh : st.trail.resolved = []) :
    Follows (alone B counts)
      (fs.replyWithEntry parent name fun param => FuseRequest.send fs.platform what (reply param))
      ⟨some req⟩ st fun status _ st' => Settled c name status st' := by
  refine follows_replyWithEntry (fun _ => True) h rest (fun _ _ _ _ _ _ => trivial)
    (fun e _ st' _ tracks => tracks.grown) fun k st' entered => ?_
  refine ⟨k, entered.tracks.grown, ?_⟩
  rw [entered.resolved, fresh, List.nil_append]

/-- A system call that opens and closes nothing, then the entry. -/
theorem follows_syscallThenEntry {call : Sys} {message : String} {what : String}
    {reply : EntryParam → Reply} (h : Tracks B c 0 st) (rest : AtRest c) (fresh : st.trail.resolved = [])
    (inodes : ∀ r, (st.after B counts (.sys call) r).world.inodes = st.world.inodes)
    (fds : ∀ r, (st.after B counts (.sys call) r).world.fds = st.world.fds)
    (trail : ∀ r, (st.after B counts (.sys call) r).trail = st.trail) :
    Follows (alone B counts) (do
      let _ ← syscall fs.platform call message
      fs.replyWithEntry parent name fun param => FuseRequest.send fs.platform what (reply param))
      ⟨some req⟩ st fun status _ st' => Settled c name status st' := by
  have same (r : (Call.sys call).Ret) : Tracks B c 0 (st.after B counts (.sys call) r) :=
    h.congr (inodes r) (fds r) (by rw [trail r])
  rw [Routine.follows_bind, follows_syscall]
  refine ⟨rfl, fun e _ => (same (.error e)).grown, fun v _ => ?_⟩
  refine follows_replyWithSettled (same (.ok v)) rest ?_
  rw [← fresh]
  exact congrArg Trail.resolved (trail (.ok v))

/-- `Create` has opened the file before it is looked up, and closes it again on any error. -/
theorem follows_createEntry {ino : Addr} {mode : Nat} {fi : FileInfo} (h : Tracks B c 0 st)
    (rest : AtRest c) (fresh : st.trail.resolved = []) :
    Follows (alone B counts) (fs.create ino name mode fi) ⟨some req⟩ st
      fun status _ st' => Settled c name status st' := by
  unfold PageAlignFS.create Syscalls.openat
  rw [Routine.follows_bind, Routine.follows_invoke]
  refine ⟨rfl, fun _ _ => ?_⟩
  dsimp only
  rw [Routine.follows_bind, Routine.follows_invoke]
  refine ⟨rfl, fun inodeFd _ => ?_⟩
  dsimp only
  rw [Routine.follows_bind, follows_syscall]
  refine ⟨rfl, fun e _ => (h.congr rfl rfl rfl : Tracks B c 0 _).grown, fun fd answers => ?_⟩
  dsimp only
  have free : st.world.fds fd = none := answers.1
  obtain ⟨tracks, -⟩ := h.opened
    (st.after B counts (.sys (.openat inodeFd name
      ((fi.flags ||| O_CLOEXEC ||| O_CREAT) &&& ~~~O_NOFOLLOW) mode)) (.ok fd)) free rfl rfl rfl
  rw [Routine.follows_onError]
  refine Routine.Follows.mono (follows_replyWithSettled tracks rest fresh) fun status s' st' settled => ?_
  cases status with
  | ok _ => exact settled
  | error e =>
      dsimp only
      rw [follows_closeFd]
      exact ⟨rfl, fun _ _ => settled⟩

end Alone

/-- The name that a request is to be answered with an entry for. -/
def Request.entryName : Request → Option String
  | .lookup _ name | .mknod _ name _ _ | .mkdir _ name _ | .symlink _ _ name | .link _ _ name
  | .create _ name _ _ => some name
  | _ => none

namespace Alone
open Routine (Follows)

variable {B : Backing} {counts : String → Bool} {c : InodeCache} {st : Stage} {fs : PageAlignFS}
  {req : FuseReq} {name : String}

theorem follows_entry {r : Request} {method : PageAlignFS → Handler}
    (invoked : pageAlignFSOps.invocation r = some method) (entry : r.entryName = some name)
    (h : Tracks B c 0 st) (rest : AtRest c) (fresh : st.trail.resolved = []) :
    Follows (alone B counts) (method fs) ⟨some req⟩ st fun status _ st' => Settled c name status st' := by
  cases r
  case lookup parent name' =>
      cases entry
      cases invoked
      exact ⟨rfl, fun _ _ => follows_replyWithSettled (h.congr rfl rfl rfl) rest fresh⟩
  case mknod parent name' mode rdev =>
      cases entry
      cases invoked
      exact ⟨rfl, fun _ _ => ⟨rfl, fun fd _ => follows_syscallThenEntry (h.congr rfl rfl rfl) rest fresh
        (fun _ => rfl) (fun _ => rfl) fun _ => rfl⟩⟩
  case mkdir parent name' mode =>
      cases entry
      cases invoked
      exact ⟨rfl, fun _ _ => ⟨rfl, fun fd _ => follows_syscallThenEntry (h.congr rfl rfl rfl) rest fresh
        (fun _ => rfl) (fun _ => rfl) fun _ => rfl⟩⟩
  case symlink link parent name' =>
      cases entry
      cases invoked
      exact ⟨rfl, fun _ _ => ⟨rfl, fun fd _ => follows_syscallThenEntry (h.congr rfl rfl rfl) rest fresh
        (fun _ => rfl) (fun _ => rfl) fun _ => rfl⟩⟩
  case link ino parent name' =>
      cases entry
      cases invoked
      exact ⟨rfl, fun _ _ => ⟨rfl, fun _ _ => ⟨rfl, fun fd _ => ⟨rfl, fun newfd _ =>
        follows_syscallThenEntry (h.congr rfl rfl rfl) rest fresh (fun _ => rfl) (fun _ => rfl)
          fun _ => rfl⟩⟩⟩⟩
  case create ino name' mode fi =>
      cases entry
      cases fi with
      | none => cases invoked
      | some fi =>
          cases invoked
          exact follows_createEntry h rest fresh
  all_goals cases entry

end Alone

section AllOrNothing
variable {fs : PageAlignFS} {counts : String → Bool} {root : Inode} {pipes : Fd → Bool} {w : World}
  {req : FuseReq} {r : Request} {name : String} {method : PageAlignFS → Handler}
  {t : List (Event calls)} {status : Status} {s : FuseRequest}

/-- In every reachable cache and at every point of failure: a handler that returns OK has
raised the count of the file that the name was resolved to by one, and one that returns an
error has changed nothing. -/
theorem cache_allOrNothing {ok : World → Label calls (FuseReq × Request) → Prop}
    (run : (daemon fs counts).Reach ok (.initial root pipes) ⟨w, []⟩)
    (invoked : pageAlignFSOps.invocation r = some method) (entry : r.entryName = some name)
    (exec : Exec (method fs { req := some req }) t (status, s))
    (plays : (w.arrive req r).Plays counts t) :
    (status = .ok () → ∃ k, (Trail.ofEvents t).resolved = [(name, k)] ∧
      Raised w.inodes ((w.arrive req r).play counts t).inodes (Pi.single k 1)) ∧
    ∀ e, status = .error e → ((w.arrive req r).play counts t).inodes = w.inodes := by
  have follows : Routine.Follows (alone .unknown counts) (method fs) ⟨some req⟩ (.start (w.arrive req r))
      fun status _ st' => Alone.Settled w.inodes name status st' :=
    Alone.follows_entry invoked entry (tracks_arrive run req r) (atRest_of_reach run) rfl
  have settled := Prog.Follows.exec follows exec (plays.admits rfl)
  constructor
  · rintro rfl
    obtain ⟨k, grown, resolved⟩ := settled
    rw [Stage.run_world] at grown
    rw [Stage.run_start] at resolved
    refine ⟨k, resolved, ?_⟩
    have one : plus 0 k = Pi.single k 1 := zero_add _
    rw [← one]
    exact grown.raised
  · rintro e rfl
    have grown : Grown _ _ 0 := settled
    rw [Stage.run_world] at grown
    exact grown.eq_of_zero

end AllOrNothing

namespace Sample

def servedEvents : List (Event calls) := lookupEvents ++ [⟨.dropShared 4096, .dropped none⟩]

theorem exec_served : Exec (PageAlignFS.onLinux.lookup FUSE_ROOT_ID "f" { req := some lookupTag.1 })
    servedEvents (.ok (), { req := none }) :=
  .step _ (.step _ (.step _ (.step _ (.step _ (.step _ (.step _ (.step _ (.step _ (.step _ (.step _ (.step _
    (.step _ (.step _ (.step _ (.step _ (.step _ (.step _ (.refl _))))))))))))))))))

theorem plays_served : (mounted.arrive lookupTag.1 lookupTag.2).Plays countsName servedEvents :=
  ⟨trivial, rfl, rfl, trivial, ⟨_, rfl⟩, rfl, rfl, rfl, trivial, rfl, rfl, rfl, trivial, trivial,
    trivial, rfl, trivial, rfl, trivial⟩

end Sample

open Sample in
/-- The file was not in the cache before. -/
theorem cache_allOrNothing_lookup : mounted.inodes.find (8, 77) = none ∧
    Raised mounted.inodes ((mounted.arrive lookupTag.1 lookupTag.2).play countsName servedEvents).inodes
      (Pi.single (8, 77) 1) := by
  have run : (daemon .onLinux countsName).Reach (fun _ _ => True) mounted ⟨mounted, []⟩ := .init
  obtain ⟨k, resolved, raised⟩ := (cache_allOrNothing run rfl rfl exec_served plays_served).1 rfl
  have known : (Trail.ofEvents servedEvents).resolved = [("f", (8, 77))] := by decide +kernel
  rw [known] at resolved
  cases resolved
  exact ⟨rfl, raised⟩

end Pafs
