import Pafs.References
import Pafs.Resumption.Scopes

/-! `main.cc`, and how a `PageAlignFS` comes into being and goes. -/
namespace Pafs
open Resumption
open Routine (invoke)

def EXIT_SUCCESS : Int := 0
def EXIT_FAILURE : Int := 1
def S_IFMT : Nat := 0o170000
def S_IFDIR : Nat := 0o040000

/-- `S_ISDIR`. -/
def Stat.isDir (st : Stat) : Bool := st.stMode &&& S_IFMT == S_IFDIR

/-- The address of a `fuse_session`. -/
abbrev SessionPtr := Nat
/-- The address of a `fuse_loop_config`. -/
abbrev LoopConfigPtr := Nat

/-- The command line flags of `main.cc`. -/
inductive CommandFlag where
  | kernelAttributeTimeout
  | kernelEntryTimeout
  deriving DecidableEq

/-- The members of `fuse_cmdline_opts` that are read. -/
structure FuseCmdlineOpts where
  singlethread : Int
  foreground : Int
  mountpoint : Option String
  showVersion : Int
  showHelp : Int
  cloneFd : Int
  maxIdleThreads : Nat
  maxThreads : Nat
  deriving DecidableEq

/-- What `main` calls besides the daemon's own code: abseil, libfuse, and the life of the
object in the variable `pafs`. -/
inductive HostCall where
  | parseCommandLine (argv : List String)
  | fuseOptFreeArgs
  | fuseParseCmdline (args : List String)
  | freeMountpoint (mountpoint : Option String)
  | fuseCmdlineHelp
  | fuseLowlevelHelp
  | fusePkgVersion
  | fuseLowlevelVersion
  | usage
  | getFlag (flag : CommandFlag)
  | newPageAlignFS (root : Inode) (opts : Options)
  /-- `~InodeCache` takes its inodes out -/
  | takeInodes
  /-- `root_` is destroyed -/
  | takeRoot
  | fuseSessionNew (args : List String) (pafs : PageAlignFS)
  | fuseSessionDestroy (se : SessionPtr)
  | fuseSetSignalHandlers (se : SessionPtr)
  | fuseRemoveSignalHandlers (se : SessionPtr)
  | fuseSessionMount (se : SessionPtr) (mountpoint : String)
  | fuseSessionUnmount (se : SessionPtr)
  | fuseDaemonize (foreground : Int)
  | fuseSessionLoop (se : SessionPtr)
  | fuseLoopCfgCreate
  | fuseLoopCfgDestroy (config : LoopConfigPtr)
  | fuseLoopCfgSetCloneFd (config : LoopConfigPtr) (value : Int)
  | fuseLoopCfgSetIdleThreads (config : LoopConfigPtr) (value : Nat)
  | fuseLoopCfgSetMaxThreads (config : LoopConfigPtr) (value : Nat)
  | fuseSessionLoopMt (se : SessionPtr) (config : LoopConfigPtr)
  /-- `CHECK_NE(loop_config, nullptr)` fails -/
  | abort

abbrev HostCall.Ret : HostCall → Type
  | .parseCommandLine _ => List String
  -- the options, and the arguments that are left; none if it fails
  | .fuseParseCmdline _ => Option (FuseCmdlineOpts × List String)
  | .getFlag _ => Duration
  | .takeInodes => List Inode
  | .takeRoot => Inode
  | .fuseSessionNew _ _ => Option SessionPtr
  | .fuseLoopCfgCreate => Option LoopConfigPtr
  | .fuseSetSignalHandlers _ | .fuseSessionMount _ _ | .fuseDaemonize _ | .fuseSessionLoop _
  | .fuseSessionLoopMt _ _ => Int
  | .abort => Empty
  | _ => Unit

abbrev host : Interface := { Call := HostCall, Ret := HostCall.Ret }

/-- `main` calls the daemon's code and the libraries. -/
abbrev hosted : Interface := calls.sum host

abbrev Hosted (α : Type) := Routine hosted Unit Error α

def onHost (c : HostCall) : Hosted c.Ret := invoke (I := hosted) (.inr c)

theorem follows_onHost {L : Type} {D : Discipline hosted L} {s : Unit} {l : L} (c : HostCall)
    (Q : Except Error c.Ret → Unit → L → Prop) :
    Routine.Follows (α := no_index c.Ret) D (onHost c) s l Q ↔ D.allows l (Sum.inr c) ∧
      ∀ r : c.Ret, D.answers l (Sum.inr c) r → Q (.ok r) s (D.after l (Sum.inr c) r) := Iff.rfl

/-- `PageAlignFS::Create`; the source overloads the name of the operation. -/
def PageAlignFS.createFrom (P : Platform) (srcdir : String) (opts : Options) : Hosted PageAlignFS := do
  let root ← Routine.inl (Inode.create P srcdir AT_FDCWD)
  Routine.onError
    (do
      let st ← Routine.inl (statFD P root.fd)
      if st.isDir then pure () else Routine.fail (failedPreconditionError "Mountpoint is not a directory"))
    (Routine.inl root.destroy)
  onHost (.newPageAlignFS root opts)
  pure { platform := P, opts }

/-- The inodes of a hash map die with it. -/
def destroyAll : List Inode → Io Unit Unit
  | [] => pure ()
  | i :: rest => do
      i.destroy
      destroyAll rest

/-- `~PageAlignFS`: the members in the opposite order of their declaration. -/
def PageAlignFS.destroy : Hosted Unit := do
  let inodes ← onHost .takeInodes
  Routine.inl (destroyAll inodes)
  let root ← onHost .takeRoot
  Routine.inl root.destroy

/-- From `fuse_daemonize` on: the session is mounted. -/
def runLoop (opts : FuseCmdlineOpts) (se : SessionPtr) : Hosted Int := do
  let _ ← onHost (.fuseDaemonize opts.foreground)
  if opts.singlethread ≠ 0 then onHost (.fuseSessionLoop se)
  else do
    let created ← onHost .fuseLoopCfgCreate
    match created with
    | none => do
        let impossible ← onHost .abort
        nomatch impossible
    | some config =>
        Routine.andFinally
          (do
            onHost (.fuseLoopCfgSetCloneFd config opts.cloneFd)
            onHost (.fuseLoopCfgSetIdleThreads config opts.maxIdleThreads)
            onHost (.fuseLoopCfgSetMaxThreads config opts.maxThreads)
            onHost (.fuseSessionLoopMt se config))
          (onHost (.fuseLoopCfgDestroy config))

/-- From `fuse_session_new` on. -/
def runSession (opts : FuseCmdlineOpts) (args : List String) (mountpoint : String) (pafs : PageAlignFS) :
    Hosted Int := do
  let session ← onHost (.fuseSessionNew args pafs)
  match session with
  | none => pure EXIT_FAILURE
  | some se =>
      Routine.andFinally
        (do
          let handlers ← onHost (.fuseSetSignalHandlers se)
          if handlers ≠ 0 then pure EXIT_FAILURE
          else
            Routine.andFinally
              (do
                let mounted ← onHost (.fuseSessionMount se mountpoint)
                if mounted ≠ 0 then pure EXIT_FAILURE
                else (runLoop opts se).andFinally (onHost (.fuseSessionUnmount se)))
              (onHost (.fuseRemoveSignalHandlers se)))
        (onHost (.fuseSessionDestroy se))

/-- From `fuse_opts.show_help` on: the command line is parsed. -/
def runCommand (P : Platform) (opts : FuseCmdlineOpts) (args : List String) : Hosted Int :=
  if opts.showHelp ≠ 0 then do
    onHost .fuseCmdlineHelp
    onHost .fuseLowlevelHelp
    pure EXIT_SUCCESS
  else if opts.showVersion ≠ 0 then do
    onHost .fusePkgVersion
    onHost .fuseLowlevelVersion
    pure EXIT_SUCCESS
  else match opts.mountpoint with
  | none => do
      onHost .usage
      pure EXIT_FAILURE
  | some mountpoint => do
      let kernelEntryTimeout ← onHost (.getFlag .kernelEntryTimeout)
      let kernelAttributeTimeout ← onHost (.getFlag .kernelAttributeTimeout)
      -- the source directory is the directory that is mounted over
      let pafs ← PageAlignFS.createFrom P mountpoint { kernelEntryTimeout, kernelAttributeTimeout }
      Routine.andFinally (runSession opts args mountpoint pafs) PageAlignFS.destroy

/-- `pafs::Main`. -/
def pafsMain (P : Platform) (argv : List String) : Hosted Int := do
  let args ← onHost (.parseCommandLine argv)
  Routine.andFinally
    (do
      let parsed ← onHost (.fuseParseCmdline args)
      match parsed with
      | none => pure EXIT_FAILURE
      | some (opts, rest) =>
          Routine.andFinally (runCommand P opts rest) (onHost (.freeMountpoint opts.mountpoint)))
    (onHost .fuseOptFreeArgs)

/-- `main`. -/
def main (P : Platform) (argv : List String) : Prog hosted Int :=
  (pafsMain P argv ()).bind fun r =>
    match r.1 with
    | .ok status => .done status
    | .error _ => .done EXIT_FAILURE

/-! What `main` holds while it runs. -/

inductive Resource where
  | args
  | options
  | pafs
  | session (se : SessionPtr)
  | handlers (se : SessionPtr)
  | mount (se : SessionPtr)
  | loopConfig (config : LoopConfigPtr)
  deriving DecidableEq

/-- What a libfuse call acquires that returns zero if it succeeds. -/
def succeeded (r : Resource) (rc : Int) : Option Resource := if rc = 0 then some r else none

/-- What a call uses, what its answer acquires, what it releases. The calls of the daemon's own
code take no part. -/
def tenure : Tenure hosted Resource where
  needs
    | .inr (.fuseParseCmdline _) => [.args]
    | .inr (.fuseSessionNew _ _) => [.args, .pafs]
    | .inr (.fuseSetSignalHandlers se) => [.session se]
    | .inr (.fuseSessionMount se _) => [.options, .session se]
    | .inr (.fuseSessionLoop se) => [.pafs, .session se, .handlers se, .mount se]
    | .inr (.fuseLoopCfgSetCloneFd config _) | .inr (.fuseLoopCfgSetIdleThreads config _)
    | .inr (.fuseLoopCfgSetMaxThreads config _) => [.loopConfig config]
    | .inr (.fuseSessionLoopMt se config) =>
        [.pafs, .session se, .handlers se, .mount se, .loopConfig config]
    | .inr (.fuseSessionUnmount se) => [.session se, .mount se]
    | .inr (.fuseRemoveSignalHandlers se) => [.session se, .handlers se]
    | .inr (.fuseSessionDestroy se) => [.session se]
    | _ => []
  opens
    | .inr (.parseCommandLine _), _ => some .args
    | .inr (.fuseParseCmdline _), some _ => some .options
    | .inr (.newPageAlignFS _ _), _ => some .pafs
    | .inr (.fuseSessionNew _ _), some se => some (.session se)
    | .inr (.fuseSetSignalHandlers se), rc => succeeded (.handlers se) rc
    | .inr (.fuseSessionMount se _), rc => succeeded (.mount se) rc
    | .inr .fuseLoopCfgCreate, some config => some (.loopConfig config)
    | _, _ => none
  closes
    | .inr .fuseOptFreeArgs => some .args
    | .inr (.freeMountpoint _) => some .options
    | .inr .takeInodes => some .pafs
    | .inr (.fuseSessionDestroy se) => some (.session se)
    | .inr (.fuseRemoveSignalHandlers se) => some (.handlers se)
    | .inr (.fuseSessionUnmount se) => some (.mount se)
    | .inr (.fuseLoopCfgDestroy config) => some (.loopConfig config)
    | _ => none

/-- The exit status that a run has earned so far: that of the session loop, or success if only
help was asked for. -/
def reporting : Discipline hosted Int where
  allows _ _ := True
  answers _ _ _ := True
  after status c ret :=
    match c, ret with
    | .inr .fuseCmdlineHelp, _ | .inr .fusePkgVersion, _ => EXIT_SUCCESS
    | .inr (.fuseSessionLoop _), rc | .inr (.fuseSessionLoopMt _ _), rc => rc
    | _, _ => status

def reported (t : List (Event hosted)) : Int := reporting.run EXIT_FAILURE t

section Scopes
open Routine
variable {P : Platform} {held : List Resource} {opts : FuseCmdlineOpts} {args argv : List String}
  {mountpoint : String} {se : SessionPtr} {config : LoopConfigPtr} {status : Int}

/-- A call that neither acquires nor releases. -/
theorem rests_onHost {c : HostCall} (needs : tenure.needs (Sum.inr c) ⊆ held)
    (closes : tenure.closes (Sum.inr c) = none) (opens : ∀ r, tenure.opens (Sum.inr c) r = none) :
    Rests tenure.scoping held (onHost c) := by
  apply Rests.invoke
  · refine ⟨needs, fun r closed => ?_⟩
    rw [closes] at closed
    cases closed
  · intro r _
    exact Tenure.after_plain (opens r) closes

theorem rests_inl {α : Type} (m : Io Unit α) : Rests tenure.scoping held (Routine.inl m : Hosted α) := by
  apply Rests.inl
  · intro c
    refine ⟨List.nil_subset _, fun r closed => ?_⟩
    cases closed
  · intro c r
    exact Tenure.after_plain rfl rfl

/-- A call that releases what was acquired last. -/
theorem carries_onHost {c : HostCall} {r : Resource} (needs : tenure.needs (Sum.inr c) ⊆ r :: held)
    (closes : tenure.closes (Sum.inr c) = some r) :
    Carries tenure.scoping (r :: held) held (onHost c) := by
  intro s
  refine ⟨⟨needs, fun r' closed => ?_⟩, fun ret _ => ?_⟩
  · rw [closes] at closed
    exact closed
  · exact Tenure.after_closes closes

/-- A call that may acquire something, and what is done in either case. -/
theorem rests_acquire {c : HostCall} {β : Type} {f : c.Ret → Hosted β} (needs : tenure.needs (Sum.inr c) ⊆ held)
    (closes : tenure.closes (Sum.inr c) = none)
    (nothing : ∀ r, tenure.opens (Sum.inr c) r = none → Rests tenure.scoping held (f r))
    (something : ∀ r x, tenure.opens (Sum.inr c) r = some x → Carries tenure.scoping (x :: held) held (f r)) :
    Rests tenure.scoping held (onHost c >>= f) := by
  apply Rests.acquire
  · refine ⟨needs, fun r closed => ?_⟩
    rw [closes] at closed
    cases closed
  · intro r _
    cases opens : tenure.opens (Sum.inr c) r with
    | none =>
        rw [Tenure.after_plain opens closes]
        exact nothing r opens
    | some x =>
        rw [Tenure.after_opens opens closes]
        exact something r x opens

theorem rests_runLoop (has : [Resource.pafs, .session se, .handlers se, .mount se] ⊆ held) :
    Rests tenure.scoping held (runLoop opts se) := by
  apply Rests.bind (rests_onHost (List.nil_subset _) rfl fun _ => rfl)
  intro _
  split
  · exact rests_onHost has rfl fun _ => rfl
  · apply rests_acquire (List.nil_subset _) rfl
    · intro created nothing
      cases created with
      | none =>
          apply Rests.bind (rests_onHost (List.nil_subset _) rfl fun _ => rfl)
          intro impossible
          cases impossible
      | some config => cases nothing
    · intro created x something
      cases created with
      | none => cases something
      | some config =>
          cases something
          have mine : [Resource.loopConfig config] ⊆ .loopConfig config :: held :=
            List.cons_subset_cons _ (List.nil_subset held)
          have all : [Resource.pafs, .session se, .handlers se, .mount se] ++ [.loopConfig config] ⊆
              .loopConfig config :: held :=
            List.append_subset.mpr ⟨List.subset_cons_of_subset _ has, mine⟩
          apply Rests.release
          · apply Rests.bind (rests_onHost mine rfl fun _ => rfl)
            intro _
            apply Rests.bind (rests_onHost mine rfl fun _ => rfl)
            intro _
            apply Rests.bind (rests_onHost mine rfl fun _ => rfl)
            intro _
            exact rests_onHost all rfl fun _ => rfl
          · exact carries_onHost (List.nil_subset _) rfl

theorem succeeded_eq_some {r x : Resource} {rc : Int} (h : succeeded r rc = some x) : rc = 0 ∧ x = r := by
  unfold succeeded at h
  split at h
  · next zero => exact ⟨zero, (Option.some.inj h).symm⟩
  · cases h

theorem succeeded_eq_none {r : Resource} {rc : Int} (h : succeeded r rc = none) : rc ≠ 0 := by
  rintro rfl
  cases h

theorem rests_runSession {pafs : PageAlignFS} (has : [Resource.options, .args, .pafs] ⊆ held) :
    Rests tenure.scoping held (runSession opts args mountpoint pafs) := by
  apply rests_acquire (List.subset_of_cons_subset has) rfl
  · intro session nothing
    cases session with
    | none => exact Rests.pure _
    | some se => cases nothing
  · intro session x something
    cases session with
    | none => cases something
    | some se =>
        cases something
        apply Rests.release _ (carries_onHost (by simp [tenure]) rfl)
        apply rests_acquire (List.cons_subset_cons _ (List.nil_subset held)) rfl
        · intro handlers nothing
          rw [if_pos (succeeded_eq_none nothing)]
          exact Rests.pure _
        · intro handlers x something
          obtain ⟨rfl, rfl⟩ := succeeded_eq_some something
          rw [if_neg (by simp)]
          apply Rests.release _ (carries_onHost (by simp [tenure]) rfl)
          apply rests_acquire _ rfl
          · intro mounted nothing
            rw [if_pos (succeeded_eq_none nothing)]
            exact Rests.pure _
          · intro mounted x something
            obtain ⟨rfl, rfl⟩ := succeeded_eq_some something
            rw [if_neg (by simp)]
            apply Rests.release _ (carries_onHost (by simp [tenure]) rfl)
            apply rests_runLoop
            intro r mem
            simp only [List.mem_cons, List.not_mem_nil, or_false] at mem
            rcases mem with rfl | rfl | rfl | rfl
            · exact .tail _ (.tail _ (.tail _ (has (by simp))))
            · simp
            · simp
            · simp
          · intro r mem
            have mem : r = .options ∨ r = .session se := by simpa [tenure] using mem
            rcases mem with rfl | rfl
            · exact .tail _ (.tail _ (has (by simp)))
            · simp

/-- If it succeeds there is an object to destroy. -/
theorem follows_createFrom {srcdir : String} {o : Options} (s : Unit) :
    Follows tenure.scoping (PageAlignFS.createFrom P srcdir o) s held fun r _ l =>
      match r with
      | .ok _ => l = .pafs :: held
      | .error _ => l = held := by
  unfold PageAlignFS.createFrom
  rw [follows_bind]
  apply (rests_inl _ s).mono
  rintro r s l rfl
  cases r with
  | error e => rfl
  | ok root =>
      dsimp only
      rw [follows_bind]
      have checks : Rests tenure.scoping l (Routine.onError
          (do
            let st ← Routine.inl (statFD P root.fd)
            if st.isDir then pure () else Routine.fail (failedPreconditionError "Mountpoint is not a directory"))
          (Routine.inl root.destroy) : Hosted Unit) := by
        apply Rests.onError _ (rests_inl _)
        apply Rests.bind (rests_inl _)
        intro st
        split
        · exact Rests.pure _
        · exact Rests.fail _
      apply (checks s).mono
      rintro r s l rfl
      cases r with
      | error e => rfl
      | ok _ => exact ⟨⟨List.nil_subset _, fun r closed => nomatch closed⟩, fun _ _ => rfl⟩

theorem carries_destroy : Carries tenure.scoping (.pafs :: held) held PageAlignFS.destroy := by
  apply Carries.bind (carries_onHost (List.nil_subset _) rfl)
  intro inodes
  apply Rests.bind (rests_inl _)
  intro _
  apply Rests.bind (rests_onHost (List.nil_subset _) rfl fun _ => rfl)
  intro root
  exact rests_inl _

theorem rests_runCommand (has : [Resource.options, .args] ⊆ held) :
    Rests tenure.scoping held (runCommand P opts args) := by
  unfold runCommand
  have idle {c : HostCall} {β : Type} {f : c.Ret → Hosted β} (needs : tenure.needs (Sum.inr c) = [])
      (closes : tenure.closes (Sum.inr c) = none) (opens : ∀ r, tenure.opens (Sum.inr c) r = none)
      (rest : ∀ r, Rests tenure.scoping held (f r)) : Rests tenure.scoping held (onHost c >>= f) := by
    apply Rests.bind (rests_onHost _ closes opens) rest
    rw [needs]
    exact List.nil_subset _
  split
  · apply idle rfl rfl fun _ => rfl
    intro _
    apply idle rfl rfl fun _ => rfl
    intro _
    exact Rests.pure _
  · split
    · apply idle rfl rfl fun _ => rfl
      intro _
      apply idle rfl rfl fun _ => rfl
      intro _
      exact Rests.pure _
    · split
      · apply idle rfl rfl fun _ => rfl
        intro _
        exact Rests.pure _
      · apply idle rfl rfl fun _ => rfl
        intro entry
        apply idle rfl rfl fun _ => rfl
        intro attr s
        rw [follows_bind]
        apply (follows_createFrom s).mono
        intro r s l after
        cases r with
        | error e => exact after
        | ok pafs =>
            have here : l = .pafs :: held := after
            rw [here]
            apply Rests.release _ carries_destroy
            apply rests_runSession
            intro r mem
            simp only [List.mem_cons, List.not_mem_nil, or_false] at mem
            rcases mem with rfl | rfl | rfl
            · exact .tail _ (has (by simp))
            · exact .tail _ (has (by simp))
            · simp

theorem rests_pafsMain : Rests tenure.scoping [] (pafsMain P argv) := by
  apply rests_acquire (List.nil_subset _) rfl
  · intro args nothing
    cases nothing
  · intro args x something
    cases something
    apply Rests.release _ (carries_onHost (List.nil_subset _) rfl)
    apply rests_acquire (List.cons_subset_cons _ (List.nil_subset _)) rfl
    · intro parsed nothing
      cases parsed with
      | none => exact Rests.pure _
      | some _ => cases nothing
    · intro parsed x something
      cases parsed with
      | none => cases something
      | some parsed =>
          cases something
          apply Rests.release _ (carries_onHost (List.nil_subset _) rfl)
          exact rests_runCommand (List.Subset.refl _)

end Scopes

section Status
open Routine
variable {P : Platform} {opts : FuseCmdlineOpts} {args argv : List String} {mountpoint : String} {status : Int}

/-- What `main` makes of a result is what has been reported. -/
def Earned (r : Except Error Int) (status : Int) : Prop :=
  match r with
  | .ok code => code = status
  | .error _ => EXIT_FAILURE = status

theorem earns_inl {α : Type} (m : Io Unit α) : Rests reporting status (Routine.inl m : Hosted α) :=
  Rests.inl (fun _ => trivial) (fun _ _ => rfl) m

theorem earns_onHost {c : HostCall} (same : ∀ r, reporting.after status (Sum.inr c) r = status) :
    Rests reporting status (onHost c) := Rests.invoke trivial fun r _ => same r

theorem earns_destroy (status : Int) : Rests reporting status PageAlignFS.destroy := by
  apply Rests.bind (earns_onHost fun _ => rfl)
  intro inodes
  apply Rests.bind (earns_inl _)
  intro _
  apply Rests.bind (earns_onHost fun _ => rfl)
  intro root
  exact earns_inl _

theorem earns_createFrom {srcdir : String} {o : Options} :
    Rests reporting status (PageAlignFS.createFrom P srcdir o) := by
  apply Rests.bind (earns_inl _)
  intro root
  apply Rests.bind
  · apply Rests.onError _ (earns_inl _)
    apply Rests.bind (earns_inl _)
    intro st
    split
    · exact Rests.pure _
    · exact Rests.fail _
  · intro _
    apply Rests.bind (earns_onHost fun _ => rfl)
    intro _
    exact Rests.pure _

theorem earned_runLoop {se : SessionPtr} (s : Unit) :
    Follows reporting (runLoop opts se) s EXIT_FAILURE fun r _ l => Earned r l := by
  apply Rests.first (earns_onHost fun _ => rfl) fun _ => rfl
  intro _ s
  split
  · exact ⟨trivial, fun _ _ => rfl⟩
  · apply Rests.first (earns_onHost fun _ => rfl) fun _ => rfl
    intro created s
    cases created with
    | none =>
        apply Rests.first (earns_onHost fun _ => rfl) fun _ => rfl
        intro impossible
        cases impossible
    | some config =>
        apply Rests.last _ fun _ => earns_onHost fun _ => rfl
        apply Rests.first (earns_onHost fun _ => rfl) fun _ => rfl
        intro _ s
        apply Rests.first (earns_onHost fun _ => rfl) fun _ => rfl
        intro _ s
        apply Rests.first (earns_onHost fun _ => rfl) fun _ => rfl
        intro _ s
        exact ⟨trivial, fun _ _ => rfl⟩

theorem earned_runSession {pafs : PageAlignFS} (s : Unit) :
    Follows reporting (runSession opts args mountpoint pafs) s EXIT_FAILURE fun r _ l => Earned r l := by
  apply Rests.first (earns_onHost fun _ => rfl) fun _ => rfl
  intro session s
  cases session with
  | none => rfl
  | some se =>
      apply Rests.last _ fun _ => earns_onHost fun _ => rfl
      apply Rests.first (earns_onHost fun _ => rfl) fun _ => rfl
      intro handlers s
      split
      · rfl
      · apply Rests.last _ fun _ => earns_onHost fun _ => rfl
        apply Rests.first (earns_onHost fun _ => rfl) fun _ => rfl
        intro mounted s
        split
        · rfl
        · exact Rests.last (earned_runLoop s) fun _ => earns_onHost fun _ => rfl

theorem earned_runCommand (s : Unit) :
    Follows reporting (runCommand P opts args) s EXIT_FAILURE fun r _ l => Earned r l := by
  unfold runCommand
  split
  · exact ⟨trivial, fun _ _ => ⟨trivial, fun _ _ => rfl⟩⟩
  · split
    · exact ⟨trivial, fun _ _ => ⟨trivial, fun _ _ => rfl⟩⟩
    · split
      · exact ⟨trivial, fun _ _ => rfl⟩
      · apply Rests.first (earns_onHost fun _ => rfl) fun _ => rfl
        intro entry s
        apply Rests.first (earns_onHost fun _ => rfl) fun _ => rfl
        intro attr s
        apply Rests.first earns_createFrom fun _ => rfl
        intro pafs s
        exact Rests.last (earned_runSession s) earns_destroy

theorem earned_pafsMain (s : Unit) :
    Follows reporting (pafsMain P argv) s EXIT_FAILURE fun r _ l => Earned r l := by
  apply Rests.first (earns_onHost fun _ => rfl) fun _ => rfl
  intro args s
  apply Rests.last _ fun _ => earns_onHost fun _ => rfl
  apply Rests.first (earns_onHost fun _ => rfl) fun _ => rfl
  intro parsed s
  cases parsed with
  | none => rfl
  | some parsed => exact Rests.last (earned_runCommand s) fun _ => earns_onHost fun _ => rfl

end Status

/-- Whatever is answered, what `main` acquires is released in the opposite order, everything
that a call needs is there, and the exit status is the one that was reported. -/
theorem main_in_order {P : Platform} {argv : List String} {t : List (Event hosted)} {status : Int}
    (run : Exec (main P argv) t status) : tenure.Nested [] t ∧ status = reported t := by
  have scopes : (main P argv).Follows tenure.scoping [] fun _ held => held = [] := by
    unfold main
    rw [Prog.follows_bind]
    apply Prog.Follows.mono (rests_pafsMain ())
    rintro ⟨r, s⟩ l rfl
    cases r with
    | ok status => rfl
    | error e => rfl
  have reports : (main P argv).Follows reporting EXIT_FAILURE fun status l => status = l := by
    unfold main
    rw [Prog.follows_bind]
    apply Prog.Follows.mono (earned_pafsMain ())
    rintro ⟨r, s⟩ l earned
    cases r with
    | ok status => exact earned
    | error e => exact earned
  have admits : reporting.Admits EXIT_FAILURE t := Discipline.admits (fun _ _ _ => trivial) _ t
  exact ⟨Tenure.nested scopes run, reports.exec run admits⟩

namespace Sample

def cmdline : FuseCmdlineOpts := ⟨0, 1, some "/mnt", 0, 0, 0, 10, 10⟩

def mountStat : Stat := ⟨8, 2, 0o040755, 0, 0, 0, ⟨0, 0⟩, ⟨0, 0⟩⟩

/-- A session in which one file was looked up, opened and polled. -/
def lifeEvents : List (Event hosted) :=
  [⟨.inr (.parseCommandLine ["pafs", "/mnt"]), ["pafs", "/mnt"]⟩,
    ⟨.inr (.fuseParseCmdline ["pafs", "/mnt"]), some (cmdline, ["pafs"])⟩,
    ⟨.inr (.getFlag .kernelEntryTimeout), (0 : Duration)⟩, ⟨.inr (.getFlag .kernelAttributeTimeout), (0 : Duration)⟩,
    ⟨.inl (.sys (.openat AT_FDCWD "/mnt" (O_PATH ||| O_NOFOLLOW ||| O_CLOEXEC) 0)), .ok (4 : Int)⟩,
    ⟨.inl (.sys (.fstatat 4 "" (AT_EMPTY_PATH ||| AT_SYMLINK_NOFOLLOW))), .ok mountStat⟩,
    ⟨.inl (.sys (.fstatat 4 "" (AT_EMPTY_PATH ||| AT_SYMLINK_NOFOLLOW))), .ok mountStat⟩,
    ⟨.inr (.newPageAlignFS rootInode ⟨0, 0⟩), ()⟩, ⟨.inr (.fuseSessionNew ["pafs"] .onLinux), some (5000 : Nat)⟩,
    ⟨.inr (.fuseSetSignalHandlers 5000), (0 : Int)⟩, ⟨.inr (.fuseSessionMount 5000 "/mnt"), (0 : Int)⟩,
    ⟨.inr (.fuseDaemonize 1), (0 : Int)⟩, ⟨.inr .fuseLoopCfgCreate, some (6000 : Nat)⟩,
    ⟨.inr (.fuseLoopCfgSetCloneFd 6000 0), ()⟩, ⟨.inr (.fuseLoopCfgSetIdleThreads 6000 10), ()⟩,
    ⟨.inr (.fuseLoopCfgSetMaxThreads 6000 10), ()⟩, ⟨.inr (.fuseSessionLoopMt 5000 6000), (0 : Int)⟩,
    ⟨.inr (.fuseLoopCfgDestroy 6000), ()⟩, ⟨.inr (.fuseSessionUnmount 5000), ()⟩,
    ⟨.inr (.fuseRemoveSignalHandlers 5000), ()⟩, ⟨.inr (.fuseSessionDestroy 5000), ()⟩,
    ⟨.inr .takeInodes, [(⟨9, 77, 8, some (.ok 1), some 701⟩ : Inode)]⟩, ⟨.inl (.destroyPollHandle 701), ()⟩,
    ⟨.inl (.sys (.close 9 true)), .ok ()⟩, ⟨.inr .takeRoot, rootInode⟩, ⟨.inl (.sys (.close 4 true)), .ok ()⟩,
    ⟨.inr (.freeMountpoint (some "/mnt")), ()⟩, ⟨.inr .fuseOptFreeArgs, ()⟩]

theorem exec_life : Exec (main linux ["pafs", "/mnt"]) lifeEvents EXIT_SUCCESS :=
  .step _ (.step _ (.step _ (.step _ (.step _ (.step _ (.step _ (.step _ (.step _ (.step _ (.step _ (.step _
    (.step _ (.step _ (.step _ (.step _ (.step _ (.step _ (.step _ (.step _ (.step _ (.step _ (.step _ (.step _
    (.step _ (.step _ (.step _ (.step _ (.refl _))))))))))))))))))))))))))))

end Sample

open Sample in
theorem main_in_order_life : tenure.Nested [] lifeEvents ∧ EXIT_SUCCESS = reported lifeEvents :=
  main_in_order exec_life

end Pafs
