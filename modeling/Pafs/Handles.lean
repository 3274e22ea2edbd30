import Pafs.Ownership
import Pafs.Syscalls

/-! The four classes whose objects own one handle each: `fd.cc`, `dir.cc`, `mount.cc` and the
`FusePollHandle` of `fuse.cc`. Destructors and the functions that are handed an object by value
call each other, so they are given fuel. -/
namespace Pafs.Handles
open Ownership

mutual

/-- `~FileDescriptor`. A failure to close is logged and the descriptor counts as closed. -/
def FileDescriptor.destroy : Nat → Fd → Option (List Fd)
  | 0, _ => none
  | fuel + 1, fd => if fd = -1 then some [] else close fuel (HandleClass.moveAssign (-1) fd).1

/-- `syscalls::close`. The number is released before it is closed, so the parameter dies empty. -/
def close : Nat → Fd → Option (List Fd)
  | 0, _ => none
  | fuel + 1, fd => (FileDescriptor.destroy fuel (-1)).map fun disposed => fd :: disposed

end

def fileDescriptor : HandleClass Fd where
  null := -1
  destructor := FileDescriptor.destroy
  consume := some close
  releases := true

/-- The shape of `~Directory` and `~FusePollHandle`, which hand a raw pointer on. -/
def destroyPointer (fuel pointer : Nat) : Option (List Nat) :=
  match fuel with
  | 0 => none
  | _ + 1 => some (if pointer = 0 then [] else [pointer])

/-- `Directory`; what is disposed of is given to `closedir`. -/
def directory : HandleClass DirPtr where
  null := 0
  destructor := destroyPointer
  consume := none
  releases := true

/-- `FusePollHandle`; what is disposed of is given to `fuse_pollhandle_destroy`. -/
def fusePollHandle : HandleClass PollPtr where
  null := 0
  destructor := destroyPointer
  consume := none
  releases := false

theorem close_eq {fuel : Nat} {fd : Fd} {disposed : List Fd} (h : close fuel fd = some disposed) :
    disposed = [fd] := by
  match fuel, h with
  | fuel + 1, h =>
      rw [close] at h
      cases fuel with
      | zero => simp [FileDescriptor.destroy] at h
      | succ fuel => simpa [FileDescriptor.destroy, eq_comm] using h

theorem close_returns (fd : Fd) : close 2 fd = some [fd] := by
  simp [close, FileDescriptor.destroy]

theorem fileDescriptor_disposes : Disposes fileDescriptor where
  destructs fd := by
    refine ⟨3, if fd = -1 then [] else [fd], ?_⟩
    change FileDescriptor.destroy 3 fd = _
    rw [FileDescriptor.destroy]
    split
    · rfl
    · exact close_returns fd
  destructor {fuel fd disposed} h := by
    change FileDescriptor.destroy fuel fd = _ at h
    cases fuel with
    | zero => cases h
    | succ fuel =>
        rw [FileDescriptor.destroy] at h
        split at h
        · next empty =>
            cases h
            exact (if_pos empty).symm
        · next owns =>
            rw [close_eq h]
            exact (if_neg owns).symm
  consumes {function} h fd := by
    cases h
    exact ⟨2, [fd], close_returns fd⟩
  consume {function} h fuel fd disposed done := by
    cases h
    exact close_eq done

theorem destroyPointer_disposes {C : HandleClass Nat} (null : C.null = 0)
    (destructor : C.destructor = destroyPointer) (consume : C.consume = none) : Disposes C where
  destructs pointer := ⟨1, _, by rw [destructor]; rfl⟩
  destructor {fuel pointer disposed} h := by
    rw [destructor] at h
    rw [null]
    cases fuel with
    | zero => cases h
    | succ fuel => exact (Option.some.inj h).symm
  consumes h := by
    rw [consume] at h
    cases h
  consume h := by
    rw [consume] at h
    cases h

theorem handles_linear (O : Type) [DecidableEq O] :
    Linear fileDescriptor O ∧ Linear directory O ∧ Linear fusePollHandle O :=
  ⟨fileDescriptor_disposes.linear, (destroyPointer_disposes rfl rfl rfl).linear,
    (destroyPointer_disposes rfl rfl rfl).linear⟩

/-! The handlers run these destructors as one call each. -/

section Calls
open Resumption
variable {σ : Type} {s : σ} {t : List (Resumption.Event calls)} {r : Except Error Unit × σ}

/-- The handle that a call disposes of. -/
def disposedFd : Resumption.Event calls → Option Fd
  | ⟨.sys (.close fd _), _⟩ => some fd
  | _ => none

def disposedDir : Resumption.Event calls → Option DirPtr
  | ⟨.sys (.closedir dir), _⟩ => some dir
  | _ => none

theorem fileDescriptor_refines {fd : Fd} (owns : fd ≠ -1)
    (run : Exec (Pafs.FileDescriptor.destroy fd s) t r) :
    ∃ fuel, fileDescriptor.destructor fuel fd = some (t.filterMap disposedFd) := by
  refine ⟨3, ?_⟩
  have closes : fileDescriptor.destructor 3 fd = some [fd] := by
    change FileDescriptor.destroy 3 fd = _
    rw [FileDescriptor.destroy, if_neg owns]
    exact close_returns fd
  rw [closes]
  cases run with
  | step rc rest =>
      cases rest
      rfl

theorem directory_refines {dir : DirPtr} (owns : dir ≠ 0)
    (run : Exec (Pafs.Directory.destroy dir s) t r) :
    ∃ fuel, directory.destructor fuel dir = some (t.filterMap disposedDir) := by
  refine ⟨1, ?_⟩
  have closes : directory.destructor 1 dir = some [dir] := congrArg some (if_neg owns)
  rw [closes]
  cases run with
  | step rc rest =>
      cases rest
      rfl

end Calls

/-! `mount.cc`. The outcome of the `n`th call of `umount2` is `outcomes n`; the targets of the
calls made so far are handed along. -/

section Mount
variable (outcomes : Nat → Option Errno)

mutual

/-- `~Mount`. -/
def Mount.destroy : Nat → List String → String → Option (List String)
  | 0, _, _ => none
  | fuel + 1, tried, target =>
      if target = "" then some tried else umount fuel tried (HandleClass.moveAssign "" target).1

/-- `syscalls::umount`. Only after a success is the parameter emptied before it dies. -/
def umount : Nat → List String → String → Option (List String)
  | 0, _, _ => none
  | fuel + 1, tried, target =>
      match outcomes tried.length with
      | some _ => Mount.destroy fuel (tried ++ [target]) target
      | none => Mount.destroy fuel (tried ++ [target]) ""

end

variable {outcomes} {fuel : Nat} {tried made : List String} {target : String}

/-- Attempts are made until one succeeds. -/
theorem umount_succeeds (owns : target ≠ "") (h : umount outcomes fuel tried target = some made) :
    ∃ n, made = tried ++ List.replicate (n + 1) target ∧ outcomes (tried.length + n) = none ∧
      ∀ m < n, outcomes (tried.length + m) ≠ none := by
  induction fuel using Nat.strong_induction_on generalizing tried with
  | _ fuel ih =>
      match fuel, h with
      | fuel + 1, h =>
          rw [umount] at h
          cases outcome : outcomes tried.length with
          | none =>
              rw [outcome] at h
              cases fuel with
              | zero => cases h
              | succ fuel =>
                  refine ⟨0, ?_, outcome, by omega⟩
                  simpa [Mount.destroy, eq_comm] using h
          | some e =>
              rw [outcome] at h
              cases fuel with
              | zero => cases h
              | succ fuel =>
                  simp only [Mount.destroy, if_neg owns, HandleClass.moveAssign] at h
                  obtain ⟨n, rfl, last, before⟩ := ih fuel (by omega) h
                  rw [List.length_append, List.length_singleton, Nat.add_assoc, Nat.add_comm 1] at last
                  refine ⟨n + 1, ?_, last, ?_⟩
                  · rw [List.append_assoc, List.singleton_append, ← List.replicate_succ]
                  · intro m less
                    cases m with
                    | zero => simp [outcome]
                    | succ m => simpa [Nat.add_assoc, Nat.add_comm 1] using before m (by omega)

/-- A target that stays busy is tried for ever. -/
theorem umount_diverges (owns : target ≠ "") (fails : ∀ n, outcomes n ≠ none) :
    umount outcomes fuel tried target = none := by
  cases h : umount outcomes fuel tried target with
  | none => rfl
  | some made =>
      obtain ⟨n, -, last, -⟩ := umount_succeeds owns h
      exact absurd last (fails _)

theorem umount_returns (outcome : outcomes tried.length = none) :
    umount outcomes 2 tried target = some (tried ++ [target]) := by
  simp [umount, Mount.destroy, outcome]

theorem destroy_eq_umount (owns : target ≠ "") :
    Mount.destroy outcomes (fuel + 1) tried target = umount outcomes fuel tried target := by
  rw [Mount.destroy, if_neg owns]
  rfl

/-- Destroying the mount and unmounting it both return, having tried once. -/
def UnmountsOnce (outcomes : Nat → Option Errno) (target : String) : Prop :=
  (∃ fuel, Mount.destroy outcomes fuel [] target = some [target]) ∧
    ∃ fuel, umount outcomes fuel [] target = some [target]

theorem unmountsOnce_iff (outcomes : Nat → Option Errno) (target : String) (owns : target ≠ "") :
    UnmountsOnce outcomes target ↔ outcomes 0 = none := by
  constructor
  · rintro ⟨-, fuel, done⟩
    obtain ⟨n, made, last, -⟩ := umount_succeeds owns done
    have length := congrArg List.length made
    simp only [List.length_singleton, List.length_append, List.length_nil, List.length_replicate] at length
    obtain rfl : n = 0 := by omega
    exact last
  · intro first
    have done : umount outcomes 2 [] target = some [target] := umount_returns first
    exact ⟨⟨3, (destroy_eq_umount owns).trans done⟩, 2, done⟩

theorem unmountsOnce_of_success : UnmountsOnce (fun _ => none) "/mnt" :=
  (unmountsOnce_iff _ "/mnt" (by decide)).mpr rfl

theorem busy_never_unmounted :
    ¬ ∀ outcomes : Nat → Option Errno, ∀ target, target ≠ "" → UnmountsOnce outcomes target := by
  intro always
  have owns : "/mnt" ≠ "" := by decide
  let busy : Errno := ⟨EBUSY, by decide, by decide⟩
  have fails : ∀ n, (fun _ : Nat => some busy) n ≠ none := by simp
  obtain ⟨-, fuel, done⟩ := always (fun _ => some busy) "/mnt" owns
  rw [umount_diverges owns fails] at done
  cases done

end Mount

end Pafs.Handles
