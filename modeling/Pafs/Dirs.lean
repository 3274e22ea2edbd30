import Pafs.References
import Pafs.Resumption.Product

/-! Open directories. The handle of one is a descriptor first, then a stream, then a heap
object whose address goes to the kernel, and comes back with `ReleaseDir`. A second ledger
says which of them a thread has in hand. -/
namespace Pafs
open Resumption
open Routine (Follows Safe)

/-- The requests on open directories. -/
def Request.onDirectory : Request → Bool
  | .opendir .. | .readdir .. | .readdirplus .. | .fsyncdir .. | .releasedir .. => true
  | _ => false

/-- What an observer knows of open directories. -/
structure DirBooks where
  /-- handles that the kernel has received and not released -/
  delivered : Addr → Bool
  /-- descriptors that were opened as directories and not closed -/
  opened : Fd → Bool
  /-- the descriptor that a stream has taken over -/
  taken : DirPtr → Option Fd

namespace DirBooks

def empty : DirBooks := ⟨fun _ => false, fun _ => false, fun _ => none⟩

/-- `fdopendir` takes the descriptor over only when it succeeds; `close` and `closedir` close
even when they fail. -/
def note (g : DirBooks) : (c : Call) → c.Ret → DirBooks
  | .sys (.openat _ _ flags _), .ok fd =>
      if flags.has O_DIRECTORY then { g with opened := Function.update g.opened fd true } else g
  | .sys (.close fd _), _ => { g with opened := Function.update g.opened fd false }
  | .sys (.fdopendir fd), .ok d => { g with taken := Function.update g.taken d (some fd) }
  | .sys (.closedir d), _ =>
      match g.taken d with
      | some fd =>
          { g with opened := Function.update g.opened fd false, taken := Function.update g.taken d none }
      | none => g
  | .fuseReply req (.openFile fi), none =>
      if req.opcode = .opendir then { g with delivered := Function.update g.delivered fi.fh.toNat true } else g
  | _, _ => g

/-- The kernel sends one `ReleaseDir` for a handle it has received. -/
def comes (_ : World) (tag : FuseReq × Request) (g g' : DirBooks) : Prop :=
  match tag.2 with
  | .releasedir _ (some fi) =>
      g.delivered fi.fh.toNat = true ∧ g' = { g with delivered := Function.update g.delivered fi.fh.toNat false }
  | _ => g' = g

end DirBooks

/-- What a thread has in hand of a directory. -/
inductive DirStage where
  | idle
  | opened (fd : Fd)
  | stream (d : DirPtr)
  | object (a : Addr)
  | releasing (a : Addr)
  | closing (d : DirPtr)
  deriving DecidableEq

/-- The calls that have nothing to do with open directories. -/
def Call.plain : Call → Bool
  | .sys (.openat _ _ flags _) => !flags.has O_DIRECTORY
  | .sys (.fdopendir _) | .sys (.closedir _) | .newDirectory _ | .deleteDirectory _
  | .fuseReply _ (.openFile _) => false
  | _ => true

namespace DirStage

def Allows : DirStage → Call → Prop
  | .idle, c => c.plain = true ∨ ∃ fd path flags mode, c = .sys (.openat fd path flags mode)
  | .opened fd, c => c = .sys (.fdopendir fd)
  | .stream d, c => c = .newDirectory d
  | .object a, c => ∃ req fi, c = .fuseReply req (.openFile fi) ∧ req.opcode = .opendir ∧ fi.fh = a
  | .releasing a, c => c = .deleteDirectory a ∨ ∃ r, c = .logInode r
  | .closing d, c => c = .sys (.closedir d)

def after : DirStage → (c : Call) → c.Ret → DirStage
  | .idle, .sys (.openat _ _ flags _), .ok fd => if flags.has O_DIRECTORY then .opened fd else .idle
  | .opened _, .sys (.fdopendir _), .ok d => .stream d
  | .stream _, .newDirectory _, a => .object a
  | .object _, .fuseReply _ _, _ => .idle
  | .releasing _, .deleteDirectory _, d => .closing d
  | .closing _, .sys (.closedir _), _ => .idle
  | st, _, _ => st

def opening (tag : FuseReq × Request) : DirStage :=
  match tag.2 with
  | .releasedir _ (some fi) => .releasing fi.fh.toNat
  | _ => .idle

def objects (a : Addr) (st : DirStage) : Nat := if st = .object a ∨ st = .releasing a then 1 else 0

def streams (d : DirPtr) (st : DirStage) : Nat := if st = .stream d ∨ st = .closing d then 1 else 0

end DirStage

/-- What may not happen: the hand-offs that lose what is handed over. -/
def HandedOver : (c : Call) → c.Ret → Prop
  | .sys (.fdopendir _), rc => ∃ d, rc = .ok d
  | .fuseReply _ (.openFile _), rc => rc = none
  | _, _ => True

def hands : Discipline calls DirStage where
  allows := DirStage.Allows
  answers _ c r := HandedOver c r
  after := DirStage.after

/-! The handlers of the other requests make plain calls only. -/

namespace Plain

/-- Only plain calls are made. -/
abbrev only : Discipline calls Unit := .only fun c : Call => c.plain = true

variable {σ : Type} {P : Platform}

theorem invoke {c : Call} (plain : c.plain = true) : Safe only (Routine.invoke (I := calls) c : Io σ c.Ret) :=
  .invoke fun _ => plain

theorem syscall {c : Sys} {message : String} (plain : Call.plain (.sys c) = true) :
    Safe only (syscall P c message : Io σ c.Ret) := by
  intro s l
  rw [follows_syscall]
  exact ⟨plain, fun _ _ => trivial, fun _ _ => trivial⟩

theorem check {site : CheckSite} {holds : Bool} : Safe only (check site holds : Io σ Unit) := by
  intro s l
  rw [follows_check]
  exact ⟨fun _ => trivial, fun _ => rfl⟩

theorem doIf {c : Bool} {m : Io σ Unit} (h : Safe only m) : Safe only (doIf c m) := by
  cases c with
  | true => exact h
  | false => exact .pure ()

theorem closeFd (fd : Fd) : Safe only (FileDescriptor.destroy fd : Io σ Unit) :=
  .bind (invoke rfl) fun _ => .pure ()

theorem destroyInode (i : Inode) : Safe only (i.destroy : Io σ Unit) := by
  unfold Inode.destroy
  cases i.pollHandle with
  | some ph => exact .bind (invoke rfl) fun _ => closeFd i.fd
  | none => exact closeFd i.fd

theorem settle (u : Unrefed) : Safe only (u.settle : Io σ Unit) := by
  rcases u with key | _ | erased
  · exact .fail _
  · exact check
  · cases erased with
    | none => exact .pure ()
    | some i => exact destroyInode i

theorem unref (site : UnrefSite) (r : InodeRef) (n : Nat) : Safe only (Inodes.unref site r n : Io σ Unit) :=
  .bind (invoke rfl) settle

theorem ref (r : InodeRef) (n : Nat) : Safe only (Inodes.ref r n : Io σ Unit) := by
  refine .bind (invoke rfl) fun rc => ?_
  cases rc with
  | none => exact .pure ()
  | some key => exact .fail _

theorem dropShared (a : Addr) : Safe only (Inodes.dropShared a : Io σ Unit) :=
  .bind (.attempt (.bind (invoke rfl) settle)) fun _ => .pure ()

theorem dropAllShared (as : List Addr) : Safe only (Inodes.dropAllShared as : Io σ Unit) := by
  induction as with
  | nil => exact .pure ()
  | cons a as ih => exact .bind (dropShared a) fun _ => ih

theorem unrefAll (as : List Addr) : Safe only (Inodes.unrefAll as : Io σ Unit) := by
  induction as with
  | nil => exact .pure ()
  | cons a as ih => exact .bind (.attempt (unref .cleanup (.node a) 1)) fun _ => ih

/-- An inode is opened with `O_PATH`, not as a directory. -/
theorem findOrCreateInode (fs : PageAlignFS) (parent : InodeRef) (path : String) :
    Safe only (fs.findOrCreateInode parent path : Io σ Addr) := by
  refine .bind (invoke rfl) fun parentFd => .bind ?_ fun i => ?_
  · have opens : Call.plain (.sys (.openat parentFd path (O_PATH ||| O_NOFOLLOW ||| O_CLOEXEC) 0)) = true := rfl
    exact .bind (syscall opens) fun fd => .bind (.onError (syscall rfl) (closeFd fd)) fun _ => .pure _
  · exact .bind (invoke rfl) fun _ => .bind (doIf (destroyInode i)) fun _ => .pure _

theorem getGeneration (r : InodeRef) : Safe only (Inode.getGeneration P r : Io σ Nat) := by
  refine .bind (invoke rfl) fun memo => ?_
  cases memo with
  | some v => exact .ofExcept _
  | none =>
      refine .bind (invoke rfl) fun fd => .bind ?_ fun v => .bind (invoke rfl) fun _ => .ofExcept _
      refine .bind (invoke rfl) fun opened => ?_
      cases opened with
      | error e => exact .pure _
      | ok myfd =>
          refine .bind (invoke rfl) fun version => .bind (closeFd myfd) fun _ => ?_
          cases version with
          | error e => exact .pure _
          | ok v => exact .pure _

theorem createFuseEntryParam (fs : PageAlignFS) (inode : Addr) (withGeneration : Bool) :
    Safe only (fs.createFuseEntryParam inode withGeneration : Io σ EntryParam) := by
  refine .bind (invoke rfl) fun fd => .bind (syscall rfl) fun attr => ?_
  cases withGeneration with
  | false => exact .pure _
  | true => exact .bind (getGeneration _) fun _ => .pure _

theorem addDirEntry (d : FuseDirsBuilder) (name : String) (param : EntryParam) (offset : Int) :
    Safe only (d.addDirEntry P name param offset : Io σ (Option { d' // d.Grows d' })) := by
  unfold FuseDirsBuilder.addDirEntry
  dsimp only
  split
  · exact .bind check fun _ => .pure _
  · exact .pure _

theorem readDirRound (fs : PageAlignFS) (dirInode : InodeRef) (dir : DirPtr) (dirs : FuseDirsBuilder) :
    Safe only (fs.readDirRound dirInode dir dirs : Io σ (PageAlignFS.ReadDirRound dirs)) := by
  refine .bind (syscall rfl) fun entry => ?_
  cases entry with
  | none => exact .pure _
  | some entry =>
      refine .bind (findOrCreateInode fs dirInode entry.dName) fun inode => ?_
      refine .bind (.onError (.bind (createFuseEntryParam fs inode dirs.plus) fun param =>
        .bind (addDirEntry dirs entry.dName param entry.dOff) fun next => ?_) (dropShared inode)) fun next => ?_
      · cases next with
        | none => exact .pure _
        | some next => exact .bind (doIf (ref _ _)) fun _ => .pure _
      · cases next with
        | none => exact .bind (dropShared inode) fun _ => .pure _
        | some next =>
            dsimp only
            split
            · exact .pure _
            · exact .bind (dropShared inode) fun _ => .pure _

theorem readDirLoop (fs : PageAlignFS) (dirInode : InodeRef) (dir : DirPtr) {room : Nat}
    {dirs : FuseDirsBuilder} {inodes : List Addr} (h : dirs.maxsize - dirs.size < room) :
    Safe only (fs.readDirLoop dirInode dir room dirs inodes h : Io σ (StatusOr FuseDirsBuilder × List Addr)) := by
  induction room generalizing dirs inodes with
  | zero => exact absurd h (Nat.not_lt_zero _)
  | succ room ih =>
      unfold PageAlignFS.readDirLoop
      refine .bind (.attempt (readDirRound fs dirInode dir dirs)) fun round => ?_
      cases round with
      | error e => exact .pure _
      | ok round =>
          cases round with
          | stop => exact .pure _
          | added next grows inode => exact ih _

theorem replyBuf (buf : Buffer) : Safe only (FuseRequest.replyBuf P buf) := by
  refine .bind .getLocal fun self => ?_
  cases self.req with
  | none => exact .pure ()
  | some req => exact .bind (invoke rfl) fun _ => .bind (.setLocal _) fun _ => .ofExcept _

theorem readDirInternal (fs : PageAlignFS) (dirInode : InodeRef) (size : Nat) (off : Int) (fi : FileInfo)
    (plus : Bool) : Safe only (fs.readDirInternal dirInode size off fi plus) := by
  refine .bind (invoke rfl) fun dir => .bind (invoke rfl) fun _ => .bind (readDirLoop fs dirInode dir _) fun r => ?_
  obtain ⟨listed, inodes⟩ := r
  refine .andFinally (.onError ?_ (unrefAll inodes)) (dropAllShared inodes)
  exact .bind (.ofExcept _) fun d => .bind check fun _ => replyBuf _

theorem fSyncDir (fs : PageAlignFS) (ino : Addr) (datasync : Bool) (fi : FileInfo) :
    Safe only (fs.fSyncDir ino datasync fi) := by
  refine .bind (invoke rfl) fun _ => .bind (invoke rfl) fun dir => .bind (syscall rfl) fun dfd => ?_
  cases datasync with
  | true => exact syscall rfl
  | false => exact syscall rfl

theorem epilogue (finish : Finish) (status : Status) : Safe only (epilogue P finish status) := by
  rintro ⟨req⟩ l
  cases req with
  | none =>
      rw [Follows, epilogue_gone]
      trivial
  | some req =>
      rw [Follows, epilogue_owed]
      refine ⟨?_, fun _ _ => trivial⟩
      rcases finish <;> rcases status with st | _ <;> rfl

end Plain

/-! What the handlers do with a directory in hand. -/

namespace Hands

variable {σ : Type} {P : Platform} {fs : PageAlignFS} {req : FuseReq} {ino : Addr} {fi : FileInfo} {st : DirStage}

theorem plain_idle (c : Call) (plain : c.plain = true) :
    hands.allows .idle c ∧ ∀ r, hands.after .idle c r = .idle := by
  refine ⟨.inl plain, fun r => ?_⟩
  cases c with
  | sys s =>
      cases s
      case openat fd path flags mode =>
        cases r with
        | error e => rfl
        | ok dirfd =>
            have other : flags.has O_DIRECTORY = false := by simpa [Call.plain] using plain
            simp [hands, DirStage.after, other]
      all_goals rfl
  | _ => rfl

theorem follows_epilogue (finish : Finish) (status : Status) (s : FuseRequest) :
    Follows hands (epilogue P finish status) s .idle fun _ _ st => st = .idle :=
  (Plain.epilogue finish status).steady plain_idle s

theorem follows_openDir (opcode : req.opcode = .opendir) :
    Follows hands (fs.openDir ino fi) ⟨some req⟩ .idle fun _ _ st => st = .idle := by
  unfold PageAlignFS.openDir
  rw [Routine.follows_bind, Routine.follows_invoke]
  refine ⟨.inl rfl, fun _ _ => ?_⟩
  dsimp only
  rw [Routine.follows_bind, Routine.follows_invoke]
  refine ⟨.inl rfl, fun fd _ => ?_⟩
  dsimp only
  rw [Routine.follows_bind, Syscalls.openat, follows_syscall]
  refine ⟨.inr ⟨_, _, _, _, rfl⟩, fun e _ => rfl, fun dirfd _ => ?_⟩
  change Follows hands _ _ (.opened dirfd) _
  rw [Routine.follows_bind, Syscalls.fdopendir, follows_syscall]
  refine ⟨rfl, fun e taken => ?_, fun d _ => ?_⟩
  · obtain ⟨d, ok⟩ := taken
    cases ok
  · change Follows hands _ _ (.stream d) _
    rw [Routine.follows_bind, Routine.follows_invoke]
    refine ⟨rfl, fun dir _ => ?_⟩
    change Follows hands _ _ (.object dir) _
    rw [FuseRequest.replyOpen, FuseRequest.follows_send_some]
    exact ⟨⟨req, _, rfl, opcode, rfl⟩, fun rc _ => rfl⟩

theorem follows_releaseDir : Follows hands (PageAlignFS.releaseDir ino fi) ⟨some req⟩
    (.releasing fi.fh.toNat) fun _ _ st => st = .idle := by
  unfold PageAlignFS.releaseDir
  rw [Routine.follows_bind, Routine.follows_invoke]
  refine ⟨.inr ⟨_, rfl⟩, fun _ _ => ?_⟩
  change Follows hands _ _ (.releasing fi.fh.toNat) _
  rw [Routine.follows_bind, Routine.follows_invoke]
  refine ⟨.inl rfl, fun d _ => ?_⟩
  change Follows hands _ _ (.closing d) _
  rw [follows_closeDir]
  exact ⟨rfl, fun rc _ => rfl⟩

theorem follows_invocation : {r : Request} → {method : PageAlignFS → Handler} →
    pageAlignFSOps.invocation r = some method → r.onDirectory = true → req.opcode = r.opcode →
    Follows hands (method fs) ⟨some req⟩ (DirStage.opening (req, r)) fun _ _ st => st = .idle
  | .opendir _ (some fi), _, rfl, _, opcode => follows_openDir opcode
  | .releasedir _ (some fi), _, rfl, _, _ => follows_releaseDir
  | .readdir _ _ _ (some fi), _, rfl, _, _ | .readdirplus _ _ _ (some fi), _, rfl, _, _ =>
      Routine.Safe.steady (.bind (Plain.invoke rfl) fun _ => Plain.readDirInternal fs _ _ _ _ _) plain_idle _
  | .fsyncdir _ _ (some fi), _, rfl, _, _ => Routine.Safe.steady (Plain.fSyncDir fs _ _ _) plain_idle _

theorem opening_of_null {r : Request} (null : none ∈ r.checkedInfos) : DirStage.opening (req, r) = .idle := by
  unfold DirStage.opening
  split
  · next same =>
      cases same
      simp [Request.checkedInfos] at null
  · rfl

theorem follows_serve {r : Request} {handler : Handler} (served : fs.serve req r = some handler)
    (dirs : r.onDirectory = true) (opcode : req.opcode = r.opcode) :
    Follows hands handler ⟨none⟩ (DirStage.opening (req, r)) fun _ _ st => st = .idle := by
  obtain ⟨method, invoked⟩ | null := invocation_or_null served
  · rw [PageAlignFS.serve, asFuseLowLevelOps_of_invocation invoked] at served
    cases served
    rw [follows_callback]
    refine (follows_invocation invoked dirs opcode).mono fun status s st idle => ?_
    subst idle
    exact follows_epilogue _ status s
  · obtain ⟨next, aborts⟩ := asFuseLowLevelOps_of_null served null ⟨none⟩
    rw [opening_of_null null, Follows, aborts]
    refine ⟨.inl rfl, fun impossible => ?_⟩
    cases impossible

end Hands

/-- The calls that change what is known of streams and `Directory` objects. -/
def Call.movesDirectory : Call → Bool
  | .sys (.fdopendir _) | .sys (.closedir _) | .newDirectory _ | .deleteDirectory _ => true
  | _ => false

theorem Call.movesDirectory_of_plain {c : Call} (plain : c.plain = true) : c.movesDirectory = false := by
  cases c with
  | sys s => cases s <;> first | rfl | cases plain
  | newDirectory d => cases plain
  | deleteDirectory a => cases plain
  | _ => rfl

theorem World.directories_unref {w : World} {r : InodeRef} {n : Nat} {answer : Unrefed} :
    (w.unref r n answer).directories = w.directories ∧ (w.unref r n answer).streams = w.streams := by
  unfold unref
  split
  · unfold takeErased
    split <;> exact ⟨rfl, rfl⟩
  · exact ⟨rfl, rfl⟩

theorem World.directories_effect {w : World} (counts : String → Bool) {c : Call} (r : c.Ret)
    (still : c.movesDirectory = false) :
    (w.effect counts c r).directories = w.directories ∧ (w.effect counts c r).streams = w.streams := by
  cases c with
  | sys s =>
      cases s
      case open_ | openat | dup => cases r <;> exact ⟨rfl, rfl⟩
      case fdopendir | closedir => cases still
      all_goals exact ⟨rfl, rfl⟩
  | newDirectory d => cases still
  | deleteDirectory a => cases still
  | setGeneration ref v => cases ref <;> exact ⟨rfl, rfl⟩
  | addPollHandle ref ph => cases ref <;> exact ⟨rfl, rfl⟩
  | insert i =>
      unfold effect
      dsimp only
      split
      · split <;> exact ⟨rfl, rfl⟩
      · exact ⟨rfl, rfl⟩
  | ref ref n =>
      unfold effect
      dsimp only
      split
      · split <;> exact ⟨rfl, rfl⟩
      · exact ⟨rfl, rfl⟩
  | unref site ref n =>
      cases site with
      | cleanup => exact directories_unref
      | forget => cases ref <;> exact directories_unref
  | dropShared a => exact directories_unref
  | fuseReply req reply =>
      cases r with
      | some e => exact ⟨rfl, rfl⟩
      | none =>
          simp only [effect, receive]
          split <;> exact ⟨rfl, rfl⟩
  | abort site => cases r
  | _ => exact ⟨rfl, rfl⟩

/-- A plain call that closes nothing is of no interest to the observer. -/
theorem DirBooks.note_plain (g : DirBooks) {c : Call} (r : c.Ret) (plain : c.plain = true)
    (open_ : ∀ fd by_, c ≠ .sys (.close fd by_)) : g.note c r = g := by
  cases c with
  | sys s =>
      cases s
      case openat fd path flags mode =>
        cases r with
        | error e => rfl
        | ok dirfd =>
            have other : flags.has O_DIRECTORY = false := by simpa [Call.plain] using plain
            simp [note, other]
      case close fd byDestructor => exact absurd rfl (open_ fd byDestructor)
      case fdopendir | closedir => cases plain
      all_goals rfl
  | fuseReply req reply =>
      cases reply
      case openFile fi => cases plain
      all_goals rfl
  | _ => rfl

section Books
open Classical

/-- Every object and every stream has one holder: a thread, the kernel, or an object. The
open directory descriptors are those of the streams and those on their way to one. -/
structure Handed (x : World × DirBooks) (f : Multiset (Ledger × DirStage)) : Prop where
  taken : x.2.taken = x.1.streams
  objects : ∀ a, total (fun p => p.2.objects a) f + (if x.2.delivered a = true then 1 else 0) =
    if x.1.directories a = none then 0 else 1
  injective : ∀ a b d, x.1.directories a = some d → x.1.directories b = some d → a = b
  streams : ∀ d, total (fun p => p.2.streams d) f + (if ∃ a, x.1.directories a = some d then 1 else 0) =
    if x.1.streams d = none then 0 else 1
  opened : ∀ fd, x.2.opened fd = true ↔ (∃ d, x.1.streams d = some fd) ∨ ∃ p ∈ f, p.2 = .opened fd
  held : ∀ p ∈ f, ∀ fd, p.2 = .opened fd → 0 < p.1.fds fd

variable {w w' : World} {g : DirBooks} {l l' : Ledger} {st : DirStage} {f : Multiset (Ledger × DirStage)}
  {counts : String → Bool}

namespace Handed

variable {st' : DirStage}

theorem objects_swap (h : Handed (w, g) ((l, st) ::ₘ f)) (same : ∀ a, st'.objects a = st.objects a) (a : Addr) :
    total (fun p => p.2.objects a) ((l', st') ::ₘ f) + (if g.delivered a = true then 1 else 0) =
      if w.directories a = none then 0 else 1 := by
  have before := h.objects a
  rw [total_cons] at before ⊢
  rw [same]
  exact before

theorem streams_swap (h : Handed (w, g) ((l, st) ::ₘ f)) (same : ∀ d, st'.streams d = st.streams d) (d : DirPtr) :
    total (fun p => p.2.streams d) ((l', st') ::ₘ f) + (if ∃ a, w.directories a = some d then 1 else 0) =
      if w.streams d = none then 0 else 1 := by
  have before := h.streams d
  rw [total_cons] at before ⊢
  rw [same]
  exact before

theorem opened_swap (h : Handed (w, g) ((l, st) ::ₘ f)) (before : ∀ fd, st ≠ .opened fd)
    (after : ∀ fd, st' ≠ .opened fd) (fd : Fd) :
    g.opened fd = true ↔ (∃ d, w.streams d = some fd) ∨ ∃ p ∈ (l', st') ::ₘ f, p.2 = .opened fd := by
  have opened := h.opened fd
  simp only [Multiset.mem_cons, exists_eq_or_imp, before fd, after fd, false_or] at opened ⊢
  exact opened

theorem held_swap (h : Handed (w, g) ((l, st) ::ₘ f)) (after : ∀ fd, st' ≠ .opened fd) :
    ∀ p ∈ (l', st') ::ₘ f, ∀ fd, p.2 = .opened fd → 0 < p.1.fds fd := by
  intro p mem fd own
  rcases Multiset.mem_cons.mp mem with rfl | mem
  · exact absurd own (after fd)
  · exact h.held p (Multiset.mem_cons_of_mem mem) fd own

/-- Nothing that the books speak of has changed. -/
theorem keep (h : Handed (w, g) ((l, st) ::ₘ f)) (directories : w'.directories = w.directories)
    (streams : w'.streams = w.streams) (nothing : ∀ fd, st ≠ .opened fd) : Handed (w', g) ((l', st) ::ₘ f) := by
  constructor
  · exact h.taken.trans streams.symm
  · rw [directories]
    exact h.objects_swap fun _ => rfl
  · rw [directories]
    exact h.injective
  · rw [directories, streams]
    exact h.streams_swap fun _ => rfl
  · rw [streams]
    exact h.opened_swap nothing nothing
  · exact h.held_swap nothing

theorem arrives (h : Handed (w, g) f) (directories : w'.directories = w.directories)
    (streams : w'.streams = w.streams) : Handed (w', g) ((l, .idle) ::ₘ f) := by
  constructor
  · exact h.taken.trans streams.symm
  · intro a
    rw [directories, ← h.objects a, total_cons]
    simp [DirStage.objects]
  · rw [directories]
    exact h.injective
  · intro d
    rw [directories, streams, ← h.streams d, total_cons]
    simp [DirStage.streams]
  · intro fd
    rw [streams, h.opened fd]
    simp
  · intro p mem fd own
    rcases Multiset.mem_cons.mp mem with rfl | mem
    · cases own
    · exact h.held p mem fd own

theorem leaves (h : Handed (w, g) ((l, .idle) ::ₘ f)) (directories : w'.directories = w.directories)
    (streams : w'.streams = w.streams) : Handed (w', g) f := by
  constructor
  · exact h.taken.trans streams.symm
  · intro a
    rw [directories, ← h.objects a, total_cons]
    simp [DirStage.objects]
  · rw [directories]
    exact h.injective
  · intro d
    rw [directories, streams, ← h.streams d, total_cons]
    simp [DirStage.streams]
  · intro fd
    rw [streams, h.opened fd]
    simp
  · intro p mem fd own
    exact h.held p (Multiset.mem_cons_of_mem mem) fd own

/-- The kernel hands an object back. -/
theorem released {a : Addr} (h : Handed (w, g) ((l, .idle) ::ₘ f)) (delivered : g.delivered a = true) :
    Handed (w, { g with delivered := Function.update g.delivered a false }) ((l, .releasing a) ::ₘ f) := by
  constructor
  · exact h.taken
  · intro b
    have before := h.objects b
    rw [total_cons] at before ⊢
    by_cases same : b = a
    · subst same
      simp only [DirStage.objects, delivered, Function.update_self, if_true, or_true, Bool.false_eq_true,
        if_false] at before ⊢
      rw [← before]
      simp [add_comm]
    · simp only [Function.update_of_ne same, ← before]
      simp [DirStage.objects, Ne.symm same]
  · exact h.injective
  · apply h.streams_swap
    simp [DirStage.streams]
  · exact h.opened_swap nofun nofun
  · exact h.held_swap nofun

theorem opens {fd : Fd} (h : Handed (w, g) ((l, .idle) ::ₘ f)) (directories : w'.directories = w.directories)
    (streams : w'.streams = w.streams) (gained : 0 < l'.fds fd) :
    Handed (w', { g with opened := Function.update g.opened fd true }) ((l', .opened fd) ::ₘ f) := by
  constructor
  · exact h.taken.trans streams.symm
  · rw [directories]
    apply h.objects_swap
    simp [DirStage.objects]
  · rw [directories]
    exact h.injective
  · rw [directories, streams]
    apply h.streams_swap
    simp [DirStage.streams]
  · intro fd'
    have before := h.opened fd'
    simp only [Multiset.mem_cons, exists_eq_or_imp, reduceCtorEq, false_or, DirStage.opened.injEq] at before ⊢
    rw [streams, Function.update_apply]
    by_cases same : fd' = fd
    · simp [same]
    · simp [same, Ne.symm same, before]
  · intro p mem fd' own
    rcases Multiset.mem_cons.mp mem with rfl | mem
    · cases own
      exact gained
    · exact h.held p (Multiset.mem_cons_of_mem mem) fd' own

/-- A descriptor that is not one of a directory, or no longer, is closed. -/
theorem closes {fd : Fd} (h : Handed (w, g) ((l, .idle) ::ₘ f)) (directories : w'.directories = w.directories)
    (streams : w'.streams = w.streams) (noStream : ∀ d, w.streams d ≠ some fd)
    (nobody : ∀ p ∈ f, p.2 ≠ .opened fd) :
    Handed (w', { g with opened := Function.update g.opened fd false }) ((l', .idle) ::ₘ f) := by
  have kept : Handed (w', g) ((l', .idle) ::ₘ f) := h.keep directories streams fun _ => nofun
  refine ⟨kept.taken, kept.objects, kept.injective, kept.streams, fun fd' => ?_, kept.held⟩
  have before := kept.opened fd'
  dsimp only at before ⊢
  rw [Function.update_apply]
  by_cases same : fd' = fd
  · subst same
    rw [streams]
    simp only [if_true, Bool.false_eq_true, false_iff, not_or, not_exists]
    refine ⟨noStream, ?_⟩
    rintro p ⟨mem, own⟩
    rcases Multiset.mem_cons.mp mem with rfl | mem
    · cases own
    · exact nobody p mem own
  · rw [if_neg same]
    exact before

/-- `fdopendir` takes the descriptor over. -/
theorem takes {fd : Fd} {d : DirPtr} (h : Handed (w, g) ((l, .opened fd) ::ₘ f))
    (directories : w'.directories = w.directories) (free : w.streams d = none)
    (streams : w'.streams = Function.update w.streams d (some fd)) :
    Handed (w', { g with taken := Function.update g.taken d (some fd) }) ((l', .stream d) ::ₘ f) := by
  have nothing := h.streams d
  rw [total_cons] at nothing
  simp only [free, if_true] at nothing
  constructor
  · rw [streams]
    exact congrArg (Function.update · d (some fd)) h.taken
  · rw [directories]
    apply h.objects_swap
    simp [DirStage.objects]
  · rw [directories]
    exact h.injective
  · intro d'
    have before := h.streams d'
    rw [total_cons] at before ⊢
    dsimp only at before ⊢
    rw [directories, streams, Function.update_apply]
    by_cases same : d' = d
    · subst same
      simp only [DirStage.streams, if_true, true_or, reduceCtorEq, or_self, if_false] at nothing ⊢
      omega
    · rw [if_neg same, ← before]
      simp [DirStage.streams, Ne.symm same]
  · intro fd'
    have before := h.opened fd'
    simp only [Multiset.mem_cons, exists_eq_or_imp, reduceCtorEq, false_or, DirStage.opened.injEq] at before ⊢
    rw [streams, before]
    by_cases same : fd' = fd
    · subst same
      have here : ∃ d', Function.update w.streams d (some fd') d' = some fd' := ⟨d, Function.update_self _ _ _⟩
      simp [here]
    · have other : ∀ d', Function.update w.streams d (some fd) d' = some fd' ↔ w.streams d' = some fd' := by
        intro d'
        rw [Function.update_apply]
        split_ifs with new
        · subst new
          simp [free, Ne.symm same]
        · rfl
      simp [other, Ne.symm same]
  · exact h.held_swap nofun

/-- A `Directory` is made for the stream. -/
theorem creates {a : Addr} {d : DirPtr} (h : Handed (w, g) ((l, .stream d) ::ₘ f))
    (free : w.directories a = none) (streams : w'.streams = w.streams)
    (directories : w'.directories = Function.update w.directories a (some d)) :
    Handed (w', g) ((l', .object a) ::ₘ f) := by
  have mine := h.streams d
  rw [total_cons] at mine
  have one : DirStage.streams d (.stream d) = 1 := if_pos (.inl rfl)
  have no : ¬ ∃ b, w.directories b = some d := by
    intro holder
    simp only [holder, if_true, one] at mine
    split at mine <;> omega
  have there : ∃ b, w'.directories b = some d := by
    rw [directories]
    exact ⟨a, Function.update_self _ _ _⟩
  constructor
  · exact h.taken.trans streams.symm
  · intro b
    have before := h.objects b
    rw [total_cons] at before ⊢
    dsimp only at before ⊢
    rw [directories, Function.update_apply]
    by_cases same : b = a
    · subst same
      simp only [DirStage.objects, free, if_true, reduceCtorEq, or_false, if_false] at before ⊢
      omega
    · rw [if_neg same, ← before]
      simp [DirStage.objects, Ne.symm same]
  · intro b c d' first second
    dsimp only at first second
    rw [directories, Function.update_apply] at first second
    split_ifs at first second with hb hc hc
    · exact hb.trans hc.symm
    · cases first
      exact absurd ⟨c, second⟩ no
    · cases second
      exact absurd ⟨b, first⟩ no
    · exact h.injective b c d' first second
  · intro d'
    have before := h.streams d'
    rw [total_cons] at before ⊢
    dsimp only at before ⊢
    rw [streams]
    by_cases same : d' = d
    · subst same
      rw [if_neg no] at before
      rw [if_pos there, ← before, one]
      simp only [DirStage.streams, reduceCtorEq, or_self, if_false]
      omega
    · have other : (∃ b, w'.directories b = some d') ↔ ∃ b, w.directories b = some d' := by
        rw [directories]
        refine exists_congr fun b => ?_
        rw [Function.update_apply]
        split_ifs with new
        · subst new
          simp [free, Ne.symm same]
        · rfl
      simp only [other, ← before]
      simp [DirStage.streams, Ne.symm same]
  · rw [streams]
    exact h.opened_swap nofun nofun
  · exact h.held_swap nofun

/-- The reply hands the object to the kernel. -/
theorem delivers {a : Addr} (h : Handed (w, g) ((l, .object a) ::ₘ f))
    (directories : w'.directories = w.directories) (streams : w'.streams = w.streams) :
    Handed (w', { g with delivered := Function.update g.delivered a true }) ((l', .idle) ::ₘ f) := by
  constructor
  · exact h.taken.trans streams.symm
  · intro b
    have before := h.objects b
    rw [total_cons] at before ⊢
    dsimp only at before ⊢
    rw [directories, ← before]
    by_cases same : b = a
    · subst same
      have once : g.delivered b = false := by
        by_contra already
        rw [Bool.not_eq_false] at already
        simp only [DirStage.objects, already, if_true, true_or] at before
        split at before <;> omega
      simp only [DirStage.objects, once, Function.update_self, if_true, true_or, reduceCtorEq, or_self, if_false,
        Bool.false_eq_true]
      omega
    · simp only [Function.update_of_ne same]
      simp [DirStage.objects, Ne.symm same]
  · rw [directories]
    exact h.injective
  · rw [directories, streams]
    apply h.streams_swap
    simp [DirStage.streams]
  · rw [streams]
    exact h.opened_swap nofun nofun
  · exact h.held_swap nofun

/-- A `Directory` that was handed back is deleted; its stream is left. -/
theorem deletes {a : Addr} {d : DirPtr} (h : Handed (w, g) ((l, .releasing a) ::ₘ f))
    (read : ∀ d', w.directories a = some d' → d = d') (streams : w'.streams = w.streams)
    (directories : w'.directories = Function.update w.directories a none) :
    Handed (w', g) ((l', .closing d) ::ₘ f) := by
  have here : w.directories a = some d := by
    have mine := h.objects a
    rw [total_cons] at mine
    cases there : w.directories a with
    | none =>
        simp only [there, DirStage.objects, or_true, if_true] at mine
        omega
    | some d' => rw [read d' there]
  have gone : ¬ ∃ b, w'.directories b = some d := by
    rintro ⟨b, other⟩
    rw [directories, Function.update_apply] at other
    split_ifs at other with same
    exact same (h.injective b a d other here)
  constructor
  · exact h.taken.trans streams.symm
  · intro b
    have before := h.objects b
    rw [total_cons] at before ⊢
    dsimp only at before ⊢
    rw [directories, Function.update_apply]
    by_cases same : b = a
    · subst same
      simp only [DirStage.objects, here, if_true, or_true, reduceCtorEq, or_self, if_false] at before ⊢
      omega
    · rw [if_neg same, ← before]
      simp [DirStage.objects, Ne.symm same]
  · intro b c d' first second
    dsimp only at first second
    rw [directories, Function.update_apply] at first second
    split_ifs at first second
    exact h.injective b c d' first second
  · intro d'
    have before := h.streams d'
    rw [total_cons] at before ⊢
    dsimp only at before ⊢
    rw [streams]
    by_cases same : d' = d
    · subst same
      rw [if_pos ⟨a, here⟩] at before
      rw [if_neg gone, ← before]
      simp only [DirStage.streams, reduceCtorEq, or_self, or_true, if_false, if_true]
      omega
    · have other : (∃ b, w'.directories b = some d') ↔ ∃ b, w.directories b = some d' := by
        rw [directories]
        refine exists_congr fun b => ?_
        rw [Function.update_apply]
        split_ifs with deleted
        · subst deleted
          simp [here, Ne.symm same]
        · rfl
      simp only [other, ← before]
      simp [DirStage.streams, Ne.symm same]
  · rw [streams]
    exact h.opened_swap nofun nofun
  · exact h.held_swap nofun

/-- The stream is closed, and its descriptor with it. -/
theorem shuts {fd : Fd} {d : DirPtr} (h : Handed (w, g) ((l, .closing d) ::ₘ f))
    (directories : w'.directories = w.directories) (streams : w'.streams = Function.update w.streams d none)
    (only : ∀ d', w.streams d' = some fd → d' = d) (here : w.streams d = some fd)
    (nobody : ∀ p ∈ f, p.2 ≠ .opened fd) :
    Handed (w', { g with
      opened := Function.update g.opened fd false
      taken := Function.update g.taken d none }) ((l', .idle) ::ₘ f) := by
  constructor
  · rw [streams]
    exact congrArg (Function.update · d none) h.taken
  · rw [directories]
    apply h.objects_swap
    simp [DirStage.objects]
  · rw [directories]
    exact h.injective
  · intro d'
    have before := h.streams d'
    rw [total_cons] at before ⊢
    dsimp only at before ⊢
    rw [directories, streams, Function.update_apply]
    by_cases same : d' = d
    · subst same
      simp only [DirStage.streams, here, if_true, or_true, reduceCtorEq, or_self, if_false] at before ⊢
      omega
    · rw [if_neg same, ← before]
      simp [DirStage.streams, Ne.symm same]
  · intro fd'
    have before := h.opened fd'
    simp only [Multiset.mem_cons, exists_eq_or_imp, reduceCtorEq, false_or] at before ⊢
    rw [streams, Function.update_apply]
    by_cases same : fd' = fd
    · subst same
      have closed : ∀ d', Function.update w.streams d none d' ≠ some fd' := by
        intro d' still
        rw [Function.update_apply] at still
        split_ifs at still with shut
        exact shut (only d' still)
      have none_left : ¬ ∃ p ∈ f, p.2 = .opened fd' := by
        rintro ⟨p, mem, own⟩
        exact nobody p mem own
      simp [closed, none_left]
    · have other : ∀ d', Function.update w.streams d none d' = some fd' ↔ w.streams d' = some fd' := by
        intro d'
        rw [Function.update_apply]
        split_ifs with shut
        · subst shut
          simp [here, Ne.symm same]
        · rfl
      simp only [other, if_neg same]
      exact before
  · exact h.held_swap nofun

/-- A descriptor that a thread holds is on its way to a stream in no other thread's hands. -/
theorem held_once {fd : Fd} (inv : Inv w (l ::ₘ f.map Prod.fst)) (h : Handed (w, g) ((l, st) ::ₘ f))
    (pos : 0 < l.fds fd) : ∀ p ∈ f, p.2 ≠ .opened fd := by
  intro p mem own
  have held := h.held p (Multiset.mem_cons_of_mem mem) fd own
  have counted : p.1.fds fd ≤ total (fun l => l.fds fd) (f.map Prod.fst) :=
    le_total_of_mem (g := fun l => l.fds fd) (Multiset.mem_map_of_mem Prod.fst mem)
  have thread := inv.descriptors.thread fd
  rw [total_cons] at thread
  split at thread <;> omega

theorem held_nowhere {fd : Fd} {d : DirPtr} (inv : Inv w (l ::ₘ f.map Prod.fst)) (h : Handed (w, g) ((l, st) ::ₘ f))
    (here : w.streams d = some fd) : ∀ p ∈ f, p.2 ≠ .opened fd := by
  intro p mem own
  have held := h.held p (Multiset.mem_cons_of_mem mem) fd own
  have counted : p.1.fds fd ≤ total (fun l => l.fds fd) (f.map Prod.fst) :=
    le_total_of_mem (g := fun l => l.fds fd) (Multiset.mem_map_of_mem Prod.fst mem)
  have thread := inv.descriptors.thread fd
  rw [inv.descriptors.stream d fd here, total_cons] at thread
  simp only [Option.some.injEq, reduceCtorEq, if_false] at thread
  omega

theorem act_idle {c : Call} {r : c.Ret} (allows : l.Allows c) (stage : DirStage.idle.Allows c)
    (answers : w.Answers c r) (inv : Inv w (l ::ₘ f.map Prod.fst)) (h : Handed (w, g) ((l, .idle) ::ₘ f)) :
    Handed (w.effect counts c r, g.note c r) ((l.after c r, DirStage.idle.after c r) ::ₘ f) := by
  rcases stage with plain | ⟨fd, path, flags, mode, rfl⟩
  · obtain ⟨directories, streams⟩ := World.directories_effect (w := w) counts r (Call.movesDirectory_of_plain plain)
    have idle : DirStage.idle.after c r = .idle := (Hands.plain_idle c plain).2 r
    rw [idle]
    by_cases closing : ∃ fd by_, c = .sys (.close fd by_)
    · obtain ⟨fd, by_, rfl⟩ := closing
      have pos : 0 < l.fds fd := allows.permits
      refine h.closes directories streams (fun d here => ?_) (h.held_once inv pos)
      have owner := inv.descriptors.held pos
      rw [inv.descriptors.stream d fd here] at owner
      cases owner
    · rw [g.note_plain r plain (by simpa using closing)]
      exact h.keep directories streams nofun
  · obtain ⟨directories, streams⟩ := World.directories_effect (w := w) (c := .sys (.openat fd path flags mode))
      counts r rfl
    cases r with
    | error e => exact h.keep directories streams nofun
    | ok dirfd =>
        cases dir : flags.has O_DIRECTORY with
        | false =>
            have same : g.note (.sys (.openat fd path flags mode)) (.ok dirfd) = g := by
              simp [DirBooks.note, dir]
            have idle : DirStage.idle.after (.sys (.openat fd path flags mode)) (.ok dirfd) = .idle := by
              simp [DirStage.after, dir]
            rw [same, idle]
            exact h.keep directories streams nofun
        | true =>
            have noted : g.note (.sys (.openat fd path flags mode)) (.ok dirfd) =
                { g with opened := Function.update g.opened dirfd true } := by
              simp [DirBooks.note, dir]
            have stage : DirStage.idle.after (.sys (.openat fd path flags mode)) (.ok dirfd) = .opened dirfd := by
              simp [DirStage.after, dir]
            rw [noted, stage]
            exact h.opens directories streams (l.gain_pos dirfd)

/-- One step of a thread keeps the books. -/
theorem act {c : Call} {r : c.Ret} (allows : l.Allows c) (stage : st.Allows c) (answers : w.Answers c r)
    (passed : HandedOver c r) (inv : Inv w (l ::ₘ f.map Prod.fst)) (h : Handed (w, g) ((l, st) ::ₘ f)) :
    Handed (w.effect counts c r, g.note c r) ((l.after c r, st.after c r) ::ₘ f) := by
  cases st with
  | idle => exact h.act_idle allows stage answers inv
  | opened fd =>
      cases stage
      obtain ⟨d, rfl⟩ := passed
      exact h.takes rfl answers rfl
  | stream d =>
      cases stage
      exact h.creates answers rfl rfl
  | object a =>
      obtain ⟨req, fi, rfl, opcode, same⟩ := stage
      cases passed
      have noted : g.note (.fuseReply req (.openFile fi)) none =
          { g with delivered := Function.update g.delivered a true } := by
        simp [DirBooks.note, opcode, same]
      obtain ⟨directories, streams⟩ := World.directories_effect (w := w) (c := .fuseReply req (.openFile fi))
        counts none rfl
      rw [noted]
      exact h.delivers directories streams
  | releasing a =>
      rcases stage with rfl | ⟨ref, rfl⟩
      · exact h.deletes answers rfl rfl
      · exact h.keep rfl rfl nofun
  | closing d =>
      cases stage
      have there : w.streams d ≠ none := by
        intro none_left
        have mine := h.streams d
        rw [total_cons] at mine
        simp only [DirStage.streams, none_left, or_true, if_true] at mine
        omega
      obtain ⟨fd, here⟩ := Option.ne_none_iff_exists'.mp there
      have noted : g.note (.sys (.closedir d)) r = { g with
          opened := Function.update g.opened fd false
          taken := Function.update g.taken d none } := by
        have taken : g.taken d = some fd := (congrFun h.taken d).trans here
        simp [DirBooks.note, taken]
      have effect : w.effect counts (.sys (.closedir d)) r =
          { w.own fd none with streams := Function.update w.streams d none } := by
        simp [World.effect, here]
      rw [noted, effect]
      refine h.shuts rfl rfl (fun d' other => ?_) here (h.held_nowhere inv here)
      have owner := inv.descriptors.stream d fd here
      rw [inv.descriptors.stream d' fd other] at owner
      cases owner
      rfl

end Handed

end Books

/-! The daemon with the observer beside it. -/

section Runs
variable {fs : PageAlignFS} {counts : String → Bool} {root : Inode} {pipes : Fd → Bool}

/-- The daemon and the kernel, with the books on open directories. -/
def directed (fs : PageAlignFS) (counts : String → Bool) :
    Machine calls (World × DirBooks) (FuseReq × Request) (Status × FuseRequest) :=
  (daemon fs counts).observed DirBooks.comes DirBooks.note

/-- Only requests on directories are sent. -/
def DirectoriesOnly (label : Label calls (FuseReq × Request)) : Prop :=
  ∀ tag, label = .arrive tag → tag.2.onDirectory = true

/-- No `fdopendir` fails, and no reply with a handle. -/
def NothingLost (label : Label calls (FuseReq × Request)) : Prop :=
  ∀ tag c r, label = .act tag ⟨c, r⟩ → HandedOver c r

/-- The live `Directory` objects and the open directory descriptors are those behind the
handles that the kernel has received and not released. -/
structure Exact (x : World × DirBooks) : Prop where
  objects : ∀ a, x.1.directories a ≠ none ↔ x.2.delivered a = true
  streams : ∀ a d, x.1.directories a = some d → ∃ fd, x.2.taken d = some fd ∧ x.2.opened fd = true
  descriptors : ∀ fd, x.2.opened fd = true → ∃ a d, x.2.delivered a = true ∧
    x.1.directories a = some d ∧ x.2.taken d = some fd

theorem Handed.initial (root : Inode) (pipes : Fd → Bool) : Handed (.initial root pipes, .empty) 0 := by
  constructor
  · rfl
  · intro a
    rfl
  · intro a b d first
    cases first
  · intro d
    simp [World.initial]
  · intro fd
    simp [World.initial, DirBooks.empty]
  · intro p mem
    exact absurd mem (Multiset.notMem_zero p)

theorem Handed.exact_of_quiet {x : World × DirBooks} (h : Handed x 0) : Exact x := by
  have object : ∀ a, x.1.directories a ≠ none ↔ x.2.delivered a = true := by
    intro a
    have one := h.objects a
    rw [total_zero, Nat.zero_add] at one
    by_cases gone : x.1.directories a = none
    · have none_held : ¬ x.2.delivered a = true := by
        intro delivered
        rw [if_pos gone, if_pos delivered] at one
        cases one
      simp [gone, none_held]
    · have delivered : x.2.delivered a = true := by
        by_contra none_held
        rw [if_neg gone, if_neg none_held] at one
        cases one
      simp [gone, delivered]
  have stream : ∀ d, (∃ a, x.1.directories a = some d) ↔ x.1.streams d ≠ none := by
    intro d
    have one := h.streams d
    rw [total_zero, Nat.zero_add] at one
    by_cases gone : x.1.streams d = none
    · have nobody : ¬ ∃ a, x.1.directories a = some d := by
        intro there
        rw [if_pos gone, if_pos there] at one
        cases one
      simp [gone, nobody]
    · have there : ∃ a, x.1.directories a = some d := by
        by_contra nobody
        rw [if_neg gone, if_neg nobody] at one
        cases one
      simp [gone, there]
  refine ⟨object, fun a d here => ?_, fun fd opened => ?_⟩
  · obtain ⟨fd, taken⟩ := Option.ne_none_iff_exists'.mp ((stream d).mp ⟨a, here⟩)
    refine ⟨fd, (congrFun h.taken d).trans taken, (h.opened fd).mpr (.inl ⟨d, taken⟩)⟩
  · rcases (h.opened fd).mp opened with ⟨d, taken⟩ | ⟨p, mem, -⟩
    · obtain ⟨a, here⟩ := (stream d).mpr (by simp [taken])
      refine ⟨a, d, (object a).mp (by simp [here]), here, (congrFun h.taken d).trans taken⟩
    · exact absurd mem (Multiset.notMem_zero p)

theorem Handed.arrived {w : World} {g g' : DirBooks} {l : Ledger} {f : Multiset (Ledger × DirStage)}
    {tag : FuseReq × Request} (comes : DirBooks.comes w tag g g') (h : Handed (w, g) f) :
    Handed (w.arrive tag.1 tag.2, g') ((l, DirStage.opening tag) ::ₘ f) := by
  obtain ⟨nlookup, forgetting, fds, -, arrived⟩ := w.arrive_cases tag.1 tag.2
  have idle : Handed (w.arrive tag.1 tag.2, g) ((l, .idle) ::ₘ f) := by
    rw [arrived]
    exact h.arrives rfl rfl
  obtain ⟨req, r⟩ := tag
  unfold DirBooks.comes at comes
  unfold DirStage.opening
  dsimp only at comes idle ⊢
  split at comes
  · obtain ⟨delivered, rfl⟩ := comes
    exact idle.released delivered
  · subst comes
    exact idle

/-- Both sets of books. -/
def sharing (fs : PageAlignFS) (counts : String → Bool) : Protocol (directed fs counts)
    (fun _ label => DirectoriesOnly label ∧ NothingLost label) (Ledger × DirStage) :=
  ((bookkeeping fs counts).observed DirBooks.comes DirBooks.note).extend (fun _ _ _ => trivial) hands
    DirStage.opening (· = .idle) Handed
    (by
      rintro ⟨w, g⟩ tag p ⟨w', g'⟩ f ⟨⟨send, rfl, handler, served, rfl⟩, comes⟩ admitted - h
      exact ⟨Hands.follows_serve served (admitted.1 tag rfl) send.opcode, h.arrived comes⟩)
    (by
      rintro ⟨w, g⟩ ⟨w', g'⟩ l st f c r allows stage ⟨⟨answers, rfl⟩, rfl⟩ admitted inv h
      have passed : HandedOver c r := admitted.2 _ c r rfl
      exact ⟨passed, h.act allows stage answers passed inv⟩)
    (by
      rintro ⟨w, g⟩ l st f - rfl - h
      exact h.leaves rfl rfl)

/-- In every run of requests on directories in which nothing is lost on the way. -/
theorem exact_of_nothingLost {s : Config calls (World × DirBooks) (FuseReq × Request) (Status × FuseRequest)}
    (run : (directed fs counts).Reach (fun _ label => DirectoriesOnly label ∧ NothingLost label)
      (.initial root pipes, .empty) s) (quiet : s.threads = []) : Exact s.world := by
  have initial : (sharing fs counts).Inv (.initial root pipes, .empty) 0 := by
    refine ⟨?_, .initial root pipes⟩
    rw [Multiset.map_zero]
    exact Inv.initial root pipes
  have holds := Protocol.holds_of_reach (sharing fs counts) initial run
  exact (holds.quiescent quiet).2.exact_of_quiet

end Runs

namespace Sample

/-- The same `OpenDir`, whose reply the kernel does not take. -/
def lostDirEvents : List (Event calls) :=
  openDirEvents.dropLast ++
    [⟨.fuseReply ⟨3, .opendir⟩ (.openFile ⟨0, 500, false, false⟩), some ⟨ENOENT, by decide, by decide⟩⟩]

def lostDir : World :=
  ((mounted.arrive openDirTag.1 openDirTag.2).play countsName lostDirEvents).depart openDirTag.2

def booksAfter (t : List (Event calls)) : DirBooks := t.foldl (fun g e => g.note e.1 e.2) .empty

theorem reach_directed {ok : World × DirBooks → Label calls (FuseReq × Request) → Prop} {w : World}
    {t : List (Event calls)} (plays : (mounted.arrive openDirTag.1 openDirTag.2).Plays countsName t)
    (steps : Exec (callback linux (some .onLinux) openDirTag.1 .replyFailure
      (fun fs : PageAlignFS => fs.openDir FUSE_ROOT_ID ⟨0, 0, false, false⟩) { req := none }) t
      (.ok (), { req := none }))
    (ends : ((mounted.arrive openDirTag.1 openDirTag.2).play countsName t).depart openDirTag.2 = w)
    (come : ∀ x, ok x (.arrive openDirTag)) (acts : ∀ x, ∀ e ∈ t, ok x (.act openDirTag e))
    (goes : ∀ x, ok x (.leave openDirTag)) :
    (directed .onLinux countsName).Reach ok (mounted, .empty) ⟨(w, booksAfter t), []⟩ := by
  have send : mounted.MaySend openDirTag.1 openDirTag.2 :=
    ⟨rfl, rfl, fun a h => .inl (List.mem_singleton.mp h), fun _ h => (nomatch h),
      fun _ h => (nomatch h), trivial⟩
  have starts : (daemon .onLinux countsName).starts mounted openDirTag _ _ := ⟨send, rfl, _, rfl, rfl⟩
  have starts' : (directed .onLinux countsName).starts (mounted, .empty) openDirTag _ (_, .empty) := ⟨starts, rfl⟩
  have performs : (daemon .onLinux countsName).Performs _ t _ := plays.performs
  have served := Machine.Reach.init.serve starts' steps (performs.observed DirBooks.empty) come acts goes
  rw [← ends]
  exact served

/-- The admitted steps of the sample. -/
def Lossless (_ : World × DirBooks) (label : Label calls (FuseReq × Request)) : Prop :=
  DirectoriesOnly label ∧ NothingLost label

theorem lossless_arrive {x : World × DirBooks} {tag : FuseReq × Request} (directory : tag.2.onDirectory = true) :
    Lossless x (.arrive tag) := by
  constructor
  · intro tag' same
    cases same
    exact directory
  · intro tag' c r same
    cases same

theorem lossless_act {x : World × DirBooks} {tag : FuseReq × Request} {e : Event calls} (handed : HandedOver e.1 e.2) :
    Lossless x (.act tag e) := by
  constructor
  · intro tag' same
    cases same
  · intro tag' c r same
    cases same
    exact handed

theorem lossless_leave {x : World × DirBooks} {tag : FuseReq × Request} : Lossless x (.leave tag) := by
  constructor
  · intro tag' same
    cases same
  · intro tag' c r same
    cases same

/-- The directory is opened once more. -/
def againTag : FuseReq × Request := (⟨4, .opendir⟩, .opendir FUSE_ROOT_ID (some ⟨0, 0, false, false⟩))

def againEvents : List (Event calls) :=
  [⟨.logInode .root, ()⟩, ⟨.getFD .root, (4 : Int)⟩,
    ⟨.sys (.openat 4 "." (O_DIRECTORY ||| O_NOFOLLOW ||| O_CLOEXEC) 0), .ok (10 : Int)⟩,
    ⟨.sys (.fdopendir 10), .ok (71 : Nat)⟩, ⟨.newDirectory 71, (501 : Nat)⟩,
    ⟨.fuseReply ⟨4, .opendir⟩ (.openFile ⟨0, 501, false, false⟩), none⟩]

def dirAgain : World := ((dirOpened.arrive againTag.1 againTag.2).play countsName againEvents).depart againTag.2

/-- The first handle is released. -/
def releaseDirTag : FuseReq × Request := (⟨5, .releasedir⟩, .releasedir FUSE_ROOT_ID (some ⟨0, 500, false, false⟩))

def releaseDirEvents : List (Event calls) :=
  [⟨.logInode .root, ()⟩, ⟨.deleteDirectory 500, (70 : Nat)⟩, ⟨.sys (.closedir 70), .ok ()⟩,
    ⟨.fuseReply ⟨5, .releasedir⟩ (.err 0), none⟩]

def dirReleased : World :=
  ((dirAgain.arrive releaseDirTag.1 releaseDirTag.2).play countsName releaseDirEvents).depart releaseDirTag.2

def booksAgain : DirBooks := againEvents.foldl (fun g e => g.note e.1 e.2) (booksAfter openDirEvents)

/-- `ReleaseDir` has come. -/
def booksReleasing : DirBooks := { booksAgain with delivered := Function.update booksAgain.delivered 500 false }

def booksReleased : DirBooks := releaseDirEvents.foldl (fun g e => g.note e.1 e.2) booksReleasing

theorem reach_dirAgain : (directed .onLinux countsName).Reach Lossless (mounted, .empty)
    ⟨(dirAgain, booksAgain), []⟩ := by
  have plays : (mounted.arrive openDirTag.1 openDirTag.2).Plays countsName openDirEvents :=
    ⟨trivial, rfl, rfl, rfl, rfl, trivial, trivial⟩
  have opened : (directed .onLinux countsName).Reach Lossless (mounted, .empty)
      ⟨(dirOpened, booksAfter openDirEvents), []⟩ := by
    refine reach_directed plays (.step _ (.step _ (.step _ (.step _ (.step _ (.step _ (.refl _)))))))
      rfl (fun _ => lossless_arrive rfl) (fun x e mem => lossless_act ?_) fun _ => lossless_leave
    fin_cases mem
    all_goals first | trivial | exact ⟨_, rfl⟩
  have send : dirOpened.MaySend againTag.1 againTag.2 := by
    refine ⟨rfl, rfl, fun a h => .inl (List.mem_singleton.mp h), fun _ h => ?_, fun _ h => ?_, trivial⟩
    · cases h
    · cases h
  have plays' : (dirOpened.arrive againTag.1 againTag.2).Plays countsName againEvents :=
    ⟨trivial, rfl, rfl, rfl, rfl, trivial, trivial⟩
  have starts : (daemon .onLinux countsName).starts dirOpened againTag _ _ := ⟨send, rfl, _, rfl, rfl⟩
  have starts' : (directed .onLinux countsName).starts (dirOpened, booksAfter openDirEvents) againTag _
      (_, booksAfter openDirEvents) := ⟨starts, rfl⟩
  have steps : Exec (callback linux (some .onLinux) againTag.1 .replyFailure
      (fun fs : PageAlignFS => fs.openDir FUSE_ROOT_ID ⟨0, 0, false, false⟩) { req := none }) againEvents
      (.ok (), { req := none }) := .step _ (.step _ (.step _ (.step _ (.step _ (.step _ (.refl _))))))
  refine opened.serve starts' steps (Machine.Performs.observed plays'.performs _) (fun _ => lossless_arrive rfl)
    (fun x e mem => lossless_act ?_) fun _ => lossless_leave
  fin_cases mem
  all_goals first | trivial | exact ⟨_, rfl⟩

theorem reach_dirReleased :
    (directed .onLinux countsName).Reach Lossless (mounted, .empty) ⟨(dirReleased, booksReleased), []⟩ := by
  have send : dirAgain.MaySend releaseDirTag.1 releaseDirTag.2 := by
    refine ⟨rfl, rfl, fun a h => .inl (List.mem_singleton.mp h), fun _ h => ?_, fun _ h => ?_, trivial⟩
    · cases h
    · cases h
  have plays : (dirAgain.arrive releaseDirTag.1 releaseDirTag.2).Plays countsName releaseDirEvents :=
    ⟨trivial, fun _ h => Option.some.inj h, trivial, trivial, trivial⟩
  have starts : (daemon .onLinux countsName).starts dirAgain releaseDirTag _ _ := ⟨send, rfl, _, rfl, rfl⟩
  have starts' : (directed .onLinux countsName).starts (dirAgain, booksAgain) releaseDirTag _ (_, booksReleasing) :=
    ⟨starts, rfl, rfl⟩
  have steps : Exec (callback linux (some .onLinux) releaseDirTag.1 .replyAlways
      (fun _ : PageAlignFS => PageAlignFS.releaseDir FUSE_ROOT_ID ⟨0, 500, false, false⟩) { req := none }) releaseDirEvents
      (.ok (), { req := none }) := .step _ (.step _ (.step _ (.step _ (.refl _))))
  refine reach_dirAgain.serve starts' steps (Machine.Performs.observed plays.performs _) (fun _ => lossless_arrive rfl)
    (fun x e mem => lossless_act ?_) fun _ => lossless_leave
  fin_cases mem <;> trivial

end Sample

open Sample in
/-- Two directories are opened and the first one is released. -/
theorem exact_dirReleased : booksReleased.delivered 500 = false ∧ booksReleased.delivered 501 = true ∧
    Exact (dirReleased, booksReleased) :=
  ⟨rfl, rfl, exact_of_nothingLost reach_dirReleased rfl⟩

open Sample in
/-- Nobody will release the `Directory`, or close its descriptor. -/
theorem unsent_directory_leaks : ¬ ∀ (fs : PageAlignFS) (counts : String → Bool) (root : Inode) (pipes : Fd → Bool)
    (s : Config calls (World × DirBooks) (FuseReq × Request) (Status × FuseRequest)),
    (directed fs counts).Reach (fun _ label => DirectoriesOnly label) (.initial root pipes, .empty) s →
      s.threads = [] → Exact s.world := by
  intro always
  have plays : (mounted.arrive openDirTag.1 openDirTag.2).Plays countsName lostDirEvents :=
    ⟨trivial, rfl, rfl, rfl, rfl, trivial, trivial⟩
  have reached : (directed .onLinux countsName).Reach (fun _ label => DirectoriesOnly label) (mounted, .empty)
      ⟨(lostDir, booksAfter lostDirEvents), []⟩ := by
    refine reach_directed plays (.step _ (.step _ (.step _ (.step _ (.step _ (.step _ (.refl _)))))))
      rfl ?_ ?_ ?_
    · intro x tag same
      cases same
      rfl
    · intro x e mem tag same
      cases same
    · intro x tag same
      cases same
  have exact_ := always .onLinux countsName rootInode (fun _ => false) _ reached rfl
  have live : lostDir.directories 500 ≠ none := by decide
  have delivered := (exact_.objects 500).mp live
  cases delivered

end Pafs
