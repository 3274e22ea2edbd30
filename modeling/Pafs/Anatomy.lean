import Pafs.Dispatch
import Pafs.Replies

/-! What all callbacks are made of. A property of code that every block has, and that adds up
when blocks are put together, holds of every callback, at the cost that is worked out here
once. -/
namespace Pafs
open Resumption


/-- The calls that are made in many places; the others are made in one block each. -/
def Call.light : Call → Bool
  | .insert _ | .unref _ _ _ | .dropShared _ | .addPollHandle _ _ | .destroyPollHandle _ | .pollHandle _
  | .notifyPoll _ => false
  | _ => true

/-- `K n m`: the code `m` has the property at the cost `n`. -/
structure AddsUp (K : (σ α : Type) → Nat → Io σ α → Prop) : Prop where
  mono : ∀ {σ α n k m}, n ≤ k → K σ α n m → K σ α k m
  pure : ∀ {σ α} (a : α), K σ α 0 (pure a)
  fail : ∀ {σ α} (e : Error), K σ α 0 (Routine.fail e)
  ofExcept : ∀ {σ α} (r : StatusOr α), K σ α 0 (Routine.ofExcept r)
  getLocal : ∀ {σ}, K σ σ 0 Routine.getLocal
  setLocal : ∀ {σ} (s : σ), K σ Unit 0 (Routine.setLocal s)
  bind : ∀ {σ α β n k} {m : Io σ α} {f : α → Io σ β}, K σ α n m → (∀ a, K σ β k (f a)) →
    K σ β (n + k) (m >>= f)
  attempt : ∀ {σ α n} {m : Io σ α}, K σ α n m → K σ (StatusOr α) n m.attempt
  onError : ∀ {σ α n k} {m : Io σ α} {cleanup : Io σ Unit}, K σ α n m → K σ Unit k cleanup →
    K σ α (n + k) (m.onError cleanup)
  andFinally : ∀ {σ α n k} {m : Io σ α} {destroy : Io σ Unit}, K σ α n m → K σ Unit k destroy →
    K σ α (n + k) (m.andFinally destroy)
  invoke : ∀ {σ} (c : Call), c.light = true → K σ c.Ret 1 (Routine.invoke (I := calls) c)
  unref : ∀ {σ} (site : UnrefSite) (r : InodeRef) (n : Nat), K σ Unit 3 (Inodes.unref site r n)
  dropShared : ∀ {σ} (a : Addr), K σ Unit 3 (Inodes.dropShared a)
  findOrCreateInode : ∀ {σ} (fs : PageAlignFS) (parent : InodeRef) (path : String),
    K σ Addr 7 (fs.findOrCreateInode parent path)

namespace AddsUp

variable {K : (σ α : Type) → Nat → Io σ α → Prop} {σ α : Type} {P : Platform} {fs : PageAlignFS}
  {n k : Nat} {ino : Addr}

theorem syscall (h : AddsUp K) (c : Sys) (message : String) : K σ c.Ret 1 (syscall P c message) := by
  unfold Pafs.syscall
  apply h.bind (k := 0) (h.invoke (.sys c) rfl)
  intro rc
  cases rc with
  | error e => exact h.fail _
  | ok v => exact h.pure v

theorem check (h : AddsUp K) (site : CheckSite) (holds : Bool) : K σ Unit 1 (Pafs.check site holds) := by
  cases holds with
  | true => exact h.mono (Nat.zero_le 1) (h.pure ())
  | false =>
      apply h.bind (k := 0) (h.invoke (.abort site) rfl)
      intro impossible
      cases impossible

theorem doIf (h : AddsUp K) {condition : Bool} {m : Io σ Unit} (inner : K σ Unit n m) :
    K σ Unit n (doIf condition m) := by
  cases condition with
  | true => exact inner
  | false => exact h.mono (Nat.zero_le n) (h.pure ())

theorem closeFd (h : AddsUp K) (fd : Fd) : K σ Unit 1 (FileDescriptor.destroy fd) :=
  h.bind (h.invoke (.sys (.close fd true)) rfl) fun _ => h.pure ()

theorem closeDir (h : AddsUp K) (d : DirPtr) : K σ Unit 1 (Directory.destroy d) :=
  h.bind (h.invoke (.sys (.closedir d)) rfl) fun _ => h.pure ()

theorem ref (h : AddsUp K) (r : InodeRef) (ntimes : Nat) : K σ Unit 1 (Inodes.ref r ntimes) := by
  apply h.bind (k := 0) (h.invoke (.ref r ntimes) rfl)
  intro rc
  cases rc with
  | none => exact h.pure ()
  | some key => exact h.fail _

theorem dropAllShared (h : AddsUp K) (as : List Addr) : K σ Unit (3 * as.length) (Inodes.dropAllShared as) := by
  induction as with
  | nil => exact h.pure ()
  | cons a as ih =>
      have both : K σ Unit (3 + 3 * as.length) (Inodes.dropAllShared (a :: as)) :=
        h.bind (h.dropShared a) fun _ => ih
      apply h.mono _ both
      rw [List.length_cons]
      omega

theorem unrefAll (h : AddsUp K) (as : List Addr) : K σ Unit (3 * as.length) (Inodes.unrefAll as) := by
  induction as with
  | nil => exact h.pure ()
  | cons a as ih =>
      have both : K σ Unit (3 + 3 * as.length) (Inodes.unrefAll (a :: as)) :=
        h.bind (h.attempt (h.unref .cleanup (.node a) 1)) fun _ => ih
      apply h.mono _ both
      rw [List.length_cons]
      omega

theorem getFileVersionFromPathFD (h : AddsUp K) (fd : Fd) :
    K σ (Except VersionError Nat) 3 (getFileVersionFromPathFD fd) := by
  apply h.bind (k := 2) (h.invoke (.sys (.open_ (.procSelfFd fd) (O_RDONLY ||| O_CLOEXEC))) rfl)
  intro opened
  cases opened with
  | error e => exact h.mono (Nat.zero_le 2) (h.pure _)
  | ok myfd =>
      apply h.bind (k := 1) (h.invoke (.sys (.ioctl myfd FS_IOC_GETVERSION)) rfl)
      intro version
      apply h.bind (k := 0) (h.closeFd myfd)
      intro _
      cases version with
      | error e => exact h.pure _
      | ok v => exact h.pure _

theorem getGeneration (h : AddsUp K) (r : InodeRef) : K σ Nat 6 (Inode.getGeneration P r) := by
  apply h.bind (k := 5) (h.invoke (.getGeneration r) rfl)
  intro memo
  cases memo with
  | some v => exact h.mono (Nat.zero_le 5) (h.ofExcept _)
  | none =>
      refine h.bind (n := 1) (k := 4) (h.invoke (.getFD r) rfl) fun fd => ?_
      refine h.bind (n := 3) (k := 1) (h.getFileVersionFromPathFD fd) fun v => ?_
      exact h.bind (h.invoke (.setGeneration r v) rfl) fun _ => h.ofExcept _

theorem statFD (h : AddsUp K) (fd : Fd) : K σ Stat 1 (statFD P fd) :=
  h.syscall (.fstatat fd "" (AT_EMPTY_PATH ||| AT_SYMLINK_NOFOLLOW)) _

theorem createFuseEntryParam (h : AddsUp K) (inode : Addr) (withGeneration : Bool) :
    K σ EntryParam 8 (fs.createFuseEntryParam inode withGeneration) := by
  refine h.bind (n := 1) (k := 7) (h.invoke (.getFD (.node inode)) rfl) fun fd => ?_
  refine h.bind (n := 1) (k := 6) (h.statFD fd) fun attr => ?_
  cases withGeneration with
  | false => exact h.mono (Nat.zero_le 6) (h.pure _)
  | true => exact h.bind (h.getGeneration _) fun _ => h.pure _

/-! Replies. -/

theorem send (h : AddsUp K) (what : String) (reply : Reply) :
    K FuseRequest Unit 1 (FuseRequest.send P what reply) := by
  apply h.bind (n := 0) (k := 1) h.getLocal
  intro self
  cases self.req with
  | none => exact h.mono (Nat.zero_le 1) (h.pure ())
  | some req =>
      apply h.bind (k := 0) (h.invoke (.fuseReply req reply) rfl)
      intro rc
      exact h.bind (n := 0) (h.setLocal _) fun _ => h.ofExcept _

theorem replyWithEntry (h : AddsUp K) (parent : InodeRef) (name what : String) (mk : EntryParam → Reply) :
    K FuseRequest Unit 25 (fs.replyWithEntry parent name fun param => FuseRequest.send fs.platform what (mk param)) := by
  refine h.bind (n := 7) (k := 18) (h.findOrCreateInode fs parent name) fun inode => ?_
  refine h.andFinally (n := 15) (k := 3) ?_ (h.dropShared inode)
  refine h.bind (n := 1) (k := 14) (h.invoke (.getSourceDevice parent) rfl) fun parentDevice => ?_
  refine h.bind (n := 1) (k := 13) (h.invoke (.getSourceDevice (.node inode)) rfl) fun device => ?_
  by_cases other : parentDevice ≠ device
  · rw [if_pos other]
    exact h.mono (Nat.zero_le _) (h.fail _)
  · rw [if_neg other]
    refine h.bind (n := 8) (k := 5) (h.createFuseEntryParam inode true) fun param => ?_
    refine h.bind (n := 1) (k := 4) (h.ref _ _) fun _ => ?_
    exact h.onError (h.send what (mk param)) (h.unref .cleanup (.node inode) 1)

theorem replyWithAttrs (h : AddsUp K) (inode : InodeRef) : K FuseRequest Unit 3 (fs.replyWithAttrs inode) := by
  refine h.bind (n := 1) (k := 2) (h.invoke (.getFD inode) rfl) fun fd => ?_
  exact h.bind (h.statFD fd) fun attrs => h.send _ _

theorem epilogue (h : AddsUp K) (finish : Finish) (status : Status) :
    K FuseRequest Unit 2 (epilogue P finish status) := by
  have destroyed : K FuseRequest Unit 1 (FuseRequest.destroy P) := by
    apply h.bind (n := 0) (k := 1) h.getLocal
    intro self
    cases self.req with
    | none => exact h.mono (Nat.zero_le 1) (h.pure ())
    | some req => exact h.bind (h.attempt (h.send _ _)) fun _ => h.pure ()
  have failed (status : Status) : K FuseRequest Unit 1 (FuseRequest.replyFailure P status) := by
    cases status with
    | ok _ => exact h.check _ _
    | error st =>
        apply h.bind (n := 0) (k := 1) h.getLocal
        intro self
        cases self.req with
        | none => exact h.mono (Nat.zero_le 1) (h.pure ())
        | some req => exact h.andFinally (k := 0) (h.send _ _) (h.setLocal _)
  refine h.bind (n := 1) (k := 1) ?_ fun _ => destroyed
  cases finish with
  | replyFailure =>
      cases status with
      | ok _ => exact h.mono (Nat.zero_le 1) (h.pure ())
      | error st => exact h.bind (h.attempt (failed _)) fun _ => h.pure ()
  | replyAlways =>
      cases status with
      | ok _ => exact h.bind (h.attempt (h.send _ _)) fun _ => h.pure ()
      | error st => exact h.bind (h.attempt (failed _)) fun _ => h.pure ()
  | replyNone =>
      apply h.bind (n := 0) (k := 1) h.getLocal
      intro self
      cases self.req with
      | none => exact h.mono (Nat.zero_le 1) (h.pure ())
      | some req => exact h.bind (k := 0) (h.invoke (.fuseReply req .nothing) rfl) fun _ => h.setLocal _

/-! Listings. -/

theorem addDirEntry (h : AddsUp K) (d : FuseDirsBuilder) (name : String) (param : EntryParam) (offset : Int) :
    K σ (Option { d' : FuseDirsBuilder // d.Grows d' }) 1 (d.addDirEntry P name param offset) := by
  unfold FuseDirsBuilder.addDirEntry
  dsimp only
  split
  · exact h.bind (h.check _ _) fun _ => h.pure _
  · exact h.mono (Nat.zero_le 1) (h.pure _)

theorem readDirRound (h : AddsUp K) (dirInode : InodeRef) (dir : DirPtr) (dirs : FuseDirsBuilder) :
    K σ (PageAlignFS.ReadDirRound dirs) 24 (fs.readDirRound dirInode dir dirs) := by
  refine h.bind (n := 1) (k := 23) (h.syscall (.readdir dir) _) fun entry => ?_
  cases entry with
  | none => exact h.mono (Nat.zero_le _) (h.pure _)
  | some entry =>
      refine h.bind (n := 7) (k := 16) (h.findOrCreateInode fs dirInode entry.dName) fun inode => ?_
      refine h.bind (n := 13) (k := 3) (h.onError (n := 10) (k := 3) ?_ (h.dropShared inode)) fun next => ?_
      · refine h.bind (n := 8) (k := 2) (h.createFuseEntryParam inode dirs.plus) fun param => ?_
        refine h.bind (n := 1) (k := 1) (h.addDirEntry _ _ _ _) fun next => ?_
        cases next with
        | none => exact h.mono (Nat.zero_le 1) (h.pure _)
        | some next => exact h.bind (h.doIf (h.ref _ _)) fun _ => h.pure _
      · cases next with
        | none => exact h.bind (h.dropShared inode) fun _ => h.pure _
        | some next =>
            dsimp only
            split
            · exact h.mono (Nat.zero_le 3) (h.pure _)
            · exact h.bind (h.dropShared inode) fun _ => h.pure _

theorem readDirLoop (h : AddsUp K) (dirInode : InodeRef) (dir : DirPtr) {room : Nat} {dirs : FuseDirsBuilder}
    {inodes : List Addr} (fits : dirs.maxsize - dirs.size < room) :
    K σ (StatusOr FuseDirsBuilder × List Addr) (24 * room) (fs.readDirLoop dirInode dir room dirs inodes fits) := by
  induction room generalizing dirs inodes with
  | zero => exact absurd fits (Nat.not_lt_zero _)
  | succ room ih =>
      have rest : K σ (StatusOr FuseDirsBuilder × List Addr) (24 + 24 * room)
          (fs.readDirLoop dirInode dir (room + 1) dirs inodes fits) := by
        unfold PageAlignFS.readDirLoop
        refine h.bind (h.attempt (h.readDirRound dirInode dir dirs)) fun round => ?_
        cases round with
        | error e => exact h.mono (Nat.zero_le _) (h.pure _)
        | ok round =>
            cases round with
            | stop => exact h.mono (Nat.zero_le _) (h.pure _)
            | added next grows inode => exact ih _
      apply h.mono _ rest
      omega

/-- Where the cost is of no account, nothing has to be known of the inodes that are listed. -/
theorem readDirInternal (h : AddsUp K) (free : ∀ {σ α n m} k, K σ α n m → K σ α k m) (dirInode : InodeRef)
    (size : Nat) (off : Int) (fi : FileInfo) (plus : Bool) :
    K FuseRequest Unit n (fs.readDirInternal dirInode size off fi plus) := by
  unfold PageAlignFS.readDirInternal
  apply free n
  refine h.bind (n := 1) (k := n) (h.invoke (.derefDirectory _) rfl) fun dir => ?_
  apply free n
  refine h.bind (n := 1) (k := n) (h.invoke (.seekdir dir off) rfl) fun _ => ?_
  apply free n
  refine h.bind (n := 24 * (size + 1)) (k := n) (h.readDirLoop dirInode dir _) fun listed => ?_
  obtain ⟨listed, inodes⟩ := listed
  have sent : K FuseRequest Unit (0 + (1 + 1)) (Routine.ofExcept listed >>= fun dirs => dirs.reply fs.platform) :=
    h.bind (h.ofExcept listed) fun dirs => h.bind (h.check _ _) fun _ => h.send _ _
  exact free n (h.andFinally (h.onError sent (h.unrefAll inodes)) (h.dropAllShared inodes))

/-! The handlers. -/

theorem logged (h : AddsUp K) {r : InodeRef} {m : Io σ α} (rest : K σ α n m) : K σ α (1 + n) (do
    Routine.invoke (I := calls) (.logInode r)
    m) := h.bind (h.invoke (.logInode r) rfl) fun _ => rest

theorem withFD (h : AddsUp K) {r : InodeRef} {f : Fd → Io σ α} (rest : ∀ fd, K σ α n (f fd)) :
    K σ α (1 + n) (Routine.invoke (I := calls) (.getFD r) >>= f) :=
  h.bind (h.invoke (.getFD r) rfl) rest

theorem sys (h : AddsUp K) {c : Sys} {message : String} {f : c.Ret → Io σ α} (rest : ∀ v, K σ α n (f v)) :
    K σ α (1 + n) (Pafs.syscall P c message >>= f) := h.bind (h.syscall c message) rest

theorem setAttrOn (h : AddsUp K) (inode : InodeRef) (fd : Fd) (attr : Stat) (toSet : Flags) :
    K FuseRequest Unit 7 (fs.setAttrOn inode fd attr toSet) := by
  refine h.bind (n := 1) (k := 6) (h.doIf (h.syscall (.fchmod fd attr.stMode) _)) fun _ => ?_
  refine h.bind (n := 1) (k := 5) (h.doIf (h.syscall (.fchownat _ _ _ _ _) _)) fun _ => ?_
  refine h.bind (n := 1) (k := 4) (h.doIf (h.syscall (.ftruncate fd attr.stSize) _)) fun _ => ?_
  exact h.bind (n := 1) (k := 3) (h.doIf (h.syscall (.futimens _ _ _) _)) fun _ => h.replyWithAttrs inode

theorem setAttr (h : AddsUp K) (attr : Stat) (toSet : Flags) (fi : FileInfo) :
    K FuseRequest Unit 11 (fs.setAttr ino attr toSet fi) := by
  refine h.logged (n := 10) ?_
  split
  · refine h.withFD (n := 9) fun inodeFd => h.sys (n := 8) fun myfd => ?_
    exact h.andFinally (h.setAttrOn _ _ _ _) (h.closeFd myfd)
  · exact h.mono (by decide) (h.setAttrOn _ _ _ _)

theorem readLink (h : AddsUp K) : K FuseRequest Unit 4 (fs.readLink ino) := by
  refine h.logged (n := 3) (h.withFD (n := 2) fun fd => h.sys (n := 1) fun buf => ?_)
  split
  · exact h.mono (Nat.zero_le 1) (h.fail _)
  · exact h.send _ _

theorem open_ (h : AddsUp K) (fi : FileInfo) : K FuseRequest Unit 5 (fs.open_ ino fi) := by
  refine h.logged (n := 4) (h.withFD (n := 3) fun inodeFd => h.sys (n := 2) fun fd => ?_)
  exact h.onError (h.send _ _) (h.closeFd fd)

theorem create (h : AddsUp K) (name : String) (mode : Nat) (fi : FileInfo) :
    K FuseRequest Unit 29 (fs.create ino name mode fi) := by
  refine h.logged (n := 28) (h.withFD (n := 27) fun inodeFd => h.sys (n := 26) fun fd => ?_)
  exact h.onError (h.replyWithEntry _ _ _ _) (h.closeFd fd)

theorem openDir (h : AddsUp K) (fi : FileInfo) : K FuseRequest Unit 6 (fs.openDir ino fi) := by
  refine h.logged (n := 5) (h.withFD (n := 4) fun fd => h.sys (n := 3) fun dirfd => h.sys (n := 2) fun d => ?_)
  exact h.bind (h.invoke (.newDirectory d) rfl) fun dir => h.send _ _

theorem releaseDir (h : AddsUp K) (fi : FileInfo) : K FuseRequest Unit 3 (PageAlignFS.releaseDir ino fi) := by
  refine h.logged (n := 2) ?_
  exact h.bind (n := 1) (h.invoke (.deleteDirectory fi.fh.toNat) rfl) fun d => h.closeDir d

theorem syncFd (h : AddsUp K) (datasync : Bool) (fd : Fd) : K σ Unit 1 (fs.syncFd datasync fd) := by
  cases datasync with
  | true => exact h.syscall (.fdatasync fd) _
  | false => exact h.syscall (.fsync fd) _

theorem fSyncDir (h : AddsUp K) (datasync : Bool) (fi : FileInfo) :
    K FuseRequest Unit 4 (fs.fSyncDir ino datasync fi) := by
  refine h.logged (n := 3) ?_
  exact h.bind (n := 1) (k := 2) (h.invoke (.derefDirectory fi.fh.toNat) rfl) fun dir => h.sys fun dfd => h.syncFd _ _

theorem getXAttr (h : AddsUp K) (name : String) (size : Nat) :
    K FuseRequest Unit 6 (fs.getXAttr ino name size) := by
  refine h.logged (n := 5) (h.withFD (n := 4) fun fd => ?_)
  refine h.bind (n := 2) (k := 2) (h.sys fun r => h.bind (k := 0) (h.check _ _) fun _ => h.pure _) fun buf => ?_
  exact h.bind (h.check _ _) fun _ => h.send _ _

theorem listXAttr (h : AddsUp K) (size : Nat) : K FuseRequest Unit 5 (fs.listXAttr ino size) := by
  refine h.logged (n := 4) (h.withFD (n := 3) fun fd => h.sys (n := 2) fun r => ?_)
  exact h.bind (h.check _ _) fun _ => h.send _ _

theorem setLk (h : AddsUp K) (lock : FLock) (sleep : Bool) : K FuseRequest Unit 3 (fs.setLk ino lock sleep) :=
  h.logged (h.withFD fun _ => h.sys fun _ => h.pure ())

/-- `Poll` from the point where it has put its handle away. -/
theorem polled (h : AddsUp K) : K FuseRequest Unit 4 (do
    let fd ← Routine.invoke (I := calls) (.getFD (getInode ino))
    let polled ← Syscalls.poll fs.platform fd PageAlignFS.pollEvents
    Pafs.check .pollCount (polled.1 ≤ 1)
    FuseRequest.replyPoll fs.platform polled.2) :=
  h.withFD fun _ => h.sys fun _ => h.bind (h.check _ _) fun _ => h.send _ _

theorem writeBuf (h : AddsUp K) (inBuf : FuseBufVec) (off : Int) (fi : FileInfo)
    (notifies : K FuseRequest Unit 3 (Inode.notifyPollEvent fs.platform (getInode ino))) :
    K FuseRequest Unit 6 (fs.writeBuf ino inBuf off fi) := by
  refine h.logged (n := 5) (h.bind (n := 1) (k := 4) (h.invoke (.fuseBufCopy _ inBuf) rfl) fun copied => ?_)
  cases copied with
  | error e => exact h.mono (Nat.zero_le 4) (h.fail _)
  | ok nb =>
      refine h.bind (n := 1) (k := 3) (h.attempt (h.send _ _)) fun ret => ?_
      exact h.bind (k := 0) (h.attempt notifies) fun _ => h.ofExcept _

theorem forgetMulti (h : AddsUp K) (forgets : List ForgetData) :
    K FuseRequest Unit (3 * forgets.length) (PageAlignFS.forgetMulti forgets) := by
  induction forgets with
  | nil => exact h.pure ()
  | cons forget forgets ih =>
      have both : K FuseRequest Unit (3 + 3 * forgets.length) (PageAlignFS.forgetMulti (forget :: forgets)) :=
        h.bind (h.unref .forget (getInode forget.ino) forget.nlookup) fun _ => ih
      apply h.mono _ both
      rw [List.length_cons]
      omega

end AddsUp

/-- How many calls a handler makes at most. -/
def Request.effort : Request → Nat
  | .forgetMulti forgets => 3 * forgets.length
  -- every listed entry takes room in the buffer
  | .readdir _ size _ _ | .readdirplus _ size _ _ => 30 * (size + 1) + 5
  | _ => 30

section Callbacks
variable {K : (σ α : Type) → Nat → Io σ α → Prop} {fs : PageAlignFS} {r : Request}

theorem AddsUp.small (h : AddsUp K) {n : Nat} {m : Handler} (inner : K FuseRequest Unit n m)
    (le : n ≤ 30 := by decide) : K FuseRequest Unit 30 m := h.mono le inner

theorem AddsUp.poll (h : AddsUp K) {ino : Addr} {ph : Option PollPtr}
    (adds : ∀ p, ph = some p → K FuseRequest Unit 2 (Inode.addPollHandle (getInode ino) (some p))) :
    K FuseRequest Unit 7 (fs.poll ino ph) := by
  refine h.logged (n := 6) ?_
  cases ph with
  | none => exact h.mono (by decide) h.polled
  | some p => exact h.bind (adds p rfl) fun _ => h.polled

/-- What holds of the blocks holds of every handler. -/
theorem AddsUp.invocation (h : AddsUp K)
    (listing : ∀ dirInode size off fi plus,
      K FuseRequest Unit (30 * (size + 1) + 4) (fs.readDirInternal dirInode size off fi plus)) :
    {r : Request} → {method : PageAlignFS → Handler} → pageAlignFSOps.invocation r = some method →
    (∀ ino fi ph, r = .poll ino fi (some ph) →
      K FuseRequest Unit 2 (Inode.addPollHandle (getInode ino) (some ph))) →
    (∀ ino inBuf off fi, r = .writeBuf ino inBuf off fi →
      K FuseRequest Unit 3 (Inode.notifyPollEvent fs.platform (getInode ino))) →
    K FuseRequest Unit r.effort (method fs)
  | .lookup .., _, rfl, _, _ => h.small (h.logged (h.replyWithEntry _ _ _ _))
  | .forget .., _, rfl, _, _ => h.small (h.logged (h.unref _ _ _))
  | .getattr .., _, rfl, _, _ => h.small (h.logged (h.replyWithAttrs _))
  | .setattr _ _ _ (some _), _, rfl, _, _ => h.small (h.setAttr _ _ _)
  | .readlink .., _, rfl, _, _ => h.small h.readLink
  | .mknod .., _, rfl, _, _ => h.small (h.logged (h.withFD fun _ => h.sys fun _ => h.replyWithEntry _ _ _ _))
  | .mkdir .., _, rfl, _, _ => h.small (h.logged (h.withFD fun _ => h.sys fun _ => h.replyWithEntry _ _ _ _))
  | .unlink .., _, rfl, _, _ => h.small (h.logged (h.withFD fun _ => h.syscall (.unlinkat ..) _))
  | .rmdir .., _, rfl, _, _ => h.small (h.logged (h.withFD fun _ => h.syscall (.unlinkat ..) _))
  | .symlink .., _, rfl, _, _ => h.small (h.logged (h.withFD fun _ => h.sys fun _ => h.replyWithEntry _ _ _ _))
  | .rename .., _, rfl, _, _ => h.small (h.logged (h.logged (h.withFD fun _ => h.withFD fun _ =>
      h.syscall (.renameat2 ..) _)))
  | .link .., _, rfl, _, _ => h.small (h.logged (h.logged (h.withFD fun _ => h.withFD fun _ => h.sys fun _ =>
      h.replyWithEntry _ _ _ _)))
  | .open_ _ (some _), _, rfl, _, _ => h.small (h.open_ _)
  | .read _ _ _ (some _), _, rfl, _, _ => h.small (h.logged (h.send _ _))
  | .flush _ (some _), _, rfl, _, _ => h.small (h.logged (h.sys fun _ => h.syscall (.close ..) _))
  | .release _ (some _), _, rfl, _, _ => h.small (h.logged (h.syscall (.close ..) _))
  | .fsync _ _ (some _), _, rfl, _, _ => h.small (h.logged (h.syncFd _ _))
  | .opendir _ (some _), _, rfl, _, _ => h.small (h.openDir _)
  | .readdir _ size _ (some _), _, rfl, _, _ =>
      h.mono (k := 30 * (size + 1) + 5) (by omega) (h.logged (listing _ size _ _ _))
  | .releasedir _ (some _), _, rfl, _, _ => h.small (h.releaseDir _)
  | .fsyncdir _ _ (some _), _, rfl, _, _ => h.small (h.fSyncDir _ _)
  | .statfs .., _, rfl, _, _ => h.small (h.logged (h.withFD fun _ => h.sys fun _ => h.send _ _))
  | .setxattr .., _, rfl, _, _ => h.small (h.logged (h.withFD fun _ => h.syscall (.setxattr ..) _))
  | .getxattr .., _, rfl, _, _ => h.small (h.getXAttr _ _)
  | .listxattr .., _, rfl, _, _ => h.small (h.listXAttr _)
  | .removexattr .., _, rfl, _, _ => h.small (h.logged (h.withFD fun _ => h.syscall (.removexattr ..) _))
  | .access .., _, rfl, _, _ => h.small (h.logged (h.withFD fun _ => h.syscall (.access ..) _))
  | .create _ _ _ (some _), _, rfl, _, _ => h.small (h.create _ _ _)
  | .getlk _ (some _) _, _, rfl, _, _ => h.small (h.logged (h.withFD fun _ => h.sys fun _ => h.send _ _))
  | .setlk _ (some _) _ _, _, rfl, _, _ => h.small (h.setLk _ _)
  | .poll _ (some _) _, _, rfl, polls, _ => h.small (h.poll fun p same => polls _ _ p (congrArg _ same))
  | .writeBuf .., _, rfl, _, notifies => h.small (h.writeBuf _ _ _ (notifies _ _ _ _ rfl))
  | .forgetMulti _, _, rfl, _, _ => h.forgetMulti _
  | .flock _ (some _) _, _, rfl, _, _ => h.small (h.logged (h.withFD fun _ => h.syscall (.flock ..) _))
  | .fallocate _ _ _ _ (some _), _, rfl, _, _ => h.small (h.logged (h.withFD fun _ => h.syscall (.fallocate ..) _))
  | .readdirplus _ size _ (some _), _, rfl, _, _ =>
      h.mono (k := 30 * (size + 1) + 5) (by omega) (h.logged (listing _ size _ _ _))
  | .copyFileRange _ _ (some _) _ _ (some _) _ _, _, rfl, _, _ => h.small (h.logged (h.logged
      (h.withFD fun _ => h.withFD fun _ => h.sys fun _ => h.send _ _)))
  | .lseek _ _ _ (some _), _, rfl, _, _ => h.small (h.logged (h.withFD fun _ => h.sys fun _ => h.send _ _))

end Callbacks

end Pafs
