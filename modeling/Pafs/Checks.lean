import Pafs.Replies

/-! Which requests can abort the daemon. The environment answers within the documented
contracts of the system calls; the discipline forbids every failed `CHECK` but the one in
`InodeCache::Unref`, which the reference counts take care of. -/
namespace Pafs
open Resumption

/-- The documented contracts: `getxattr(2)` and `listxattr(2)` stay within a buffer that is
not empty, and `poll(2)` on one descriptor reports at most one. -/
def Documented : (c : Call) → c.Ret → Prop
  | .sys (.getxattr _ _ size), .ok r | .sys (.listxattr _ size), .ok r => 0 < size → r.nb ≤ size
  | .sys (.poll _ _), .ok (ready, _) => ready ≤ 1
  | _, _ => True

def checks : Discipline calls Unit where
  allows _ c :=
    match c with
    | .abort site => site = .unrefCount
    | _ => True
  answers _ c r := Documented c r
  after _ _ _ := ()

/-- Whatever the environment answers within its contracts, no `CHECK` fails. -/
def NeverAborts (fs : PageAlignFS) (req : FuseReq) (r : Request) : Prop :=
  ∀ handler, fs.serve req r = some handler → ∀ s t site next,
    (∀ e ∈ t, Documented e.1 e.2) → Steps (handler s) t (.call (.abort site) next) →
    site = .unrefCount

variable {σ α : Type} {P : Platform}

theorem checks_admits {t : List (Event calls)} (h : ∀ e ∈ t, Documented e.1 e.2) (l : Unit) :
    checks.Admits l t := by
  induction t with
  | nil => trivial
  | cons e t ih =>
      exact ⟨h e List.mem_cons_self, ih fun e' he => h e' (List.mem_cons_of_mem e he)⟩

namespace Checked
open Routine (Safe)

theorem passes {site : CheckSite} {holds : Bool} (h : holds = true) :
    Safe checks (check site holds : Io σ Unit) := by
  subst h
  exact .pure ()

theorem syscall (c : Sys) (message : String) : Safe checks (syscall P c message : Io σ c.Ret) := by
  intro s l
  rw [follows_syscall]
  exact ⟨trivial, fun _ _ => trivial, fun _ _ => trivial⟩

theorem doIf {c : Bool} {m : Io σ Unit} (h : Safe checks m) : Safe checks (doIf c m) := by
  cases c with
  | true => exact h
  | false => exact .pure ()

theorem closeFd (fd : Fd) : Safe checks (FileDescriptor.destroy fd : Io σ Unit) :=
  .bind (.invoke fun _ => trivial) fun _ => .pure ()

theorem destroyInode (i : Inode) : Safe checks (i.destroy : Io σ Unit) := by
  unfold Inode.destroy
  cases i.pollHandle with
  | some ph => exact .bind (.invoke fun _ => trivial) fun _ => closeFd i.fd
  | none => exact closeFd i.fd

theorem settle (u : Unrefed) : Safe checks (u.settle : Io σ Unit) := by
  rcases u with key | _ | erased
  · exact .fail _
  · exact fun _ _ => ⟨rfl, fun impossible => nomatch impossible⟩
  · cases erased with
    | none => exact .pure ()
    | some i => exact destroyInode i

theorem unref (site : UnrefSite) (r : InodeRef) (n : Nat) :
    Safe checks (Inodes.unref site r n : Io σ Unit) := .bind (.invoke fun _ => trivial) settle

theorem ref (r : InodeRef) (n : Nat) : Safe checks (Inodes.ref r n : Io σ Unit) := by
  refine .bind (.invoke fun _ => trivial) fun rc => ?_
  cases rc with
  | none => exact .pure ()
  | some key => exact .fail _

theorem dropShared (a : Addr) : Safe checks (Inodes.dropShared a : Io σ Unit) :=
  .bind (.attempt (.bind (.invoke fun _ => trivial) settle)) fun _ => .pure ()

theorem dropAllShared (as : List Addr) : Safe checks (Inodes.dropAllShared as : Io σ Unit) := by
  induction as with
  | nil => exact .pure ()
  | cons a as ih => exact .bind (dropShared a) fun _ => ih

theorem unrefAll (as : List Addr) : Safe checks (Inodes.unrefAll as : Io σ Unit) := by
  induction as with
  | nil => exact .pure ()
  | cons a as ih => exact .bind (.attempt (unref .cleanup (.node a) 1)) fun _ => ih

theorem findOrCreateInode (fs : PageAlignFS) (parent : InodeRef) (path : String) :
    Safe checks (fs.findOrCreateInode parent path : Io σ Addr) := by
  refine .bind (.invoke fun _ => trivial) fun parentFd => .bind ?_ fun i => ?_
  · refine .bind (syscall _ _) fun fd => ?_
    exact .bind (.onError (syscall _ _) (closeFd fd)) fun _ => .pure _
  · exact .bind (.invoke fun _ => trivial) fun _ =>
      .bind (doIf (destroyInode i)) fun _ => .pure _

theorem getGeneration (r : InodeRef) : Safe checks (Inode.getGeneration P r : Io σ Nat) := by
  refine .bind (.invoke fun _ => trivial) fun memo => ?_
  cases memo with
  | some v => exact .ofExcept _
  | none =>
      refine .bind (.invoke fun _ => trivial) fun fd => .bind ?_ fun v =>
        .bind (.invoke fun _ => trivial) fun _ => .ofExcept _
      refine .bind (.invoke fun _ => trivial) fun opened => ?_
      cases opened with
      | error e => exact .pure _
      | ok myfd =>
          refine .bind (.invoke fun _ => trivial) fun version => .bind (closeFd myfd) fun _ => ?_
          cases version with
          | error e => exact .pure _
          | ok v => exact .pure _

theorem createFuseEntryParam (fs : PageAlignFS) (inode : Addr) (withGeneration : Bool) :
    Safe checks (fs.createFuseEntryParam inode withGeneration : Io σ EntryParam) := by
  refine .bind (.invoke fun _ => trivial) fun fd => .bind (syscall _ _) fun attr => ?_
  cases withGeneration with
  | false => exact .pure _
  | true => exact .bind (getGeneration _) fun _ => .pure _

/-- `fuse_add_direntry` returns the same size with and without a buffer. -/
theorem addDirEntry (d : FuseDirsBuilder) (name : String) (param : EntryParam) (offset : Int) :
    Safe checks (d.addDirEntry P name param offset : Io σ (Option { d' // d.Grows d' })) := by
  unfold FuseDirsBuilder.addDirEntry
  dsimp only
  split
  · refine .bind (passes ?_) fun _ => .pure _
    rw [P.direntSize_same, beq_self_eq_true]
  · exact .pure _

theorem send (what : String) (reply : Reply) : Safe checks (FuseRequest.send P what reply) := by
  refine .bind .getLocal fun self => ?_
  cases self.req with
  | none => exact .pure ()
  | some req =>
      exact .bind (.invoke fun _ => trivial) fun _ => .bind (.setLocal _) fun _ => .ofExcept _

theorem readDirRound (fs : PageAlignFS) (dirInode : InodeRef) (dir : DirPtr)
    (dirs : FuseDirsBuilder) :
    Safe checks (fs.readDirRound dirInode dir dirs : Io σ (PageAlignFS.ReadDirRound dirs)) := by
  refine .bind (syscall _ _) fun entry => ?_
  cases entry with
  | none => exact .pure _
  | some entry =>
      refine .bind (findOrCreateInode fs dirInode entry.dName) fun inode => ?_
      refine .bind (.onError (.bind (createFuseEntryParam fs inode dirs.plus) fun param =>
        .bind (addDirEntry dirs entry.dName param entry.dOff) fun next => ?_)
        (dropShared inode)) fun next => ?_
      · cases next with
        | none => exact .pure _
        | some next => exact .bind (doIf (ref _ _)) fun _ => .pure _
      · cases next with
        | none => exact .bind (dropShared inode) fun _ => .pure _
        | some next =>
            dsimp only
            split
            · exact .pure _
            · exact .bind (dropShared inode) fun _ => .pure _

/-- The loop never overfills the buffer it will send. -/
theorem readDirLoop (fs : PageAlignFS) (dirInode : InodeRef) (dir : DirPtr) {room : Nat}
    {dirs : FuseDirsBuilder} {inodes : List Addr} (h : dirs.maxsize - dirs.size < room)
    (fits : dirs.size ≤ dirs.maxsize) (s : σ) (l : Unit) :
    Routine.Follows checks (fs.readDirLoop dirInode dir room dirs inodes h) s l fun r _ _ =>
      ∀ d inodes, r = .ok (.ok d, inodes) → d.size ≤ d.maxsize := by
  induction room generalizing dirs inodes s l with
  | zero => exact absurd h (Nat.not_lt_zero _)
  | succ room ih =>
      unfold PageAlignFS.readDirLoop
      rw [Routine.follows_bind, Routine.follows_attempt]
      refine (readDirRound fs dirInode dir dirs s l).mono fun round s' l' _ => ?_
      cases round with
      | error e => exact fun d inodes h => by cases h
      | ok round =>
          cases round with
          | stop =>
              rintro d inodes ⟨⟩
              exact fits
          | added next grows inode => exact ih _ grows.fits s' l'

theorem readDirInternal (fs : PageAlignFS) (dirInode : InodeRef) (size : Nat) (off : Int)
    (fi : FileInfo) (plus : Bool) :
    Safe checks (fs.readDirInternal dirInode size off fi plus) := by
  refine .bind (.invoke fun _ => trivial) fun dir => .bind (.invoke fun _ => trivial) fun _ => ?_
  intro s l
  rw [Routine.follows_bind]
  refine (readDirLoop fs dirInode dir _ (Nat.zero_le _) s l).mono fun r s' l' fits => ?_
  rcases r with st | ⟨listed, inodes⟩
  · trivial
  · refine Safe.andFinally (.onError ?_ (unrefAll inodes)) (dropAllShared inodes) s' l'
    intro s l
    rw [Routine.follows_bind, Routine.follows_ofExcept]
    cases listed with
    | error st => trivial
    | ok d =>
        exact Safe.bind (passes (decide_eq_true (fits d inodes rfl))) (fun _ => send _ _) s l

theorem resized_length (size : Nat) (written : Bytes) (nb : Nat) :
    (Syscalls.resized size written nb).length = nb := by
  simp only [Syscalls.resized, List.length_append, List.length_take, List.length_replicate]
  omega

theorem getXAttr (fs : PageAlignFS) (ino : Addr) (name : String) {size : Nat} (pos : 0 < size) :
    Safe checks (fs.getXAttr ino name size) := by
  refine .bind (.invoke fun _ => trivial) fun _ => .bind (.invoke fun _ => trivial) fun fd => ?_
  intro s l
  rw [Syscalls.getxattr, Routine.follows_bind, Routine.follows_bind, follows_syscall]
  refine ⟨trivial, fun _ _ => trivial, fun r documented => ?_⟩
  have nb : r.nb ≤ size := documented pos
  dsimp only
  rw [decide_eq_true nb, Routine.follows_bind, follows_check]
  refine ⟨fun _ => ?_, fun h => nomatch h⟩
  have length : (Syscalls.resized size r.written r.nb).length ≤ size := by rwa [resized_length]
  exact Safe.bind (passes (decide_eq_true length)) (fun _ => send _ _) s ()

theorem listXAttr (fs : PageAlignFS) (ino : Addr) (size : Nat) :
    Safe checks (fs.listXAttr ino size) := by
  refine .bind (.invoke fun _ => trivial) fun _ => .bind (.invoke fun _ => trivial) fun fd => ?_
  refine .bind (syscall _ _) fun r => .bind (passes ?_) fun _ => send _ _
  simp

theorem poll (fs : PageAlignFS) (ino : Addr) (ph : Option PollPtr) :
    Safe checks (fs.poll ino ph) := by
  refine .bind (.invoke fun _ => trivial) fun _ => .bind ?_ fun _ =>
    .bind (.invoke fun _ => trivial) fun fd => ?_
  · cases ph with
    | none => exact .pure ()
    | some ph =>
        refine .bind (.invoke fun _ => trivial) fun old => ?_
        cases old with
        | none => exact .pure ()
        | some o => exact .invoke fun _ => trivial
  · intro s l
    rw [Routine.follows_bind, Syscalls.poll, follows_syscall]
    refine ⟨trivial, fun _ _ => trivial, fun r documented => ?_⟩
    have ready : r.1 ≤ 1 := documented
    exact Safe.bind (passes (decide_eq_true ready)) (fun _ => send _ _) s ()

theorem replyWithEntry (fs : PageAlignFS) (parent : InodeRef) (name : String)
    {reply : EntryParam → Handler} (h : ∀ param, Safe checks (reply param)) :
    Safe checks (fs.replyWithEntry parent name reply) := by
  refine .bind (findOrCreateInode fs parent name) fun inode => ?_
  refine .andFinally ?_ (dropShared inode)
  refine .bind (.invoke fun _ => trivial) fun _ => .bind (.invoke fun _ => trivial) fun _ => ?_
  split
  · exact .fail _
  · refine .bind (createFuseEntryParam fs inode true) fun param => ?_
    exact .bind (ref _ _) fun _ => .onError (h param) (unref _ _ _)

theorem replyWithLookup (fs : PageAlignFS) (parent : InodeRef) (name : String) :
    Safe checks (fs.replyWithLookup parent name) :=
  replyWithEntry fs parent name fun _ => send _ _

theorem replyWithAttrs (fs : PageAlignFS) (inode : InodeRef) :
    Safe checks (fs.replyWithAttrs inode) :=
  .bind (.invoke fun _ => trivial) fun _ => .bind (syscall _ _) fun _ => send _ _

theorem setAttr (fs : PageAlignFS) (ino : Addr) (attr : Stat) (toSet : Flags) (fi : FileInfo) :
    Safe checks (fs.setAttr ino attr toSet fi) := by
  have on (fd : Fd) : Safe checks (fs.setAttrOn (getInode ino) fd attr toSet) :=
    .bind (doIf (syscall _ _)) fun _ => .bind (doIf (syscall _ _)) fun _ =>
      .bind (doIf (syscall _ _)) fun _ => .bind (doIf (syscall _ _)) fun _ =>
        replyWithAttrs fs _
  refine .bind (.invoke fun _ => trivial) fun _ => ?_
  split
  · exact .bind (.invoke fun _ => trivial) fun _ => .bind (syscall _ _) fun myfd =>
      .andFinally (on myfd) (closeFd myfd)
  · exact on fi.fh

theorem readLink (fs : PageAlignFS) (ino : Addr) : Safe checks (fs.readLink ino) := by
  refine .bind (.invoke fun _ => trivial) fun _ => .bind (.invoke fun _ => trivial) fun _ =>
    .bind (syscall _ _) fun buf => ?_
  split
  · exact .fail _
  · exact send _ _

theorem writeBuf (fs : PageAlignFS) (ino : Addr) (inBuf : FuseBufVec) (off : Int)
    (fi : FileInfo) : Safe checks (fs.writeBuf ino inBuf off fi) := by
  refine .bind (.invoke fun _ => trivial) fun _ => .bind (.invoke fun _ => trivial) fun copied => ?_
  cases copied with
  | error e => exact .fail _
  | ok nb =>
      refine .bind (.attempt (send _ _)) fun ret => .bind (.attempt ?_) fun _ => .ofExcept _
      refine .bind (.invoke fun _ => trivial) fun present => ?_
      cases present with
      | none => exact .pure ()
      | some _ =>
          refine .bind (.invoke fun _ => trivial) fun handle => ?_
          cases handle with
          | none => exact .pure ()
          | some ph => exact .bind (.invoke fun _ => trivial) fun _ => .ofExcept _

theorem forgetMulti (forgets : List ForgetData) :
    Safe checks (PageAlignFS.forgetMulti forgets) := by
  induction forgets with
  | nil => exact .pure ()
  | cons f forgets ih => exact .bind (unref _ _ _) fun _ => ih

theorem syncFd (fs : PageAlignFS) (datasync : Bool) (fd : Fd) :
    Safe checks (fs.syncFd datasync fd : Io σ Unit) := by
  cases datasync with
  | true => exact syscall _ _
  | false => exact syscall _ _

theorem epilogue (finish : Finish) (status : Status) : Safe checks (epilogue P finish status) := by
  rintro ⟨req⟩ l
  cases req with
  | none => rw [Routine.Follows, epilogue_gone]; trivial
  | some req => rw [Routine.Follows, epilogue_owed]; exact ⟨trivial, fun _ _ => trivial⟩

theorem logged {r : InodeRef} {m : Handler} (h : Safe checks m) :
    Safe checks (do
      Routine.invoke (I := calls) (.logInode r)
      m) := .bind (.invoke fun _ => trivial) fun _ => h

theorem withFD {r : InodeRef} {f : Fd → Handler} (h : ∀ fd, Safe checks (f fd)) :
    Safe checks (do
      let fd ← Routine.invoke (I := calls) (.getFD r)
      f fd) := .bind (.invoke fun _ => trivial) h

theorem invocation {fs : PageAlignFS} : {r : Request} → {method : PageAlignFS → Handler} →
    pageAlignFSOps.invocation r = some method → (∀ ino name, r ≠ .getxattr ino name 0) →
    Safe checks (method fs)
  | .lookup .., _, rfl, _ => logged (replyWithLookup fs _ _)
  | .forget .., _, rfl, _ => logged (unref _ _ _)
  | .getattr .., _, rfl, _ => logged (replyWithAttrs fs _)
  | .setattr _ _ _ (some _), _, rfl, _ => setAttr fs _ _ _ _
  | .readlink .., _, rfl, _ => readLink fs _
  | .mknod .., _, rfl, _ => logged (withFD fun _ => .bind (syscall _ _) fun _ =>
      replyWithLookup fs _ _)
  | .mkdir .., _, rfl, _ => logged (withFD fun _ => .bind (syscall _ _) fun _ =>
      replyWithLookup fs _ _)
  | .unlink .., _, rfl, _ => logged (withFD fun _ => syscall _ _)
  | .rmdir .., _, rfl, _ => logged (withFD fun _ => syscall _ _)
  | .symlink .., _, rfl, _ => logged (withFD fun _ => .bind (syscall _ _) fun _ =>
      replyWithLookup fs _ _)
  | .rename .., _, rfl, _ => logged (logged (withFD fun _ => withFD fun _ => syscall _ _))
  | .link .., _, rfl, _ => logged (logged (withFD fun _ => withFD fun _ =>
      .bind (syscall _ _) fun _ => replyWithLookup fs _ _))
  | .open_ _ (some _), _, rfl, _ => logged (withFD fun _ => .bind (syscall _ _) fun fd =>
      .onError (send _ _) (closeFd fd))
  | .read _ _ _ (some _), _, rfl, _ => logged (send _ _)
  | .flush _ (some _), _, rfl, _ => logged (.bind (syscall _ _) fun _ => syscall _ _)
  | .release _ (some _), _, rfl, _ => logged (syscall _ _)
  | .fsync _ _ (some _), _, rfl, _ => logged (syncFd fs _ _)
  | .opendir _ (some _), _, rfl, _ => logged (withFD fun _ => .bind (syscall _ _) fun _ =>
      .bind (syscall _ _) fun _ => .bind (.invoke fun _ => trivial) fun _ => send _ _)
  | .readdir _ _ _ (some _), _, rfl, _ => logged (readDirInternal fs _ _ _ _ _)
  | .releasedir _ (some _), _, rfl, _ => logged (.bind (.invoke fun _ => trivial) fun _ =>
      .bind (.invoke fun _ => trivial) fun _ => .pure ())
  | .fsyncdir _ _ (some _), _, rfl, _ => logged (.bind (.invoke fun _ => trivial) fun _ =>
      .bind (syscall _ _) fun _ => syncFd fs _ _)
  | .statfs .., _, rfl, _ => logged (withFD fun _ => .bind (syscall _ _) fun _ =>
      send _ _)
  | .setxattr .., _, rfl, _ => logged (withFD fun _ => syscall _ _)
  | .getxattr _ _ 0, _, rfl, h => absurd rfl (h _ _)
  | .getxattr _ _ (_ + 1), _, rfl, _ => getXAttr fs _ _ (Nat.succ_pos _)
  | .listxattr .., _, rfl, _ => listXAttr fs _ _
  | .removexattr .., _, rfl, _ => logged (withFD fun _ => syscall _ _)
  | .access .., _, rfl, _ => logged (withFD fun _ => syscall _ _)
  | .create _ _ _ (some _), _, rfl, _ => logged (withFD fun _ => .bind (syscall _ _) fun fd =>
      .onError (replyWithEntry fs _ _ fun _ => send _ _) (closeFd fd))
  | .getlk _ (some _) _, _, rfl, _ => logged (withFD fun _ => .bind (syscall _ _) fun _ =>
      send _ _)
  | .setlk _ (some _) _ _, _, rfl, _ => logged (withFD fun _ => .bind (syscall _ _) fun _ =>
      .pure ())
  | .poll _ (some _) _, _, rfl, _ => poll fs _ _
  | .writeBuf .., _, rfl, _ => writeBuf fs _ _ _ _
  | .forgetMulti .., _, rfl, _ => forgetMulti _
  | .flock _ (some _) _, _, rfl, _ => logged (withFD fun _ => syscall _ _)
  | .fallocate _ _ _ _ (some _), _, rfl, _ => logged (withFD fun _ => syscall _ _)
  | .readdirplus _ _ _ (some _), _, rfl, _ => logged (readDirInternal fs _ _ _ _ _)
  | .copyFileRange _ _ (some _) _ _ (some _) _ _, _, rfl, _ => logged (logged (withFD fun _ =>
      withFD fun _ => .bind (syscall _ _) fun _ => send _ _))
  | .lseek _ _ _ (some _), _, rfl, _ => logged (withFD fun _ => .bind (syscall _ _) fun _ =>
      send _ _)

theorem callback {fs : PageAlignFS} {req : FuseReq} {finish : Finish}
    {method : PageAlignFS → Handler} (h : Safe checks (method fs)) :
    Safe checks (callback P (some fs) req finish method) := by
  intro s l
  rw [Routine.Follows, callback_eq, Prog.follows_bind]
  exact Prog.Follows.mono (h ⟨some req⟩ l) fun p l' _ => epilogue finish p.1 p.2 l'

end Checked

variable {fs : PageAlignFS} {req : FuseReq} {r : Request}

/-- `getxattr(2)` with an empty buffer returns the length of the value. -/
theorem steps_getxattr_probe (fs : PageAlignFS) (req : FuseReq) (ino : Addr) (name : String)
    (fd : Fd) : ∃ handler next, fs.serve req (.getxattr ino name 0) = some handler ∧
      Steps (handler ⟨none⟩) [⟨.logInode (getInode ino), ()⟩, ⟨.getFD (getInode ino), fd⟩,
        ⟨.sys (.getxattr (.procSelfFd fd) name 0), .ok { nb := 1, written := [] }⟩]
        (.call (.abort .getxattrCount) next) :=
  ⟨_, _, rfl, .step _ (.step _ (.step _ (.refl _)))⟩

theorem setattr_null_aborts (fs : PageAlignFS) (req : FuseReq) (ino : Addr) (attr : Stat)
    (toSet : Flags) : ¬ NeverAborts fs req (.setattr ino attr toSet none) := by
  intro never
  have abort := never _ rfl ⟨none⟩ [] .fileInfo _ (fun _ h => nomatch h) (.refl _)
  cases abort

theorem getxattr_probe_aborts (fs : PageAlignFS) (req : FuseReq) (ino : Addr) (name : String) :
    ¬ NeverAborts fs req (.getxattr ino name 0) := by
  intro never
  obtain ⟨handler, next, served, steps⟩ := steps_getxattr_probe fs req ino name 3
  have abort := never handler served _ _ _ _ ?_ steps
  · cases abort
  · intro e he
    simp only [List.mem_cons, List.not_mem_nil, or_false] at he
    obtain rfl | rfl | rfl := he
    · trivial
    · trivial
    · exact fun h => absurd h (Nat.lt_irrefl 0)

theorem never_aborts_iff (infos : none ∈ r.checkedInfos → r.opcode = .setattr) :
    NeverAborts fs req r ↔
      (∀ ino attr toSet, r ≠ .setattr ino attr toSet none) ∧
      ∀ ino name, r ≠ .getxattr ino name 0 := by
  constructor
  · intro never
    constructor
    · rintro ino attr toSet rfl
      exact setattr_null_aborts fs req ino attr toSet never
    · rintro ino name rfl
      exact getxattr_probe_aborts fs req ino name never
  · rintro ⟨notNull, notProbe⟩ handler served s t site next documented steps
    have infos : none ∉ r.checkedInfos := by
      intro null
      have opcode := infos null
      cases r <;> cases opcode
      case setattr ino attr toSet fi =>
          obtain rfl : none = fi := by simpa [Request.checkedInfos] using null
          exact notNull ino attr toSet rfl
    obtain ⟨method, invoked⟩ | null := invocation_or_null served
    · rw [PageAlignFS.serve, asFuseLowLevelOps_of_invocation invoked] at served
      cases served
      have safe : Routine.Safe checks (method fs) := Checked.invocation invoked notProbe
      have follows : Routine.Follows checks
          (callback fs.platform (some fs) req r.opcode.finish method) s () _ :=
        Checked.callback safe s ()
      exact (Prog.Follows.steps follows steps (checks_admits documented ())).1
    · exact absurd null infos

theorem never_aborts_readdirplus : NeverAborts .onLinux ⟨2, .readdirplus⟩
    (.readdirplus FUSE_ROOT_ID 4096 0 (some ⟨0, 4096, false, false⟩)) :=
  (never_aborts_iff (by decide)).mpr ⟨by simp, by simp⟩

/-- `chmod` by path, and `getfattr` asking for the size of a value. -/
theorem chmod_and_getfattr_abort :
    ¬ NeverAborts .onLinux ⟨2, .setattr⟩ (.setattr FUSE_ROOT_ID
      ⟨8, 2, 0o040700, 0, 0, 0, ⟨0, 0⟩, ⟨0, 0⟩⟩ FUSE_SET_ATTR_MODE none) ∧
    ¬ NeverAborts .onLinux ⟨4, .getxattr⟩ (.getxattr FUSE_ROOT_ID "user.comment" 0) :=
  ⟨setattr_null_aborts _ _ _ _ _, getxattr_probe_aborts _ _ _ _⟩

end Pafs
