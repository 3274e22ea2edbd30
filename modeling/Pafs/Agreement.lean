import Pafs.Entries
import Pafs.Paging

/-! Three ways to see a directory: `ReadDir`, `ReadDirPlus` and `Lookup`. The last two fetch
the generation of every file and the first does not, so they agree exactly if all
generations can be had. -/
namespace Pafs
open Resumption Pager

/-- The generation of the file is memoised, or the file is not in the cache and its version
can be fetched: it can be opened for reading and has one. -/
def Obtainable (c : InodeCache) (version : Key → Bool) (k : Key) : Prop :=
  match c.find k with
  | some (_, n) => ∃ v, n.inode.generation = some (.ok v)
  | none => version k = true

/-- A directory of files of any kind; only fetching their versions may fail. -/
def Backing.files (entries : List Dirent) (key : String → Key) (version : Key → Bool) : Backing :=
  .directory entries (fun name => some (key name)) fun k => some (version k)

section Versions
variable {entries : List Dirent} {key : String → Key} {version : Key → Bool} {c : InodeCache} {k : Key}

theorem gives_iff : (Backing.files entries key version).Gives k ↔ version k = true := by
  constructor
  · intro gives
    have notFalse : some (version k) ≠ some false := gives fun name => Option.some_ne_none _
    cases given : version k with
    | true => rfl
    | false => exact absurd (congrArg some given) notFalse
  · intro given _ missing
    have missing : some (version k) = some false := missing
    rw [given] at missing
    cases missing

theorem withholds_iff : (Backing.files entries key version).Withholds k ↔ ¬ version k = true := by
  constructor
  · rintro (fails | missing) given
    · exact fails
    · exact missing (congrArg some given)
  · exact fun missing => .inr fun given => missing (Option.some.inj given)

theorem has_iff : Has (.files entries key version) c k ↔ Obtainable c version k := by
  unfold Has Obtainable
  cases c.find k with
  | some p => exact Iff.rfl
  | none => exact gives_iff

theorem not_obtainable_of_lacks (h : Lacks (.files entries key version) c k) : ¬ Obtainable c version k := by
  unfold Lacks at h
  unfold Obtainable
  cases found : c.find k with
  | some p =>
      rw [found] at h
      rintro ⟨v, given⟩
      obtain ⟨e, missing⟩ := h
      rw [given] at missing
      cases missing
  | none =>
      rw [found] at h
      exact withholds_iff.mp h

/-- What a request adds to the cache tells of the same versions. -/
theorem obtainable_after {d : Key → Nat} {st : Stage} (h : Tracks (.files entries key version) c d st)
    (rest : AtRest st.world.inodes) : Obtainable st.world.inodes version k ↔ Obtainable c version k := by
  unfold Obtainable
  cases found : c.find k with
  | some p =>
      obtain ⟨a, n⟩ := p
      obtain ⟨heap, rfl⟩ := InodeCache.find_eq_some_iff.mp found
      rw [InodeCache.find_eq_some_iff.mpr ⟨h.grown.kept a n heap, rfl⟩]
  | none =>
      cases found' : st.world.inodes.find k with
      | none => rfl
      | some p =>
          obtain ⟨a, n⟩ := p
          obtain ⟨heap, rfl⟩ := InodeCache.find_eq_some_iff.mp found'
          have new : c.heap a = none := by
            by_contra was
            obtain ⟨m, here, -⟩ := h.grown.find_of_old heap was
            rw [found] at here
            cases here
          have explained := h.memos a n heap new
          dsimp only
          cases memo : n.inode.generation with
          | none => exact absurd memo (rest.memos a n heap)
          | some v =>
              rw [memo] at explained
              cases v with
              | ok v => exact ⟨fun _ => gives_iff.mp explained, fun _ => ⟨v, rfl⟩⟩
              | error e =>
                  refine ⟨fun fetched => ?_, fun given => absurd given (withholds_iff.mp explained)⟩
                  obtain ⟨v, same⟩ := fetched
                  cases same

end Versions

theorem Stage.plays_of_admits {B : Backing} {counts : String → Bool} {st : Stage} {t : List (Event calls)}
    (h : (alone B counts).Admits st t) : st.world.Plays counts t := by
  induction t generalizing st with
  | nil => trivial
  | cons e t ih => exact ⟨h.1.1, ih h.2⟩

/-- The state after a request that was handled alone. -/
def World.after (w : World) (counts : String → Bool) (req : FuseReq) (r : Request) (t : List (Event calls)) :
    World := ((w.arrive req r).play counts t).depart r

theorem reach_list {fs : PageAlignFS} {counts : String → Bool} {root : Inode} {pipes : Fd → Bool} {w : World}
    {req : FuseReq} {plus : Bool} {ino : Addr} {size : Nat} {off : Int} {fi : FileInfo} {t : List (Event calls)}
    {ok : World → Label calls (FuseReq × Request) → Prop}
    (run : (daemon fs counts).Reach ok (.initial root pipes) ⟨w, []⟩)
    (send : w.MaySend req (.list plus ino size off fi))
    (exec : Exec (fs.list plus ino size off fi { req := some req }) t (.ok (), { req := none }))
    (plays : (w.arrive req (.list plus ino size off fi)).Plays counts t) :
    (daemon fs counts).Reach (fun _ _ => True) (.initial root pipes)
      ⟨w.after counts req (.list plus ino size off fi) t, []⟩ := by
  have invoked : pageAlignFSOps.invocation (.list plus ino size off fi) =
      some fun fs : PageAlignFS => fs.list plus ino size off fi := by cases plus <;> rfl
  have steps : Exec (callback fs.platform (some fs) req (Request.list plus ino size off fi).opcode.finish
      (fun fs : PageAlignFS => fs.list plus ino size off fi) { req := none }) (t ++ [])
      (.ok (), { req := none }) := by
    rw [callback_eq]
    refine exec.bind ?_
    rw [epilogue_gone]
    exact .refl _
  rw [List.append_nil] at steps
  have starts : (daemon fs counts).starts w (req, .list plus ino size off fi) _ _ :=
    ⟨send, rfl, _, asFuseLowLevelOps_of_invocation invoked, rfl⟩
  exact (run.mono fun _ _ _ => trivial).serve starts steps plays.performs (fun _ => trivial)
    (fun _ _ _ => trivial) fun _ => trivial

section Paging
variable (fs : PageAlignFS) (counts : String → Bool) (B : Backing) (plus : Bool) (ino : Addr) (fi : FileInfo)
  (entries : List Dirent)

/-- A request for the entries after `off` that is handled alone, with room for the next one. -/
structure PageServed (w : World) (off : Int) (size : Nat) (req : FuseReq) (t : List (Event calls))
    (status : Status) : Prop where
  send : w.MaySend req (.list plus ino size off fi)
  opened : w.directories fi.fh.toNat ≠ none
  enough : ∀ e, (following Dirent.dOff 0 entries off).head? = some e → fs.entrySize plus e ≤ size
  exec : ∃ s, Exec (fs.list plus ino size off fi { req := some req }) t (status, s)
  served : (alone B counts).Admits (.start (w.arrive req (.list plus ino size off fi))) t

/-- Paging from a state and an offset on, with the records that were received, until a page
is empty (`true`) or a request fails. -/
inductive Paging : World → Int → List DirRecord → Bool → Prop
  | failed {w : World} {off : Int} {size : Nat} {req : FuseReq} {t : List (Event calls)} {e : Error} :
      PageServed fs counts B plus ino fi entries w off size req t (.error e) → Paging w off [] false
  | ended {w : World} {off : Int} {size : Nat} {req : FuseReq} {t : List (Event calls)} :
      PageServed fs counts B plus ino fi entries w off size req t (.ok ()) →
      listedIn (Trail.ofEvents t).sent = [] → Paging w off [] true
  | more {w : World} {off : Int} {size : Nat} {req : FuseReq} {t : List (Event calls)}
      {records : List DirRecord} {success : Bool} :
      PageServed fs counts B plus ino fi entries w off size req t (.ok ()) →
      listedIn (Trail.ofEvents t).sent ≠ [] →
      Paging (w.after counts req (.list plus ino size off fi) t)
        (offsetAfter off (listedIn (Trail.ofEvents t).sent)) records success →
      Paging w off (listedIn (Trail.ofEvents t).sent ++ records) success

end Paging

section Views
variable {fs : PageAlignFS} {counts : String → Bool} {root : Inode} {pipes : Fd → Bool} {w : World}
  {plus : Bool} {ino : Addr} {fi : FileInfo} {entries : List Dirent} {key : String → Key}
  {version : Key → Bool} {off : Int} {size : Nat} {req : FuseReq} {t : List (Event calls)} {status : Status}

/-- A page is refused only for an entry whose generation is not to be had. -/
theorem PageServed.failure {e : Error} {ok : World → Label calls (FuseReq × Request) → Prop}
    (h : PageServed fs counts (.files entries key version) plus ino fi entries w off size req t (.error e))
    (run : (daemon fs counts).Reach ok (.initial root pipes) ⟨w, []⟩) :
    plus = true ∧ ∃ e ∈ following Dirent.dOff 0 entries off, ¬ Obtainable w.inodes version (key e.dName) := by
  obtain ⟨d, here⟩ := Option.ne_none_iff_exists'.mp h.opened
  obtain ⟨s, exec⟩ := h.exec
  obtain ⟨-, failure⟩ := list_served run here rfl exec h.served
  obtain fails | ⟨more, e, mem, k, denotes, lacks⟩ := (failure _ rfl).1
  · exact fails.elim
  · refine ⟨more, e, mem, ?_⟩
    rw [← denotes _ rfl]
    exact not_obtainable_of_lacks lacks

/-- A page that was sent: what is left after it, and the state it leaves behind. -/
theorem PageServed.success {ok : World → Label calls (FuseReq × Request) → Prop}
    (h : PageServed fs counts (.files entries key version) plus ino fi entries w off size req t (.ok ()))
    (run : (daemon fs counts).Reach ok (.initial root pipes) ⟨w, []⟩) :
    ∃ page, (listedIn (Trail.ofEvents t).sent).map DirRecord.entry = page ∧
      page = fitting (fs.entrySize plus) size (following Dirent.dOff 0 entries off) ∧
      offsetAfter off (listedIn (Trail.ofEvents t).sent) = next Dirent.dOff off page ∧
      (plus = true → ∀ e ∈ page, Obtainable w.inodes version (key e.dName)) ∧
      (daemon fs counts).Reach (fun _ _ => True) (.initial root pipes)
        ⟨w.after counts req (.list plus ino size off fi) t, []⟩ ∧
      ∀ k, Obtainable (w.after counts req (.list plus ino size off fi) t).inodes version k ↔
        Obtainable w.inodes version k := by
  obtain ⟨d, here⟩ := Option.ne_none_iff_exists'.mp h.opened
  obtain ⟨s, exec⟩ := h.exec
  obtain ⟨success, -⟩ := list_served run here rfl exec h.served
  obtain ⟨rfl, records, keys, extra, sent⟩ := success rfl
  have replies := sent.sent
  rw [Stage.run_start] at replies
  have listed : listedIn (Trail.ofEvents t).sent = records := by
    rw [replies]
    exact List.append_nil _
  rw [listed]
  have reached := reach_list run h.send exec (Stage.plays_of_admits h.served)
  refine ⟨_, entries_of_encoded sent.encoded, rfl, offsetAfter_of_encoded sent.encoded off, ?_, reached, ?_⟩
  · intro more e mem
    have names := sent.names.trans (names_of_encoded sent.encoded)
    have named : e.dName ∈ keys.map Prod.fst := by
      rw [names]
      exact List.mem_map_of_mem mem
    obtain ⟨p, listed, name⟩ := List.mem_map.mp named
    have denoted := sent.denoted p (List.mem_append_left _ listed)
    rw [← name, ← denoted.denotes _ rfl]
    exact has_iff.mp (denoted.has more)
  · intro k
    have world : ((alone (.files entries key version) counts).run
        (.start (w.arrive req (.list plus ino size off fi))) t).world.inodes =
        (w.after counts req (.list plus ino size off fi) t).inodes := by
      rw [Stage.run_world]
      rfl
    have stable := obtainable_after (k := k) sent.tracks (by rw [world]; exact atRest_of_reach reached)
    rw [world] at stable
    exact stable

/-- With attributes, paging comes to its end exactly if every generation can be had; without,
it always does. Then everything has been listed. -/
theorem Paging.complete {records : List DirRecord} {success : Bool} {done left : List Dirent}
    {ok : World → Label calls (FuseReq × Request) → Prop} (distinct : (entries.map Dirent.dOff).Nodup)
    (proper : 0 ∉ entries.map Dirent.dOff)
    (h : Paging fs counts (.files entries key version) plus ino fi entries w off records success)
    (run : (daemon fs counts).Reach ok (.initial root pipes) ⟨w, []⟩) (split : entries = done ++ left)
    (now : following Dirent.dOff 0 entries off = left) :
    (success = true ↔ (plus = true → ∀ e ∈ left, Obtainable w.inodes version (key e.dName))) ∧
      (success = true → records.map DirRecord.entry = left) := by
  induction h generalizing ok done left with
  | failed served =>
      obtain ⟨more, e, mem, missing⟩ := served.failure run
      rw [now] at mem
      exact ⟨⟨nofun, fun all => absurd (all more e mem) missing⟩, nofun⟩
  | @ended w off size req t served empty =>
      obtain ⟨page, listed, fill, -⟩ := served.success run
      rw [empty] at listed
      have none : left = [] := by
        rw [← now]
        exact fitting_eq_nil (fill.symm.trans listed.symm) served.enough
      subst none
      exact ⟨⟨fun _ _ => nofun, fun _ => rfl⟩, fun _ => rfl⟩
  | @more w off size req t records success served nonempty paging ih =>
      obtain ⟨page, listed, fill, offset, fetched, reached, stable⟩ := served.success run
      obtain ⟨after, cut⟩ := fitting_prefix (fs.entrySize plus) size (following Dirent.dOff 0 entries off)
      rw [← fill] at cut
      have split' : entries = done ++ page ++ after := by
        rw [List.append_assoc, cut, now]
        exact split
      have now' := following_next distinct proper split' cut.symm
      rw [← offset] at now'
      obtain ⟨goesOn, whole⟩ := ih reached split' now'
      have left_eq : left = page ++ after := now.symm.trans cut.symm
      refine ⟨goesOn.trans (imp_congr_right fun more => ?_), fun succeeded => ?_⟩
      · rw [left_eq]
        simp only [stable, List.forall_mem_append, iff_and_self]
        exact fun _ => fetched more
      · rw [List.map_append, listed, whole succeeded, left_eq]

/-- The parent's device is known as long as the parent is there. -/
theorem device_of_parent {B : Backing} {c : InodeCache} {d : Key → Nat} {st : Stage} {parent : InodeRef}
    {i : Inode} {w : World} {dev : Dev} (at_parent : w.inodeAt parent = some i) (tracks : Tracks B c d st)
    (cache : c = w.inodes) (root : st.world.root.srcDevNum = w.root.srcDevNum)
    (reads : st.world.Reads parent Inode.srcDevNum dev) : dev = i.srcDevNum := by
  subst cache
  cases parent with
  | root =>
      cases at_parent
      exact Eq.trans reads root
  | node a =>
      obtain ⟨n, heap, rfl⟩ := Option.map_eq_some_iff.mp at_parent
      have grown := tracks.grown.kept a n heap
      exact (World.reads_node grown reads :)

/-- `Lookup` of a name in the directory. -/
theorem lookup_iff {name : String} {i : Inode} {s : FuseRequest}
    {ok : World → Label calls (FuseReq × Request) → Prop}
    (run : (daemon fs counts).Reach ok (.initial root pipes) ⟨w, []⟩)
    (parent : w.inodeAt (getInode ino) = some i) (device : (key name).1 = i.srcDevNum)
    (exec : Exec (fs.lookup ino name { req := some req }) t (status, s))
    (served : (alone (.files entries key version) counts).Admits (.start (w.arrive req (.lookup ino name))) t) :
    (status = .ok () ↔ Obtainable w.inodes version (key name)) ∧
      (status = .ok () → ∃ p, (Trail.ofEvents t).sent = [.entry p] ∧
        (w.after counts req (.lookup ino name) t).keyAt p.ino = some (key name)) := by
  have follows : Routine.Follows (alone (.files entries key version) counts) (fs.lookup ino name)
      ⟨some req⟩ (.start (w.arrive req (.lookup ino name))) fun status _ st' =>
        (status = .ok () ↔ Obtainable w.inodes version (key name)) ∧
        (status = .ok () → ∃ p, st'.trail.sent = [.entry p] ∧ st'.world.keyAt p.ino = some (key name)) := by
    unfold PageAlignFS.lookup
    dsimp only
    rw [Routine.follows_bind, Routine.follows_invoke]
    refine ⟨rfl, fun _ _ => ?_⟩
    have tracks : Tracks (.files entries key version) w.inodes 0 (.start (w.arrive req (.lookup ino name))) :=
      tracks_arrive run req _
    refine Alone.follows_replyWithEntry (fun dev => dev = i.srcDevNum) (tracks.congr rfl rfl rfl)
      (atRest_of_reach run) (fun k st' dev tracks root reads => ?_) (fun e s' st' cause _ => ?_)
      fun k st' entered => ?_
    · exact device_of_parent parent tracks rfl root reads
    · obtain fails | ⟨k, denotes, cause⟩ := cause
      · exact fails.elim
      · have same := denotes (key name) rfl
        subst same
        refine ⟨⟨nofun, fun obtainable => ?_⟩, nofun⟩
        obtain lacks | ⟨dev, known, other⟩ := cause
        · exact absurd obtainable (not_obtainable_of_lacks lacks)
        · exact absurd (known.trans device.symm) other
    · have same := entered.denotes (key name) rfl
      subst same
      exact ⟨⟨fun _ => has_iff.mp entered.has, fun _ => rfl⟩, fun _ => entered.sent⟩
  obtain ⟨found, sent⟩ := Prog.Follows.exec follows exec served
  refine ⟨found, fun returned => ?_⟩
  obtain ⟨p, reply, held⟩ := sent returned
  rw [Stage.run_start] at reply
  rw [Stage.run_world] at held
  exact ⟨p, reply, held⟩

/-- If `ReadDir` pages through the directory and lists a name, then `ReadDirPlus` and `Lookup`
agree with it exactly if the generations of all entries can be had. -/
theorem views_agree_iff {records records' : List DirRecord} {success : Bool} {name : String} {i : Inode}
    {s : FuseRequest} {ok : World → Label calls (FuseReq × Request) → Prop}
    (run : (daemon fs counts).Reach ok (.initial root pipes) ⟨w, []⟩)
    (parent : w.inodeAt (getInode ino) = some i)
    (device : ∀ e ∈ entries, (key e.dName).1 = i.srcDevNum)
    (distinct : (entries.map Dirent.dOff).Nodup) (proper : 0 ∉ entries.map Dirent.dOff)
    (plain : Paging fs counts (.files entries key version) false ino fi entries w 0 records true)
    (listed : name ∈ records.map DirRecord.name)
    (attributed : Paging fs counts (.files entries key version) true ino fi entries w 0 records' success)
    (lookup : Exec (fs.lookup ino name { req := some req }) t (status, s))
    (served : (alone (.files entries key version) counts).Admits (.start (w.arrive req (.lookup ino name))) t) :
    (success = true ∧ records'.map DirRecord.name = records.map DirRecord.name ∧ status = .ok () ∧
      ∃ p, (Trail.ofEvents t).sent = [.entry p] ∧
        (w.after counts req (.lookup ino name) t).keyAt p.ino = some (key name)) ↔
    ∀ e ∈ entries, Obtainable w.inodes version (key e.dName) := by
  obtain ⟨-, whole⟩ := plain.complete distinct proper run (List.nil_append entries).symm (if_pos rfl)
  obtain ⟨succeeds, whole'⟩ := attributed.complete distinct proper run (List.nil_append entries).symm
    (if_pos rfl)
  have named : DirRecord.name = Dirent.dName ∘ DirRecord.entry := rfl
  have names : records.map DirRecord.name = entries.map Dirent.dName := by
    rw [named, ← List.map_map, whole rfl]
  rw [names] at listed ⊢
  obtain ⟨e, mem, rfl⟩ := List.mem_map.mp listed
  obtain ⟨found, same⟩ := lookup_iff run parent (device e mem) lookup served
  constructor
  · rintro ⟨succeeded, -⟩
    exact succeeds.mp succeeded rfl
  · intro all
    have succeeded := succeeds.mpr fun _ => all
    have looked := found.mpr (all e mem)
    refine ⟨succeeded, ?_, looked, same looked⟩
    rw [named, ← List.map_map, whole' succeeded]

end Views

/-! A directory with a symbolic link, which cannot be opened for reading. -/

namespace Sample

def linkStat : Stat := ⟨8, 90, 0o120777, 0, 0, 0, ⟨0, 0⟩, ⟨0, 0⟩⟩

def ELOOP : Errno := ⟨40, by decide, by decide⟩

def linkEntries : List Dirent := [⟨"l", 1⟩]

def linkFiles : Backing := .files linkEntries (fun _ => (8, 90)) fun _ => false

/-- The link gets an inode, whose generation cannot be fetched, and is dropped again. -/
def unfetchedEvents : List (Event calls) :=
  [⟨.getFD (.node 4096), (10 : Int)⟩,
    ⟨.sys (.fstatat 10 "" (AT_EMPTY_PATH ||| AT_SYMLINK_NOFOLLOW)), .ok linkStat⟩,
    ⟨.getGeneration (.node 4096), none⟩, ⟨.getFD (.node 4096), (10 : Int)⟩,
    ⟨.sys (.open_ (.procSelfFd 10) (O_RDONLY ||| O_CLOEXEC)), .error ELOOP⟩,
    ⟨.setGeneration (.node 4096) (.error (.openFailed 10 ELOOP)), ()⟩,
    ⟨.dropShared 4096, .dropped (some ⟨10, 90, 8, some (.error (.openFailed 10 ELOOP)), none⟩)⟩,
    ⟨.sys (.close 10 true), .ok ()⟩]

def resolvedEvents : List (Event calls) :=
  [⟨.getFD .root, (4 : Int)⟩,
    ⟨.sys (.openat 4 "l" (O_PATH ||| O_NOFOLLOW ||| O_CLOEXEC) 0), .ok (10 : Int)⟩,
    ⟨.sys (.fstatat 10 "" (AT_EMPTY_PATH ||| AT_SYMLINK_NOFOLLOW)), .ok linkStat⟩,
    ⟨.insert ⟨10, 90, 8, none, none⟩, { addr := 4096, fresh := true }⟩]

def plusEvents : List (Event calls) :=
  [⟨.logInode .root, ()⟩, ⟨.derefDirectory 500, (70 : Nat)⟩, ⟨.seekdir 70 0, ()⟩,
    ⟨.sys (.readdir 70), .ok (some ⟨"l", 1⟩)⟩] ++ resolvedEvents ++ unfetchedEvents

def linkLookupEvents : List (Event calls) :=
  [⟨.logInode .root, ()⟩] ++ resolvedEvents ++
    [⟨.getSourceDevice .root, (8 : Nat)⟩, ⟨.getSourceDevice (.node 4096), (8 : Nat)⟩] ++ unfetchedEvents

def unfetched : Error := VersionError.status linux (.openFailed 10 ELOOP)

theorem exec_linkLookup : Exec (PageAlignFS.onLinux.lookup FUSE_ROOT_ID "l" { req := some lookupTag.1 })
    linkLookupEvents (.error unfetched, { req := some lookupTag.1 }) :=
  .step _ (.step _ (.step _ (.step _ (.step _ (.step _ (.step _ (.step _ (.step _ (.step _ (.step _
    (.step _ (.step _ (.step _ (.step _ (.refl _)))))))))))))))

theorem served_linkLookup : (alone linkFiles countsName).Admits
    (.start (dirOpened.arrive lookupTag.1 (.lookup FUSE_ROOT_ID "l"))) linkLookupEvents :=
  ⟨⟨trivial, trivial⟩, ⟨rfl, trivial⟩, ⟨rfl, trivial⟩, ⟨trivial, fun _ h => by cases h; rfl⟩,
    ⟨⟨_, rfl⟩, trivial⟩, ⟨rfl, trivial⟩, ⟨rfl, trivial⟩, ⟨rfl, trivial⟩,
    ⟨trivial, fun _ h => by cases h; rfl⟩, ⟨rfl, trivial⟩, ⟨rfl, trivial⟩, ⟨trivial, nofun⟩,
    ⟨trivial, trivial⟩, ⟨rfl, trivial⟩, ⟨trivial, trivial⟩, trivial⟩

theorem maySend_list (w : World) (plus : Bool) (off : Int) (req : FuseReq) (fresh : w.pending req = none)
    (opcode : req.opcode = (Request.list plus FUSE_ROOT_ID 200 off directoryInfo).opcode) :
    w.MaySend req (.list plus FUSE_ROOT_ID 200 off directoryInfo) := by
  cases plus <;> exact ⟨fresh, opcode, fun _ h => .inl (List.mem_singleton.mp h), fun _ h => (nomatch h),
    fun _ h => (nomatch h), trivial⟩

/-- `ReadDir` lists the link, and then nothing more. -/
theorem paging_link : Paging .onLinux countsName linkFiles false FUSE_ROOT_ID directoryInfo linkEntries dirOpened
    0 (listedIn (Trail.ofEvents (pageEvents "l" linkStat)).sent ++ []) true := by
  have first : PageServed .onLinux countsName linkFiles false FUSE_ROOT_ID directoryInfo linkEntries dirOpened
      0 200 pageReq (pageEvents "l" linkStat) (.ok ()) := by
    refine ⟨maySend_list _ _ _ _ rfl rfl, nofun, fun e here => ?_, ⟨{ req := none }, ?_⟩, ?_⟩
    · cases here
      decide +kernel
    · exact .step _ (.step _ (.step _ (.step _ (.step _ (.step _ (.step _ (.step _ (.step _ (.step _ (.step _
        (.step _ (.step _ (.step _ (.refl _))))))))))))))
    · exact ⟨⟨trivial, trivial⟩, ⟨fun _ h => Option.some.inj h, trivial⟩, ⟨trivial, trivial⟩,
        ⟨trivial, fun _ h => by cases h; rfl⟩, ⟨rfl, trivial⟩, ⟨rfl, trivial⟩,
        ⟨trivial, fun _ h => by cases h; rfl⟩, ⟨⟨_, rfl⟩, trivial⟩, ⟨rfl, trivial⟩,
        ⟨trivial, fun _ h => by cases h; rfl⟩, ⟨rfl, trivial⟩, ⟨trivial, trivial⟩,
        ⟨trivial, fun _ h => by cases h; rfl⟩, ⟨trivial, trivial⟩, trivial⟩
  have last : PageServed .onLinux countsName linkFiles false FUSE_ROOT_ID directoryInfo linkEntries
      (dirOpened.after countsName pageReq (.list false FUSE_ROOT_ID 200 0 directoryInfo)
        (pageEvents "l" linkStat)) 1 200 pageReq lastPageEvents (.ok ()) := by
    refine ⟨maySend_list _ _ _ _ rfl rfl, nofun, nofun, ⟨{ req := none }, ?_⟩, ?_⟩
    · exact .step _ (.step _ (.step _ (.step _ (.step _ (.refl _)))))
    · exact ⟨⟨trivial, trivial⟩, ⟨fun _ h => Option.some.inj h, trivial⟩, ⟨trivial, trivial⟩,
        ⟨trivial, fun _ h => by cases h; rfl⟩, ⟨trivial, trivial⟩, trivial⟩
  exact .more first nofun (.ended last rfl)

/-- `ReadDirPlus` fails at once. -/
theorem paging_link_plus : Paging .onLinux countsName linkFiles true FUSE_ROOT_ID directoryInfo linkEntries
    dirOpened 0 [] false := by
  have first : PageServed .onLinux countsName linkFiles true FUSE_ROOT_ID directoryInfo linkEntries dirOpened
      0 200 listTag.1 plusEvents (.error unfetched) := by
    refine ⟨maySend_list _ _ _ _ rfl rfl, nofun, fun e here => ?_, ⟨{ req := some listTag.1 }, ?_⟩, ?_⟩
    · cases here
      decide +kernel
    · exact .step _ (.step _ (.step _ (.step _ (.step _ (.step _ (.step _ (.step _ (.step _ (.step _ (.step _
        (.step _ (.step _ (.step _ (.step _ (.step _ (.refl _))))))))))))))))
    · exact ⟨⟨trivial, trivial⟩, ⟨fun _ h => Option.some.inj h, trivial⟩, ⟨trivial, trivial⟩,
        ⟨trivial, fun _ h => by cases h; rfl⟩, ⟨rfl, trivial⟩, ⟨rfl, trivial⟩,
        ⟨trivial, fun _ h => by cases h; rfl⟩, ⟨⟨_, rfl⟩, trivial⟩, ⟨rfl, trivial⟩,
        ⟨trivial, fun _ h => by cases h; rfl⟩, ⟨rfl, trivial⟩, ⟨rfl, trivial⟩, ⟨trivial, nofun⟩,
        ⟨trivial, trivial⟩, ⟨rfl, trivial⟩, ⟨trivial, trivial⟩, trivial⟩
  exact .failed first

/-! A directory with a file, whose version can be read. -/

def fileEntries : List Dirent := [⟨"f", 1⟩]

def plainFiles : Backing := .files fileEntries (fun _ => (8, 77)) fun _ => true

def lastPlusEvents : List (Event calls) :=
  [⟨.logInode .root, ()⟩, ⟨.derefDirectory 500, (70 : Nat)⟩, ⟨.seekdir 70 1, ()⟩,
    ⟨.sys (.readdir 70), .ok none⟩, ⟨.fuseReply listTag.1 (.buf (.dirs true [])), none⟩]

def fileLookupEvents : List (Event calls) :=
  [⟨.logInode .root, ()⟩, ⟨.getFD .root, (4 : Int)⟩,
    ⟨.sys (.openat 4 "f" (O_PATH ||| O_NOFOLLOW ||| O_CLOEXEC) 0), .ok (10 : Int)⟩,
    ⟨.sys (.fstatat 10 "" (AT_EMPTY_PATH ||| AT_SYMLINK_NOFOLLOW)), .ok fileStat⟩,
    ⟨.insert ⟨10, 77, 8, none, none⟩, { addr := 4096, fresh := true }⟩,
    ⟨.getSourceDevice .root, (8 : Nat)⟩, ⟨.getSourceDevice (.node 4096), (8 : Nat)⟩,
    ⟨.getFD (.node 4096), (10 : Int)⟩,
    ⟨.sys (.fstatat 10 "" (AT_EMPTY_PATH ||| AT_SYMLINK_NOFOLLOW)), .ok fileStat⟩,
    ⟨.getGeneration (.node 4096), none⟩, ⟨.getFD (.node 4096), (10 : Int)⟩,
    ⟨.sys (.open_ (.procSelfFd 10) (O_RDONLY ||| O_CLOEXEC)), .ok (11 : Int)⟩,
    ⟨.sys (.ioctl 11 FS_IOC_GETVERSION), .ok (1 : Nat)⟩, ⟨.sys (.close 11 true), .ok ()⟩,
    ⟨.setGeneration (.node 4096) (.ok 1), ()⟩, ⟨.ref (.node 4096) 1, none⟩,
    ⟨.fuseReply ⟨2, .lookup⟩ (.entry ⟨4096, some 1, fileStat, 0, 0⟩), none⟩,
    ⟨.dropShared 4096, .dropped none⟩]

theorem exec_fileLookup : Exec (PageAlignFS.onLinux.lookup FUSE_ROOT_ID "f" { req := some lookupTag.1 })
    fileLookupEvents (.ok (), { req := none }) :=
  .step _ (.step _ (.step _ (.step _ (.step _ (.step _ (.step _ (.step _ (.step _ (.step _ (.step _
    (.step _ (.step _ (.step _ (.step _ (.step _ (.step _ (.step _ (.refl _))))))))))))))))))

theorem served_fileLookup : (alone plainFiles countsName).Admits
    (.start (dirOpened.arrive lookupTag.1 (.lookup FUSE_ROOT_ID "f"))) fileLookupEvents :=
  ⟨⟨trivial, trivial⟩, ⟨rfl, trivial⟩, ⟨rfl, trivial⟩, ⟨trivial, fun _ h => by cases h; rfl⟩,
    ⟨⟨_, rfl⟩, trivial⟩, ⟨rfl, trivial⟩, ⟨rfl, trivial⟩, ⟨rfl, trivial⟩,
    ⟨trivial, fun _ h => by cases h; rfl⟩, ⟨rfl, trivial⟩, ⟨rfl, trivial⟩, ⟨rfl, trivial⟩, ⟨trivial, fun _ _ h => by cases h⟩, ⟨trivial, trivial⟩, ⟨trivial, trivial⟩, ⟨rfl, trivial⟩, ⟨trivial, trivial⟩, ⟨rfl, trivial⟩,
    trivial⟩

theorem paging_file : Paging .onLinux countsName plainFiles false FUSE_ROOT_ID directoryInfo fileEntries dirOpened
    0 (listedIn (Trail.ofEvents (pageEvents "f" fileStat)).sent ++ []) true := by
  have first : PageServed .onLinux countsName plainFiles false FUSE_ROOT_ID directoryInfo fileEntries dirOpened
      0 200 pageReq (pageEvents "f" fileStat) (.ok ()) := by
    refine ⟨maySend_list _ _ _ _ rfl rfl, nofun, fun e here => ?_, ⟨{ req := none }, ?_⟩, ?_⟩
    · cases here
      decide +kernel
    · exact .step _ (.step _ (.step _ (.step _ (.step _ (.step _ (.step _ (.step _ (.step _ (.step _ (.step _
        (.step _ (.step _ (.step _ (.refl _))))))))))))))
    · exact ⟨⟨trivial, trivial⟩, ⟨fun _ h => Option.some.inj h, trivial⟩, ⟨trivial, trivial⟩,
        ⟨trivial, fun _ h => by cases h; rfl⟩, ⟨rfl, trivial⟩, ⟨rfl, trivial⟩,
        ⟨trivial, fun _ h => by cases h; rfl⟩, ⟨⟨_, rfl⟩, trivial⟩, ⟨rfl, trivial⟩,
        ⟨trivial, fun _ h => by cases h; rfl⟩, ⟨rfl, trivial⟩, ⟨trivial, trivial⟩,
        ⟨trivial, fun _ h => by cases h; rfl⟩, ⟨trivial, trivial⟩, trivial⟩
  have last : PageServed .onLinux countsName plainFiles false FUSE_ROOT_ID directoryInfo fileEntries
      (dirOpened.after countsName pageReq (.list false FUSE_ROOT_ID 200 0 directoryInfo)
        (pageEvents "f" fileStat)) 1 200 pageReq lastPageEvents (.ok ()) := by
    refine ⟨maySend_list _ _ _ _ rfl rfl, nofun, nofun, ⟨{ req := none }, ?_⟩, ?_⟩
    · exact .step _ (.step _ (.step _ (.step _ (.step _ (.refl _)))))
    · exact ⟨⟨trivial, trivial⟩, ⟨fun _ h => Option.some.inj h, trivial⟩, ⟨trivial, trivial⟩,
        ⟨trivial, fun _ h => by cases h; rfl⟩, ⟨trivial, trivial⟩, trivial⟩
  exact .more first nofun (.ended last rfl)

theorem paging_file_plus : Paging .onLinux countsName plainFiles true FUSE_ROOT_ID directoryInfo fileEntries
    dirOpened 0 (listedIn (Trail.ofEvents (listEventsOf "f" fileStat)).sent ++ []) true := by
  have first : PageServed .onLinux countsName plainFiles true FUSE_ROOT_ID directoryInfo fileEntries dirOpened
      0 200 listTag.1 (listEventsOf "f" fileStat) (.ok ()) := by
    refine ⟨maySend_list _ _ _ _ rfl rfl, nofun, fun e here => ?_, ⟨{ req := none }, ?_⟩, ?_⟩
    · cases here
      decide +kernel
    · exact .step _ (.step _ (.step _ (.step _ (.step _ (.step _ (.step _ (.step _ (.step _ (.step _ (.step _
        (.step _ (.step _ (.step _ (.step _ (.step _ (.step _ (.step _ (.step _ (.step _ (.refl _))))))))))))))))))))
    · exact ⟨⟨trivial, trivial⟩, ⟨fun _ h => Option.some.inj h, trivial⟩, ⟨trivial, trivial⟩,
        ⟨trivial, fun _ h => by cases h; rfl⟩, ⟨rfl, trivial⟩, ⟨rfl, trivial⟩,
        ⟨trivial, fun _ h => by cases h; rfl⟩, ⟨⟨_, rfl⟩, trivial⟩, ⟨rfl, trivial⟩,
        ⟨trivial, fun _ h => by cases h; rfl⟩, ⟨rfl, trivial⟩, ⟨rfl, trivial⟩, ⟨rfl, trivial⟩, ⟨trivial, fun _ _ h => by cases h⟩, ⟨trivial, trivial⟩, ⟨trivial, trivial⟩, ⟨rfl, trivial⟩,
        ⟨trivial, fun _ h => by cases h; rfl⟩, ⟨trivial, trivial⟩, ⟨rfl, trivial⟩, trivial⟩
  have last : PageServed .onLinux countsName plainFiles true FUSE_ROOT_ID directoryInfo fileEntries
      (dirOpened.after countsName listTag.1 (.list true FUSE_ROOT_ID 200 0 directoryInfo)
        (listEventsOf "f" fileStat)) 1 200 listTag.1 lastPlusEvents (.ok ()) := by
    refine ⟨maySend_list _ _ _ _ rfl rfl, nofun, nofun, ⟨{ req := none }, ?_⟩, ?_⟩
    · exact .step _ (.step _ (.step _ (.step _ (.step _ (.refl _)))))
    · exact ⟨⟨trivial, trivial⟩, ⟨fun _ h => Option.some.inj h, trivial⟩, ⟨trivial, trivial⟩,
        ⟨trivial, fun _ h => by cases h; rfl⟩, ⟨trivial, trivial⟩, trivial⟩
  exact .more first nofun (.ended last rfl)

end Sample

open Sample in
/-- The condition fails for the link; it holds for the file, and the three views agree. -/
theorem views_agree_iff_both : (¬ ∀ e ∈ linkEntries, Obtainable dirOpened.inodes (fun _ => false) (8, 90)) ∧
    ∃ p, (Trail.ofEvents fileLookupEvents).sent = [.entry p] ∧
      (dirOpened.after countsName lookupTag.1 (.lookup FUSE_ROOT_ID "f") fileLookupEvents).keyAt p.ino = some (8, 77) := by
  constructor
  · intro all
    have agree := (views_agree_iff (i := rootInode) reach_dirOpened rfl (fun _ _ => rfl) (by decide) (by decide)
      paging_link List.mem_cons_self paging_link_plus exec_linkLookup served_linkLookup).mpr all
    cases agree.1
  · have all : ∀ e ∈ fileEntries, Obtainable dirOpened.inodes (fun _ => true) (8, 77) := fun _ _ => rfl
    have agree := (views_agree_iff (i := rootInode) reach_dirOpened rfl (fun _ _ => rfl) (by decide) (by decide)
      paging_file List.mem_cons_self paging_file_plus exec_fileLookup served_fileLookup).mpr all
    exact agree.2.2.2

open Sample in
/-- The link is listed by `ReadDir`, and neither by `ReadDirPlus` nor found by `Lookup`. -/
theorem link_seen_by_readdir_only :
    (daemon .onLinux countsName).Reach (fun _ _ => True) mounted ⟨dirOpened, []⟩ ∧ ∃ records,
    Paging .onLinux countsName linkFiles false FUSE_ROOT_ID directoryInfo linkEntries dirOpened 0 records true ∧
    "l" ∈ records.map DirRecord.name ∧
    Paging .onLinux countsName linkFiles true FUSE_ROOT_ID directoryInfo linkEntries dirOpened 0 [] false ∧
    Exec (PageAlignFS.onLinux.lookup FUSE_ROOT_ID "l" { req := some lookupTag.1 }) linkLookupEvents
      (.error unfetched, { req := some lookupTag.1 }) ∧
    (alone linkFiles countsName).Admits (.start (dirOpened.arrive lookupTag.1 (.lookup FUSE_ROOT_ID "l")))
      linkLookupEvents :=
  ⟨reach_dirOpened, _, paging_link, List.mem_cons_self, paging_link_plus, exec_linkLookup, served_linkLookup⟩

end Pafs
