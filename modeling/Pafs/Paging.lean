import Pafs.Listing

/-! Reading a directory by a sequence of requests on one handle, each of which goes on at
the offset of the last entry that was received. -/
namespace Pafs
open Resumption Pager

/-- A directory that does not change, read while no call fails but those that fetch the
version of a file. -/
def Backing.directory (entries : List Dirent) (key : String → Option Key) (version : Key → Option Bool) :
    Backing where
  following _ off := some (Pager.following Dirent.dOff 0 entries off)
  key := key
  fails := False
  version := version

/-- The entry that a record stands for. -/
def DirRecord.entry (r : DirRecord) : Dirent := ⟨r.name, r.offset⟩

/-- The records in the replies to a request. -/
def listedIn (sent : List Reply) : List DirRecord :=
  sent.flatMap fun
    | .buf (.dirs _ records) => records
    | _ => []

/-- The offset to go on at. -/
def offsetAfter (off : Int) (records : List DirRecord) : Int := (records.getLast?.map DirRecord.offset).getD off

theorem entries_of_encoded {fs : PageAlignFS} {plus : Bool} {es : List Dirent} {records : List DirRecord}
    (h : List.Forall₂ (fun e r => r = fs.encode plus r.param e) es records) :
    records.map DirRecord.entry = es := by
  induction h with
  | nil => rfl
  | @cons e r es records same _ ih =>
      rw [List.map_cons, ih, same]
      rfl

theorem offsetAfter_of_encoded {fs : PageAlignFS} {plus : Bool} {es : List Dirent} {records : List DirRecord}
    (h : List.Forall₂ (fun e r => r = fs.encode plus r.param e) es records) (off : Int) :
    offsetAfter off records = next Dirent.dOff off es := by
  have offsets : DirRecord.offset = Dirent.dOff ∘ DirRecord.entry := rfl
  unfold offsetAfter next
  rw [offsets, ← Option.map_map, ← List.getLast?_map, entries_of_encoded h]

section Session
variable (fs : PageAlignFS) (counts : String → Bool) (root : Inode) (pipes : Fd → Bool) (plus : Bool)
  (ino : Addr) (fi : FileInfo) (entries : List Dirent)

/-- Requests for the entries after `off`, with what was returned and what was sent for each
of them. Every one is handled in some state in which the handle is open; no call fails, and
none of those whose outcome was memoised has failed. -/
inductive Session : Int → List (Status × List Reply) → Prop
  | idle (off : Int) : Session off []
  | request {off : Int} {size : Nat} {w : World} {req : FuseReq} {t : List (Event calls)} {status : Status}
      {s : FuseRequest} {answers : List (Status × List Reply)}
      {ok : World → Label calls (FuseReq × Request) → Prop} :
      (daemon fs counts).Reach ok (.initial root pipes) ⟨w, []⟩ →
      w.directories fi.fh.toNat ≠ none →
      (plus = true → ∀ a n e, w.inodes.heap a = some n → n.inode.generation ≠ some (.error e)) →
      (∀ e, (following Dirent.dOff 0 entries off).head? = some e → fs.entrySize plus e ≤ size) →
      Exec (fs.list plus ino size off fi { req := some req }) t (status, s) →
      (alone (.directory entries (fun _ => none) fun _ => some true) counts).Admits
        (.start (w.arrive req (.list plus ino size off fi))) t →
      Session (offsetAfter off (listedIn (Trail.ofEvents t).sent)) answers →
      Session off ((status, (Trail.ofEvents t).sent) :: answers)

variable {fs counts root pipes plus ino fi entries}

/-- A listing can fail only for a version that is not there. -/
theorem listed_of_served {B : Backing} {off : Int} {size : Nat} {w : World} {req : FuseReq}
    {t : List (Event calls)} {status : Status} {s : FuseRequest} {es : List Dirent}
    {ok : World → Label calls (FuseReq × Request) → Prop}
    (run : (daemon fs counts).Reach ok (.initial root pipes) ⟨w, []⟩)
    (opened : w.directories fi.fh.toNat ≠ none) (stream : ∀ d, B.following d off = some es)
    (listable : ¬ Unlisted B w.inodes plus es)
    (exec : Exec (fs.list plus ino size off fi { req := some req }) t (status, s))
    (served : (alone B counts).Admits (.start (w.arrive req (.list plus ino size off fi))) t) :
    status = .ok () ∧ ∃ records keys extra,
      Sent B w.inodes fs plus size es (.start (w.arrive req (.list plus ino size off fi))) records keys extra
        ((alone B counts).run (.start (w.arrive req (.list plus ino size off fi))) t) ∧
      (Trail.ofEvents t).sent = [.buf (.dirs plus records)] := by
  obtain ⟨d, here⟩ := Option.ne_none_iff_exists'.mp opened
  obtain ⟨success, failure⟩ := list_served run here (stream d) exec served
  cases status with
  | error e => exact absurd (failure e rfl).1 listable
  | ok _ =>
      obtain ⟨-, records, keys, extra, sent⟩ := success rfl
      have replies := sent.sent
      rw [Stage.run_start] at replies
      exact ⟨rfl, records, keys, extra, sent, replies⟩

/-- Every request of a session is answered with a page of the directory. -/
theorem Session.pages {off : Int} {answers : List (Status × List Reply)}
    (h : Session fs counts root pipes plus ino fi entries off answers) :
    ∃ pages : List (List DirRecord), answers = pages.map (fun records => (.ok (), [.buf (.dirs plus records)])) ∧
      Pages Dirent.dOff 0 entries (fs.entrySize plus) off (pages.map (List.map DirRecord.entry)) := by
  induction h with
  | idle off => exact ⟨[], rfl, .none off⟩
  | @request off size w req t status s answers ok run opened fetched enough exec served session ih =>
      obtain ⟨pages, rfl, tiled⟩ := ih
      have listable : ¬ Unlisted (.directory entries (fun _ => none) fun _ => some true) w.inodes plus
          (following Dirent.dOff 0 entries off) := by
        rintro (fails | ⟨more, e, -, k, -, lacks⟩)
        · exact fails
        · unfold Lacks at lacks
          split at lacks
          · next a n found =>
              obtain ⟨e, failed⟩ := lacks
              exact fetched more a n e (InodeCache.find_eq_some_iff.mp found).1 failed
          · exact lacks.elim id fun missing => missing rfl
      obtain ⟨rfl, records, keys, extra, sent, replies⟩ :=
        listed_of_served run opened (fun _ => rfl) listable exec served
      refine ⟨records :: pages, ?_, ?_⟩
      · rw [replies, List.map_cons]
      · rw [replies] at tiled
        have listed : listedIn [.buf (.dirs plus records)] = records := List.append_nil _
        rw [listed, offsetAfter_of_encoded sent.encoded] at tiled
        rw [List.map_cons, entries_of_encoded sent.encoded]
        exact .page enough tiled

/-- Paging lists every entry once, in order and with its own offset; an empty page comes
when all have been listed, and only then. -/
theorem paging_complete {answers : List (Status × List Reply)} (distinct : (entries.map Dirent.dOff).Nodup)
    (proper : 0 ∉ entries.map Dirent.dOff) (session : Session fs counts root pipes plus ino fi entries 0 answers) :
    ∃ pages : List (List DirRecord), answers = pages.map (fun records => (.ok (), [.buf (.dirs plus records)])) ∧
      pages.flatten.map DirRecord.entry <+: entries ∧
      (∀ before after, pages = before ++ [] :: after → before.flatten.map DirRecord.entry = entries) ∧
      (entries.length < pages.length → [] ∈ pages) := by
  obtain ⟨pages, replies, tiled⟩ := session.pages
  obtain ⟨listed, whole, few⟩ := tiled.tile distinct proper (List.nil_append entries).symm (if_pos rfl)
  refine ⟨pages, replies, ?_, fun before after empty => ?_, fun many => ?_⟩
  · rw [List.map_flatten]
    exact listed
  · rw [List.map_flatten]
    refine whole _ (after.map (List.map DirRecord.entry)) ?_
    rw [empty, List.map_append]
    rfl
  · by_contra full
    refine absurd (few fun empty => ?_) (by rw [List.length_map]; exact Nat.not_le.mpr many)
    obtain ⟨page, mem, none⟩ := List.mem_map.mp empty
    rw [List.map_eq_nil_iff] at none
    exact full (none ▸ mem)

end Session

namespace Sample

def directoryInfo : FileInfo := ⟨0, 500, false, false⟩

def pageReq : FuseReq := ⟨5, .readdir⟩

/-- The first page of a directory with a single entry. -/
def pageEvents (name : String) (st : Stat) : List (Event calls) :=
  [⟨.logInode .root, ()⟩, ⟨.derefDirectory 500, (70 : Nat)⟩, ⟨.seekdir 70 0, ()⟩,
    ⟨.sys (.readdir 70), .ok (some ⟨name, 1⟩)⟩, ⟨.getFD .root, (4 : Int)⟩,
    ⟨.sys (.openat 4 name (O_PATH ||| O_NOFOLLOW ||| O_CLOEXEC) 0), .ok (10 : Int)⟩,
    ⟨.sys (.fstatat 10 "" (AT_EMPTY_PATH ||| AT_SYMLINK_NOFOLLOW)), .ok st⟩,
    ⟨.insert ⟨10, st.stIno, st.stDev, none, none⟩, { addr := 4096, fresh := true }⟩,
    ⟨.getFD (.node 4096), (10 : Int)⟩,
    ⟨.sys (.fstatat 10 "" (AT_EMPTY_PATH ||| AT_SYMLINK_NOFOLLOW)), .ok st⟩,
    ⟨.dropShared 4096, .dropped (some ⟨10, st.stIno, st.stDev, none, none⟩)⟩, ⟨.sys (.close 10 true), .ok ()⟩,
    ⟨.sys (.readdir 70), .ok none⟩,
    ⟨.fuseReply pageReq (.buf (.dirs false
      [⟨name, ⟨4096, none, st, 0, 0⟩, 1, linux.direntSize false name 0⟩])), none⟩]

def lastPageEvents : List (Event calls) :=
  [⟨.logInode .root, ()⟩, ⟨.derefDirectory 500, (70 : Nat)⟩, ⟨.seekdir 70 1, ()⟩,
    ⟨.sys (.readdir 70), .ok none⟩, ⟨.fuseReply pageReq (.buf (.dirs false [])), none⟩]

/-- A directory in which "g" is another name of the file "f". -/
def names : List Dirent := [⟨"f", 1⟩, ⟨"g", 2⟩, ⟨"h", 3⟩]

/-- An entry is read, its inode is looked at and put down again. -/
def rowEvents (e : Dirent) (st : Stat) : List (Event calls) :=
  [⟨.sys (.readdir 70), .ok (some e)⟩, ⟨.getFD .root, (4 : Int)⟩,
    ⟨.sys (.openat 4 e.dName (O_PATH ||| O_NOFOLLOW ||| O_CLOEXEC) 0), .ok (10 : Int)⟩,
    ⟨.sys (.fstatat 10 "" (AT_EMPTY_PATH ||| AT_SYMLINK_NOFOLLOW)), .ok st⟩,
    ⟨.insert ⟨10, st.stIno, st.stDev, none, none⟩, { addr := 4096, fresh := true }⟩,
    ⟨.getFD (.node 4096), (10 : Int)⟩,
    ⟨.sys (.fstatat 10 "" (AT_EMPTY_PATH ||| AT_SYMLINK_NOFOLLOW)), .ok st⟩,
    ⟨.dropShared 4096, .dropped (some ⟨10, st.stIno, st.stDev, none, none⟩)⟩, ⟨.sys (.close 10 true), .ok ()⟩]

def pageSeekEvents (off : Int) : List (Event calls) :=
  [⟨.logInode .root, ()⟩, ⟨.derefDirectory 500, (70 : Nat)⟩, ⟨.seekdir 70 off, ()⟩]

def rowRecord (e : Dirent) (st : Stat) : DirRecord :=
  ⟨e.dName, ⟨4096, none, st, 0, 0⟩, e.dOff, linux.direntSize false e.dName 0⟩

/-- There is no room for the third entry. -/
def firstPage : List (Event calls) :=
  pageSeekEvents 0 ++ rowEvents ⟨"f", 1⟩ fileStat ++ rowEvents ⟨"g", 2⟩ fileStat ++ rowEvents ⟨"h", 3⟩ otherStat ++
    [⟨.fuseReply pageReq (.buf (.dirs false [rowRecord ⟨"f", 1⟩ fileStat, rowRecord ⟨"g", 2⟩ fileStat])), none⟩]

def secondPage : List (Event calls) :=
  pageSeekEvents 2 ++ rowEvents ⟨"h", 3⟩ otherStat ++ [⟨.sys (.readdir 70), .ok none⟩,
    ⟨.fuseReply pageReq (.buf (.dirs false [rowRecord ⟨"h", 3⟩ otherStat])), none⟩]

def thirdPage : List (Event calls) :=
  pageSeekEvents 3 ++ [⟨.sys (.readdir 70), .ok none⟩, ⟨.fuseReply pageReq (.buf (.dirs false [])), none⟩]

theorem session_names : Session .onLinux countsName rootInode (fun _ => false) false FUSE_ROOT_ID directoryInfo
    names 0 [(.ok (), (Trail.ofEvents firstPage).sent), (.ok (), (Trail.ofEvents secondPage).sent),
      (.ok (), (Trail.ofEvents thirdPage).sent)] := by
  have first : Exec (PageAlignFS.onLinux.list false FUSE_ROOT_ID 70 0 directoryInfo { req := some pageReq })
      firstPage (.ok (), { req := none }) :=
    .step _ (.step _ (.step _ (.step _ (.step _ (.step _ (.step _ (.step _ (.step _ (.step _ (.step _
      (.step _ (.step _ (.step _ (.step _ (.step _ (.step _ (.step _ (.step _ (.step _ (.step _ (.step _
      (.step _ (.step _ (.step _ (.step _ (.step _ (.step _ (.step _ (.step _ (.step _
      (.refl _)))))))))))))))))))))))))))))))
  have second : Exec (PageAlignFS.onLinux.list false FUSE_ROOT_ID 70 2 directoryInfo { req := some pageReq })
      secondPage (.ok (), { req := none }) :=
    .step _ (.step _ (.step _ (.step _ (.step _ (.step _ (.step _ (.step _ (.step _ (.step _ (.step _
      (.step _ (.step _ (.step _ (.refl _))))))))))))))
  have third : Exec (PageAlignFS.onLinux.list false FUSE_ROOT_ID 70 3 directoryInfo { req := some pageReq })
      thirdPage (.ok (), { req := none }) :=
    .step _ (.step _ (.step _ (.step _ (.step _ (.refl _)))))
  refine .request reach_dirOpened nofun nofun ?_ first ?_ ?_
  · intro e here
    cases here
    decide +kernel
  · exact ⟨⟨trivial, trivial⟩, ⟨fun _ h => Option.some.inj h, trivial⟩, ⟨trivial, trivial⟩,
      ⟨trivial, fun _ h => by cases h; rfl⟩, ⟨rfl, trivial⟩, ⟨rfl, trivial⟩, ⟨trivial, nofun⟩,
      ⟨⟨_, rfl⟩, trivial⟩, ⟨rfl, trivial⟩, ⟨trivial, nofun⟩, ⟨rfl, trivial⟩, ⟨trivial, trivial⟩,
      ⟨trivial, fun _ h => by cases h; rfl⟩, ⟨rfl, trivial⟩, ⟨rfl, trivial⟩, ⟨trivial, nofun⟩,
      ⟨⟨_, rfl⟩, trivial⟩, ⟨rfl, trivial⟩, ⟨trivial, nofun⟩, ⟨rfl, trivial⟩, ⟨trivial, trivial⟩,
      ⟨trivial, fun _ h => by cases h; rfl⟩, ⟨rfl, trivial⟩, ⟨rfl, trivial⟩, ⟨trivial, nofun⟩,
      ⟨⟨_, rfl⟩, trivial⟩, ⟨rfl, trivial⟩, ⟨trivial, nofun⟩, ⟨rfl, trivial⟩, ⟨trivial, trivial⟩,
      ⟨trivial, trivial⟩, trivial⟩
  · refine .request reach_dirOpened nofun nofun ?_ second ?_ ?_
    · intro e here
      cases here
      decide +kernel
    · exact ⟨⟨trivial, trivial⟩, ⟨fun _ h => Option.some.inj h, trivial⟩, ⟨trivial, trivial⟩,
        ⟨trivial, fun _ h => by cases h; rfl⟩, ⟨rfl, trivial⟩, ⟨rfl, trivial⟩, ⟨trivial, nofun⟩,
        ⟨⟨_, rfl⟩, trivial⟩, ⟨rfl, trivial⟩, ⟨trivial, nofun⟩, ⟨rfl, trivial⟩, ⟨trivial, trivial⟩,
        ⟨trivial, fun _ h => by cases h; rfl⟩, ⟨trivial, trivial⟩, trivial⟩
    · refine .request reach_dirOpened nofun nofun nofun third ?_ (.idle _)
      exact ⟨⟨trivial, trivial⟩, ⟨fun _ h => Option.some.inj h, trivial⟩, ⟨trivial, trivial⟩,
        ⟨trivial, fun _ h => by cases h; rfl⟩, ⟨trivial, trivial⟩, trivial⟩

end Sample

open Sample in
/-- Three requests: the first page is cut before the third entry, the second has that entry, and
the third is empty, so everything has been listed. -/
theorem paging_complete_names : ∃ pages : List (List DirRecord), pages.length = 3 ∧
    pages.flatten.map DirRecord.entry <+: names ∧
    ∀ before after, pages = before ++ [] :: after → before.flatten.map DirRecord.entry = names := by
  obtain ⟨pages, replies, listed, whole, -⟩ := paging_complete (by decide) (by decide) session_names
  have length := congrArg List.length replies
  rw [List.length_map] at length
  exact ⟨pages, length.symm, listed, whole⟩

end Pafs
