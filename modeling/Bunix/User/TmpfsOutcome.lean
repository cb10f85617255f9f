import Bunix.User.TmpfsSpec

/-! # tmpfs: what became of a request

A request does nothing that could harm a file another client uses, or it removes the name it was
asked to remove, moves the one it was asked to move, or writes to the inode it was asked to write
to. `step_outcome` says so for all of them.
-/
namespace Bunix.User

open Bunix.Lib Function Option

variable {size offset len : U64} {rawOld rawNew : Option Path}

def FileEvent.Harmless : FileEvent → Prop
  | .write _ | .unlink _ | .move .. | .moveTree .. | .close _ => False
  | _ => True

namespace Tmpfs

/-- Changes none of which removes, moves, closes or writes to a file that was there. -/
def Harmless (s s' : Tmpfs) : Prop := ∃ es, Run (fun s e s' => e.Harmless ∧ FileStep s e s') s es s'

/-- The inode whose contents a request changes. -/
def writtenInode (s : Tmpfs) (sender : U64) : TmpfsRequest → Option InodeId
  | .write handle .. | .truncate handle .. =>
    match s.openFromMessage handle sender with
    | some ⟨_, .file g⟩ => (s.inodeOf g).map (·.1)
    | _ => none
  | .truncatePath path .. => ((readPath path).bind s.inodeFind).map (·.1)
  | _ => none

inductive Outcome (s : Tmpfs) (sender : U64) : TmpfsRequest → Tmpfs → Prop
  | harmless {request : TmpfsRequest} {s' : Tmpfs} (h : Harmless s s') : Outcome s sender request s'
  | write {request : TmpfsRequest} {i : InodeId} {s₁ s' : Tmpfs}
      (hi : s.writtenInode sender request = some i) (hq : Quiet s s₁)
      (hs : FileStep s₁ (.write i) s') : Outcome s sender request s'
  | unlink {raw : Option Path} {path : Path} {task : U64} {f : FileId} {s' : Tmpfs}
      (hpath : readPath raw = some path) (hf : s.fileFind path = some f)
      (hs : FileStep s (.unlink f) s') : Outcome s sender (.unlink raw task) s'
  | rmdir {raw : Option Path} {path : Path} {task : U64} {f : FileId} {s' : Tmpfs}
      (hpath : readPath raw = some path) (hf : s.fileFind path = some f)
      (hdir : ∀ i n, s.inodeOf f = some (i, n) → n.type = .directory)
      (hs : FileStep s (.unlink f) s') : Outcome s sender (.rmdir raw task) s'
  | rename {rawOld rawNew : Option Path} {old new : Path} {task flags : U64} {f : FileId}
      {s₁ s₂ s' : Tmpfs} (hold : readPath rawOld = some old) (hnew : readPath rawNew = some new)
      (hf : s.fileFind old = some f) (hne : old ≠ new)
      (hover : s₁ = s ∨ ∃ g, s.fileFind new = some g ∧ FileStep s (.unlink g) s₁) (hq : Quiet s₁ s₂)
      (hmove : s' = s₂ ∨ FileStep s₂ (.move f new) s' ∨ FileStep s₂ (.moveTree f new) s') :
      Outcome s sender (.rename rawOld rawNew task flags) s'
  | close {handle : U64} {o : TmpfsOpen} {s' : Tmpfs} (ho : s.openFrom handle = some o)
      (howner : o.owner = sender) (hs : FileStep s (.close handle) s') :
      Outcome s sender (.close handle) s'

variable {env : TmpfsEnv} {s s' s'' s₁ : Tmpfs} {f g : FileId} {i : InodeId} {x : TmpfsFile}
  {n m : TmpfsInode} {path old new : Path} {raw : Option Path} {sender task handle flags : U64}
  {r : VfsReply} {request : TmpfsRequest}

theorem Harmless.refl (s : Tmpfs) : Harmless s s := ⟨[], .nil s⟩

theorem Harmless.trans (h : Harmless s s') (h' : Harmless s' s'') : Harmless s s'' := by
  obtain ⟨es, hr⟩ := h
  obtain ⟨es', hr'⟩ := h'
  exact ⟨es ++ es', hr.append hr'⟩

theorem Harmless.of_step (h : FileStep s e s') (he : e.Harmless) : Harmless s s' :=
  ⟨[e], .cons ⟨he, h⟩ (.nil s')⟩

theorem Quiet.harmless (h : Quiet s s') : Harmless s s' := .of_step (.quiet h) trivial

theorem Outcome.refl (s : Tmpfs) : Outcome s sender request s := .harmless (.refl s)

theorem readPath_eq (h : readPath raw = some path) : raw = some path :=
  (filter_eq_some_iff.mp h).1

theorem readPath_head (h : readPath raw = some path) : path.head? = some '/' := by
  obtain ⟨-, h⟩ := filter_eq_some_iff.mp h
  simp only [Bool.and_eq_true, beq_iff_eq] at h
  exact h.1

theorem readPath_length (h : readPath raw = some path) : path.length < maxPath := by
  obtain ⟨-, h⟩ := filter_eq_some_iff.mp h
  simp only [Bool.and_eq_true, decide_eq_true_eq] at h
  exact h.2

/-! ## Requests that name a path -/

theorem handleOpen_harmless (h : s.Wf) (sender : U64) (raw : Option Path) :
    Harmless s (s.handleOpen sender raw).2 := by
  have hdir : ∀ path, Harmless s (s.openDir path sender).2 := by
    intro path
    rcases openDir_spec s path sender with hq | ⟨s₁, handle, s', hq, ho, hs⟩
    · exact hq.harmless
    · rw [ho]
      exact hq.harmless.trans (.of_step hs trivial)
  unfold handleOpen
  split
  · exact .refl s
  rename_i path _
  split
  · exact hdir path
  split
  · exact .refl s
  rename_i f hf
  obtain ⟨hl, x, n, hx, -, -, hn, hof, -⟩ := h.of_fileFind hf
  split
  · exact .refl s
  rename_i j k hof'
  rw [hof] at hof'
  cases hof'
  dsimp only
  split
  · exact hdir path
  rename_i htype
  rcases openFile_spec h hl hx hn htype sender with hq | ⟨s₁, handle, s', hq, ho, hs⟩
  · exact hq.harmless
  · rw [ho]
    exact hq.harmless.trans (.of_step hs trivial)

theorem Created.harmless {type result} (h : Created s path type result) : Harmless s result.2.2 := by
  cases h with
  | failed _ hq => exact hq.harmless
  | made hparent hnone hq _ hrefs hdata hsize =>
    exact hq.harmless.trans
      (.of_step (Created.fileStep hparent hnone hq hrefs hdata hsize) trivial)

theorem handleCreate_harmless (h : s.Wf) (raw : Option Path) (task mode : U64) :
    Harmless s (handleCreate env s raw task mode).2 := by
  unfold handleCreate
  split
  · exact .refl s
  split
  · exact .refl s
  split
  · exact (created_fileCreate h _ _ _ _).harmless
  · exact .refl s

theorem handleMkdir_harmless (h : s.Wf) (raw : Option Path) (task mode : U64) :
    Harmless s (handleMkdir env s raw task mode).2 := by
  unfold handleMkdir
  split
  · exact .refl s
  split
  · exact .refl s
  split
  · exact .refl s
  · exact (created_fileCreate h _ _ _ _).harmless

theorem handleMknod_harmless (h : s.Wf) (raw : Option Path) (task type mode : U64) :
    Harmless s (handleMknod env s raw task type mode).2 := by
  unfold handleMknod
  split
  · exact .refl s
  split
  · exact .refl s
  split
  · exact .refl s
  · exact (created_fileCreate h _ _ _ _).harmless

theorem handleSymlink_harmless (h : s.Wf) {rawTarget}
    (hs : handleSymlink env s rawTarget raw task = some (r, s')) : Harmless s s' := by
  unfold handleSymlink at hs
  split at hs
  swap
  · cases hs
    exact .refl _
  rename_i target path _ _
  split at hs
  · cases hs
    exact .refl _
  have hcreated : Created s path (some .symlink) (fileCreate env s path 0o777 (some .symlink) task) :=
    created_fileCreate h path 0o777 (some .symlink) task
  have hwf := hcreated.harmless
  generalize hres : fileCreate env s path 0o777 (some .symlink) task = result at hs hcreated hwf
  cases hcreated with
  | failed _ hq =>
    cases hs
    exact hq.harmless
  | @made s₁ n hparent hnone hq htype hrefs hdata hsize =>
    set s₂ := ((s₁.newInode n).newFile { path, inode := s₁.nextInode }).inserted s₁.nextFile path
    have hx : s₂.file s₁.nextFile = some { path, inode := s₁.nextInode } := update_self ..
    have hn : s₂.inode s₁.nextInode = some n := update_self ..
    have hl : s₁.nextFile ∈ s₂.list := List.mem_cons_self
    have hsymlink : n.type = .symlink := (some.inj htype).symm
    dsimp only at hs
    rw [inodeOf_eq hx hn] at hs
    dsimp only at hs
    split at hs
    · cases hs
    · rename_i m s₃ hr
      cases hs
      obtain ⟨hq₃, -⟩ := resize_spec hr
      refine (hwf.trans hq₃.harmless).trans (.of_step (.discard
        (hq₃.list ▸ hl) ((congrFun hq₃.file _).trans hx) ((congrFun hq₃.inode _).trans hn)
        ?_ rfl) trivial)
      rw [hsymlink]
      decide
    · rename_i m s₃ hr
      cases hs
      obtain ⟨hq₃, hres⟩ := resize_spec hr
      refine (hwf.trans hq₃.harmless).trans (.of_step (.fill
        ((congrFun hq₃.file _).trans hx) rfl
        ((congrFun hq₃.inode _).trans hn) hrefs hres.refs hres.attrs fun hb => ?_) trivial)
      obtain ⟨-, htarget⟩ := filter_eq_some_iff.mp (‹_› : rawTarget.filter _ = some target)
      have hlt : target.length < maxPath := (of_decide_eq_true htarget).2
      have henough := hres.enough hb rfl
      have hlen : (pathBytes target ++ [0]).length = target.length + 1 := by
        simp [pathBytes]
      unfold maxPath at hlt
      rw [hlen, BitVec.toNat_ofNat, Nat.mod_eq_of_lt (by omega)] at henough
      refine ⟨?_, ?_⟩
      · rw [length_overwrite (by omega), BitVec.toNat_ofNat, Nat.mod_eq_of_lt (by omega)]
        omega
      · rw [length_overwrite (by omega)]
        exact (hres.bounded hb).2

theorem harmless_touch (hn : s.inode i = some n) (hrefs : m.refs = n.refs) (htype : m.type = n.type)
    (hdata : m.data = n.data) (hsize : m.size = n.size) : Harmless s (s.setInode i (some m)) :=
  .of_step (.touch hn hrefs htype hdata hsize) trivial

theorem Wf.of_inodeFind (h : s.Wf) (hi : s.inodeFind path = some (i, n)) : s.inode i = some n := by
  obtain ⟨f, hf, hof⟩ := bind_eq_some_iff.mp hi
  obtain ⟨-, x, k, -, -, -, hk, -, hfind⟩ := h.of_fileFind hf
  rw [hi] at hfind
  cases hfind
  exact hk

theorem onInode_harmless (h : s.Wf) {f : InodeId → TmpfsInode → VfsReply × Tmpfs}
    (hf : ∀ i n, s.inode i = some n → Harmless s (f i n).2) : Harmless s (s.onInode raw f).2 := by
  unfold onInode
  split
  · exact .refl s
  split
  · exact .refl s
  split
  · exact .refl s
  · rename_i i n hi
    exact hf i n (h.of_inodeFind hi)

theorem handleReadlink_harmless (h : s.Wf) (outCap : U64) :
    Harmless s (handleReadlink env s raw outCap).2 := by
  refine onInode_harmless h fun i n _ => ?_
  dsimp only
  split
  · exact .refl s
  split
  · exact .refl s
  split <;> exact .refl s

theorem handleUtimens_harmless (h : s.Wf) (flags : U64) (times : Option (U64 × U64)) :
    Harmless s (handleUtimens env s raw task flags times).2 := by
  refine onInode_harmless h fun i n hn => ?_
  split
  · exact .refl s
  split
  · exact .refl s
  · exact harmless_touch hn rfl rfl rfl rfl

theorem handleChmodPath_harmless (h : s.Wf) (mode : U64) :
    Harmless s (handleChmodPath env s raw task mode).2 := by
  unfold handleChmodPath
  split
  · exact .refl s
  split
  · exact .refl s
  rename_i i n hi
  split
  · exact .refl s
  · exact harmless_touch (h.of_inodeFind hi) rfl rfl rfl rfl

theorem handleChownPath_harmless (h : s.Wf) (uid gid : U64) :
    Harmless s (handleChownPath env s raw task uid gid).2 := by
  unfold handleChownPath
  split
  · exact .refl s
  rename_i i n hi
  obtain ⟨path, -, hi⟩ := bind_eq_some_iff.mp hi
  split
  · exact .refl s
  · exact harmless_touch (h.of_inodeFind hi) rfl rfl rfl rfl

theorem handleSetMeta_harmless (h : s.Wf) (stat : Option VfsStat) :
    Harmless s (s.handleSetMeta raw stat).2 := by
  unfold handleSetMeta
  split
  · split
    · exact .refl s
    rename_i i n hi
    split
    · exact .refl s
    · exact harmless_touch (h.of_inodeFind hi) rfl rfl rfl rfl
  · exact .refl s

theorem outcome_setSize {ok} (hi : s.writtenInode sender request = some i)
    (hn : s.inode i = some n) (hsize : s.setSize n size = some (ok, m, s₁)) :
    Outcome s sender request (s₁.setInode i (some m)) := by
  obtain ⟨hq, hrefs, hmeta, hbound⟩ := setSize_spec hsize
  exact .write hi hq (.write ((congrFun hq.inode i).trans hn) hrefs hmeta hbound)

theorem handleTruncatePath_outcome (h : s.Wf)
    (hs : handleTruncatePath env s raw task size = some (r, s')) :
    Outcome s sender (.truncatePath raw task size) s' := by
  unfold handleTruncatePath at hs
  split at hs
  · cases hs
    exact .refl _
  rename_i i n hi
  have hwritten : s.writtenInode sender (.truncatePath raw task size) = some i := by
    show ((readPath raw).bind s.inodeFind).map (·.1) = some i
    rw [hi, map_some]
  obtain ⟨path, -, hi⟩ := bind_eq_some_iff.mp hi
  split at hs
  · cases hs
    exact .refl _
  split at hs
  · cases hs
    exact .refl _
  obtain ⟨⟨ok, m, s₁⟩, hsize, he⟩ := map_eq_some_iff.mp hs
  cases he
  exact outcome_setSize hwritten (h.of_inodeFind hi) hsize

theorem handleUnlink_outcome (h : s.Wf) :
    Outcome s sender (.unlink raw task) (handleUnlink env s raw task).2 := by
  unfold handleUnlink
  split
  · exact .refl s
  rename_i path hpath
  split
  · exact .refl s
  split
  · exact .refl s
  split
  · exact .refl s
  rename_i f hf
  obtain ⟨hl, x, n, hx, -, -, hn, hof, -⟩ := h.of_fileFind hf
  split
  · exact .refl s
  rename_i htype
  refine .unlink hpath hf (.unlink hl hx hn (.inl ?_))
  rw [hof] at htype
  simpa using htype

theorem handleRmdir_outcome (h : s.Wf) :
    Outcome s sender (.rmdir raw task) (handleRmdir env s raw task).2 := by
  unfold handleRmdir
  split
  · exact .refl s
  rename_i path hpath
  split
  · exact .refl s
  split
  · exact .refl s
  split
  · exact .refl s
  rename_i f hf
  obtain ⟨hl, x, n, hx, rfl, -, hn, hof, -⟩ := h.of_fileFind hf
  split
  · exact .refl s
  rename_i htype
  split
  · exact .refl s
  rename_i hempty
  refine .rmdir hpath hf (fun i k hk => ?_) (.unlink hl hx hn (.inr (by simpa using hempty)))
  rw [hk] at htype
  simpa using htype

theorem renameTo_spec (h : s.Wf) (hf : f ∈ s.list) (hx : s.file f = some x)
    (hn : s.inode x.inode = some n) (hroot : s.pathIsRoot x.path = false)
    (hunder : n.type = .directory → pathHasPrefixChild path x.path = false) (hnone : s.index path = none)
    (hslash : path.head? = some '/') (hold : x.path.length < maxPath) (hnew : path.length < maxPath) :
    ∃ s₂, Quiet s s₂ ∧ ((s.renameTo f n.type path).2 = s₂ ∨
      FileStep s₂ (.move f path) (s.renameTo f n.type path).2 ∨
      FileStep s₂ (.moveTree f path) (s.renameTo f n.type path).2) := by
  unfold renameTo
  by_cases htype : n.type = .directory
  · rw [if_pos htype]
    rcases fileMoveSubtreeToPath_spec h hf hx hn htype hroot (hunder htype) hnone hold hnew with
      ⟨-, hq, -⟩ | ⟨-, s₁, s', hq, he, hs⟩
    · exact ⟨_, hq, .inl rfl⟩
    · rw [he]
      exact ⟨s₁, hq, .inr (.inr hs)⟩
  · rw [if_neg htype]
    rcases fileMoveToPath_spec h hf hx path with ⟨hq, -⟩ | ⟨s₁, hq, -, -, he⟩
    · exact ⟨_, hq, .inl rfl⟩
    · rw [he]
      exact ⟨s₁, hq, .inr (.inl (.move (hq.list ▸ hf) ((congrFun hq.file f).trans hx)
        ((congrFun hq.inode _).trans hn) htype hslash ((congrFun hq.index path).trans hnone)))⟩

/-- What a rename checks before it looks up the new path. -/
structure RenameChecks (env : TmpfsEnv) (s : Tmpfs) (task : U64) (old new : Path) (f : FileId)
    (n : TmpfsInode) : Prop where
  rootOld : s.pathIsRoot old = false
  rootNew : s.pathIsRoot new = false
  found : s.fileFind old = some f
  inode : ∃ i, s.inodeFind old = some (i, n)
  ne : old ≠ new
  accessOld : taskCanAccess env task (s.parentFileForPath old) 3 = true
  accessNew : taskCanAccess env task (s.parentFileForPath new) 3 = true
  outside : n.type = .directory → pathHasPrefixChild new old = false

/-- The checks of a file `g` at the new path that is to be replaced. -/
structure ReplaceChecks (s : Tmpfs) (flags : U64) (new : Path) (n : TmpfsInode) (g : FileId)
    (m : TmpfsInode) : Prop where
  found : s.fileFind new = some g
  inode : ∃ i, s.inodeFind new = some (i, m)
  flags : flags &&& 1 = 0
  type : m.type = .directory ↔ n.type = .directory
  empty : m.type = .directory → s.directoryIsEmpty new = true

/-- What a rename of two paths that could be read comes to. -/
inductive Renamed (env : TmpfsEnv) (s : Tmpfs) (task flags : U64) (old new : Path) :
    VfsReply × Tmpfs → Prop
  | rejected {status : U64} (hstatus : status ≠ 0) : Renamed env s task flags old new (.error status, s)
  | unchanged (he : old = new) : Renamed env s task flags old new (.error 0, s)
  | moved {f : FileId} {n : TmpfsInode} (hc : RenameChecks env s task old new f n)
      (hnone : s.fileFind new = none) :
      Renamed env s task flags old new (s.renameTo f n.type new)
  | replaced {f g : FileId} {n m : TmpfsInode} (hc : RenameChecks env s task old new f n)
      (ht : ReplaceChecks s flags new n g m) :
      Renamed env s task flags old new ((s.fileUnlink g).renameTo f n.type new)

theorem renamed_handleRename (h : s.Wf) (hold : readPath rawOld = some old)
    (hnew : readPath rawNew = some new) :
    Renamed env s task flags old new (handleRename env s rawOld rawNew task flags) := by
  unfold handleRename
  rw [hold, hnew]
  dsimp only
  split
  · exact .rejected (by decide)
  rename_i hroots
  simp only [not_or, Bool.not_eq_true] at hroots
  split
  swap
  · exact .rejected (by decide)
  rename_i f i n hf hfind
  split
  · rename_i he
    exact .unchanged he
  rename_i hne
  split
  · exact .rejected (by decide)
  rename_i haccess
  simp only [not_or, Bool.not_eq_false] at haccess
  split
  · exact .rejected (by decide)
  rename_i hout
  have hc : RenameChecks env s task old new f n :=
    ⟨hroots.1, hroots.2, hf, ⟨i, hfind⟩, hne, haccess.1, haccess.2, fun ht => by simpa [ht] using hout⟩
  split
  · rename_i g j m hg hfindg
    split
    · exact .rejected (by decide)
    rename_i hflags
    split
    · exact .rejected (by decide)
    rename_i hisdir
    split
    · exact .rejected (by decide)
    rename_i hnotdir
    split
    · exact .rejected (by decide)
    rename_i hempty
    refine .replaced hc ⟨hg, ⟨j, hfindg⟩, not_not.mp hflags, ?_, fun ht => by simpa [ht] using hempty⟩
    constructor
    · exact fun ht => by_contra fun h0 => hisdir ⟨ht, h0⟩
    · exact fun ht => by_contra fun h0 => hnotdir ⟨h0, ht⟩
  · rename_i hnot
    refine .moved hc ?_
    cases hg : s.fileFind new with
    | none => rfl
    | some g =>
      obtain ⟨-, y, k, -, -, -, -, -, hfindg⟩ := h.of_fileFind hg
      exact absurd hfindg (hnot g _ _ hg)

/-- `t` is `s` with nothing at the path `new`. -/
structure Vacated (s t : Tmpfs) (new : Path) : Prop where
  wf : t.Wf
  roots : t.roots = s.roots
  index : t.index = update s.index new none
  entry : t.entry = update s.entry new none

theorem vacated_self (h : s.Wf) (hnone : s.fileFind new = none) : Vacated s s new where
  wf := h
  roots := rfl
  index := by
    rw [← (h.fileFind new).symm.trans hnone, update_eq_self]
  entry := by
    have he : s.entry new = none := h.entry_none.mpr ((h.fileFind new).symm.trans hnone)
    rw [← he, update_eq_self]

theorem vacated_fileUnlink (h : s.Wf) (hg : s.fileFind new = some g) :
    Vacated s (s.fileUnlink g) new := by
  obtain ⟨hgl, y, -, hy, rfl, -⟩ := h.of_fileFind hg
  exact ⟨h.fileUnlink hgl hy, fileUnlink_roots h hgl hy, index_fileUnlink h hgl hy,
    h.entry_fileUnlink hgl hy⟩

theorem Vacated.index_new (hv : Vacated s s₁ new) : s₁.index new = none := by
  rw [hv.index, update_self]

theorem Vacated.source (hv : Vacated s s₁ new) (h : s.Wf) (hc : RenameChecks env s task old new f n) :
    f ∈ s₁.list ∧ ∃ x m, s₁.file f = some x ∧ x.path = old ∧ s₁.pathIsRoot old = false ∧
      s₁.inode x.inode = some m ∧ m.type = n.type := by
  have hfind : s₁.fileFind old = some f := by
    rw [hv.wf.fileFind, hv.index, update_of_ne hc.ne, ← h.fileFind, hc.found]
  obtain ⟨hl, x, m, hx, rfl, -, hm, -⟩ := hv.wf.of_fileFind hfind
  refine ⟨hl, x, m, hx, rfl, ?_, hm, ?_⟩
  · rw [pathIsRoot, hv.roots]
    exact hc.rootOld
  · obtain ⟨i, hold⟩ := hc.inode
    have he := hv.wf.entry_listed hl hx hm
    rw [hv.entry, update_of_ne hc.ne, Tmpfs.entry, hold] at he
    exact congrArg EntryMeta.type (some.inj he.symm)

theorem handleRename_outcome (h : s.Wf) :
    Outcome s sender (.rename rawOld rawNew task flags) (handleRename env s rawOld rawNew task flags).2 := by
  cases hold : readPath rawOld with
  | none =>
    unfold handleRename
    rw [hold]
    exact .refl s
  | some old =>
    cases hnew : readPath rawNew with
    | none =>
      unfold handleRename
      rw [hold, hnew]
      exact .refl s
    | some new =>
      -- what stands at the old path moves to the new one, where nothing is any more
      have hmove : ∀ {f n s₁}, RenameChecks env s task old new f n → Vacated s s₁ new →
          (s₁ = s ∨ ∃ g, s.fileFind new = some g ∧ FileStep s (.unlink g) s₁) →
          Outcome s sender (.rename rawOld rawNew task flags) (s₁.renameTo f n.type new).2 := by
        intro f n s₁ hc hv hover
        obtain ⟨hl, x, m, hx, rfl, hroot, hm, htype⟩ := hv.source h hc
        rw [← htype]
        obtain ⟨s₂, hq, hmove⟩ := renameTo_spec hv.wf hl hx hm hroot (fun hd => hc.outside (htype ▸ hd))
          hv.index_new (readPath_head hnew) (readPath_length hold) (readPath_length hnew)
        exact .rename hold hnew hc.found hc.ne hover hq hmove
      have hren : Renamed env s task flags old new (handleRename env s rawOld rawNew task flags) :=
        renamed_handleRename h hold hnew
      generalize handleRename env s rawOld rawNew task flags = result at hren
      cases hren with
      | rejected | unchanged => exact .refl s
      | moved hc hnone => exact hmove hc (vacated_self h hnone) (.inl rfl)
      | @replaced _ g _ m hc ht =>
        obtain ⟨hgl, y, k, hy, rfl, -, hk, -, hfind⟩ := h.of_fileFind ht.found
        obtain ⟨j, hj⟩ := ht.inode
        cases hj.symm.trans hfind
        refine hmove hc (vacated_fileUnlink h ht.found) (.inr ⟨g, ht.found, .unlink hgl hy hk ?_⟩)
        exact or_iff_not_imp_left.mpr fun hd => ht.empty (not_not.mp hd)

theorem handleLink_harmless (h : s.Wf) :
    Harmless s (handleLink env s rawOld rawNew task).2 := by
  unfold handleLink
  split
  swap
  · exact .refl s
  rename_i old new _ _
  split
  · exact .refl s
  split
  swap
  · exact .refl s
  rename_i f i n hf hfind
  obtain ⟨hl, x, k, hx, rfl, -, hn, -, hfind'⟩ := h.of_fileFind hf
  rw [hfind] at hfind'
  cases hfind'
  split
  · exact .refl s
  split
  · exact .refl s
  split
  · exact .refl s
  rcases fileLinkToPath_spec h hl hx hn new with ⟨hq, -⟩ | ⟨s₁, s', hq, he, hs⟩
  · exact hq.harmless
  · rw [he]
    exact hq.harmless.trans (.of_step hs trivial)

/-! ## Requests that name a handle -/

theorem inodeOf_eq_some (h : s.inodeOf f = some (i, n)) :
    ∃ x, s.file f = some x ∧ x.inode = i ∧ s.inode i = some n := by
  obtain ⟨x, hx, h⟩ := bind_eq_some_iff.mp h
  obtain ⟨k, hk, he⟩ := map_eq_some_iff.mp h
  cases he
  exact ⟨x, hx, rfl, hk⟩

theorem onHandle_cases {f : InodeId → TmpfsInode → Option (VfsReply × Tmpfs)}
    (hs : s.onHandle sender handle f = some (r, s')) :
    s' = s ∨ ∃ owner g i n, s.openFromMessage handle sender = some ⟨owner, .file g⟩ ∧
      s.inodeOf g = some (i, n) ∧ s.inode i = some n ∧ f i n = some (r, s') := by
  unfold onHandle at hs
  split at hs
  · rename_i owner g ho
    split at hs
    · cases hs
    · rename_i i n hof
      obtain ⟨-, -, -, hn⟩ := inodeOf_eq_some hof
      exact .inr ⟨owner, g, i, n, ho, hof, hn, hs⟩
  · cases hs
    exact .inl rfl

theorem onHandle_eq {c : Prop} [Decidable c] {f : InodeId → TmpfsInode → Option (VfsReply × Tmpfs)}
    {reply : VfsReply} (hf : ∀ i n, f i n = some (r, s') → s' = s)
    (hs : (if c then some (reply, s) else s.onHandle sender handle f) = some (r, s')) : s' = s := by
  split at hs
  · cases hs
    rfl
  · rcases onHandle_cases hs with he | ⟨-, -, i, n, -, -, -, he⟩
    · exact he
    · exact hf i n he

theorem handleStatHandle_eq (hs : s.handleStatHandle sender handle = some (r, s')) : s' = s := by
  unfold handleStatHandle at hs
  split at hs
  · cases hs
    rfl
  rcases onHandle_cases hs with he | ⟨-, -, i, n, -, -, -, he⟩
  · exact he
  · cases he
    rfl

theorem handleRead_eq (hs : handleRead env s sender handle offset len = some (r, s')) :
    s' = s := by
  refine onHandle_eq (fun i n he => ?_) hs
  split at he
  · cases he
    rfl
  · split at he <;> cases he <;> rfl

theorem handleMmapPage_eq
    (hs : handleMmapPage env s sender handle offset len = some (r, s')) : s' = s := by
  refine onHandle_eq (fun i n he => ?_) hs
  split at he
  · cases he
    rfl
  · split at he <;> cases he <;> rfl

theorem writtenInode_handle {owner g}
    (ho : s.openFromMessage handle sender = some ⟨owner, .file g⟩) (hof : s.inodeOf g = some (i, n)) :
    (match s.openFromMessage handle sender with
      | some ⟨_, .file g⟩ => (s.inodeOf g).map (·.1)
      | _ => none) = some i := by
  rw [ho]
  dsimp only
  rw [hof, map_some]

theorem bounded_overwrite {bytes} (hb : n.Bounded)
    (hlen : bytes.length = len.toNat) (hfit : offset.toNat + len.toNat ≤ n.data.length)
    (henough : (offset + len).toNat ≤ n.data.length) :
    ({ n with data := overwrite n.data offset.toNat bytes
              size := maxU64 (offset + len) n.size } : TmpfsInode).Bounded := by
  unfold TmpfsInode.Bounded
  rw [length_overwrite (by omega), toNat_maxU64]
  exact ⟨max_le henough hb.1, hb.2⟩

theorem handleWrite_outcome {payload}
    (hs : handleWrite env s sender handle offset len task payload = some (r, s')) :
    Outcome s sender (.write handle offset len task payload) s' := by
  rcases onHandle_cases hs with rfl | ⟨owner, g, i, n, ho, hof, hn, he⟩
  · exact .refl _
  have hwritten : s.writtenInode sender (.write handle offset len task payload) = some i :=
    writtenInode_handle ho hof
  split at he
  · cases he
    exact .refl _
  split at he
  · cases he
  · rename_i m s₁ hr
    cases he
    exact .harmless (resize_spec hr).1.harmless
  rename_i m s₁ hr
  obtain ⟨hq, hres⟩ := resize_spec hr
  have hn₁ := (congrFun hq.inode i).trans hn
  split at he
  · cases he
    exact .write hwritten hq (.write hn₁ hres.refs hres.attrs hres.bounded)
  split at he
  · cases he
  rename_i hcond
  cases he
  simp only [not_or, ne_eq, not_not, not_lt] at hcond
  exact .write hwritten hq (.write hn₁ hres.refs hres.attrs fun hb =>
    bounded_overwrite (hres.bounded hb) hcond.1 hcond.2 (hres.enough hb rfl))

theorem handleTruncate_outcome (hs : handleTruncate env s sender handle task size = some (r, s')) :
    Outcome s sender (.truncate handle task size) s' := by
  rcases onHandle_cases hs with rfl | ⟨owner, g, i, n, ho, hof, hn, he⟩
  · exact .refl _
  have hwritten : s.writtenInode sender (.truncate handle task size) = some i :=
    writtenInode_handle ho hof
  split at he
  · cases he
    exact .refl _
  obtain ⟨⟨ok, m, s₁⟩, hsize, he⟩ := map_eq_some_iff.mp he
  cases he
  exact outcome_setSize hwritten hn hsize

theorem onAnyHandle_harmless (h : s.Wf) {f : InodeId → TmpfsInode → VfsReply × Tmpfs}
    (hf : ∀ i n, s.inode i = some n → Harmless s (f i n).2)
    (hs : s.onAnyHandle sender handle f = some (r, s')) : Harmless s s' := by
  unfold onAnyHandle at hs
  split at hs
  · split at hs
    · cases hs
      exact .refl _
    · rename_i i n hi
      have := hf i n (h.of_inodeFind hi)
      rwa [some.inj hs] at this
  · rcases onHandle_cases hs with rfl | ⟨-, -, i, n, -, -, hn, he⟩
    · exact .refl _
    · have := hf i n hn
      rwa [some.inj he] at this

theorem handleChmod_harmless (h : s.Wf) {mode}
    (hs : handleChmod env s sender handle task mode = some (r, s')) : Harmless s s' := by
  refine onAnyHandle_harmless h (fun i n hn => ?_) hs
  split
  · exact .refl s
  · exact harmless_touch hn rfl rfl rfl rfl

theorem handleChown_harmless (h : s.Wf) {uid gid}
    (hs : handleChown env s sender handle task uid gid = some (r, s')) : Harmless s s' := by
  refine onAnyHandle_harmless h (fun i n hn => ?_) hs
  split
  · exact .refl s
  · exact harmless_touch hn rfl rfl rfl rfl

theorem handleReaddir_eq (s : Tmpfs) (index max : U64) :
    (handleReaddir env s sender handle index max).2 = s := by
  unfold handleReaddir
  split
  swap
  · rfl
  split
  · rfl
  dsimp only
  split
  · split
    · split
      · rfl
      · split <;> rfl
    · rfl
  · split <;> rfl

theorem openFromMessage_eq_some (h : s.openFromMessage handle sender = some o) :
    s.openFrom handle = some o ∧ o.owner = sender := by
  obtain ⟨ho, howner⟩ := filter_eq_some_iff.mp h
  exact ⟨ho, by simpa using howner⟩

theorem handleClose_outcome (s : Tmpfs) (sender handle : U64) :
    Outcome s sender (.close handle) (s.handleClose sender handle).2 := by
  unfold handleClose
  split
  · exact .refl s
  · rename_i o ho
    obtain ⟨hopen, rfl⟩ := openFromMessage_eq_some ho
    exact .close hopen rfl (.close hopen)

/-! ## Requests of other protocols -/

theorem handleMountRoot_harmless (s : Tmpfs) (raw : Option Path) :
    Harmless s (handleMountRoot env s raw).2 := by
  unfold handleMountRoot
  split
  · exact .refl s
  rename_i path _
  show Harmless s (s.mountRoot env path).2
  unfold mountRoot
  split
  · exact .refl s
  split
  · exact .refl s
  have hq₁ := quiet_alloc s
  split
  · rename_i s₁ halloc
    rw [halloc] at hq₁
    exact hq₁.harmless
  rename_i s₁ halloc
  rw [halloc] at hq₁
  have hq₂ := hq₁.trans (quiet_strDup s₁ path)
  split
  · rename_i s₂ hdup
    rw [hdup] at hq₂
    exact hq₂.harmless
  rename_i s₂ hdup
  rw [hdup] at hq₂
  split
  · exact hq₂.harmless.trans (.of_step .mount trivial)
  · exact hq₂.harmless

theorem Harmless.wf (hs : Harmless s s') (h : s.Wf) : s'.Wf := by
  obtain ⟨es, hr⟩ := hs
  exact hr.invariant (P := Wf) (fun _ _ _ h hs => h.fileStep hs.2) h

theorem mkdirPPath_harmless (h : s.Wf) (mode : U64) (fuel : Nat) (path : Path) :
    Harmless s (mkdirPPath env mode task fuel s path).2 := by
  induction fuel generalizing path with
  | zero => exact .refl s
  | succ fuel ih =>
    unfold mkdirPPath
    split
    · exact .refl s
    split
    · exact .refl s
    split
    · exact .refl s
    split
    · exact .refl s
    rename_i parent _
    have hparent := ih parent
    split
    · rename_i s₁ hrest
      rwa [hrest] at hparent
    · rename_i s₁ hrest
      rw [hrest] at hparent
      exact hparent.trans (created_fileCreate (hparent.wf h) _ _ _ _).harmless

theorem handleMkdirP_harmless (h : s.Wf) (mode : U64) :
    Harmless s (handleMkdirP env s raw mode task).2 := by
  unfold handleMkdirP
  split
  · exact .refl s
  · exact mkdirPPath_harmless h _ _ _

theorem grantVfsCallerTask_harmless (s : Tmpfs) (sender task : U64) :
    Harmless s (s.grantVfsCallerTask sender task).2 := by
  unfold grantVfsCallerTask
  split
  · exact .refl s
  split
  · exact .refl s
  dsimp only
  set s₁ : Tmpfs := { s with grantor := if s.grantor = 0 then sender else s.grantor }
  have hq : Quiet s s₁ := ⟨⟨rfl, rfl, rfl, rfl, rfl, rfl, rfl⟩, rfl⟩
  generalize (if task = 0 then sender else task) = caller
  split
  · exact hq.harmless
  have hq₁ := hq.trans (quiet_alloc s₁)
  split
  · rename_i s₂ halloc
    rw [halloc] at hq₁
    exact hq₁.harmless
  · rename_i s₂ halloc
    rw [halloc] at hq₁
    exact hq₁.harmless.trans (Quiet.harmless ⟨⟨rfl, rfl, rfl, rfl, rfl, rfl, rfl⟩, rfl⟩)

theorem step_outcome (h : s.Wf) (hs : s.step env sender request = some (r, s')) :
    Outcome s sender request s' := by
  unfold step at hs
  split at hs
  · cases hs
    exact .refl _
  have of_some : ∀ {result : VfsReply × Tmpfs}, some result = some (r, s') →
      Outcome s sender request result.2 → Outcome s sender request s' := by
    intro result he ho
    rwa [some.inj he] at ho
  cases request with
  | openPath path => exact of_some hs (.harmless (handleOpen_harmless h sender path))
  | create path task mode => exact of_some hs (.harmless (handleCreate_harmless h path task mode))
  | mkdir path task mode => exact of_some hs (.harmless (handleMkdir_harmless h path task mode))
  | mknod path task type mode => exact of_some hs (.harmless (handleMknod_harmless h path task type mode))
  | symlink target path task => exact .harmless (handleSymlink_harmless h hs)
  | stat path | access path task mask => exact of_some hs (.harmless (onInode_harmless h fun _ _ _ =>
    .refl s))
  | readlink path outCap => exact of_some hs (.harmless (handleReadlink_harmless h outCap))
  | utimens path task flags times =>
    exact of_some hs (.harmless (handleUtimens_harmless h flags times))
  | statHandle handle => exact handleStatHandle_eq hs ▸ .refl _
  | read handle offset len => exact handleRead_eq hs ▸ .refl _
  | mmapPage handle offset len => exact handleMmapPage_eq hs ▸ .refl _
  | write handle offset len task payload => exact handleWrite_outcome hs
  | truncatePath path task size => exact handleTruncatePath_outcome h hs
  | truncate handle task size => exact handleTruncate_outcome hs
  | chmodPath path task mode => exact of_some hs (.harmless (handleChmodPath_harmless h mode))
  | chmod handle task mode => exact .harmless (handleChmod_harmless h hs)
  | chownPath path task uid gid => exact of_some hs (.harmless (handleChownPath_harmless h uid gid))
  | chown handle task uid gid => exact .harmless (handleChown_harmless h hs)
  | unlink path task => exact of_some hs (handleUnlink_outcome h)
  | rmdir path task => exact of_some hs (handleRmdir_outcome h)
  | rename oldPath newPath task flags => exact of_some hs (handleRename_outcome h)
  | link oldPath newPath task => exact of_some hs (.harmless (handleLink_harmless h))
  | readdir handle index max =>
    refine of_some hs ?_
    rw [handleReaddir_eq]
    exact .refl s
  | close handle => exact of_some hs (handleClose_outcome s sender handle)
  | mountRoot path => exact of_some hs (.harmless (handleMountRoot_harmless s path))
  | mkdirP path mode task => exact of_some hs (.harmless (handleMkdirP_harmless h mode))
  | setMeta path stat => exact of_some hs (.harmless (handleSetMeta_harmless h stat))
  | grantSubject task => exact of_some hs (.harmless (grantVfsCallerTask_harmless s sender task))

theorem wf_init (allocs : Nat → Bool) : (init allocs).Wf where
  nodup := List.nodup_nil
  listed := fun f hf => by cases hf
  indexed := fun p f hi => by cases hi
  inodes := fun f x hx => by cases hx
  refs := fun i n hn => by cases hn
  file_lt := fun f x hx => by cases hx
  inode_lt := fun i n hn => by cases hn

/-- Everything is permitted and succeeds. -/
def openEnv : TmpfsEnv where
  canAccess := fun _ _ _ _ _ => true
  geteuid := fun _ => some 0
  getegid := fun _ => some 0
  now := 0
  buffer := true
  bufferWrite := true
  mounted := true

end Tmpfs

end Bunix.User
