import Bunix.User.TmpfsBytes
import Bunix.User.TmpfsTree

/-! # tmpfs: renaming

A rename that succeeds takes the names at and below the old path to the new one, each with the
inode it leads to, and leaves all others. The file that stood at the new path is unlinked before
the move is tried, so that a move that fails then has removed it: `CanMove` says when it cannot fail.
-/
namespace Bunix.User

open Bunix.Lib Function SlashPath NameTree List Prod

variable {rawOld rawNew : Option Path}

namespace Tmpfs

variable {env : TmpfsEnv} {s s' s₁ s₂ : Tmpfs} {f g : FileId} {i : InodeId} {x y : TmpfsFile}
  {n m : TmpfsInode} {p q old new path : Path} {sender task flags : U64} {r : VfsReply}

/-! ## The paths of the files -/

theorem setPath_file_self (hx : s.file f = some x) : (s.setPath f p).file f = some { x with path := p } := by
  rw [setPath_eq hx]
  exact setFile_file_self _

theorem setPath_file_ne (hg : g ≠ f) : (s.setPath f p).file g = s.file g := by
  unfold setPath
  split
  · rfl
  · exact setFile_file_ne hg _

theorem filesInsertFile_file (s : Tmpfs) (f : FileId) : (s.filesInsertFile f).2.file = s.file := by
  unfold filesInsertFile
  split
  · rfl
  split
  · rfl
  split
  · rfl
  · split
    · rfl
    · split <;> rfl

theorem insertMoved_file (ms : List (FileId × Path)) (hfiles : (ms.map fst).Nodup)
    (hok : (insertMoved ms s).1 = true) :
    (∀ g, g ∉ ms.map fst → (insertMoved ms s).2.file g = s.file g) ∧
      ∀ g p y, (g, p) ∈ ms → s.file g = some y →
        (insertMoved ms s).2.file g = some { y with path := p } := by
  induction ms generalizing s with
  | nil => exact ⟨fun g _ => rfl, fun g p y hg => by cases hg⟩
  | cons fp ms ih =>
    obtain ⟨f, p⟩ := fp
    rw [map_cons, nodup_cons] at hfiles
    have hinsert := filesInsertFile_file (s.setPath f p) f
    unfold insertMoved at hok ⊢
    cases hi : (s.setPath f p).filesInsertFile f with
    | mk result s₁ =>
      rw [hi] at hok hinsert
      cases result with
      | failed | exists_ => cases hok
      | ok =>
        obtain ⟨hother, hmoved⟩ := ih hfiles.2 hok
        have hfile : s₁.file = (s.setPath f p).file := hinsert
        refine ⟨fun g hg => ?_, fun g q y hg hy => ?_⟩
        · rw [map_cons, mem_cons, not_or] at hg
          exact (hother g hg.2).trans ((congrFun hfile g).trans (setPath_file_ne hg.1))
        · rcases mem_cons.mp hg with he | hg
          · cases he
            exact (hother f hfiles.1).trans ((congrFun hfile f).trans (setPath_file_self hy))
          · have hne : g ≠ f := fun he => hfiles.1 (he ▸ mem_map.mpr ⟨(g, q), hg, rfl⟩)
            exact hmoved g q y hg ((congrFun hfile g).trans ((setPath_file_ne hne).trans hy))

/-- The files of the subtree get the paths below `new`. -/
theorem movedTree_file (h : s.Wf) (hok : (s.movedTree old new).1 = true) (hy : s.file g = some y) :
    (s.movedTree old new).2.file g =
      some (if g ∈ s.subtree old then { y with path := rebase old new y.path } else y) := by
  have hfst : ((s.subtree old).filterMap fun g =>
      (s.file g).map fun x => (g, rebase old new x.path)).map fst = s.subtree old := by
    rw [map_filterMap]
    refine (filterMap_congr fun g hg => ?_).trans filterMap_some
    obtain ⟨z, hz, -⟩ := h.listed g (mem_list_of_mem_subtree hg)
    rw [hz]
    rfl
  have hr := removed_foldl h (s.subtree old)
  obtain ⟨hother, hmoved⟩ := insertMoved_file _ (hfst.symm ▸ h.nodup.filter _) hok
  have hy' : ((s.subtree old).foldl filesRemoveFile s).file g = some y := (congrFun hr.file g).trans hy
  by_cases hg : g ∈ s.subtree old
  · rw [if_pos hg]
    refine hmoved g _ y (mem_filterMap.mpr ⟨g, hg, ?_⟩) hy'
    rw [hy]
    rfl
  · rw [if_neg hg]
    exact (hother g (hfst.symm ▸ hg)).trans hy'

/-! ## The files behind the names -/

theorem index_movedTree (h : s.Wf) (hfree : s.MoveFree old new) :
    (s.movedTree old new).2.index = moveSubtree s.index old new := by
  obtain ⟨hok, hwf, hrel, hlist, -⟩ := movedTree_spec h hfree
  funext q
  apply Option.ext
  intro g
  rw [hwf.index_iff, hlist, moveSubtree_eq_some]
  constructor
  · rintro ⟨hgl, z, hz, rfl⟩
    obtain ⟨y, hy, -, hi⟩ := h.listed g hgl
    rw [movedTree_file h hok hy] at hz
    cases hz
    by_cases hg : g ∈ s.subtree old
    · rw [if_pos hg]
      exact .inl ⟨y.path, (mem_subtree h hgl hy old).mp hg, hi, rfl⟩
    rw [if_neg hg]
    refine .inr ⟨fun hat => hg ((mem_subtree h hgl hy old).mpr hat), hi, fun p hp he => ?_⟩
    cases hT : s.index p with
    | none => rfl
    | some g' =>
      -- the file at `p` moves to where `g` is
      obtain ⟨hgl', y', hy', rfl⟩ := h.indexed p g' hT
      have hg' := (mem_subtree h hgl' hy' old).mpr hp
      exact absurd (hfree g' hg' y' hy' g (he ▸ hi)) hg
  · rintro (⟨p, hp, hi, rfl⟩ | ⟨hq, hi, -⟩)
    · obtain ⟨hgl, y, hy, rfl⟩ := h.indexed p g hi
      refine ⟨hgl, _, movedTree_file h hok hy, ?_⟩
      rw [if_pos ((mem_subtree h hgl hy old).mpr hp)]
    · obtain ⟨hgl, y, hy, rfl⟩ := h.indexed q g hi
      refine ⟨hgl, _, movedTree_file h hok hy, ?_⟩
      rw [if_neg fun hg => hq ((mem_subtree h hgl hy old).mp hg)]

theorem index_move (h : s.Wf) (hf : f ∈ s.list) (hx : s.file f = some x) :
    (((s.filesRemoveFile f).setPath f path).inserted f path).index =
      update (update s.index x.path none) path (some f) := by
  have hx' : (s.filesRemoveFile f).file f = some x := (congrFun (filesRemoveFile_file s f) f).trans hx
  rw [setPath_eq hx', filesRemoveFile_listed h hf hx]
  rfl

/-- What a path leads to: an inode, and what it holds apart from the number of its names. -/
def binding (s : Tmpfs) : NameTree (InodeId × TmpfsInode) := fun p =>
  (s.inodeFind p).map fun e => (e.1, { e.2 with refs := 0 })

theorem Wf.binding_eq (h : s.Wf) : s.binding = fun p =>
    (s.index p).bind fun f => (s.inodeOf f).map fun e => (e.1, { e.2 with refs := 0 }) := by
  funext p
  unfold Tmpfs.binding Tmpfs.inodeFind
  rw [h.fileFind]
  cases s.index p with
  | none | some f => rfl

theorem Wf.binds (h : s.Wf) (hi : s.index p = some f) :
    ((s.inodeOf f).map fun e => (e.1, ({ e.2 with refs := 0 } : TmpfsInode))) ≠ none := by
  obtain ⟨-, x, hx, -⟩ := h.indexed p f hi
  obtain ⟨n, -, hof⟩ := h.inodeOf hx
  rw [hof]
  exact Option.some_ne_none _

theorem Relabel.binding (hr : Relabel s s') (hwf : s'.Wf) : s'.binding = fun p =>
    (s'.index p).bind fun f => (s.inodeOf f).map fun e => (e.1, { e.2 with refs := 0 }) := by
  rw [hwf.binding_eq]
  simp only [hr.inodeOf]

theorem Same.binding (h : Same s s') : s'.binding = s.binding := by
  funext p
  unfold Tmpfs.binding
  rw [h.inodeFind]

theorem binding_fileUnlink (h : s.Wf) (hf : f ∈ s.list) (hx : s.file f = some x) :
    (s.fileUnlink f).binding = update s.binding x.path none := by
  have hwf := h.fileUnlink hf hx
  funext q
  rw [hwf.binding_eq, h.binding_eq, index_fileUnlink h hf hx]
  dsimp only
  by_cases hq : q = x.path
  · subst hq
    rw [update_self, update_self]
    rfl
  rw [update_of_ne hq, update_of_ne hq]
  cases hi : s.index q with
  | none => rfl
  | some g =>
    obtain ⟨hgl, y, hy, rfl⟩ := h.indexed q g hi
    have hgf : g ≠ f := by
      rintro rfl
      rw [hx] at hy
      cases hy
      exact hq rfl
    have hy' : (s.fileUnlink f).file g = some y := by
      rw [fileUnlink_file h hf hx, update_of_ne hgf, hy]
    -- another name may have been one more of its inode
    obtain ⟨n, hn, hof⟩ := hwf.inodeOf hy'
    obtain ⟨k, hk, hkept⟩ := fileUnlink_inode s f hn
    rw [Option.bind_some, Option.bind_some, hof, inodeOf_eq hy hk, Option.map_some, Option.map_some, hkept]

theorem binding_absent (hnone : s.fileFind p = none) : s.binding = update s.binding p none := by
  have hb : s.binding p = none := by rw [binding, inodeFind, hnone, Option.bind_none, Option.map_none]
  rw [← hb, update_eq_self]

theorem binding_movedTree (h : s.Wf) (hfree : s.MoveFree old new) :
    (s.movedTree old new).2.binding = moveSubtree s.binding old new := by
  obtain ⟨-, hwf, hrel, -, -⟩ := movedTree_spec h hfree
  rw [hrel.binding hwf, index_movedTree h hfree, h.binding_eq, moveSubtree_bind fun _ _ => h.binds]

theorem binding_move (h : s.Wf) (hf : f ∈ s.list) (hx : s.file f = some x)
    (hn : s.inode x.inode = some n) (hnone : s.index path = none)
    (hbelow : ∀ q, Under x.path q → s.index q = none) :
    (((s.filesRemoveFile f).setPath f path).inserted f path).binding =
      moveSubtree s.binding x.path path := by
  have hwf := (h.move hf hx hn hnone).1
  rw [(relabel_move s f path).binding hwf, index_move h hf hx, h.binding_eq,
    ← moveSubtree_leaf (h.index_path hf hx) hbelow, moveSubtree_bind fun _ _ => h.binds]

theorem step_rename (h : s.Wf)
    (hstep : s.step env sender (.rename rawOld rawNew task flags) = some (r, s')) :
    r.status ≠ 0 ∧ s' = s ∨ s.senderIsVfsCaller sender = true ∧ ∃ old new,
      readPath rawOld = some old ∧ readPath rawNew = some new ∧ Renamed env s task flags old new (r, s') := by
  unfold step at hstep
  split at hstep
  · cases hstep
    exact .inl ⟨by decide, rfl⟩
  rename_i hcaller
  have hcaller : s.senderIsVfsCaller sender = true := by simpa [needsCaller] using hcaller
  have hstep : handleRename env s rawOld rawNew task flags = (r, s') := Option.some.inj hstep
  cases hold : readPath rawOld with
  | none =>
    unfold handleRename at hstep
    rw [hold] at hstep
    cases hstep
    exact .inl ⟨by decide, rfl⟩
  | some old =>
    cases hnew : readPath rawNew with
    | none =>
      unfold handleRename at hstep
      rw [hold, hnew] at hstep
      cases hstep
      exact .inl ⟨by decide, rfl⟩
    | some new => exact .inr ⟨hcaller, old, new, rfl, rfl, hstep ▸ renamed_handleRename h hold hnew⟩

theorem handleRename_replace (hold : readPath rawOld = some old) (hnew : readPath rawNew = some new)
    (hc : RenameChecks env s task old new f n) (ht : ReplaceChecks s flags new n g m) :
    handleRename env s rawOld rawNew task flags = (s.fileUnlink g).renameTo f n.type new := by
  obtain ⟨i, hfind⟩ := hc.inode
  obtain ⟨j, hfindg⟩ := ht.inode
  unfold handleRename
  rw [hold, hnew]
  dsimp only
  rw [if_neg (by simp [hc.rootOld, hc.rootNew]), hc.found, hfind]
  dsimp only
  rw [if_neg hc.ne, if_neg (by rw [hc.accessOld, hc.accessNew]; decide),
    if_neg (fun hd => by simp [hc.outside hd.1] at hd), ht.found, hfindg]
  dsimp only
  rw [if_neg (not_not.mpr ht.flags), if_neg fun hd => hd.2 (ht.type.mp hd.1),
    if_neg fun hd => hd.1 (ht.type.mpr hd.2), if_neg fun hd => by simp [ht.empty hd.1] at hd]

/-! ## A rename that succeeds -/

theorem fileUnlink_allocs (s : Tmpfs) (f : FileId) : (s.fileUnlink f).allocs = s.allocs := by
  unfold fileUnlink fileRelease inodeRelease filesRemoveFile
  split
  · rfl
  dsimp only [setFile]
  rw [update_self]
  dsimp only
  rw [update_self]
  dsimp only
  split
  · split
    · rfl
    · split <;> rfl
  · rfl

theorem renameTo_status (s : Tmpfs) (f : FileId) (type : VfsType) (path : Path) :
    (s.renameTo f type path).1.status = 0 ↔
      (if type = .directory then s.fileMoveSubtreeToPath f path else s.fileMoveToPath f path).1 = true := by
  unfold renameTo
  generalize (if type = .directory then s.fileMoveSubtreeToPath f path else s.fileMoveToPath f path) = result
  obtain ⟨ok, s'⟩ := result
  cases ok with
  | false => exact ⟨fun h => absurd h (show VfsErr.noent ≠ 0 by decide), fun h => by cases h⟩
  | true => exact ⟨fun _ => rfl, fun _ => rfl⟩

theorem renameTo_binding (h : s.Wf) (hf : f ∈ s.list) (hx : s.file f = some x)
    (hn : s.inode x.inode = some n) (hroot : s.pathIsRoot x.path = false)
    (hunder : n.type = .directory → pathHasPrefixChild path x.path = false) (hnone : s.index path = none)
    (hold : x.path.length < maxPath) (hnew : path.length < maxPath)
    (hbelow : n.type ≠ .directory → ∀ q, Under x.path q → s.index q = none)
    (hok : (s.renameTo f n.type path).1.status = 0) :
    (s.renameTo f n.type path).2.binding = moveSubtree s.binding x.path path := by
  rw [renameTo_status] at hok
  unfold renameTo
  by_cases htype : n.type = .directory
  · rw [if_pos htype] at hok ⊢
    rcases fileMoveSubtreeToPath_spec h hf hx hn htype hroot (hunder htype) hnone hold hnew with
      ⟨-, -, hfail⟩ | ⟨-, s₁, s', hq, he, hs⟩
    · rw [hfail] at hok
      cases hok
    rw [he]
    cases hs with
    | @moveTree _ y _ _ _ hy _ _ _ _ _ _ hfree =>
      obtain rfl : x = y := Option.some.inj (hx.symm.trans ((congrFun hq.file f).symm.trans hy))
      exact (binding_movedTree (hq.wf h) hfree).trans (by rw [hq.binding])
  · rw [if_neg htype] at hok ⊢
    rcases fileMoveToPath_spec h hf hx path with ⟨-, hfail, -⟩ | ⟨s₁, hq, -, -, he⟩
    · rw [hfail] at hok
      cases hok
    rw [he]
    refine (binding_move (hq.wf h) (hq.list ▸ hf) ((congrFun hq.file f).trans hx)
      ((congrFun hq.inode _).trans hn) ((congrFun hq.index path).trans hnone) fun q hu => ?_).trans
        (by rw [hq.binding])
    rw [hq.index, hbelow htype q hu]

theorem Vacated.rename (hv : Vacated s s₁ new) (hb : s₁.binding = update s.binding new none)
    (h : s.Wf) (hold : old.length < maxPath) (hnew : new.length < maxPath)
    (hc : RenameChecks env s task old new f n)
    (htree : n.type ≠ .directory → ∀ q, Under old q → s.fileFind q = none)
    (hok : (s₁.renameTo f n.type new).1.status = 0) : (s₁.renameTo f n.type new).2.binding =
      moveSubtree (update s.binding new none) old new := by
  obtain ⟨hl, x, m, hx, rfl, hroot, hm, htype⟩ := hv.source h hc
  have hunder := hc.outside
  rw [← htype] at hok htree hunder ⊢
  rw [renameTo_binding hv.wf hl hx hm hroot hunder hv.index_new hold hnew (fun hd q hu => ?_) hok, hb]
  rw [hv.index, update_apply, ← h.fileFind, htree hd q hu, ite_self]

theorem binding_rename (h : s.Wf) (hbelow : ∀ i n, s.inodeFind old = some (i, n) → n.type ≠ .directory →
      ∀ q, Under old q → s.fileFind q = none)
    (hstep : s.step env sender (.rename (some old) (some new) task flags) = some (r, s'))
    (hok : r.status = 0) : s'.binding = if old = new then s.binding
      else moveSubtree (update s.binding new none) old new := by
  rcases step_rename h hstep with ⟨hfail, -⟩ | ⟨-, old', new', hold, hnew, hren⟩
  · exact absurd hok hfail
  have hlen := readPath_length hold
  have hlen' := readPath_length hnew
  obtain rfl := Option.some.inj (readPath_eq hold)
  obtain rfl := Option.some.inj (readPath_eq hnew)
  generalize hres : (r, s') = result at hren
  cases hren with
  | rejected hstatus =>
    cases hres
    exact absurd hok hstatus
  | unchanged he =>
    cases hres
    rw [if_pos he]
  | moved hc hnone =>
    rw [if_neg hc.ne]
    obtain ⟨i, hi⟩ := hc.inode
    have hmoved := (vacated_self h hnone).rename (binding_absent hnone) h hlen hlen' hc (hbelow i _ hi)
    rw [← hres] at hmoved
    exact hmoved hok
  | replaced hc ht =>
    rw [if_neg hc.ne]
    obtain ⟨i, hi⟩ := hc.inode
    obtain ⟨hgl, y, -, hy, rfl, -⟩ := h.of_fileFind ht.found
    have hmoved := (vacated_fileUnlink h ht.found).rename (binding_fileUnlink h hgl hy) h hlen hlen' hc
      (hbelow i _ hi)
    rw [← hres] at hmoved
    exact hmoved hok

/-- **A successful rename moves exactly the subtree.** In every state that the server can reach, if
nothing is below a file that is no directory: what was at the new path is gone, every name at or
below the old path is at the same place of the new one with its inode and contents, and all other
names lead to what they led to. -/
theorem rename_moves_subtree {allocs : Nat → Bool} {calls : List TmpfsCall}
    (hreach : Run (fun s (call : TmpfsCall) s' => s.serve call = some s') (init allocs) calls s)
    (htree : ∀ p i n, s.inodeFind p = some (i, n) → n.type ≠ .directory →
      ∀ q, Under p q → s.fileFind q = none)
    (hstep : s.step env sender (.rename (some old) (some new) task flags) = some (r, s'))
    (hok : r.status = 0) :
    s'.binding = if old = new then s.binding
      else moveSubtree (update s.binding new none) old new :=
  binding_rename (sized_run hreach).wf (htree old) hstep hok

/-- The directory `/a` with a file, and the directory `/b`. -/
def twoDirectories : List TmpfsCall :=
  [⟨openEnv, 1, .grantSubject 0⟩, ⟨openEnv, 1, .mkdir (some "/a".toList) 1 0o755⟩,
    ⟨openEnv, 1, .create (some "/a/x".toList) 1 0o644⟩, ⟨openEnv, 1, .mkdir (some "/b".toList) 1 0o755⟩]

/-- A file that is no directory has nothing below it, as the list tells. -/
def filesAreLeaves (s : Tmpfs) : Bool :=
  s.list.all fun f => (s.file f).all fun x => (s.inode x.inode).all fun n => n.type == .directory ||
    s.list.all fun g => (s.file g).all fun y => !pathHasPrefixChild y.path x.path

theorem Wf.leaves (h : s.Wf) (hl : s.filesAreLeaves = true) (hp : s.inodeFind p = some (i, n))
    (hn : n.type ≠ .directory) (hq : Under p q) : s.fileFind q = none := by
  cases hg : s.fileFind q with
  | none => rfl
  | some g =>
    obtain ⟨f, hf, hof⟩ := Option.bind_eq_some_iff.mp hp
    obtain ⟨hfl, x, k, hx, rfl, -, hk, hof', -⟩ := h.of_fileFind hf
    obtain ⟨hgl, y, -, hy, rfl, -⟩ := h.of_fileFind hg
    cases hof.symm.trans hof'
    have hall := all_eq_true.mp hl f hfl
    rw [hx, Option.all_some, hk, Option.all_some, Bool.or_eq_true, beq_iff_eq] at hall
    have hnot := all_eq_true.mp (hall.resolve_left hn) g hgl
    rw [hy, Option.all_some, pathHasPrefixChild_iff.mpr hq] at hnot
    cases hnot

theorem rename_moves_subtree_over_empty :
    ∃ s s' r, Run (fun s (call : TmpfsCall) s' => s.serve call = some s') (init fun _ => true)
        twoDirectories s ∧
      s.step openEnv 1 (.rename (some "/a".toList) (some "/b".toList) 1 0) = some (r, s') ∧
      r.status = 0 ∧ s'.index "/b/x".toList = some 1 ∧
      s'.binding = if "/a".toList = "/b".toList then s.binding
        else moveSubtree (update s.binding "/b".toList none) "/a".toList "/b".toList := by
  obtain ⟨s, hreach, hleaves, ⟨r, s'⟩, hstep, hok, hx⟩ := Run.exists_of_exec serve (init fun _ => true)
    twoDirectories (fun s => s.filesAreLeaves = true ∧
      ∃ e ∈ s.step openEnv 1 (.rename (some "/a".toList) (some "/b".toList) 1 0),
        e.1.status = 0 ∧ e.2.index "/b/x".toList = some 1) (by decide +kernel)
  refine ⟨s, s', r, hreach, hstep, hok, hx,
    rename_moves_subtree hreach (fun p i n hp hn q hq => ?_) hstep hok⟩
  exact (sized_run hreach).wf.leaves hleaves hp hn hq

/-! ## A rename that fails -/

/-- What stands at the old path moves unless there is no memory, or a directory cannot be moved; and
then nothing changes any more. -/
theorem Vacated.renameTo_ok (hv : Vacated s s₁ new) (h : s.Wf) (hold : old.length < maxPath)
    (hnew : new.length < maxPath) (hc : RenameChecks env s task old new f n) :
    ((s₁.renameTo f n.type new).1.status = 0 ↔
        if n.type = .directory then s₁.TreeMovable old new else s₁.allocs 0 = true) ∧
      ((s₁.renameTo f n.type new).1.status ≠ 0 → Quiet s₁ (s₁.renameTo f n.type new).2) := by
  obtain ⟨hl, x, m, hx, rfl, hroot, hm, htype⟩ := hv.source h hc
  rw [Ne, renameTo_status]
  unfold renameTo
  by_cases hdir : n.type = .directory
  · rw [if_pos hdir, if_pos hdir]
    rcases fileMoveSubtreeToPath_spec hv.wf hl hx hm (htype.trans hdir) hroot (hc.outside hdir) hv.index_new
      hold hnew with ⟨hnot, hq, hfail⟩ | ⟨hmov, s₂, s', -, he, -⟩
    · exact ⟨by simp [hfail, hnot], fun _ => hq⟩
    · exact ⟨by simp [he, hmov], fun h0 => absurd (congrArg fst he) h0⟩
  · rw [if_neg hdir, if_neg hdir]
    have hdup : s₁.strDup new = s₁.alloc := if_neg (Nat.not_le.mpr hnew)
    rcases fileMoveToPath_spec hv.wf hl hx new with ⟨hq, hfail, hwhy⟩ | ⟨s₂, -, -, hmem, he⟩
    · have hnot : s₁.allocs 0 = false := by simpa [hdup, alloc] using hwhy hv.index_new
      exact ⟨by simp [hfail, hnot], fun _ => hq⟩
    · rw [hdup] at hmem
      exact ⟨⟨fun _ => hmem, fun _ => congrArg fst he⟩, fun h0 => absurd (congrArg fst he) h0⟩

/-- The file at `old` can be moved to `new` once the file `g` there is gone: there is memory for the
path; or, for a directory, the new path has a parent, no more files are listed than a walk visits,
there is memory for the lists and the paths of all files that move, and these paths are not too long
and those of no file but `g` and the ones that move. -/
def CanReplace (s : Tmpfs) (old new : Path) (type : VfsType) (g : FileId) : Prop :=
  if type = .directory then
    s.pathParentExists new = true ∧ s.list.length ≤ treeWalkLimit ∧
      (∀ k < 2 + (s.subtree old).length, s.allocs k = true) ∧
      s.PathsFree old new (g :: s.subtree old) (s.subtree old)
  else s.allocs 0 = true

theorem fileUnlink_list (h : s.Wf) (hg : g ∈ s.list) (hy : s.file g = some y) :
    (s.fileUnlink g).list = s.list.erase g := by
  rw [fileUnlink_eq h hg hy, (fileRelease_names _ g).2.1, filesRemoveFile_listed h hg hy]
  rfl

theorem subtree_fileUnlink (h : s.Wf) (hg : g ∈ s.list) (hy : s.file g = some y)
    (hout : ¬ AtOrUnder old y.path) : (s.fileUnlink g).subtree old = s.subtree old := by
  have hwf := h.fileUnlink hg hy
  unfold subtree
  rw [fileUnlink_list h hg hy, h.nodup.erase_eq_filter, filter_filter]
  refine filter_congr fun f hf => ?_
  obtain ⟨x, hx, -⟩ := h.listed f hf
  by_cases hfg : f = g
  · subst hfg
    have hnot : f ∉ s.subtree old := fun hm => hout ((mem_subtree h hg hy old).mp hm)
    simpa [subtree, hf] using hnot
  · have hx' : (s.fileUnlink g).file f = some x := by
      rw [fileUnlink_file h hg hy, update_of_ne hfg, hx]
    unfold fileInRenamedSubtree
    rw [hwf.fileIsValid hx', h.fileIsValid hx, hx, hx']
    simp [hfg]

theorem Vacated.pathParentExists (hv : Vacated s s₁ new) (hroot : s.pathIsRoot new = false) :
    s₁.pathParentExists new = true ↔ s.pathParentExists new = true := by
  rw [pathParentExists_iff, pathParentExists_iff]
  refine exists_congr fun d => and_congr_right fun hd => ?_
  have hne : d ≠ new := by
    rintro rfl
    obtain ⟨-, ⟨-, hc⟩ | ⟨rfl, -⟩⟩ := hd
    · exact not_under_self hc.under
    · exact absurd hroot (by simp [pathIsRoot])
  unfold Tmpfs.pathIsRoot
  rw [hv.entry, update_of_ne hne, hv.roots]

theorem canReplace_iff (h : s.Wf) (hc : RenameChecks env s task old new f n)
    (ht : ReplaceChecks s flags new n g m) :
    (if n.type = .directory then (s.fileUnlink g).TreeMovable old new
      else (s.fileUnlink g).allocs 0 = true) ↔ s.CanReplace old new n.type g := by
  have hv := vacated_fileUnlink h ht.found
  obtain ⟨hgl, y, -, hy, rfl, -⟩ := h.of_fileFind ht.found
  unfold CanReplace
  by_cases hdir : n.type = .directory
  swap
  · rw [if_neg hdir, if_neg hdir, fileUnlink_allocs]
  rw [if_pos hdir, if_pos hdir]
  have hout : ¬ AtOrUnder old y.path := by
    rintro (he | hu)
    · exact hc.ne he.symm
    · rw [← pathHasPrefixChild_iff, hc.outside hdir] at hu
      cases hu
  have hg : g ∉ s.subtree old := fun hm => hout ((mem_subtree h hgl hy old).mp hm)
  unfold TreeMovable
  rw [hv.pathParentExists hc.rootNew, fileUnlink_list h hgl hy, length_erase_of_mem hgl,
    subtree_fileUnlink h hgl hy hout, fileUnlink_allocs]
  have hpos := length_pos_of_mem hgl
  refine and_congr_right fun _ => and_congr (by omega) (and_congr_right fun _ => ?_)
  -- only the path of `g` is free now
  refine forall₂_congr fun k hk => ?_
  have hkg : k ≠ g := fun he => hg (he ▸ hk)
  rw [fileUnlink_file h hgl hy, update_of_ne hkg, hv.index]
  refine forall₂_congr fun z _ => and_congr_right fun _ => forall_congr' fun g' => ?_
  by_cases hq : rebase old y.path z.path = y.path
  · rw [hq, update_self, h.index_path hgl hy]
    exact ⟨fun _ he => mem_cons.mpr (.inl (Option.some.inj he).symm), nofun⟩
  rw [update_of_ne hq, mem_cons]
  refine forall_congr' fun hi => ⟨.inr, fun hor => hor.resolve_left fun he => hq ?_⟩
  subst he
  obtain ⟨-, z', hz', hpath⟩ := h.indexed _ _ hi
  rw [hy] at hz'
  cases hz'
  exact hpath.symm

/-- The files `/a` and `/b`, for which all memory is used up. -/
def twoFiles : List TmpfsCall :=
  [⟨openEnv, 1, .grantSubject 0⟩, ⟨openEnv, 1, .create (some "/a".toList) 1 0o644⟩,
    ⟨openEnv, 1, .create (some "/b".toList) 1 0o644⟩]

end Tmpfs

end Bunix.User
