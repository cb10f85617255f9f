import Bunix.User.TmpfsSteps

/-! # tmpfs: the functions of the server

What each function does to the files of a server in good order: it fails and changes nothing, or
it takes one of the steps.
-/
namespace Bunix.User

open Bunix.Lib Function SlashPath List Nat

variable {old new : Path} {moved fs : List FileId} {fuel j : Nat}

namespace Tmpfs

variable {env : TmpfsEnv} {s s' s₁ : Tmpfs} {f : FileId} {i : InodeId} {x : TmpfsFile}
  {n m : TmpfsInode} {path : Path}

/-! ## Creating and moving -/

/-- `file_create` fails and changes nothing, or it makes the name. -/
inductive Created (s : Tmpfs) (path : Path) (type : Option VfsType) :
    U64 × Option FileId × Tmpfs → Prop
  | failed {status : U64} {s' : Tmpfs} (hstatus : status ≠ 0) (h : Quiet s s') :
      Created s path type (status, none, s')
  | made {s₁ : Tmpfs} {n : TmpfsInode} (hparent : s.pathParentExists path = true)
      (hnone : s.index path = none) (h : Quiet s s₁) (htype : type = some n.type)
      (hrefs : n.refs = 1) (hdata : n.data = []) (hsize : n.size = 0) :
      Created s path type (0, some s₁.nextFile,
        ((s₁.newInode n).newFile { path, inode := s₁.nextInode }).inserted s₁.nextFile path)

theorem Created.fileStep (hparent : s.pathParentExists path = true) (hnone : s.index path = none)
    (h : Quiet s s₁) (hrefs : n.refs = 1) (hdata : n.data = []) (hsize : n.size = 0) :
    FileStep s₁ (.create path)
      (((s₁.newInode n).newFile { path, inode := s₁.nextInode }).inserted s₁.nextFile path) := by
  refine .create ((h.pathParentExists path).trans hparent) ((congrFun h.index path).trans hnone) hrefs ?_
  rw [TmpfsInode.Bounded, hdata, hsize]
  exact ⟨le_refl 0, .inl rfl⟩

theorem created_fileCreate (h : s.Wf) (path : Path) (mode : U64) (type : Option VfsType) (task : U64) :
    Created s path type (fileCreate env s path mode type task) := by
  unfold fileCreate
  split
  · exact .failed (by decide) (.refl s)
  rename_i hparent
  split
  · exact .failed (by decide) (.refl s)
  rename_i hnone
  rw [h.fileFind, Option.not_isSome_iff_eq_none] at hnone
  have hparent : s.pathParentExists path = true := by simpa using hparent
  split
  · exact .failed (by decide) (.refl s)
  · exact .failed (by decide) (.refl s)
  rename_i type _
  have hq₁ := quiet_strDup s path
  split
  · rename_i s₁ hdup
    exact .failed (by decide) (by rwa [hdup] at hq₁)
  rename_i s₁ hdup
  rw [hdup] at hq₁
  have hq₂ := hq₁.trans (quiet_alloc s₁)
  split
  · rename_i s₂ halloc
    exact .failed (by decide) (by rwa [halloc] at hq₂)
  rename_i s₂ halloc
  rw [halloc] at hq₂
  have hq₃ := hq₂.trans (quiet_takeInodeId s₂)
  dsimp only
  set s₃ := s₂.takeInodeId.2
  set n : TmpfsInode :=
    { ino := s₂.takeInodeId.1, type, mode := mode.setWidth 32 &&& 0o777,
      uid := (taskOwner env task).1.setWidth 32, gid := (taskOwner env task).2.setWidth 32 }
  have hwf : s₃.Wf := hq₃.wf h
  have hnone₃ : s₃.index path = none := (congrFun hq₃.index path).trans hnone
  have hwf' : ((s₃.newInode n).newFile { path, inode := s₃.nextInode }).Wf :=
    hwf.newFile (lt_succ_self _) (le_succ _)
      (by rw [hwf.links_fresh])
  have hfile : ((s₃.newInode n).newFile { path, inode := s₃.nextInode }).file s₃.nextFile =
      some { path, inode := s₃.nextInode } := update_self ..
  rw [filesInsertFile_ok hwf' hfile hwf.not_mem_nextFile hnone₃]
  exact .made hparent hnone hq₃ rfl rfl rfl rfl

/-- `file_move_to_path` on a file that has a name. -/
theorem fileMoveToPath_spec (h : s.Wf) (hf : f ∈ s.list) (hx : s.file f = some x) (path : Path) :
    Quiet s (s.fileMoveToPath f path).2 ∧ (s.fileMoveToPath f path).1 = false ∧
        (s.index path = none → (s.strDup path).1 = false) ∨
      ∃ s₁, Quiet s s₁ ∧ s.index path = none ∧ (s.strDup path).1 = true ∧
        s.fileMoveToPath f path = (true, ((s₁.filesRemoveFile f).setPath f path).inserted f path) := by
  have hd := h.not_deleted hf hx
  unfold fileMoveToPath
  rw [hx]
  dsimp only
  rw [h.fileFind]
  split
  · rename_i hsome
    exact .inl ⟨.refl s, rfl, fun hnone => by simp [hnone] at hsome⟩
  rename_i hnone
  rw [Option.not_isSome_iff_eq_none] at hnone
  have hq := quiet_strDup s path
  split
  · rename_i s₁ hdup
    exact .inl ⟨by rwa [hdup] at hq, rfl, fun _ => by rw [hdup]⟩
  rename_i s₁ hdup
  rw [hdup] at hq
  have hwf : s₁.Wf := hq.wf h
  have hx₁ : s₁.file f = some x := (congrFun hq.file f).trans hx
  have hx' : (s₁.filesRemoveFile f).file f = some x :=
    (congrFun (filesRemoveFile_file s₁ f) f).trans hx₁
  have hnone₁ : s₁.index path = none := (congrFun hq.index path).trans hnone
  have hnone' : (s₁.filesRemoveFile f).index path = none := by
    rw [filesRemoveFile_listed hwf (hq.list ▸ hf) hx₁]
    show update s₁.index x.path none path = none
    rw [update_apply, hnone₁, ite_self]
  obtain ⟨hok, -, -⟩ := (hwf.filesRemoveFile f).place hx' hd (not_mem_filesRemoveFile hwf f) hnone'
  rw [hok]
  exact .inr ⟨s₁, hq, hnone, by rw [hdup], rfl⟩

/-- `file_link_to_path` on a file that has a name. -/
theorem fileLinkToPath_spec (h : s.Wf) (hf : f ∈ s.list) (hx : s.file f = some x)
    (hn : s.inode x.inode = some n) (path : Path) :
    Quiet s (s.fileLinkToPath f path).2 ∧ (s.fileLinkToPath f path).1 = false ∨
      ∃ s₁ s', Quiet s s₁ ∧ s.fileLinkToPath f path = (true, s') ∧ FileStep s₁ (.link f path) s' := by
  unfold fileLinkToPath
  rw [hx, inodeOf_eq hx hn]
  dsimp only
  split
  · exact .inl ⟨.refl s, rfl⟩
  rename_i hcond
  simp only [h.fileFind, not_or, Option.not_isSome_iff_eq_none] at hcond
  obtain ⟨-, hnone, hparent, htype⟩ := hcond
  have hparent : s.pathParentExists path = true := by simpa using hparent
  have hq := quiet_strDup s path
  split
  · rename_i s₁ hdup
    exact .inl ⟨by rwa [hdup] at hq, rfl⟩
  rename_i s₁ hdup
  rw [hdup] at hq
  have hwf : s₁.Wf := hq.wf h
  have hn₁ : s₁.inode x.inode = some n := (congrFun hq.inode _).trans hn
  have hnone₁ : s₁.index path = none := (congrFun hq.index path).trans hnone
  have hwf' : ((s₁.setInode x.inode (some { n with refs := n.refs + 1 })).newFile
      { path, inode := x.inode }).Wf :=
    hwf.newFile (x := { path, inode := x.inode }) (hwf.inode_lt _ n hn₁)
      (le_refl _) (congrArg (· + 1) (hwf.refs _ n hn₁).1)
  have hfile : ((s₁.setInode x.inode (some { n with refs := n.refs + 1 })).newFile
      { path, inode := x.inode }).file s₁.nextFile = some { path, inode := x.inode } :=
    update_self ..
  have hok := filesInsertFile_ok hwf' hfile hwf.not_mem_nextFile hnone₁
  refine .inr ⟨s₁, _, hq, ?_, .link (hq.list ▸ hf) ((congrFun hq.file f).trans hx) hn₁ htype
    ((hq.pathParentExists path).trans hparent) hnone₁⟩
  rw [hok]

/-- The new path of a file at or below `old`, if it is not too long. -/
theorem renamedSubtreePath_at (hold : old.length < maxPath)
    (hnew : new.length < maxPath) (hat : AtOrUnder old p) : renamedSubtreePath old new p =
      if (rebase old new p).length < maxPath then some (rebase old new p) else none := by
  obtain ⟨suffix, rfl, hsuffix⟩ := hat.exists_append
  unfold renamedSubtreePath
  rw [rebase_append, drop_left]
  rw [if_neg, length_append]
  · by_cases hnil : suffix = []
    · subst hnil
      rw [if_neg (fun h => h.1 rfl), if_pos (by simpa using hnew)]
    · by_cases hlen : new.length + suffix.length < maxPath
      · rw [if_neg (fun h => absurd hlen (not_lt.mpr h.2)), if_pos hlen]
      · rw [if_pos ⟨hnil, not_lt.mp hlen⟩, if_neg hlen]
  · rintro (h | h | h)
    · exact absurd hnew (not_lt.mpr h)
    · exact absurd hold (not_lt.mpr h)
    · exact h hsuffix

/-- The files can get their paths below `new`: none is too long, and none is that of a file that does
not move. -/
def PathsFree (s : Tmpfs) (old new : Path) (moved fs : List FileId) : Prop :=
  ∀ g ∈ fs, ∀ y, s.file g = some y → (rebase old new y.path).length < maxPath ∧
    ∀ g', s.index (rebase old new y.path) = some g' → g' ∈ moved

theorem pathsFree_cons (hx : s.file f = some x) :
    s.PathsFree old new moved (f :: fs) ↔ (rebase old new x.path).length < maxPath ∧
      (∀ g', s.index (rebase old new x.path) = some g' → g' ∈ moved) ∧
      s.PathsFree old new moved fs := by
  unfold PathsFree
  rw [forall_mem_cons, ← and_assoc]
  refine and_congr_left fun _ => ⟨fun hall => hall x hx, fun hp y hy => ?_⟩
  rw [hx] at hy
  cases hy
  exact hp

theorem subtreePaths_spec {paths} (h : s.Wf) (hold : old.length < maxPath) (hnew : new.length < maxPath)
    (hfs : ∀ g ∈ fs, ∃ y, s.file g = some y ∧ AtOrUnder old y.path)
    (hsub : subtreePaths old new moved fs s = (paths, s')) :
    Quiet s s' ∧
      (paths.isSome = true ↔ (∀ k < fs.length, s.allocs k = true) ∧ s.PathsFree old new moved fs) ∧
      ∀ ps, paths = some ps → fs.zip ps = fs.filterMap fun g =>
        (s.file g).map fun x => (g, rebase old new x.path) := by
  induction fs generalizing s s' paths with
  | nil =>
    cases hsub
    exact ⟨.refl _, by simp [PathsFree], fun ps _ => by simp⟩
  | cons f fs ih =>
    obtain ⟨x, hx, hat⟩ := hfs f mem_cons_self
    have hallocs : (∀ k < (f :: fs).length, s.allocs k = true) ↔
        s.allocs 0 = true ∧ ∀ k < fs.length, s.alloc.2.allocs k = true := by
      rw [length_cons, forall_lt_succ_left]
      rfl
    unfold subtreePaths at hsub
    rw [hx, Option.bind_some, renamedSubtreePath_at hold hnew hat] at hsub
    rw [pathsFree_cons hx, hallocs]
    by_cases hlen : (rebase old new x.path).length < maxPath
    swap
    · rw [if_neg hlen] at hsub
      cases hsub
      exact ⟨.refl _, by simp [hlen], nofun⟩
    rw [if_pos hlen] at hsub
    dsimp only at hsub
    rw [h.fileFind] at hsub
    split at hsub
    · rename_i hany
      cases hsub
      obtain ⟨g', hg', hnot⟩ := (Option.any_eq_true _ _).mp hany
      refine ⟨.refl _, ⟨nofun, fun h0 => ?_⟩, nofun⟩
      simp [h0.2.2.1 g' hg'] at hnot
    rename_i hany
    have hfree : ∀ g', s.index (rebase old new x.path) = some g' → g' ∈ moved := by
      intro g' hg'
      simpa [hg'] using hany
    have hdup : s.strDup (rebase old new x.path) = s.alloc := if_neg (not_le.mpr hlen)
    rw [hdup] at hsub
    have hq := quiet_alloc s
    cases halloc : s.allocs 0 with
    | false =>
      have hpair : s.alloc = (false, s.alloc.2) := Prod.ext halloc rfl
      rw [hpair] at hsub
      cases hsub
      exact ⟨hq, by simp, nofun⟩
    | true =>
      have hpair : s.alloc = (true, s.alloc.2) := Prod.ext halloc rfl
      rw [hpair] at hsub
      dsimp only at hsub
      cases hrest : subtreePaths old new moved fs s.alloc.2 with
      | mk rest s₂ =>
        obtain ⟨hq', hsome, hzip⟩ := ih (hq.wf h) (fun g hg => hfs g (mem_cons_of_mem _ hg)) hrest
        have hsome : rest.isSome = true ↔
            (∀ k < fs.length, s.alloc.2.allocs k = true) ∧ s.PathsFree old new moved fs := hsome
        rw [hrest] at hsub
        simp only [hlen, true_and, ← hsome, eq_true hfree]
        cases rest with
        | none =>
          cases hsub
          exact ⟨hq.trans hq', .rfl, nofun⟩
        | some ps =>
          cases hsub
          refine ⟨hq.trans hq', .rfl, fun ps' hps => ?_⟩
          cases hps
          rw [zip_cons_cons, hzip ps rfl]
          simp [hx, alloc]

/-- What has to be so for a directory to be moved from `old` to `new`. -/
def TreeMovable (s : Tmpfs) (old new : Path) : Prop :=
  s.pathParentExists new = true ∧ s.list.length < treeWalkLimit ∧
    (∀ k < 2 + (s.subtree old).length, s.allocs k = true) ∧
    s.PathsFree old new (s.subtree old) (s.subtree old)

/-- `file_move_subtree_to_path` on a directory that has a name. -/
theorem fileMoveSubtreeToPath_spec (h : s.Wf) (hf : f ∈ s.list) (hx : s.file f = some x)
    (hn : s.inode x.inode = some n) (htype : n.type = .directory) (hroot : s.pathIsRoot x.path = false)
    (hunder : pathHasPrefixChild path x.path = false) (hnone : s.index path = none)
    (hold : x.path.length < maxPath) (hnew : path.length < maxPath) :
    ¬ s.TreeMovable x.path path ∧ Quiet s (s.fileMoveSubtreeToPath f path).2 ∧
        (s.fileMoveSubtreeToPath f path).1 = false ∨
      s.TreeMovable x.path path ∧ ∃ s₁ s', Quiet s s₁ ∧ s.fileMoveSubtreeToPath f path = (true, s') ∧
        FileStep s₁ (.moveTree f path) s' := by
  obtain ⟨z, hz, hd, -⟩ := h.listed f hf
  rw [hx] at hz
  cases hz
  have hvalid : s.list.any (fun g => !s.fileIsValid g) = false := by
    rw [any_eq_false]
    intro g hg
    obtain ⟨y, hy, -⟩ := h.listed g hg
    simp [h.fileIsValid hy]
  have hself : f ∈ s.subtree x.path := (mem_subtree h hf hx x.path).mpr (.inl rfl)
  unfold fileMoveSubtreeToPath
  rw [hx, inodeOf_eq hx hn]
  dsimp only
  by_cases hparent : s.pathParentExists path = true
  swap
  · rw [if_pos (.inr (.inr (.inl (by simpa using hparent))))]
    exact .inl ⟨fun hm => hparent hm.1, .refl s, rfl⟩
  rw [if_neg (by simp [hd, htype, hparent, hunder, hnew]), hvalid]
  by_cases hlimit : s.list.length < treeWalkLimit
  swap
  · rw [if_pos (.inl (not_lt.mp hlimit))]
    exact .inl ⟨fun hm => hlimit hm.2.1, .refl s, rfl⟩
  have hsubtree : (s.list.filter fun g => s.fileInRenamedSubtree g x.path) = s.subtree x.path := rfl
  rw [if_neg (by simp [hlimit]), hsubtree, if_neg (ne_nil_of_mem hself)]
  have hq := (quiet_alloc s).trans (quiet_alloc s.alloc.2)
  -- the first two allocations are those of the lists
  have hallocs : (∀ k < 2 + (s.subtree x.path).length, s.allocs k = true) ↔
      (s.alloc.1 && s.alloc.2.alloc.1) = true ∧
        ∀ k < (s.subtree x.path).length, s.alloc.2.alloc.2.allocs k = true := by
    rw [show 2 + (s.subtree x.path).length = (s.subtree x.path).length + 1 + 1 by omega,
      forall_lt_succ_left, forall_lt_succ_left, Bool.and_eq_true, and_assoc]
    rfl
  unfold TreeMovable
  rw [hallocs]
  split
  · rename_i hfail
    exact .inl ⟨fun hm => by simp [hm.2.2.1.1] at hfail, hq, rfl⟩
  rename_i hboth
  have hboth : (s.alloc.1 && s.alloc.2.alloc.1) = true := by simpa using hboth
  cases hsub : subtreePaths x.path path (s.subtree x.path) (s.subtree x.path) s.alloc.2.alloc.2 with
  | mk paths s₁ =>
    obtain ⟨hq₁, hsome, hzip⟩ := subtreePaths_spec (hq.wf h) hold hnew (fun g hg => by
      obtain ⟨y, hy, -⟩ := h.listed g (mem_list_of_mem_subtree hg)
      exact ⟨y, hy, (mem_subtree h (mem_list_of_mem_subtree hg) hy _).mp hg⟩) hsub
    have hq₁ := hq.trans hq₁
    cases paths with
    | none => exact .inl ⟨fun hm => absurd (hsome.mpr ⟨hm.2.2.1.2, hm.2.2.2⟩) (by simp), hq₁, rfl⟩
    | some ps =>
      obtain ⟨hmem, hpaths⟩ := hsome.mp rfl
      have hsame : s.subtree x.path = s₁.subtree x.path := by
        unfold subtree fileInRenamedSubtree
        simp only [hq₁.list, hq₁.file, hq₁.fileIsValid]
      have hfree₁ : ∀ g ∈ s₁.subtree x.path, ∀ y, s₁.file g = some y →
          ∀ g', s₁.index (rebase x.path path y.path) = some g' → g' ∈ s₁.subtree x.path := by
        rw [← hsame, hq₁.file, hq₁.index]
        exact fun g hg y hy => (hpaths g hg y hy).2
      have heq : insertMoved ((s.subtree x.path).zip ps) ((s.subtree x.path).foldl filesRemoveFile s₁) =
          s₁.movedTree x.path path := by
        unfold movedTree
        rw [hzip ps rfl, hsame, hq₁.file]
        rfl
      have hok := (movedTree_spec (hq₁.wf h) hfree₁).1
      refine .inr ⟨⟨hparent, hlimit, ⟨hboth, hmem⟩, hpaths⟩, s₁, (s₁.movedTree x.path path).2, hq₁, ?_,
        .moveTree (hq₁.list ▸ hf) ((congrFun hq₁.file f).trans hx) ((congrFun hq₁.inode _).trans hn)
          htype ((hq₁.pathParentExists path).trans hparent) hunder
          ((congrFun hq₁.index path).trans hnone) ((hq₁.pathIsRoot _).trans hroot) hfree₁⟩
      show insertMoved ((s.subtree x.path).zip ps) ((s.subtree x.path).foldl filesRemoveFile s₁) = _
      rw [heq, ← hok]

/-! ## Handles -/

theorem freeOpenId_spec {start next next' id}
    (h : s.freeOpenId start fuel next = (some id, next')) : s.openFrom id = none := by
  induction fuel generalizing next with
  | zero => cases h
  | succ fuel ih =>
    unfold freeOpenId at h
    dsimp only at h
    generalize (if next + 1 = 0 then 1 else next + 1) = following at h
    split at h
    · split at h
      · cases h
      · exact ih h
    · rename_i hfree
      split at h
      · cases h
      · cases h
        simpa using hfree

theorem openHandle_spec (s : Tmpfs) (o : TmpfsOpen) :
    (∃ next, s.openHandle o = (none, { s with nextOpenId := next })) ∨ ∃ id next, s.openFrom id = none ∧
        s.openHandle o = (some id, { s with opens := (id, o) :: s.opens, nextOpenId := next }) := by
  unfold openHandle
  split
  · rename_i id next hfree
    exact .inr ⟨id, next, freeOpenId_spec hfree, rfl⟩
  · rename_i next _
    exact .inl ⟨next, rfl⟩

theorem quiet_nextOpenId (s : Tmpfs) (next : U64) : Quiet s { s with nextOpenId := next } :=
  ⟨⟨rfl, rfl, rfl, rfl, rfl, rfl, rfl⟩, rfl⟩

theorem openDir_spec (s : Tmpfs) (path : Path) (owner : U64) :
    Quiet s (s.openDir path owner).2 ∨
      ∃ s₁ handle s', Quiet s s₁ ∧ s.openDir path owner = (handle, s') ∧
        FileStep s₁ (.openDir handle) s' := by
  have hq := quiet_alloc s
  unfold openDir
  split
  · rename_i s₁ halloc
    exact .inl (by rwa [halloc] at hq)
  rename_i s₁ halloc
  rw [halloc] at hq
  rcases openHandle_spec s₁ { owner, kind := .dir path } with ⟨next, ho⟩ | ⟨id, next, hfree, ho⟩
  · rw [ho]
    exact .inl (hq.trans (quiet_nextOpenId s₁ next))
  · rw [ho]
    exact .inr ⟨s₁, id, _, hq, rfl, .openDir hfree⟩

theorem fileRelease_retained (hx : s.file f = some x) (hd : x.deleted = false) (next : U64) :
    Quiet s (({ s.setFile f (some { x with refs := x.refs + 1 }) with
      nextOpenId := next } : Tmpfs).fileRelease f) := by
  have hfile : ({ s.setFile f (some { x with refs := x.refs + 1 }) with
      nextOpenId := next } : Tmpfs).file f = some { x with refs := x.refs + 1 } :=
    update_self ..
  unfold fileRelease
  rw [hfile]
  have hkeep : ¬(x.refs + 1 - 1 = 0 ∧ x.deleted = true) := by simp [hd]
  dsimp only
  rw [if_neg hkeep]
  refine ⟨⟨rfl, rfl, rfl, ?_, rfl, rfl, rfl⟩, rfl⟩
  show update (update s.file f _) f (some { x with refs := x.refs }) = s.file
  rw [update_idem, ← hx, update_eq_self]

theorem openFile_spec (h : s.Wf) (hf : f ∈ s.list) (hx : s.file f = some x)
    (hn : s.inode x.inode = some n) (htype : n.type ≠ .directory) (owner : U64) :
    Quiet s (s.openFile f owner).2 ∨ ∃ s₁ handle s', Quiet s s₁ ∧ s.openFile f owner = (handle, s') ∧
        FileStep s₁ (.openFile handle f) s' := by
  have hd := h.not_deleted hf hx
  have hq := quiet_alloc s
  unfold openFile
  rw [hx]
  dsimp only
  rw [if_neg (by simp [hd])]
  split
  · rename_i s₁ halloc
    exact .inl (by rwa [halloc] at hq)
  rename_i s₁ halloc
  rw [halloc] at hq
  have hx₁ : s₁.file f = some x := (congrFun hq.file f).trans hx
  rcases openHandle_spec (s₁.setFile f (some { x with refs := x.refs + 1 }))
    { owner, kind := .file f } with ⟨next, ho⟩ | ⟨id, next, hfree, ho⟩
  · rw [ho]
    exact .inl (hq.trans (fileRelease_retained hx₁ hd next))
  · rw [ho]
    exact .inr ⟨s₁, id, _, hq, rfl,
      .openFile (hq.list ▸ hf) hx₁ ((congrFun hq.inode _).trans hn) htype hfree⟩

/-! ## Contents -/

theorem growCapacity_spec {size capacity grown}
    (h : growCapacity size fuel capacity = some grown) : size ≤ grown := by
  induction fuel generalizing capacity with
  | zero => cases h
  | succ fuel ih =>
    unfold growCapacity at h
    split at h
    · exact ih h
    · rename_i hlt
      cases h
      exact BitVec.not_lt.mp hlt

theorem growCapacity_zero {size} (h : 0 < size) (fuel : Nat) : growCapacity size fuel 0 = none := by
  induction fuel with
  | zero => rfl
  | succ fuel ih =>
    unfold growCapacity
    rw [if_pos h]
    exact ih

theorem toNat_double {capacity : U64} (hj : j < 64) (hc : capacity.toNat = 2 ^ j) :
    (capacity * 2).toNat = if j = 63 then 0 else 2 ^ (j + 1) := by
  have hmul : (capacity * 2).toNat = 2 ^ (j + 1) % 2 ^ 64 := by
    rw [BitVec.toNat_mul, hc, pow_succ]
    rfl
  rw [hmul]
  split
  · rename_i h
    rw [h]
    exact mod_self _
  · exact Nat.mod_eq_of_lt (Nat.pow_lt_pow_right (by decide) (by omega))

theorem growCapacity_power {size capacity grown} (hj : j < 64)
    (hc : capacity.toNat = 2 ^ j) (h : growCapacity size fuel capacity = some grown) :
    ∃ k, j ≤ k ∧ k < 64 ∧ grown.toNat = 2 ^ k := by
  induction fuel generalizing capacity j with
  | zero => cases h
  | succ fuel ih =>
    unfold growCapacity at h
    split at h
    · rename_i hlt
      have hpos : 0 < size := BitVec.lt_def.mpr (lt_of_le_of_lt (zero_le _) hlt)
      have hdouble := toNat_double hj hc
      split at hdouble
      · rw [BitVec.eq_of_toNat_eq (y := 0) hdouble, growCapacity_zero hpos] at h
        cases h
      · obtain ⟨k, hk, hlt⟩ := ih (by omega) hdouble h
        exact ⟨k, by omega, hlt⟩
    · cases h
      exact ⟨j, le_refl j, hj, hc⟩

theorem startCapacity (h : n.Bounded) : ∃ j, 6 ≤ j ∧ j < 64 ∧
    (if capacity n = 0 then 64 else capacity n).toNat = 2 ^ j ∧ n.data.length ≤ 2 ^ j := by
  have hcap : (capacity n).toNat = n.data.length := by
    unfold capacity
    rw [BitVec.toNat_ofNat, mod_eq_of_lt h.2.lt]
  rcases h.2 with hzero | ⟨j, hj, hlt, hlen⟩
  · have he : capacity n = 0 := BitVec.eq_of_toNat_eq (hcap.trans hzero)
    rw [if_pos he, hzero]
    exact ⟨6, by decide, by decide, rfl, by decide⟩
  · have hne : capacity n ≠ 0 := by
      intro he
      rw [he, hlen] at hcap
      exact absurd hcap (Nat.ne_of_lt (Nat.two_pow_pos j))
    rw [if_neg hne, hcap]
    exact ⟨j, hj, hlt, hlen, hlen.le⟩

theorem length_overwrite {data bytes off} (h : off + bytes.length ≤ data.length) :
    (overwrite data off bytes).length = data.length := by
  unfold overwrite
  simp only [length_append, length_take, length_drop]
  omega

/-- An inode whose contents may have got more memory. -/
structure Resized (n m : TmpfsInode) (size : U64) (ok : Bool) : Prop where
  refs : m.refs = n.refs
  attrs : m.meta = n.meta
  same_size : m.size = n.size
  data : ∃ zeros, m.data = n.data ++ zeros
  bounded : n.Bounded → m.Bounded
  enough : n.Bounded → ok = true → size.toNat ≤ m.data.length

theorem capacity_toNat (h : n.Bounded) : (capacity n).toNat = n.data.length := by
  unfold capacity
  rw [BitVec.toNat_ofNat, mod_eq_of_lt h.2.lt]

theorem resize_spec {size ok} (h : s.resize n size = some (ok, m, s')) :
    Quiet s s' ∧ Resized n m size ok := by
  unfold resize at h
  split at h
  · rename_i hle
    cases h
    refine ⟨.refl _, rfl, rfl, rfl, ⟨[], by simp⟩, id, fun hb _ => ?_⟩
    rw [← capacity_toNat hb]
    exact hle
  split at h
  · cases h
  rename_i grown hgrown
  have hq := quiet_alloc s
  have hle : size.toNat ≤ grown.toNat := growCapacity_spec hgrown
  split at h
  · rename_i s₁ halloc
    cases h
    exact ⟨by rwa [halloc] at hq, rfl, rfl, rfl, ⟨[], by simp⟩, id, fun _ hok => by cases hok⟩
  · rename_i s₁ halloc
    cases h
    refine ⟨by rwa [halloc] at hq, rfl, rfl, rfl, ⟨_, rfl⟩, fun hb => ?_, fun hb _ => ?_⟩
    · obtain ⟨j, hj, hlt, hstart, hdata⟩ := startCapacity hb
      obtain ⟨k, hjk, hk, hgrown⟩ := growCapacity_power hlt hstart hgrown
      have hpow : 2 ^ j ≤ 2 ^ k := Nat.pow_le_pow_right (by decide) hjk
      have hlen : (n.data ++ replicate (grown.toNat - n.data.length) 0).length = 2 ^ k := by
        rw [length_append, length_replicate, hgrown]
        omega
      unfold TmpfsInode.Bounded
      rw [hlen]
      exact ⟨hb.1.trans (hdata.trans hpow), .inr ⟨k, by omega, hk, rfl⟩⟩
    · simp only [length_append, length_replicate]
      omega

theorem setSize_spec {size ok} (h : s.setSize n size = some (ok, m, s')) :
    Quiet s s' ∧ m.refs = n.refs ∧ m.meta = n.meta ∧ (n.Bounded → m.Bounded) := by
  unfold setSize at h
  split at h
  · cases h
  · rename_i k s₁ hr
    cases h
    obtain ⟨hq, hres⟩ := resize_spec hr
    exact ⟨hq, hres.refs, hres.attrs, hres.bounded⟩
  · rename_i k s₁ hr
    cases h
    obtain ⟨hq, hres⟩ := resize_spec hr
    refine ⟨hq, hres.refs, hres.attrs, fun hb => ?_⟩
    have henough := hres.enough hb rfl
    have hlt := (hres.bounded hb).2
    unfold TmpfsInode.Bounded
    split
    · rename_i hgrow
      have hgrow : n.size.toNat < size.toNat := hgrow
      rw [length_overwrite]
      · exact ⟨henough, hlt⟩
      · rw [length_replicate]
        omega
    · exact ⟨henough, hlt⟩

end Tmpfs

end Bunix.User
