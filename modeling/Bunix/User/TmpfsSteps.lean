import Bunix.User.TmpfsNames

/-! # tmpfs: what a request can do

Every request is a sequence of a few changes to the files: a name is made, linked, removed or
moved, a file is opened or closed, an inode is changed. `FileStep` says what each of them is and
when it happens, and `step_events` that a request does nothing else. What all of them keep is then
kept by every request.
-/
namespace Bunix.User

open Bunix.Lib Function SlashPath List Nat

variable {old q : Path}

inductive FileEvent where
  | quiet
  /-- The times, the mode or the owner of an inode change. -/
  | touch (i : InodeId)
  /-- The contents of an inode change. -/
  | write (i : InodeId)
  /-- The contents of a file that has just been created. -/
  | fill (f : FileId)
  | create (path : Path)
  | link (f : FileId) (path : Path)
  | unlink (f : FileId)
  /-- A file that has just been created is given up. -/
  | discard (f : FileId)
  | move (f : FileId) (path : Path)
  | moveTree (f : FileId) (path : Path)
  | openFile (handle : U64) (f : FileId)
  | openDir (handle : U64)
  | close (handle : U64)
  | mount (path : Path)
deriving DecidableEq, Repr

/-- The lengths of memory that doubling from 64 on gives. -/
def IsCapacity (c : Nat) : Prop := c = 0 ∨ ∃ k, 6 ≤ k ∧ k < 64 ∧ c = 2 ^ k

theorem IsCapacity.lt (h : IsCapacity c) : c < 2 ^ 64 := by
  rcases h with rfl | ⟨k, -, hk, rfl⟩
  · decide
  · exact Nat.pow_lt_pow_right (by decide) hk

/-- The size is within the memory of the contents, whose length doubling gave. -/
def TmpfsInode.Bounded (n : TmpfsInode) : Prop := n.size.toNat ≤ n.data.length ∧ IsCapacity n.data.length

namespace Tmpfs

/-- Files, inodes, names and handles are the same. -/
structure Quiet (s s' : Tmpfs) : Prop extends Same s s' where
  opens : s'.opens = s.opens

/-- The files `file_move_subtree_to_path` moves. -/
def subtree (s : Tmpfs) (old : Path) : List FileId :=
  s.list.filter fun g => s.fileInRenamedSubtree g old

/-- The state after `file_move_subtree_to_path` has moved them. -/
def movedTree (s : Tmpfs) (old new : Path) : Bool × Tmpfs :=
  insertMoved ((s.subtree old).filterMap fun g =>
      (s.file g).map fun x => (g, rebase old new x.path))
    ((s.subtree old).foldl filesRemoveFile s)

inductive FileStep : Tmpfs → FileEvent → Tmpfs → Prop
  | quiet {s s' : Tmpfs} (h : Quiet s s') : FileStep s .quiet s'
  | touch {s : Tmpfs} {i : InodeId} {n m : TmpfsInode} (hn : s.inode i = some n)
      (hrefs : m.refs = n.refs) (htype : m.type = n.type) (hdata : m.data = n.data)
      (hsize : m.size = n.size) :
      FileStep s (.touch i) (s.setInode i (some m))
  | write {s : Tmpfs} {i : InodeId} {n m : TmpfsInode} (hn : s.inode i = some n)
      (hrefs : m.refs = n.refs) (hmeta : m.meta = n.meta) (hbound : n.Bounded → m.Bounded) :
      FileStep s (.write i) (s.setInode i (some m))
  | fill {s : Tmpfs} {f : FileId} {x : TmpfsFile} {n m : TmpfsInode} (hx : s.file f = some x)
      (hunused : x.refs = 0) (hn : s.inode x.inode = some n) (hone : n.refs = 1)
      (hrefs : m.refs = n.refs) (hmeta : m.meta = n.meta) (hbound : n.Bounded → m.Bounded) :
      FileStep s (.fill f) (s.setInode x.inode (some m))
  | create {s : Tmpfs} {path : Path} {n : TmpfsInode} (hparent : s.pathParentExists path = true)
      (hnone : s.index path = none) (hrefs : n.refs = 1) (hbound : n.Bounded) :
      FileStep s (.create path)
        (((s.newInode n).newFile { path, inode := s.nextInode }).inserted s.nextFile path)
  | link {s : Tmpfs} {f : FileId} {x : TmpfsFile} {n : TmpfsInode} {path : Path}
      (hf : f ∈ s.list) (hx : s.file f = some x) (hn : s.inode x.inode = some n)
      (htype : n.type ≠ .directory) (hparent : s.pathParentExists path = true)
      (hnone : s.index path = none) :
      FileStep s (.link f path)
        (((s.setInode x.inode (some { n with refs := n.refs + 1 })).newFile
          { path, inode := x.inode }).inserted s.nextFile path)
  | unlink {s : Tmpfs} {f : FileId} {x : TmpfsFile} {n : TmpfsInode} (hf : f ∈ s.list)
      (hx : s.file f = some x) (hn : s.inode x.inode = some n)
      (hleaf : n.type ≠ .directory ∨ s.directoryIsEmpty x.path = true) :
      FileStep s (.unlink f) (s.fileUnlink f)
  | discard {s : Tmpfs} {f : FileId} {x : TmpfsFile} {n : TmpfsInode} (hf : f ∈ s.list)
      (hx : s.file f = some x) (hn : s.inode x.inode = some n) (htype : n.type ≠ .directory)
      (hunused : x.refs = 0) :
      FileStep s (.discard f) (s.fileUnlink f)
  | move {s : Tmpfs} {f : FileId} {x : TmpfsFile} {n : TmpfsInode} {path : Path}
      (hf : f ∈ s.list) (hx : s.file f = some x) (hn : s.inode x.inode = some n)
      (htype : n.type ≠ .directory) (hslash : path.head? = some '/') (hnone : s.index path = none) :
      FileStep s (.move f path) (((s.filesRemoveFile f).setPath f path).inserted f path)
  | moveTree {s : Tmpfs} {f : FileId} {x : TmpfsFile} {n : TmpfsInode} {path : Path}
      (hf : f ∈ s.list) (hx : s.file f = some x) (hn : s.inode x.inode = some n)
      (htype : n.type = .directory) (hparent : s.pathParentExists path = true)
      (hunder : pathHasPrefixChild path x.path = false) (hnone : s.index path = none)
      (hroot : s.pathIsRoot x.path = false)
      (hfree : ∀ g ∈ s.subtree x.path, ∀ y, s.file g = some y →
        ∀ h, s.index (rebase x.path path y.path) = some h → h ∈ s.subtree x.path) :
      FileStep s (.moveTree f path) (s.movedTree x.path path).2
  | openFile {s : Tmpfs} {f : FileId} {x : TmpfsFile} {n : TmpfsInode} {handle owner next : U64}
      (hf : f ∈ s.list) (hx : s.file f = some x) (hn : s.inode x.inode = some n)
      (htype : n.type ≠ .directory) (hfree : s.openFrom handle = none) :
      FileStep s (.openFile handle f)
        { s.setFile f (some { x with refs := x.refs + 1 }) with
          opens := (handle, ⟨owner, .file f⟩) :: s.opens, nextOpenId := next }
  | openDir {s : Tmpfs} {path : Path} {handle owner next : U64} (hfree : s.openFrom handle = none) :
      FileStep s (.openDir handle)
        { s with opens := (handle, ⟨owner, .dir path⟩) :: s.opens, nextOpenId := next }
  | close {s : Tmpfs} {handle : U64} {o : TmpfsOpen} (ho : s.openFrom handle = some o) :
      FileStep s (.close handle) (s.closeHandle handle o.owner)
  | mount {s : Tmpfs} {path : Path} : FileStep s (.mount path) { s with roots := path :: s.roots }

variable {s s' s'' : Tmpfs} {f : FileId} {i : InodeId} {x : TmpfsFile} {n m : TmpfsInode} {path : Path}

theorem Quiet.refl (s : Tmpfs) : Quiet s s := ⟨.refl s, rfl⟩

theorem Quiet.trans (h : Quiet s s') (h' : Quiet s' s'') : Quiet s s'' :=
  ⟨h.toSame.trans h'.toSame, h'.opens.trans h.opens⟩

theorem quiet_alloc (s : Tmpfs) : Quiet s s.alloc.2 := ⟨same_alloc s, rfl⟩

theorem quiet_strDup (s : Tmpfs) (path : Path) : Quiet s (s.strDup path).2 := by
  refine ⟨same_strDup s path, ?_⟩
  unfold strDup
  split <;> rfl

theorem quiet_takeInodeId (s : Tmpfs) : Quiet s s.takeInodeId.2 := ⟨same_takeInodeId s, rfl⟩

/-! ## Moving a subtree -/

/-- Names change, and nothing else of the files. -/
structure Relabel (s s' : Tmpfs) : Prop where
  roots : s'.roots = s.roots
  inode : s'.inode = s.inode
  opens : s'.opens = s.opens
  nextFile : s'.nextFile = s.nextFile
  nextInode : s'.nextInode = s.nextInode
  file : ∀ g, (s'.file g).map (fun y => { y with path := [] }) =
    (s.file g).map fun y => { y with path := [] }

theorem Relabel.refl (s : Tmpfs) : Relabel s s := ⟨rfl, rfl, rfl, rfl, rfl, fun _ => rfl⟩

theorem Relabel.trans (h : Relabel s s') (h' : Relabel s' s'') : Relabel s s'' :=
  ⟨h'.roots.trans h.roots, h'.inode.trans h.inode, h'.opens.trans h.opens,
    h'.nextFile.trans h.nextFile, h'.nextInode.trans h.nextInode,
    fun g => (h'.file g).trans (h.file g)⟩

theorem relabel_filesRemoveFile (s : Tmpfs) (f : FileId) : Relabel s (s.filesRemoveFile f) := by
  unfold filesRemoveFile
  split
  · exact .refl s
  · exact ⟨rfl, rfl, rfl, rfl, rfl, fun _ => rfl⟩

theorem relabel_setPath (s : Tmpfs) (f : FileId) (path : Path) : Relabel s (s.setPath f path) := by
  unfold setPath
  split
  · exact .refl s
  rename_i x hx
  refine ⟨rfl, rfl, rfl, rfl, rfl, fun g => ?_⟩
  exact setFile_cases (fun hg => by rw [hg, hx]; rfl) fun _ => rfl

theorem relabel_inserted (s : Tmpfs) (f : FileId) (path : Path) : Relabel s (s.inserted f path) :=
  ⟨rfl, rfl, rfl, rfl, rfl, fun _ => rfl⟩

theorem relabel_move (s : Tmpfs) (f : FileId) (path : Path) :
    Relabel s (((s.filesRemoveFile f).setPath f path).inserted f path) :=
  ((relabel_filesRemoveFile s f).trans (relabel_setPath _ f path)).trans (relabel_inserted _ f path)

theorem Relabel.inodeOf (h : Relabel s s') (g : FileId) : s'.inodeOf g = s.inodeOf g := by
  have := h.file g
  unfold Tmpfs.inodeOf
  rw [h.inode]
  cases hg : s.file g <;> cases hg' : s'.file g <;> simp_all

/-- After the names of some files have been removed. -/
structure Removed (s s' : Tmpfs) (moved : List FileId) : Prop where
  wf : s'.Wf
  file : s'.file = s.file
  relabel : Relabel s s'
  mem_list : ∀ g, g ∈ s'.list ↔ g ∈ s.list ∧ g ∉ moved

theorem mem_filesRemoveFile (h : s.Wf) (f g : FileId) :
    g ∈ (s.filesRemoveFile f).list ↔ g ∈ s.list ∧ g ≠ f := by
  by_cases hf : f ∈ s.list
  · obtain ⟨x, hx, -, -⟩ := h.listed f hf
    rw [filesRemoveFile_listed h hf hx]
    rw [h.nodup.mem_erase_iff, and_comm]
  · rw [filesRemoveFile_not_listed h hf]
    exact ⟨fun hg => ⟨hg, fun he => hf (he ▸ hg)⟩, And.left⟩

theorem removed_foldl (h : s.Wf) (moved : List FileId) :
    Removed s (moved.foldl filesRemoveFile s) moved := by
  induction moved generalizing s with
  | nil => exact ⟨h, rfl, .refl s, fun g => by simp⟩
  | cons f moved ih =>
    obtain ⟨hwf, hfile, hrel, hlist⟩ := ih (h.filesRemoveFile f)
    refine ⟨hwf, hfile.trans (filesRemoveFile_file s f), (relabel_filesRemoveFile s f).trans hrel,
      fun g => ?_⟩
    rw [foldl_cons, hlist, mem_filesRemoveFile h, mem_cons, not_or, and_assoc]

theorem Removed.index_iff {moved} (hr : Removed s s' moved) (h : s.Wf) (q : Path)
    (g : FileId) : s'.index q = some g ↔ s.index q = some g ∧ g ∉ moved := by
  rw [hr.wf.index_iff, h.index_iff, hr.file, hr.mem_list]
  tauto

theorem insertMoved_spec (ms : List (FileId × Path)) (h : t.Wf)
    (hfiles : (ms.map Prod.fst).Nodup) (hpaths : (ms.map Prod.snd).Nodup)
    (hms : ∀ g p, (g, p) ∈ ms → g ∉ t.list ∧ t.index p = none ∧
      ∃ y, t.file g = some y ∧ y.deleted = false) :
    (insertMoved ms t).1 = true ∧ (insertMoved ms t).2.Wf ∧ Relabel t (insertMoved ms t).2 ∧
      (∀ g, g ∈ (insertMoved ms t).2.list ↔ g ∈ ms.map Prod.fst ∨ g ∈ t.list) ∧ (∀ g p, (g, p) ∈ ms →
        (insertMoved ms t).2.entry p = (t.inodeOf g).map fun e => e.2.meta) ∧
      ∀ q, q ∉ ms.map Prod.snd → (insertMoved ms t).2.entry q = t.entry q := by
  induction ms generalizing t with
  | nil =>
    refine ⟨rfl, h, .refl t, fun g => ?_, fun g p hgp => ?_, fun q _ => rfl⟩
    · simp [insertMoved]
    · cases hgp
  | cons gp ms ih =>
    obtain ⟨f, p⟩ := gp
    rw [map_cons, nodup_cons] at hfiles hpaths
    obtain ⟨hf, hp, x, hx, hd⟩ := hms f p mem_cons_self
    obtain ⟨hok, hwf, hentry⟩ := h.place hx hd hf hp
    have hrel : Relabel t ((t.setPath f p).inserted f p) :=
      (relabel_setPath t f p).trans (relabel_inserted _ f p)
    have hsetlist : (t.setPath f p).list = t.list := by
      rw [setPath_eq hx]
      rfl
    have hsetindex : (t.setPath f p).index = t.index := by
      rw [setPath_eq hx]
      rfl
    have hrest : ∀ g q, (g, q) ∈ ms → g ∉ ((t.setPath f p).inserted f p).list ∧
        ((t.setPath f p).inserted f p).index q = none ∧
        ∃ y, ((t.setPath f p).inserted f p).file g = some y ∧ y.deleted = false := by
      intro g q hgq
      obtain ⟨hgl, hq, y, hy, hdy⟩ := hms g q (mem_cons_of_mem _ hgq)
      have hgf : g ≠ f := fun he => hfiles.1 (he ▸ mem_map.mpr ⟨(g, q), hgq, rfl⟩)
      have hqp : q ≠ p := fun he => hpaths.1 (he ▸ mem_map.mpr ⟨(g, q), hgq, rfl⟩)
      refine ⟨?_, ?_, y, ?_, hdy⟩
      · show g ∉ f :: (t.setPath f p).list
        rw [hsetlist, mem_cons, not_or]
        exact ⟨hgf, hgl⟩
      · show update (t.setPath f p).index p (some f) q = none
        rw [update_of_ne hqp, hsetindex, hq]
      · show (t.setPath f p).file g = some y
        rw [setPath_eq hx, setFile_file_ne hgf, hy]
    obtain ⟨htrue, hwf', hrel', hlist', hentries, hothers⟩ := ih hwf hfiles.2 hpaths.2 hrest
    have heq : insertMoved ((f, p) :: ms) t = insertMoved ms ((t.setPath f p).inserted f p) := by
      rw [insertMoved, hok]
    rw [heq]
    refine ⟨htrue, hwf', hrel.trans hrel', fun g => ?_, fun g q hgq => ?_, fun q hq => ?_⟩
    · rw [hlist']
      show _ ∨ g ∈ f :: (t.setPath f p).list ↔ _
      rw [hsetlist, map_cons, mem_cons, mem_cons]
      tauto
    · rcases mem_cons.mp hgq with he | hgq
      · cases he
        rw [hothers p hpaths.1, hentry, update_self]
      · rw [hentries g q hgq, hrel.inodeOf]
    · rw [map_cons, mem_cons, not_or] at hq
      rw [hothers q hq.2, hentry, update_of_ne hq.1]

theorem mem_subtree (h : s.Wf) (hg : f ∈ s.list) (hx : s.file f = some x) (old : Path) :
    f ∈ s.subtree old ↔ AtOrUnder old x.path := by
  have hd := h.not_deleted hg hx
  unfold subtree fileInRenamedSubtree
  rw [mem_filter, h.fileIsValid hx, hx]
  simp [hg, hd, pathIsAtOrUnder_iff]

theorem mem_list_of_mem_subtree (hg : f ∈ s.subtree old) : f ∈ s.list := (mem_filter.mp hg).1

theorem entry_removed_subtree (h : s.Wf) (hq : AtOrUnder old q) :
    ((s.subtree old).foldl filesRemoveFile s).entry q = none := by
  have hr := removed_foldl h (s.subtree old)
  rw [hr.wf.entry_none]
  cases hi : ((s.subtree old).foldl filesRemoveFile s).index q with
  | none => rfl
  | some g =>
    obtain ⟨hi, hg⟩ := (hr.index_iff h _ _).mp hi
    obtain ⟨hgl, y, hy, rfl⟩ := h.indexed q g hi
    exact absurd ((mem_subtree h hgl hy old).mpr hq) hg

theorem entry_removed_other (h : s.Wf) (hq : ¬ AtOrUnder old q) :
    ((s.subtree old).foldl filesRemoveFile s).entry q = s.entry q := by
  have hr := removed_foldl h (s.subtree old)
  have hindex : ((s.subtree old).foldl filesRemoveFile s).index q = s.index q := by
    apply Option.ext
    intro g
    rw [hr.index_iff h]
    refine ⟨And.left, fun hi => ⟨hi, fun hg => ?_⟩⟩
    obtain ⟨hgl, y, hy, rfl⟩ := h.indexed q g hi
    exact hq ((mem_subtree h hgl hy old).mp hg)
  rw [hr.wf.entry_eq, h.entry_eq, hindex]
  congr 1
  funext g
  rw [hr.relabel.inodeOf]

/-- Below `new` the names that the files below `old` are given are free, or are theirs. -/
abbrev MoveFree (s : Tmpfs) (old new : Path) : Prop :=
  ∀ g ∈ s.subtree old, ∀ y, s.file g = some y →
    ∀ g', s.index (rebase old new y.path) = some g' → g' ∈ s.subtree old

/-- A name is taken off the files below `old` and given back below `new`. -/
theorem movedTree_spec {new} (h : s.Wf) (hfree : s.MoveFree old new) :
    (s.movedTree old new).1 = true ∧ (s.movedTree old new).2.Wf ∧
      Relabel s (s.movedTree old new).2 ∧ (∀ g, g ∈ (s.movedTree old new).2.list ↔ g ∈ s.list) ∧
      (s.movedTree old new).2.entry = NameTree.moveSubtree s.entry old new := by
  set newPath : FileId → Path := fun g =>
    rebase old new ((s.file g).elim [] TmpfsFile.path) with hnewPath
  have hpath : ∀ {g y}, s.file g = some y → newPath g = rebase old new y.path := by
    intro g y hy
    rw [hnewPath]
    simp only [hy, Option.elim_some]
  have hms : ((s.subtree old).filterMap fun g =>
      (s.file g).map fun x => (g, rebase old new x.path)) =
      (s.subtree old).map fun g => (g, newPath g) := by
    rw [← filterMap_eq_map]
    refine filterMap_congr fun g hg => ?_
    obtain ⟨y, hy, -, -⟩ := h.listed g (mem_list_of_mem_subtree hg)
    rw [hy, Option.map_some, comp_apply, hpath hy]
  have hat : ∀ {g y}, g ∈ s.subtree old → s.file g = some y → AtOrUnder old y.path :=
    fun hg hy => (mem_subtree h (mem_list_of_mem_subtree hg) hy old).mp hg
  have hnodup : (s.subtree old).Nodup := h.nodup.filter _
  have hr := removed_foldl h (s.subtree old)
  set t := (s.subtree old).foldl filesRemoveFile s with ht
  obtain ⟨hok, hwf, hrel, hlist, hentries, hothers⟩ :=
    insertMoved_spec ((s.subtree old).map fun g => (g, newPath g)) hr.wf
      (by
        rw [map_map]
        show (map id (s.subtree old)).Nodup
        rwa [map_id])
      (by
        rw [map_map]
        refine (nodup_map_iff_inj_on hnodup).mpr fun g hg g' hg' he => ?_
        obtain ⟨y, hy, -, -⟩ := h.listed g (mem_list_of_mem_subtree hg)
        obtain ⟨y', hy', -, -⟩ := h.listed g' (mem_list_of_mem_subtree hg')
        have he : newPath g = newPath g' := he
        rw [hpath hy, hpath hy'] at he
        exact h.path_injective (mem_list_of_mem_subtree hg) (mem_list_of_mem_subtree hg') hy hy'
          (rebase_injective (hat hg hy) (hat hg' hy') he))
      (by
        intro g p hgp
        obtain ⟨g, hg, he⟩ := mem_map.mp hgp
        cases he
        obtain ⟨y, hy, hd, -⟩ := h.listed g (mem_list_of_mem_subtree hg)
        refine ⟨fun hgl => ((hr.mem_list g).mp hgl).2 hg, ?_, y, hr.file ▸ hy, hd⟩
        cases hi : t.index (newPath g) with
        | none => rfl
        | some g' =>
          obtain ⟨hi, hg'⟩ := (hr.index_iff h _ _).mp hi
          rw [hpath hy] at hi
          exact absurd (hfree g hg y hy g' hi) hg')
  unfold movedTree
  rw [hms]
  refine ⟨hok, hwf, hr.relabel.trans hrel, fun g => ?_, ?_⟩
  · rw [hlist, hr.mem_list, map_map]
    simp only [map_id_fun', comp_def, id_eq]
    have : g ∈ s.subtree old → g ∈ s.list := mem_list_of_mem_subtree
    tauto
  · funext q
    -- a name that is not one of the new ones has no old one
    have hnot : (∀ g ∈ s.subtree old, q ≠ newPath g) → ∀ p, AtOrUnder old p →
        q = rebase old new p → s.entry p = none := by
      intro hq p hp he
      rw [h.entry_none]
      cases hi : s.index p with
      | none => rfl
      | some g =>
        obtain ⟨hgl, y, hy, rfl⟩ := h.indexed p g hi
        exact absurd (he.trans (hpath hy).symm) (hq g ((mem_subtree h hgl hy old).mpr hp))
    by_cases hq : ∃ g ∈ s.subtree old, q = newPath g
    · obtain ⟨g, hg, rfl⟩ := hq
      obtain ⟨y, hy, -, -⟩ := h.listed g (mem_list_of_mem_subtree hg)
      obtain ⟨n, -, hof⟩ := h.inodeOf hy
      rw [hentries g (newPath g) (mem_map.mpr ⟨g, hg, rfl⟩), hr.relabel.inodeOf, hof,
        hpath hy, NameTree.moveSubtree_rebase (hat hg hy)]
      · rfl
      · rw [h.entry_eq, h.index_path (mem_list_of_mem_subtree hg) hy, Option.bind_some, hof]
        rfl
    · have hq : ∀ g ∈ s.subtree old, q ≠ newPath g := fun g hg he => hq ⟨g, hg, he⟩
      rw [hothers q]
      · by_cases hold : AtOrUnder old q
        · rw [NameTree.moveSubtree_old hold (hnot hq), entry_removed_subtree h hold]
        · rw [NameTree.moveSubtree_other hold (hnot hq), entry_removed_other h hold]
      · rw [map_map]
        intro hmem
        obtain ⟨g, hg, he⟩ := mem_map.mp hmem
        exact hq g hg he.symm

/-! ## What the changes do to the names -/

theorem Wf.not_mem_nextFile (h : s.Wf) : s.nextFile ∉ s.list := by
  intro hf
  obtain ⟨x, hx, -, -⟩ := h.listed _ hf
  exact absurd (h.file_lt _ x hx) (lt_irrefl _)

/-- A new file under a free path, for an inode that is new or keeps what it says. -/
theorem Wf.insertNew {m : Nat} (h : s.Wf) (hnone : s.index path = none) (hi : i < m)
    (hm : s.nextInode ≤ m) (hrefs : n.refs = s.links i + 1)
    (hmeta : ∀ k, s.inode i = some k → n.meta = k.meta) :
    ((({ s.setInode i (some n) with nextInode := m } : Tmpfs).newFile
        { path, inode := i }).inserted s.nextFile path).Wf ∧
      ((({ s.setInode i (some n) with nextInode := m } : Tmpfs).newFile
        { path, inode := i }).inserted s.nextFile path).entry = update s.entry path (some n.meta) := by
  have hwf := h.newFile (x := { path, inode := i }) hi hm hrefs
  have hfresh := h.not_mem_nextFile
  have hentry := h.entry_newFile hwf hmeta
  refine ⟨hwf.inserted (update_self ..) rfl hfresh hnone, ?_⟩
  exact (hwf.entry_inserted (update_self ..) (update_self ..) rfl hfresh hnone).trans
    (congrArg (update · path _) hentry)

theorem Wf.create (h : s.Wf) (hnone : s.index path = none) (hrefs : n.refs = 1) :
    (((s.newInode n).newFile { path, inode := s.nextInode }).inserted s.nextFile path).Wf ∧
      (((s.newInode n).newFile { path, inode := s.nextInode }).inserted s.nextFile path).entry =
        update s.entry path (some n.meta) := by
  refine h.insertNew hnone (lt_succ_self _) (le_succ _) (by rw [h.links_fresh, hrefs]) fun k hk => ?_
  exact absurd (h.inode_lt _ k hk) (lt_irrefl _)

theorem Wf.link (h : s.Wf) (hn : s.inode x.inode = some n) (hnone : s.index path = none) :
    (((s.setInode x.inode (some { n with refs := n.refs + 1 })).newFile
        { path, inode := x.inode }).inserted s.nextFile path).Wf ∧
      (((s.setInode x.inode (some { n with refs := n.refs + 1 })).newFile
        { path, inode := x.inode }).inserted s.nextFile path).entry =
        update s.entry path (some n.meta) := by
  refine h.insertNew hnone
    (h.inode_lt _ n hn) (le_refl _) (congrArg (· + 1) (h.refs _ n hn).1) fun k hk => ?_
  rw [hn] at hk
  cases hk
  rfl

theorem Wf.entry_listed (h : s.Wf) (hf : f ∈ s.list) (hx : s.file f = some x)
    (hn : s.inode x.inode = some n) : s.entry x.path = some n.meta := by
  rw [h.entry_eq, h.index_path hf hx, Option.bind_some, inodeOf_eq hx hn]
  rfl

theorem Wf.move (h : s.Wf) (hf : f ∈ s.list) (hx : s.file f = some x)
    (hn : s.inode x.inode = some n) (hnone : s.index path = none) :
    (((s.filesRemoveFile f).setPath f path).inserted f path).Wf ∧
      (((s.filesRemoveFile f).setPath f path).inserted f path).entry =
        update (update s.entry x.path none) path (some n.meta) := by
  have hd := h.not_deleted hf hx
  have hx' : (s.filesRemoveFile f).file f = some x := (congrFun (filesRemoveFile_file s f) f).trans hx
  have hnone' : (s.filesRemoveFile f).index path = none := by
    rw [filesRemoveFile_listed h hf hx]
    show update s.index x.path none path = none
    rw [update_apply, hnone, ite_self]
  obtain ⟨-, hwf, hentry⟩ := (h.filesRemoveFile f).place hx' hd (not_mem_filesRemoveFile h f) hnone'
  refine ⟨hwf, ?_⟩
  rw [hentry, h.entry_remove hf hx, (relabel_filesRemoveFile s f).inodeOf, inodeOf_eq hx hn]
  rfl

theorem closeHandle_eq {handle} (ho : s.openFrom handle = some o) :
    s.closeHandle handle o.owner =
      { (match o.kind with
        | .file f => s.fileRelease f
        | .dir _ => s) with opens := s.opens.filter fun e => e.1 != handle } := by
  unfold closeHandle
  rw [ho]
  cases hk : o.kind with
  | file f =>
    simp only [ne_eq, not_true_eq_false, if_false, hk]
    rw [fileRelease_opens]
  | dir path => simp [hk]

theorem Wf.close {handle} (h : s.Wf) (ho : s.openFrom handle = some o) :
    (s.closeHandle handle o.owner).Wf ∧ (s.closeHandle handle o.owner).entry = s.entry ∧
      (s.closeHandle handle o.owner).roots = s.roots := by
  rw [closeHandle_eq ho]
  cases o.kind with
  | file f =>
    have hsame : Same (s.fileRelease f)
        { s.fileRelease f with opens := s.opens.filter fun e => e.1 != handle } :=
      ⟨rfl, rfl, rfl, rfl, rfl, rfl, rfl⟩
    exact ⟨hsame.wf (h.fileRelease f).1, hsame.entry.trans (h.fileRelease f).2,
      hsame.roots.trans (fileRelease_roots s f)⟩
  | dir path =>
    have hsame : Same s { s with opens := s.opens.filter fun e => e.1 != handle } :=
      ⟨rfl, rfl, rfl, rfl, rfl, rfl, rfl⟩
    exact ⟨hsame.wf h, hsame.entry, rfl⟩

theorem Wf.openFile {opens next refs} (h : s.Wf) (hx : s.file f = some x) :
    ({ s.setFile f (some { x with refs }) with opens, nextOpenId := next } : Tmpfs).Wf ∧
      ({ s.setFile f (some { x with refs }) with opens, nextOpenId := next } : Tmpfs).entry =
        s.entry := by
  have hkeep : f ∈ s.list → ({ x with refs } : TmpfsFile).path = x.path ∧
      ({ x with refs } : TmpfsFile).deleted = false := by
    intro hf
    have hd := h.not_deleted hf hx
    exact ⟨rfl, hd⟩
  have hsame : Same (s.setFile f (some { x with refs }))
      { s.setFile f (some { x with refs }) with opens, nextOpenId := next } :=
    ⟨rfl, rfl, rfl, rfl, rfl, rfl, rfl⟩
  exact ⟨hsame.wf (h.setFile hx _ rfl hkeep),
    hsame.entry.trans (h.entry_setFile hx { x with refs } rfl hkeep)⟩

theorem Wf.fileStep (h : s.Wf) (hs : FileStep s e s') : s'.Wf := by
  cases hs with
  | quiet hq => exact hq.wf h
  | touch hn hrefs | write hn hrefs | fill hx _ hn _ hrefs => exact h.setInode hn hrefs
  | create _ hnone hrefs => exact (h.create hnone hrefs).1
  | link _ _ hn _ _ hnone => exact (h.link hn hnone).1
  | unlink hf hx | discard hf hx => exact h.fileUnlink hf hx
  | move hf hx hn _ _ hnone => exact (h.move hf hx hn hnone).1
  | moveTree _ _ _ _ _ _ _ _ hfree => exact (movedTree_spec h hfree).2.1
  | openFile _ hx => exact (h.openFile hx).1
  | openDir | mount => exact ⟨h.nodup, h.listed, h.indexed, h.inodes, h.refs, h.file_lt, h.inode_lt⟩
  | close ho => exact (h.close ho).1

end Tmpfs

end Bunix.User
