import Bunix.User.TmpfsServer
import Bunix.Lib.RangeSum
import Mathlib.Algebra.Order.BigOperators.Group.Finset
import Bunix.Lib.NameTree

/-! # tmpfs: the names and what they refer to

The search tree and the list hold the same files; every file has an inode, which counts the files
that refer to it. The operations on files are put together from a few changes that keep this, and
each of them changes the name space of the server, the map from paths to types and owners, in one
place at most.
-/
namespace Bunix.User

open Bunix.Lib Function Option List Finset

variable {m : TmpfsInode}

/-- What a name shows of its inode. -/
structure EntryMeta where
  type : VfsType
  mode : U32
  uid : U32
  gid : U32
deriving DecidableEq, Repr

def TmpfsInode.meta (n : TmpfsInode) : EntryMeta := ⟨n.type, n.mode, n.uid, n.gid⟩

@[simp] theorem TmpfsInode.meta_type (n : TmpfsInode) : n.meta.type = n.type := rfl

namespace Tmpfs

variable {s s' s'' : Tmpfs} {f g : FileId} {i j : InodeId} {x y : TmpfsFile} {n : TmpfsInode}
  {p q : Path}

def entry (s : Tmpfs) : NameTree EntryMeta := fun p => (s.inodeFind p).map fun e => e.2.meta

/-- Does `f` refer to `i`? -/
def linkCount (s : Tmpfs) (i : InodeId) (f : FileId) : Nat :=
  if (s.file f).any fun x => x.inode == i then 1 else 0

def links (s : Tmpfs) (i : InodeId) : Nat := ∑ f ∈ Finset.range s.nextFile, s.linkCount i f

structure Wf (s : Tmpfs) : Prop where
  nodup : s.list.Nodup
  listed : ∀ f ∈ s.list, ∃ x, s.file f = some x ∧ x.deleted = false ∧ s.index x.path = some f
  indexed : ∀ p f, s.index p = some f → f ∈ s.list ∧ ∃ x, s.file f = some x ∧ x.path = p
  inodes : ∀ f x, s.file f = some x → ∃ n, s.inode x.inode = some n
  refs : ∀ i n, s.inode i = some n → n.refs = s.links i ∧ 0 < n.refs
  file_lt : ∀ f x, s.file f = some x → f < s.nextFile
  inode_lt : ∀ i n, s.inode i = some n → i < s.nextInode

/-- Files, inodes and names are the same. -/
structure Same (s s' : Tmpfs) : Prop where
  roots : s'.roots = s.roots
  index : s'.index = s.index
  list : s'.list = s.list
  file : s'.file = s.file
  inode : s'.inode = s.inode
  nextFile : s'.nextFile = s.nextFile
  nextInode : s'.nextInode = s.nextInode

theorem Same.refl (s : Tmpfs) : Same s s := ⟨rfl, rfl, rfl, rfl, rfl, rfl, rfl⟩

theorem Same.trans (h : Same s s') (h' : Same s' s'') : Same s s'' :=
  ⟨h'.roots.trans h.roots, h'.index.trans h.index, h'.list.trans h.list, h'.file.trans h.file,
    h'.inode.trans h.inode, h'.nextFile.trans h.nextFile, h'.nextInode.trans h.nextInode⟩

theorem same_alloc (s : Tmpfs) : Same s s.alloc.2 := ⟨rfl, rfl, rfl, rfl, rfl, rfl, rfl⟩

theorem same_strDup (s : Tmpfs) (path : Path) : Same s (s.strDup path).2 := by
  unfold strDup
  split
  · exact .refl s
  · exact same_alloc s

theorem same_takeInodeId (s : Tmpfs) : Same s s.takeInodeId.2 := ⟨rfl, rfl, rfl, rfl, rfl, rfl, rfl⟩

section
variable (h : Same s s')
include h

theorem Same.inodeOf (f : FileId) : s'.inodeOf f = s.inodeOf f := by
  unfold Tmpfs.inodeOf
  rw [h.file, h.inode]

theorem Same.fileIsValid (f : FileId) : s'.fileIsValid f = s.fileIsValid f := by
  unfold Tmpfs.fileIsValid
  rw [h.inodeOf]

theorem Same.fileFind (p : Path) : s'.fileFind p = s.fileFind p := by
  unfold Tmpfs.fileFind
  simp only [h.index, h.file, h.fileIsValid]

theorem Same.inodeFind (p : Path) : s'.inodeFind p = s.inodeFind p := by
  unfold Tmpfs.inodeFind
  rw [h.fileFind]
  cases s.fileFind p with
  | none => rfl
  | some f => exact h.inodeOf f

theorem Same.pathIsRoot (p : Path) : s'.pathIsRoot p = s.pathIsRoot p := by
  unfold Tmpfs.pathIsRoot
  rw [h.roots]

theorem Same.pathParentExists (p : Path) :
    s'.pathParentExists p = s.pathParentExists p := by
  unfold Tmpfs.pathParentExists
  simp only [h.pathIsRoot, h.inodeFind]

theorem Same.entry : s'.entry = s.entry := by
  funext p
  unfold Tmpfs.entry
  rw [h.inodeFind]

theorem Same.links (i : InodeId) : s'.links i = s.links i := by
  unfold Tmpfs.links linkCount
  rw [h.nextFile, h.file]

theorem Same.wf (hs : s.Wf) : s'.Wf where
  nodup := h.list ▸ hs.nodup
  listed := by
    rw [h.list, h.file, h.index]
    exact hs.listed
  indexed := by
    rw [h.list, h.file, h.index]
    exact hs.indexed
  inodes := by
    rw [h.file, h.inode]
    exact hs.inodes
  refs := fun i n hn => by
    rw [h.inode] at hn
    rw [h.links]
    exact hs.refs i n hn
  file_lt := by
    rw [h.file, h.nextFile]
    exact hs.file_lt
  inode_lt := by
    rw [h.inode, h.nextInode]
    exact hs.inode_lt

end

/-! ## What the functions find -/

theorem inodeOf_eq (hx : s.file f = some x) (hn : s.inode x.inode = some n) :
    s.inodeOf f = some (x.inode, n) := by
  simp [inodeOf, hx, hn]

theorem Wf.inodeOf (h : s.Wf) (hx : s.file f = some x) :
    ∃ n, s.inode x.inode = some n ∧ s.inodeOf f = some (x.inode, n) := by
  obtain ⟨n, hn⟩ := h.inodes f x hx
  exact ⟨n, hn, inodeOf_eq hx hn⟩

theorem Wf.fileIsValid (h : s.Wf) (hx : s.file f = some x) : s.fileIsValid f = true := by
  obtain ⟨n, -, hn⟩ := h.inodeOf hx
  simp [Tmpfs.fileIsValid, hn]

theorem Wf.index_path (h : s.Wf) (hf : f ∈ s.list) (hx : s.file f = some x) :
    s.index x.path = some f := by
  obtain ⟨y, hy, -, hi⟩ := h.listed f hf
  rw [hx] at hy
  cases hy
  exact hi

theorem Wf.not_deleted (h : s.Wf) (hf : f ∈ s.list) (hx : s.file f = some x) : x.deleted = false := by
  obtain ⟨_, hy, hd, -⟩ := h.listed f hf
  rw [hx] at hy
  cases hy
  exact hd

theorem Wf.fileFind (h : s.Wf) (p : Path) : s.fileFind p = s.index p := by
  unfold Tmpfs.fileFind
  cases hi : s.index p with
  | none => rfl
  | some f =>
    obtain ⟨hf, x, hx, rfl⟩ := h.indexed p f hi
    have hd := h.not_deleted hf hx
    simp [hx, h.fileIsValid hx, hd]

theorem Wf.of_fileFind (h : s.Wf) (hf : s.fileFind p = some f) :
    f ∈ s.list ∧ ∃ x n, s.file f = some x ∧ x.path = p ∧ x.deleted = false ∧
      s.inode x.inode = some n ∧ s.inodeOf f = some (x.inode, n) ∧
      s.inodeFind p = some (x.inode, n) := by
  have hi := hf
  rw [h.fileFind] at hi
  obtain ⟨hl, x, hx, rfl⟩ := h.indexed p f hi
  have hd := h.not_deleted hl hx
  obtain ⟨n, hn, hof⟩ := h.inodeOf hx
  exact ⟨hl, x, n, hx, rfl, hd, hn, hof, by rw [Tmpfs.inodeFind, hf, bind_some, hof]⟩

theorem Wf.entry_eq (h : s.Wf) (p : Path) :
    s.entry p = (s.index p).bind fun f => (s.inodeOf f).map fun e => e.2.meta := by
  unfold Tmpfs.entry Tmpfs.inodeFind
  rw [h.fileFind]
  cases s.index p with
  | none | some f => rfl

theorem Wf.entry_none (h : s.Wf) : s.entry p = none ↔ s.index p = none := by
  rw [h.entry_eq]
  cases hi : s.index p with
  | none => simp
  | some f =>
    obtain ⟨-, x, hx, -⟩ := h.indexed p f hi
    obtain ⟨n, -, hof⟩ := h.inodeOf hx
    simp [hof]

theorem Wf.entry_congr (h : s.Wf) (h' : s'.Wf) (hindex : s'.index = s.index)
    (hmeta : ∀ f x n, f ∈ s.list → s.file f = some x → s.inode x.inode = some n →
      ∃ y m, s'.file f = some y ∧ s'.inode y.inode = some m ∧ m.meta = n.meta) :
    s'.entry = s.entry := by
  funext p
  rw [h'.entry_eq, h.entry_eq, hindex]
  cases hp : s.index p with
  | none => rfl
  | some f =>
    obtain ⟨hf, x, hx, -⟩ := h.indexed p f hp
    obtain ⟨n, hn⟩ := h.inodes f x hx
    obtain ⟨y, m, hy, hm, heq⟩ := hmeta f x n hf hx hn
    rw [bind_some, bind_some, inodeOf_eq hx hn, inodeOf_eq hy hm, map_some,
      map_some, heq]

/-! ## Counting the files of an inode -/

theorem linkCount_some (hx : s.file f = some x) :
    s.linkCount i f = if x.inode = i then 1 else 0 := by
  simp [linkCount, hx]

theorem linkCount_none (hx : s.file f = none) : s.linkCount i f = 0 := by
  simp [linkCount, hx]

theorem links_of_eq_off (hf : f < s.nextFile) (hn : s'.nextFile = s.nextFile)
    (hoff : ∀ g, g ≠ f → s'.file g = s.file g) :
    s'.links i + s.linkCount i f = s.links i + s'.linkCount i f := by
  unfold links
  rw [hn]
  refine sum_range_of_eq_off (s.linkCount i) (s'.linkCount i) hf fun g hg => ?_
  unfold linkCount
  rw [hoff g hg]

theorem links_congr (hn : s'.nextFile = s.nextFile)
    (hfile : ∀ g, (s'.file g).map (·.inode) = (s.file g).map (·.inode)) (i : InodeId) :
    s'.links i = s.links i := by
  unfold links
  rw [hn]
  refine sum_congr rfl fun g _ => ?_
  have := hfile g
  unfold linkCount
  cases hg : s.file g <;> cases hg' : s'.file g <;> simp_all

theorem links_le (hx : s.file f = some x) (hf : f < s.nextFile) : 1 ≤ s.links x.inode := by
  have h1 : s.linkCount x.inode f = 1 := by rw [linkCount_some hx, if_pos rfl]
  rw [← h1]
  exact Finset.single_le_sum (fun _ _ => Nat.zero_le _)
    (Finset.mem_range.mpr hf)

theorem setFile_file_self (y : Option TmpfsFile) : (s.setFile f y).file f = y := update_self ..

theorem setFile_file_ne (hg : g ≠ f) (y : Option TmpfsFile) : (s.setFile f y).file g = s.file g :=
  update_of_ne hg ..

theorem setInode_inode_self (m : Option TmpfsInode) : (s.setInode i m).inode i = m := update_self ..

theorem setInode_inode_ne (hj : j ≠ i) (m : Option TmpfsInode) : (s.setInode i m).inode j = s.inode j :=
  update_of_ne hj ..

@[elab_as_elim]
theorem setFile_cases {motive : Option TmpfsFile → Prop} {y : Option TmpfsFile} (self : g = f → motive y)
    (ne : g ≠ f → motive (s.file g)) : motive ((s.setFile f y).file g) :=
  @update_cases _ _ _ s.file f g y motive self ne

@[elab_as_elim]
theorem setInode_cases {motive : Option TmpfsInode → Prop} {m : Option TmpfsInode} (self : j = i → motive m)
    (ne : j ≠ i → motive (s.inode j)) : motive ((s.setInode i m).inode j) :=
  @update_cases _ _ _ s.inode i j m motive self ne

/-! ## The changes -/

theorem Wf.setFile (h : s.Wf) (hx : s.file f = some x) (y : TmpfsFile) (hinode : y.inode = x.inode)
    (hlist : f ∈ s.list → y.path = x.path ∧ y.deleted = false) : (s.setFile f (some y)).Wf where
  __ := h
  listed := fun g hg => by
    refine setFile_cases (fun hgf => ?_) fun _ => h.listed g hg
    subst hgf
    obtain ⟨hp, hd⟩ := hlist hg
    exact ⟨y, rfl, hd, hp ▸ h.index_path hg hx⟩
  indexed := fun p g hg => by
    obtain ⟨hl, x', hx', hp⟩ := h.indexed p g hg
    refine ⟨hl, ?_⟩
    refine setFile_cases (fun hgf => ?_) fun _ => ⟨x', hx', hp⟩
    rw [hgf, hx] at hx'
    cases hx'
    exact ⟨y, rfl, (hlist (hgf ▸ hl)).1.trans hp⟩
  inodes := fun g z hz => by
    refine setFile_cases (fun _ hz => ?_) (fun _ => h.inodes g z) hz
    cases hz
    rw [hinode]
    exact h.inodes f x hx
  refs := fun i n hn => by
    have hlinks : (s.setFile f (some y)).links i = s.links i := by
      refine links_congr (show (s.setFile f (some y)).nextFile = s.nextFile from rfl) (fun g => ?_) i
      refine setFile_cases (fun hgf => ?_) fun _ => rfl
      rw [hgf, hx, map_some, map_some, hinode]
    rw [hlinks]
    exact h.refs i n hn
  file_lt := fun g z hz => by
    exact setFile_cases (fun hgf _ => hgf ▸ h.file_lt f x hx) (fun _ => h.file_lt g z) hz

section
variable (h : s.Wf)
include h

theorem Wf.entry_setFile (hx : s.file f = some x) (y : TmpfsFile)
    (hinode : y.inode = x.inode) (hlist : f ∈ s.list → y.path = x.path ∧ y.deleted = false) :
    (s.setFile f (some y)).entry = s.entry := by
  refine h.entry_congr (h.setFile hx y hinode hlist) rfl fun g z n _ hz hn => ?_
  by_cases hgf : g = f
  · subst hgf
    rw [hx] at hz
    cases hz
    exact ⟨y, n, setFile_file_self _, hinode ▸ hn, rfl⟩
  · exact ⟨z, n, (setFile_file_ne hgf _).trans hz, hn, rfl⟩

theorem Wf.setInode (hn : s.inode i = some n) (hrefs : m.refs = n.refs) :
    (s.setInode i (some m)).Wf where
  __ := h
  inodes := fun f x hx => by
    exact setInode_cases (fun _ => ⟨m, rfl⟩) fun _ => h.inodes f x hx
  refs := fun j n' hn' => by
    have hlinks : (s.setInode i (some m)).links j = s.links j := links_congr rfl (fun _ => rfl) j
    rw [hlinks]
    refine setInode_cases (fun hj hn' => ?_) (fun _ => h.refs j n') hn'
    cases hn'
    rw [hrefs, hj]
    exact h.refs i n hn
  inode_lt := fun j n' hn' => by
    exact setInode_cases (fun hj _ => hj ▸ h.inode_lt i n hn) (fun _ => h.inode_lt j n') hn'

theorem Wf.entry_setInode (hn : s.inode i = some n) (hrefs : m.refs = n.refs) (p : Path) :
    (s.setInode i (some m)).entry p =
      if (s.inodeFind p).any (fun e => e.1 == i) then some m.meta else s.entry p := by
  rw [(h.setInode hn hrefs).entry_eq, h.entry_eq]
  unfold Tmpfs.inodeFind
  rw [h.fileFind]
  show (s.index p).bind _ = _
  cases s.index p with
  | none => rfl
  | some f =>
    simp only [bind_some]
    unfold Tmpfs.inodeOf
    show Option.map _ ((s.file f).bind _) = _
    cases s.file f with
    | none => rfl
    | some x =>
      simp only [bind_some]
      by_cases hi : x.inode = i
      · simp [hi, hn, setInode_inode_self]
      rw [setInode_inode_ne hi]
      cases s.inode x.inode with
      | none => rfl
      | some k => simp [hi]

theorem Wf.entry_setInode_meta (hn : s.inode i = some n)
    (hrefs : m.refs = n.refs) (hmeta : m.meta = n.meta) : (s.setInode i (some m)).entry = s.entry := by
  refine h.entry_congr (h.setInode hn hrefs) rfl fun f x k _ hx hk => ?_
  by_cases hi : x.inode = i
  · rw [hi, hn] at hk
    cases hk
    exact ⟨x, m, hx, hi ▸ setInode_inode_self _, hmeta⟩
  · exact ⟨x, k, hx, (setInode_inode_ne hi _).trans hk, rfl⟩

/-! ## Names come and go -/

theorem Wf.index_iff (p : Path) (f : FileId) :
    s.index p = some f ↔ f ∈ s.list ∧ ∃ x, s.file f = some x ∧ x.path = p := by
  constructor
  · exact h.indexed p f
  · rintro ⟨hf, x, hx, rfl⟩
    exact h.index_path hf hx

theorem Wf.path_injective (hf : f ∈ s.list) (hg : g ∈ s.list) (hx : s.file f = some x)
    (hy : s.file g = some y) (hp : x.path = y.path) : f = g := by
  have hi := h.index_path hf hx
  rw [hp, h.index_path hg hy] at hi
  exact (some.inj hi).symm

theorem filesRemoveFile_listed (hf : f ∈ s.list) (hx : s.file f = some x) :
    s.filesRemoveFile f = { s with index := update s.index x.path none, list := s.list.erase f } := by
  unfold filesRemoveFile
  simp only [hx, h.index_path hf hx, if_true]

theorem filesRemoveFile_not_listed (hf : f ∉ s.list) : s.filesRemoveFile f = s := by
  unfold filesRemoveFile
  cases hx : s.file f with
  | none => rfl
  | some x =>
    have hi : ¬ s.index x.path = some f := fun hi => hf (h.indexed _ _ hi).1
    simp only [if_neg hi, erase_of_not_mem hf]

theorem Wf.filesRemoveFile (f : FileId) : (s.filesRemoveFile f).Wf := by
  by_cases hf : f ∈ s.list
  swap
  · rw [filesRemoveFile_not_listed h hf]
    exact h
  obtain ⟨x, hx, -, hi⟩ := h.listed f hf
  rw [filesRemoveFile_listed h hf hx]
  have hother : ∀ {g}, g ∈ s.list.erase f → g ∈ s.list ∧ g ≠ f := fun hg =>
    ⟨mem_of_mem_erase hg, fun he => h.nodup.not_mem_erase (he ▸ hg)⟩
  exact { h with
    nodup := h.nodup.erase f
    listed := fun g hg => by
      obtain ⟨hl, hgf⟩ := hother hg
      obtain ⟨y, hy, hd, hiy⟩ := h.listed g hl
      have hp : y.path ≠ x.path := fun hp => hgf (h.path_injective hl hf hy hx hp)
      exact ⟨y, hy, hd, (update_of_ne hp ..).trans hiy⟩
    indexed := fun q g (hg : update s.index x.path none q = some g) => by
      have hq : q ≠ x.path := by
        rintro rfl
        rw [update_self] at hg
        cases hg
      rw [update_of_ne hq] at hg
      obtain ⟨hl, y, hy, hp⟩ := h.indexed q g hg
      refine ⟨(mem_erase_of_ne ?_).mpr hl, y, hy, hp⟩
      rintro rfl
      rw [hx] at hy
      cases hy
      exact hq hp.symm }

theorem Wf.entry_remove (hf : f ∈ s.list) (hx : s.file f = some x) :
    (s.filesRemoveFile f).entry = update s.entry x.path none := by
  funext q
  rw [(h.filesRemoveFile f).entry_eq, filesRemoveFile_listed h hf hx]
  show (update s.index x.path none q).bind _ = _
  refine update_cases₂ (fun _ => rfl) fun _ => ?_
  rw [h.entry_eq]
  rfl

end

def inserted (s : Tmpfs) (f : FileId) (path : Path) : Tmpfs :=
  { s with index := update s.index path (some f), list := f :: s.list }

theorem filesInsertFile_ok (h : s.Wf) (hx : s.file f = some x) (hf : f ∉ s.list)
    (hp : s.index x.path = none) : s.filesInsertFile f = (.ok, s.inserted f x.path) := by
  unfold filesInsertFile
  simp [hx, h.fileIsValid hx, h.fileFind, hp, hf, inserted]

theorem Wf.inserted (h : s.Wf) (hx : s.file f = some x) (hd : x.deleted = false) (hf : f ∉ s.list)
    (hp : s.index x.path = none) : (s.inserted f x.path).Wf where
  __ := h
  nodup := nodup_cons.mpr ⟨hf, h.nodup⟩
  listed := fun g hg => by
    rcases mem_cons.mp hg with rfl | hg
    · exact ⟨x, hx, hd, update_self ..⟩
    obtain ⟨y, hy, hdy, hi⟩ := h.listed g hg
    refine ⟨y, hy, hdy, ?_⟩
    have hne : y.path ≠ x.path := by
      intro he
      rw [he, hp] at hi
      cases hi
    exact (update_of_ne hne ..).trans hi
  indexed := fun q g hg => by
    by_cases hq : q = x.path
    · subst hq
      have hself : (s.inserted f x.path).index x.path = some f := update_self ..
      rw [hself] at hg
      cases hg
      exact ⟨mem_cons_self, x, hx, rfl⟩
    · have hg : s.index q = some g := (update_of_ne hq ..).symm.trans hg
      obtain ⟨hl, hy⟩ := h.indexed q g hg
      exact ⟨mem_cons_of_mem _ hl, hy⟩

theorem Wf.entry_inserted (h : s.Wf) (hx : s.file f = some x) (hn : s.inode x.inode = some n)
    (hd : x.deleted = false) (hf : f ∉ s.list) (hp : s.index x.path = none) :
    (s.inserted f x.path).entry = update s.entry x.path (some n.meta) := by
  funext q
  rw [(h.inserted hx hd hf hp).entry_eq]
  show (update s.index x.path (some f) q).bind _ = _
  refine update_cases₂ (fun _ => ?_) fun _ => ?_
  · show Option.map _ (s.inodeOf f) = _
    rw [inodeOf_eq hx hn]
    rfl
  · rw [h.entry_eq]
    rfl

theorem Wf.newFile {m : Nat} (h : s.Wf) (hi : x.inode < m) (hm : s.nextInode ≤ m)
    (hrefs : n.refs = s.links x.inode + 1) :
    (({ s.setInode x.inode (some n) with nextInode := m } : Tmpfs).newFile x).Wf := by
  set s₁ := ({ s.setInode x.inode (some n) with nextInode := m } : Tmpfs).newFile x with hs₁
  have hfile : ∀ {g}, g ≠ s.nextFile → s₁.file g = s.file g := fun hg => update_of_ne hg ..
  have hself : s₁.file s.nextFile = some x := update_self ..
  have hinode : ∀ {j}, j ≠ x.inode → s₁.inode j = s.inode j := fun hj => update_of_ne hj ..
  have hinode_self : s₁.inode x.inode = some n := update_self ..
  have hlinks : ∀ j, s₁.links j = s.links j + if x.inode = j then 1 else 0 := by
    intro j
    show ∑ g ∈ range (s.nextFile + 1), _ = _
    rw [Finset.sum_range_succ, linkCount_some hself]
    congr 1
    refine sum_congr rfl fun g hg => ?_
    unfold linkCount
    rw [hfile (Finset.mem_range.mp hg).ne]
  have hne : ∀ g y, s.file g = some y → g ≠ s.nextFile := fun g y hy => (h.file_lt g y hy).ne
  exact {
    nodup := h.nodup
    listed := fun g hg => by
      obtain ⟨y, hy, hd, hiy⟩ := h.listed g hg
      exact ⟨y, by rw [hfile (hne g y hy), hy], hd, hiy⟩
    indexed := fun q g hg => by
      obtain ⟨hl, y, hy, hp⟩ := h.indexed q g hg
      exact ⟨hl, y, by rw [hfile (hne g y hy), hy], hp⟩
    inodes := fun g y hy => by
      by_cases hyi : y.inode = x.inode
      · exact ⟨n, by rw [hyi, hinode_self]⟩
      have hg : g ≠ s.nextFile := by
        rintro rfl
        rw [hself] at hy
        cases hy
        exact hyi rfl
      rw [hfile hg] at hy
      rw [hinode hyi]
      exact h.inodes g y hy
    refs := fun j k hk => by
      rw [hlinks]
      by_cases hj : j = x.inode
      · subst hj
        rw [hinode_self] at hk
        cases hk
        rw [hrefs, if_pos rfl]
        exact ⟨rfl, Nat.succ_pos _⟩
      · rw [hinode hj] at hk
        rw [if_neg (Ne.symm hj)]
        exact h.refs j k hk
    file_lt := fun g y hy => by
      by_cases hg : g = s.nextFile
      · exact hg ▸ Nat.lt_succ_self _
      · rw [hfile hg] at hy
        exact Nat.lt_succ_of_lt (h.file_lt g y hy)
    inode_lt := fun j k hk => by
      by_cases hj : j = x.inode
      · exact hj ▸ hi
      · rw [hinode hj] at hk
        exact lt_of_lt_of_le (h.inode_lt j k hk) hm }

theorem Wf.links_fresh (h : s.Wf) : s.links s.nextInode = 0 := by
  refine Finset.sum_eq_zero fun g _ => ?_
  cases hg : s.file g with
  | none => exact linkCount_none hg
  | some y =>
    rw [linkCount_some hg, if_neg]
    intro he
    obtain ⟨n, hn⟩ := h.inodes g y hg
    exact absurd (h.inode_lt _ n hn) (he ▸ Nat.lt_irrefl _)

theorem Wf.entry_newFile {m : Nat} (h : s.Wf)
    (hwf : (({ s.setInode x.inode (some n) with nextInode := m } : Tmpfs).newFile x).Wf)
    (hmeta : ∀ k, s.inode x.inode = some k → n.meta = k.meta) :
    (({ s.setInode x.inode (some n) with nextInode := m } : Tmpfs).newFile x).entry = s.entry := by
  refine h.entry_congr hwf rfl fun f y k _ hy hk => ?_
  refine ⟨y, ?_⟩
  have hne : f ≠ s.nextFile := (h.file_lt f y hy).ne
  by_cases hi : y.inode = x.inode
  · rw [hi] at hk ⊢
    exact ⟨n, (update_of_ne hne ..).trans hy, update_self .., hmeta k hk⟩
  · exact ⟨k, (update_of_ne hne ..).trans hy, (update_of_ne hi ..).trans hk, rfl⟩

theorem Wf.freeFile (h : s.Wf) (hx : s.file f = some x) (hf : f ∉ s.list) :
    ((s.inodeRelease x.inode).setFile f none).Wf := by
  obtain ⟨n, hn⟩ := h.inodes f x hx
  obtain ⟨hrefs, hpos⟩ := h.refs _ n hn
  have hrelease : s.inodeRelease x.inode = s.setInode x.inode
      (if n.refs - 1 = 0 then none else some { n with refs := n.refs - 1 }) := by
    unfold inodeRelease
    rw [hn]
    dsimp only
    split <;> rfl
  rw [hrelease]
  set m := if n.refs - 1 = 0 then none else some { n with refs := n.refs - 1 } with hm
  set s₁ := (s.setInode x.inode m).setFile f none with hs₁
  have hself : s₁.file f = none := setFile_file_self _
  have hother : ∀ {g}, g ≠ f → s₁.file g = s.file g := fun hg => setFile_file_ne hg _
  have hlinks : ∀ j, s₁.links j + (if x.inode = j then 1 else 0) = s.links j := by
    intro j
    have hoff : s₁.links j + s.linkCount j f = s.links j + s₁.linkCount j f :=
      links_of_eq_off (h.file_lt f x hx) rfl fun _ => hother
    rwa [linkCount_some hx, linkCount_none hself] at hoff
  have hlist : ∀ {g}, g ∈ s.list → g ≠ f := fun hg he => hf (he ▸ hg)
  exact {
    nodup := h.nodup
    listed := fun g hg => by
      rw [hother (hlist hg)]
      exact h.listed g hg
    indexed := fun q g hg => by
      obtain ⟨hl, y, hy, hp⟩ := h.indexed q g hg
      exact ⟨hl, y, by rw [hother (hlist hl), hy], hp⟩
    inodes := fun g y hy => by
      have hgf : g ≠ f := by
        rintro rfl
        rw [hself] at hy
        cases hy
      rw [hother hgf] at hy
      by_cases hyi : y.inode = x.inode
      · -- another file refers to the inode, so that it stays
        have htwo : 1 ≤ s₁.links x.inode := by
          have := links_le (s := s₁) (by rw [hother hgf, hy]) (h.file_lt g y hy)
          rwa [hyi] at this
        have := hlinks x.inode
        rw [if_pos rfl] at this
        have hm' : m = some { n with refs := n.refs - 1 } := by
          rw [hm, if_neg (by omega)]
        exact ⟨{ n with refs := n.refs - 1 }, by
          rw [hyi]
          exact (setInode_inode_self m).trans hm'⟩
      · obtain ⟨k, hk⟩ := h.inodes g y hy
        exact ⟨k, (setInode_inode_ne hyi m).trans hk⟩
    refs := fun j k hk => by
      have hl := hlinks j
      by_cases hj : j = x.inode
      · subst hj
        have hk : m = some k := (setInode_inode_self m).symm.trans hk
        rw [hm] at hk
        split at hk
        · cases hk
        cases hk
        rw [if_pos rfl] at hl
        exact ⟨by simp only; omega, by simp only; omega⟩
      · have hk : s.inode j = some k := (setInode_inode_ne hj m).symm.trans hk
        rw [if_neg (Ne.symm hj)] at hl
        have := h.refs j k hk
        omega
    file_lt := fun g y hy => by
      by_cases hgf : g = f
      · exact hgf ▸ h.file_lt f x hx
      · rw [hother hgf] at hy
        exact h.file_lt g y hy
    inode_lt := fun j k hk => by
      by_cases hj : j = x.inode
      · exact hj ▸ h.inode_lt _ n hn
      · exact h.inode_lt j k ((setInode_inode_ne hj m).symm.trans hk) }

theorem inodeRelease_inode_ne (hj : j ≠ i) : (s.inodeRelease i).inode j = s.inode j := by
  unfold inodeRelease
  split
  · rfl
  · split <;> exact setInode_inode_ne hj _

theorem inodeRelease_kept (s : Tmpfs) (i j : InodeId) (hn : (s.inodeRelease i).inode j = some n) :
    ∃ k, s.inode j = some k ∧ n = { k with refs := n.refs } := by
  by_cases hj : j = i
  · subst hj
    unfold inodeRelease at hn
    split at hn
    · exact ⟨n, hn, rfl⟩
    rename_i k hk
    split at hn
    · rw [setInode_inode_self] at hn
      cases hn
    · rw [setInode_inode_self] at hn
      cases hn
      exact ⟨k, hk, rfl⟩
  · rw [inodeRelease_inode_ne hj] at hn
    exact ⟨n, hn, rfl⟩

theorem inodeRelease_other (s : Tmpfs) (i : InodeId) :
    (s.inodeRelease i).file = s.file ∧ (s.inodeRelease i).index = s.index ∧
      (s.inodeRelease i).list = s.list ∧ (s.inodeRelease i).roots = s.roots := by
  unfold inodeRelease
  split
  · exact ⟨rfl, rfl, rfl, rfl⟩
  · split <;> exact ⟨rfl, rfl, rfl, rfl⟩

theorem Wf.entry_freeFile (h : s.Wf) (hx : s.file f = some x) (hf : f ∉ s.list) :
    ((s.inodeRelease x.inode).setFile f none).entry = s.entry := by
  have hwf := h.freeFile hx hf
  obtain ⟨hfile, hindex, -, -⟩ := inodeRelease_other s x.inode
  refine h.entry_congr hwf hindex fun g y k hg hy hk => ?_
  have hgf : g ≠ f := fun he => hf (he ▸ hg)
  have hy' : ((s.inodeRelease x.inode).setFile f none).file g = some y := by
    rw [setFile_file_ne hgf, hfile, hy]
  obtain ⟨n, hn⟩ := hwf.inodes g y hy'
  obtain ⟨k', hk', hkept⟩ := inodeRelease_kept s x.inode y.inode hn
  rw [hk] at hk'
  cases hk'
  have hmeta := congrArg TmpfsInode.meta hkept
  exact ⟨y, n, hy', hn, hmeta⟩

/-! ## Releasing, unlinking and moving -/

theorem Wf.not_listed_of_deleted (h : s.Wf) (hx : s.file f = some x) (hd : x.deleted = true) :
    f ∉ s.list := by
  intro hf
  have hdy := h.not_deleted hf hx
  rw [hd] at hdy
  cases hdy

/-- What `file_release` does: it drops a reference, or frees a file without a name. -/
theorem fileRelease_cases (h : s.Wf) (hx : s.file f = some x) :
    x.deleted = true ∧ x.refs - 1 = 0 ∧ f ∉ s.list ∧
        s.fileRelease f = (s.inodeRelease x.inode).setFile f none ∨
      (x.deleted = false ∨ x.refs - 1 ≠ 0) ∧
        s.fileRelease f = s.setFile f (some { x with refs := x.refs - 1 }) := by
  unfold fileRelease
  rw [hx]
  by_cases hz : x.refs - 1 = 0 ∧ x.deleted = true
  · exact .inl ⟨hz.2, hz.1, h.not_listed_of_deleted hx hz.2, if_pos hz⟩
  refine .inr ⟨?_, if_neg hz⟩
  cases hd : x.deleted with
  | false => exact .inl rfl
  | true => exact .inr fun h0 => hz ⟨h0, hd⟩

theorem fileRelease_keeps (h : s.Wf) (hx : s.file f = some x) :
    f ∈ s.list → ({ x with refs := x.refs - 1 } : TmpfsFile).path = x.path ∧
      ({ x with refs := x.refs - 1 } : TmpfsFile).deleted = false := by
  intro hf
  have hd := h.not_deleted hf hx
  exact ⟨rfl, hd⟩

theorem Wf.fileRelease (h : s.Wf) (f : FileId) :
    (s.fileRelease f).Wf ∧ (s.fileRelease f).entry = s.entry := by
  cases hx : s.file f with
  | none =>
    unfold Tmpfs.fileRelease
    rw [hx]
    exact ⟨h, rfl⟩
  | some x =>
    have hkeeps := fileRelease_keeps h hx
    rcases fileRelease_cases h hx with ⟨-, -, hf, he⟩ | ⟨-, he⟩
    · rw [he]
      exact ⟨h.freeFile hx hf, h.entry_freeFile hx hf⟩
    · rw [he]
      exact ⟨h.setFile hx _ rfl hkeeps, h.entry_setFile hx _ rfl hkeeps⟩

theorem fileRelease_inode (s : Tmpfs) (f : FileId)
    (hn : (s.fileRelease f).inode j = some n) : ∃ k, s.inode j = some k ∧ n = { k with refs := n.refs } := by
  unfold fileRelease at hn
  split at hn
  · exact ⟨n, hn, rfl⟩
  · split at hn
    · exact inodeRelease_kept s _ j hn
    · exact ⟨n, hn, rfl⟩

theorem fileRelease_opens (s : Tmpfs) (f : FileId) : (s.fileRelease f).opens = s.opens := by
  unfold fileRelease inodeRelease
  split
  · rfl
  split
  · split
    · rfl
    · split <;> rfl
  · rfl

theorem fileRelease_names (s : Tmpfs) (f : FileId) : (s.fileRelease f).index = s.index ∧
    (s.fileRelease f).list = s.list ∧ (s.fileRelease f).roots = s.roots := by
  unfold fileRelease
  split
  · exact ⟨rfl, rfl, rfl⟩
  · split
    · exact (inodeRelease_other ..).2
    · exact ⟨rfl, rfl, rfl⟩

theorem fileRelease_roots (s : Tmpfs) (f : FileId) : (s.fileRelease f).roots = s.roots :=
  (fileRelease_names s f).2.2

/-- A file that is unlinked: the name is gone, and the reference that stands for it is dropped. -/
theorem fileUnlink_eq (h : s.Wf) (hf : f ∈ s.list) (hx : s.file f = some x) :
    s.fileUnlink f =
      ((s.filesRemoveFile f).setFile f (some { x with deleted := true })).fileRelease f := by
  unfold fileUnlink
  rw [hx]
  dsimp only
  congr 1
  rw [filesRemoveFile_listed h hf hx]
  unfold filesRemoveFile
  rw [setFile_file_self]
  show { (s.setFile f (some { x with deleted := true })) with
    index := if s.index x.path = some f then update s.index x.path none else s.index
    list := s.list.erase f } = _
  rw [if_pos (h.index_path hf hx)]
  rfl

theorem not_mem_filesRemoveFile (h : s.Wf) (f : FileId) : f ∉ (s.filesRemoveFile f).list := by
  by_cases hf : f ∈ s.list
  · obtain ⟨x, hx, -, -⟩ := h.listed f hf
    rw [filesRemoveFile_listed h hf hx]
    exact h.nodup.not_mem_erase
  · rw [filesRemoveFile_not_listed h hf]
    exact hf

theorem filesRemoveFile_file (s : Tmpfs) (f : FileId) : (s.filesRemoveFile f).file = s.file := by
  unfold filesRemoveFile
  split <;> rfl

theorem filesRemoveFile_inode (s : Tmpfs) (f : FileId) : (s.filesRemoveFile f).inode = s.inode := by
  unfold filesRemoveFile
  split <;> rfl

theorem filesRemoveFile_roots (s : Tmpfs) (f : FileId) : (s.filesRemoveFile f).roots = s.roots := by
  unfold filesRemoveFile
  split <;> rfl

theorem fileUnlink_roots (h : s.Wf) (hf : f ∈ s.list) (hx : s.file f = some x) :
    (s.fileUnlink f).roots = s.roots := by
  rw [fileUnlink_eq h hf hx, fileRelease_roots]
  exact filesRemoveFile_roots s f

theorem Wf.markDeleted (h : s.Wf) (hf : f ∈ s.list) (hx : s.file f = some x) :
    ((s.filesRemoveFile f).setFile f (some { x with deleted := true })).Wf ∧
      ((s.filesRemoveFile f).setFile f (some { x with deleted := true })).entry =
        update s.entry x.path none := by
  have hx' : (s.filesRemoveFile f).file f = some x := by rw [filesRemoveFile_file, hx]
  have hnot := not_mem_filesRemoveFile h f
  refine ⟨(h.filesRemoveFile f).setFile hx' _ rfl fun hf' => absurd hf' hnot, ?_⟩
  rw [← h.entry_remove hf hx]
  exact (h.filesRemoveFile f).entry_setFile hx' _ rfl fun hf' => absurd hf' hnot

theorem Wf.fileUnlink (h : s.Wf) (hf : f ∈ s.list) (hx : s.file f = some x) : (s.fileUnlink f).Wf := by
  rw [fileUnlink_eq h hf hx]
  exact ((h.markDeleted hf hx).1.fileRelease f).1

theorem Wf.entry_fileUnlink (h : s.Wf) (hf : f ∈ s.list) (hx : s.file f = some x) :
    (s.fileUnlink f).entry = update s.entry x.path none := by
  rw [fileUnlink_eq h hf hx, ((h.markDeleted hf hx).1.fileRelease f).2, (h.markDeleted hf hx).2]

theorem fileUnlink_inode (s : Tmpfs) (f : FileId)
    (hn : (s.fileUnlink f).inode j = some n) : ∃ k, s.inode j = some k ∧ n = { k with refs := n.refs } := by
  unfold fileUnlink at hn
  split at hn
  · exact ⟨n, hn, rfl⟩
  · obtain ⟨k, hk, hkept⟩ := fileRelease_inode _ f hn
    rw [filesRemoveFile_inode] at hk
    exact ⟨k, hk, hkept⟩

theorem index_fileUnlink (h : s.Wf) (hf : f ∈ s.list) (hx : s.file f = some x) :
    (s.fileUnlink f).index = update s.index x.path none := by
  rw [fileUnlink_eq h hf hx, (fileRelease_names _ f).1, filesRemoveFile_listed h hf hx]
  rfl

theorem not_mem_fileUnlink (h : s.Wf) (hf : f ∈ s.list) (hx : s.file f = some x) :
    f ∉ (s.fileUnlink f).list := by
  rw [fileUnlink_eq h hf hx, (fileRelease_names _ f).2.1]
  exact not_mem_filesRemoveFile h f

theorem setPath_eq (hx : s.file f = some x) (path : Path) :
    s.setPath f path = s.setFile f (some { x with path }) := by
  unfold setPath
  rw [hx]

theorem Wf.place (h : s.Wf) (hx : s.file f = some x) (hd : x.deleted = false) (hf : f ∉ s.list)
    {path} (hp : s.index path = none) :
    (s.setPath f path).filesInsertFile f = (.ok, (s.setPath f path).inserted f path) ∧
      ((s.setPath f path).inserted f path).Wf ∧ ((s.setPath f path).inserted f path).entry =
        update s.entry path ((s.inodeOf f).map fun e => e.2.meta) := by
  have hnot : f ∈ s.list → ({ x with path } : TmpfsFile).path = x.path ∧
      ({ x with path } : TmpfsFile).deleted = false := fun hf' => absurd hf' hf
  have hwf := h.setFile hx { x with path } rfl hnot
  have hself : (s.setFile f (some { x with path })).file f = some { x with path } := setFile_file_self _
  obtain ⟨n, hn, hof⟩ := h.inodeOf hx
  rw [setPath_eq hx]
  refine ⟨filesInsertFile_ok hwf hself hf hp, hwf.inserted hself hd hf hp, ?_⟩
  rw [hwf.entry_inserted hself hn hd hf hp, h.entry_setFile hx { x with path } rfl hnot, hof]
  rfl

end Tmpfs

end Bunix.User
