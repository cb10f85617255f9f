import Bunix.User.TmpfsOutcome
import Bunix.Lib.AssocList

/-! # tmpfs: files that are open

A file has a reference for each handle, and none for its name; `file_unlink` drops one nevertheless.
So a file whose name is removed while it is open has one reference too few, and it is freed while
the last handle is still there. As long as this does not happen, files and inodes are freed when
nothing refers to them any more and not earlier, and handles keep what they were opened on.
-/
namespace Bunix.User

open Bunix.Lib Function List Option Nat

variable {offset len : U64} {bytes : List UInt8}

def TmpfsInode.contents (n : TmpfsInode) : List UInt8 := n.data.take n.size.toNat

namespace Tmpfs

variable {env : TmpfsEnv} {s s' s₁ : Tmpfs} {f g : FileId} {i : InodeId} {x y : TmpfsFile}
  {n m : TmpfsInode} {path : Path} {e : FileEvent} {handle sender owner : U64}
  {request : TmpfsRequest}

/-! ## What a change does to inodes and files -/

/-- An inode before and after a change: its type stays, and its contents unless it is written to. -/
structure InodeKept (s : Tmpfs) (e : FileEvent) (i : InodeId) (n m : TmpfsInode) : Prop where
  type : m.type = n.type
  bounded : n.Bounded → m.Bounded
  contents : m.data = n.data ∧ m.size = n.size ∨ e = .write i ∨
    ∃ f x, e = .fill f ∧ s.file f = some x ∧ x.inode = i ∧ n.refs = 1 ∧ x.refs = 0

theorem InodeKept.of_data (htype : m.type = n.type) (hdata : m.data = n.data) (hsize : m.size = n.size) :
    InodeKept s e i n m :=
  ⟨htype, fun hb => by rwa [TmpfsInode.Bounded, hdata, hsize], .inl ⟨hdata, hsize⟩⟩

/-- Where an inode of the next state comes from. -/
def InodeFrom (s : Tmpfs) (e : FileEvent) (i : InodeId) (m : TmpfsInode) : Prop :=
  s.inode i = none ∧ m.Bounded ∨ ∃ n, s.inode i = some n ∧ InodeKept s e i n m

theorem FileStep.inode_cases (h : s.Wf) (hs : FileStep s e s') (hm : s'.inode i = some m) :
    InodeFrom s e i m := by
  have same : s'.inode i = s.inode i → InodeFrom s e i m :=
    fun he => .inr ⟨m, he ▸ hm, .of_data rfl rfl rfl⟩
  have released : (∃ k, s.inode i = some k ∧ m = { k with refs := m.refs }) → InodeFrom s e i m := by
    rintro ⟨k, hk, hkept⟩
    exact .inr ⟨k, hk, .of_data (by rw [hkept]) (by rw [hkept]) (by rw [hkept])⟩
  have changed : ∀ {j n m'}, s'.inode = update s.inode j (some m') → s.inode j = some n →
      InodeKept s e j n m' → InodeFrom s e i m := by
    intro j n m' hs' hn hkept
    rw [hs'] at hm
    by_cases hj : i = j
    · subst hj
      rw [update_self] at hm
      cases hm
      exact .inr ⟨n, hn, hkept⟩
    · exact same (by rw [hs', update_of_ne hj])
  cases hs with
  | quiet hq => exact same (congrFun hq.inode i)
  | @touch j n m' hn hrefs htype hdata hsize => exact changed rfl hn (.of_data htype hdata hsize)
  | @write j n m' hn hrefs hmeta hbound =>
    exact changed rfl hn ⟨congrArg EntryMeta.type hmeta, hbound, .inr (.inl rfl)⟩
  | @fill f x n m' hx hunused hn hone hrefs hmeta hbound =>
    exact changed rfl hn ⟨congrArg EntryMeta.type hmeta, hbound,
      .inr (.inr ⟨f, x, rfl, hx, rfl, hone, hunused⟩)⟩
  | @create path n _ _ _ hbound =>
    by_cases hj : i = s.nextInode
    · subst hj
      have hself : (((s.newInode n).newFile { path, inode := s.nextInode }).inserted
          s.nextFile path).inode s.nextInode = some n := update_self ..
      rw [hself] at hm
      cases hm
      refine .inl ⟨?_, hbound⟩
      cases hk : s.inode s.nextInode with
      | none => rfl
      | some k => exact absurd (h.inode_lt _ k hk) (lt_irrefl _)
    · exact same (update_of_ne hj ..)
  | @link f x n path _ _ hn _ _ _ => exact changed rfl hn (.of_data rfl rfl rfl)
  | unlink | discard => exact released (fileUnlink_inode s _ hm)
  | @move f _ _ path => exact same (congrFun (relabel_move s f path).inode i)
  | moveTree _ _ _ _ _ _ _ _ hfree => exact same (congrFun (movedTree_spec h hfree).2.2.1.inode i)
  | openFile | openDir | mount => exact same rfl
  | @close _ o ho =>
    rw [closeHandle_eq ho] at hm
    cases hk : o.kind with
    | file f =>
      rw [hk] at hm
      exact released (fileRelease_inode s f hm)
    | dir path =>
      rw [hk] at hm
      exact .inr ⟨m, hm, .of_data rfl rfl rfl⟩

/-! ## Handles and references -/

def handles (s : Tmpfs) (f : FileId) : Nat := s.opens.countP fun e => e.2.kind == .file f

/-- A file that is there: it has a reference for each handle, or one less if its name is gone. -/
structure FileOk (s : Tmpfs) (f : FileId) (x : TmpfsFile) : Prop where
  count : x.refs + (if x.deleted = true then 1 else 0) = s.handles f
  unlinked : x.deleted = true → 2 ≤ s.handles f
  named : x.deleted = false → f ∈ s.list
  no_dir : ∀ n, s.inode x.inode = some n → n.type = .directory → s.handles f = 0

structure OpenInv (s : Tmpfs) : Prop where
  wf : s.Wf
  keys : (s.opens.map Prod.fst).Nodup
  files : ∀ f x, s.file f = some x → FileOk s f x
  alive : ∀ f, 0 < s.handles f → ∃ x, s.file f = some x
  bounded : ∀ i n, s.inode i = some n → n.Bounded

theorem FileOk.congr (h : FileOk s f x) (hrefs : y.refs = x.refs) (hd : y.deleted = x.deleted)
    (hhandles : s'.handles f = s.handles f) (hlist : f ∈ s.list → f ∈ s'.list)
    (htype : ∀ m, s'.inode y.inode = some m → ∃ n, s.inode x.inode = some n ∧ m.type = n.type) :
    FileOk s' f y where
  count := by rw [hrefs, hd, hhandles, h.count]
  unlinked := fun hdy => by
    rw [hhandles]
    exact h.unlinked (hd ▸ hdy)
  named := fun hdy => hlist (h.named (hd ▸ hdy))
  no_dir := fun m hm hdir => by
    obtain ⟨n, hn, ht⟩ := htype m hm
    rw [hhandles]
    exact h.no_dir n hn (ht ▸ hdir)

theorem file_of_relabel (h : (s'.file g).map (fun y => { y with path := [] }) =
    (s.file g).map fun y => { y with path := [] }) (hy : s'.file g = some y) :
    ∃ x, s.file g = some x ∧ y.refs = x.refs ∧ y.deleted = x.deleted ∧ y.inode = x.inode := by
  rw [hy, map_some] at h
  obtain ⟨x, hx, he⟩ := map_eq_some_iff.mp h.symm
  exact ⟨x, hx, (congrArg TmpfsFile.refs he).symm, (congrArg TmpfsFile.deleted he).symm,
    (congrArg TmpfsFile.inode he).symm⟩

theorem Wf.type_of_kept (h : s.Wf) (hs : FileStep s e s') (hx : s.file f = some x)
    (hinode : y.inode = x.inode) (m : TmpfsInode) (hm : s'.inode y.inode = some m) :
    ∃ n, s.inode x.inode = some n ∧ m.type = n.type := by
  rw [hinode] at hm
  rcases hs.inode_cases h hm with ⟨hnone, -⟩ | ⟨n, hn, hkept⟩
  · obtain ⟨n, hn⟩ := h.inodes f x hx
    rw [hnone] at hn
    cases hn
  · exact ⟨n, hn, hkept.type⟩

theorem OpenInv.of_file (h : OpenInv s) (hs : FileStep s e s') (f : FileId)
    (hkeys : (s'.opens.map Prod.fst).Nodup) (hhandles : ∀ g, g ≠ f → s'.handles g = s.handles g)
    (hfile : ∀ g, g ≠ f → (s'.file g).map (fun y => { y with path := [] }) =
      (s.file g).map fun y => { y with path := [] })
    (hlist : ∀ g, g ≠ f → g ∈ s.list → g ∈ s'.list) (hf : ∀ x, s'.file f = some x → FileOk s' f x)
    (halive : 0 < s'.handles f → ∃ x, s'.file f = some x) : OpenInv s' where
  wf := h.wf.fileStep hs
  keys := hkeys
  files := fun g y hy => by
    by_cases hg : g = f
    · subst hg
      exact hf y hy
    · obtain ⟨x, hx, hrefs, hd, hinode⟩ := file_of_relabel (hfile g hg) hy
      exact (h.files g x hx).congr hrefs hd (hhandles g hg) (hlist g hg)
        (h.wf.type_of_kept hs hx hinode)
  alive := fun g hg => by
    by_cases hgf : g = f
    · subst hgf
      exact halive hg
    rw [hhandles g hgf] at hg
    obtain ⟨x, hx⟩ := h.alive g hg
    have hmap := hfile g hgf
    rw [hx, map_some] at hmap
    obtain ⟨y, hy, -⟩ := map_eq_some_iff.mp hmap
    exact ⟨y, hy⟩
  bounded := fun i m hm => by
    rcases hs.inode_cases h.wf hm with ⟨-, hb⟩ | ⟨n, hn, hkept⟩
    · exact hb
    · exact hkept.bounded (h.bounded i n hn)

theorem OpenInv.of_relabel (h : OpenInv s) (hs : FileStep s e s')
    (hkeys : (s'.opens.map Prod.fst).Nodup) (hhandles : ∀ g, s'.handles g = s.handles g)
    (hfile : ∀ g, (s'.file g).map (fun y => { y with path := [] }) =
      (s.file g).map fun y => { y with path := [] })
    (hlist : ∀ g, g ∈ s.list → g ∈ s'.list) : OpenInv s' := by
  refine h.of_file hs 0 hkeys (fun g _ => hhandles g) (fun g _ => hfile g) (fun g _ => hlist g)
    (fun y hy => ?_) fun hpos => ?_
  · obtain ⟨x, hx, hrefs, hd, hinode⟩ := file_of_relabel (hfile 0) hy
    exact (h.files 0 x hx).congr hrefs hd (hhandles 0) (hlist 0) (h.wf.type_of_kept hs hx hinode)
  · rw [hhandles] at hpos
    obtain ⟨x, hx⟩ := h.alive 0 hpos
    have hmap := hfile 0
    rw [hx, map_some] at hmap
    obtain ⟨y, hy, -⟩ := map_eq_some_iff.mp hmap
    exact ⟨y, hy⟩

theorem OpenInv.handles_fresh (h : OpenInv s) : s.handles s.nextFile = 0 := by
  by_contra hne
  obtain ⟨x, hx⟩ := h.alive _ (pos_of_ne_zero hne)
  exact absurd (h.wf.file_lt _ x hx) (lt_irrefl _)

theorem handles_congr (h : s'.opens = s.opens) (f : FileId) : s'.handles f = s.handles f := by
  unfold handles
  rw [h]

theorem OpenInv.newFile (h : OpenInv s) (hs : FileStep s e s')
    (hopens : s'.opens = s.opens) (hfile : s'.file = update s.file s.nextFile (some y))
    (hrefs : y.refs = 0) (hd : y.deleted = false) (hlist : s'.list = s.nextFile :: s.list) :
    OpenInv s' := by
  have hself : s'.file s.nextFile = some y := by rw [hfile, update_self]
  have hzero : s'.handles s.nextFile = 0 := (handles_congr hopens _).trans h.handles_fresh
  refine h.of_file hs s.nextFile (hopens ▸ h.keys) (fun g _ => handles_congr hopens g)
    (fun g hg => by rw [hfile, update_of_ne hg])
    (fun g _ hg => hlist ▸ mem_cons_of_mem _ hg) (fun x hx => ?_) fun _ => ⟨y, hself⟩
  rw [hself] at hx
  cases hx
  refine ⟨?_, fun hdy => ?_, fun _ => hlist ▸ mem_cons_self, fun _ _ _ => hzero⟩
  · rw [hrefs, hd, hzero]
    rfl
  · rw [hd] at hdy
    cases hdy

theorem fileUnlink_opens (s : Tmpfs) (f : FileId) : (s.fileUnlink f).opens = s.opens := by
  unfold fileUnlink
  split
  · rfl
  · rw [fileRelease_opens]
    exact (relabel_filesRemoveFile _ f).opens

theorem fileUnlink_file (h : s.Wf) (hf : f ∈ s.list) (hx : s.file f = some x) :
    (s.fileUnlink f).file = update s.file f
      (if x.refs - 1 = 0 then none else some { x with refs := x.refs - 1, deleted := true }) := by
  have hwf := (h.markDeleted hf hx).1
  have hself : ((s.filesRemoveFile f).setFile f (some { x with deleted := true })).file f =
      some { x with deleted := true } := setFile_file_self _
  rw [fileUnlink_eq h hf hx]
  rcases fileRelease_cases hwf hself with ⟨-, hz, -, he⟩ | ⟨hor, he⟩
  · rw [he, if_pos hz]
    show update ((Tmpfs.inodeRelease _ _).file) f none = _
    rw [(inodeRelease_other _ _).1]
    show update (update (s.filesRemoveFile f).file f _) f none = _
    rw [update_idem, filesRemoveFile_file]
  · have hz : x.refs - 1 ≠ 0 := hor.resolve_left (by simp)
    rw [he, if_neg hz]
    show update (update (s.filesRemoveFile f).file f _) f _ = _
    rw [update_idem, filesRemoveFile_file]

theorem mem_fileUnlink (h : s.Wf) (hf : f ∈ s.list) (hx : s.file f = some x) (hg : g ≠ f)
    (hl : g ∈ s.list) : g ∈ (s.fileUnlink f).list := by
  rw [fileUnlink_eq h hf hx, (fileRelease_names _ f).2.1]
  exact (mem_filesRemoveFile h f g).mpr ⟨hl, hg⟩

theorem OpenInv.unlink (h : OpenInv s) (hs : FileStep s e (s.fileUnlink f)) (hf : f ∈ s.list)
    (hx : s.file f = some x) (hone : s.handles f ≠ 1) : OpenInv (s.fileUnlink f) := by
  have hd := h.wf.not_deleted hf hx
  have hcount := (h.files f x hx).count
  rw [hd, if_neg (by simp), add_zero] at hcount
  have hhandles : ∀ g, (s.fileUnlink f).handles g = s.handles g := handles_congr (fileUnlink_opens s f)
  have hfile := fileUnlink_file h.wf hf hx
  have hself : (s.fileUnlink f).file f =
      if x.refs - 1 = 0 then none else some { x with refs := x.refs - 1, deleted := true } := by
    rw [hfile, update_self]
  refine h.of_file hs f (fileUnlink_opens s f ▸ h.keys) (fun g _ => hhandles g)
    (fun g hg => by rw [hfile, update_of_ne hg])
    (fun _ => mem_fileUnlink h.wf hf hx) (fun z hz => ?_) fun hpos => ?_
  · rw [hself] at hz
    split at hz
    · cases hz
    cases hz
    refine ⟨?_, fun _ => ?_, fun hdz => ?_, fun n hn hdir => ?_⟩
    · rw [hhandles, ← hcount]
      simp only [if_true]
      omega
    · rw [hhandles]
      omega
    · cases hdz
    · obtain ⟨k, hk, ht⟩ := h.wf.type_of_kept hs hx rfl n hn
      rw [hhandles]
      exact (h.files f x hx).no_dir k hk (ht ▸ hdir)
  · rw [hhandles] at hpos
    refine ⟨{ x with refs := x.refs - 1, deleted := true }, ?_⟩
    rw [hself, if_neg (by omega)]

theorem OpenInv.closeFile (h : OpenInv s)
    (hs : FileStep s (.close handle) (s.closeHandle handle o.owner))
    (ho : s.openFrom handle = some o) (hk : o.kind = .file f)
    (htwo : ∀ x, s.file f = some x → x.deleted = true → s.handles f ≠ 2) :
    OpenInv (s.closeHandle handle o.owner) := by
  have heq := closeHandle_eq ho
  rw [hk] at heq
  have hopens : (s.closeHandle handle o.owner).opens = AssocList.without s.opens handle := by
    rw [heq]
    rfl
  have hfileEq : (s.closeHandle handle o.owner).file = (s.fileRelease f).file := by rw [heq]
  have hlistEq : (s.closeHandle handle o.owner).list = s.list := by
    rw [heq]
    exact (fileRelease_names s f).2.1
  have hcounts : ∀ g, s.handles g =
      (s.closeHandle handle o.owner).handles g + if o.kind == .file g then 1 else 0 := by
    intro g
    unfold handles
    rw [hopens]
    exact AssocList.countP_without _ h.keys ho
  have hfself := hcounts f
  rw [hk, if_pos (by simp)] at hfself
  have hother : ∀ g, g ≠ f → (s.closeHandle handle o.owner).handles g = s.handles g := by
    intro g hg
    have := hcounts g
    rw [hk, if_neg (by simpa using fun he : f = g => hg he.symm)] at this
    exact this.symm
  obtain ⟨x, hx⟩ := h.alive f (by omega)
  have hok := h.files f x hx
  have hcount := hok.count
  -- the reference that is dropped is not the last one of a file without a name
  have hrel : s.fileRelease f = s.setFile f (some { x with refs := x.refs - 1 }) := by
    rcases fileRelease_cases h.wf hx with ⟨hd, hz, -, -⟩ | ⟨-, he⟩
    · rw [if_pos hd] at hcount
      have h2 := hok.unlinked hd
      have := htwo x hx hd
      omega
    · exact he
  have hself : (s.closeHandle handle o.owner).file f = some { x with refs := x.refs - 1 } := by
    rw [hfileEq, hrel, setFile_file_self]
  refine h.of_file hs f (hopens ▸ AssocList.nodup_without h.keys) hother
    (fun g hg => by rw [hfileEq, hrel, setFile_file_ne hg]) (fun g _ hl => hlistEq ▸ hl)
    (fun z hz => ?_) fun _ => ⟨_, hself⟩
  rw [hself] at hz
  cases hz
  refine ⟨?_, fun hd => ?_, fun hd => hlistEq ▸ hok.named hd, fun n hn hdir => ?_⟩
  · cases hd : x.deleted with
    | false =>
      rw [hd, if_neg (by simp)] at hcount
      simp only [Bool.false_eq_true, if_false]
      omega
    | true =>
      rw [hd, if_pos rfl] at hcount
      have := hok.unlinked hd
      simp only [if_true]
      omega
  · have h2 := hok.unlinked hd
    have := htwo x hx hd
    omega
  · obtain ⟨k, hk', ht⟩ := h.wf.type_of_kept hs hx rfl n hn
    have := hok.no_dir k hk' (ht ▸ hdir)
    omega

theorem OpenInv.openFile {next} (h : OpenInv s)
    (hs : FileStep s e { s.setFile f (some { x with refs := x.refs + 1 }) with
      opens := (handle, ⟨owner, .file f⟩) :: s.opens, nextOpenId := next })
    (hf : f ∈ s.list) (hx : s.file f = some x) (hn : s.inode x.inode = some n)
    (htype : n.type ≠ .directory) (hfree : s.openFrom handle = none) :
    OpenInv { s.setFile f (some { x with refs := x.refs + 1 }) with
      opens := (handle, ⟨owner, .file f⟩) :: s.opens, nextOpenId := next } := by
  have hd := h.wf.not_deleted hf hx
  set t : Tmpfs := { s.setFile f (some { x with refs := x.refs + 1 }) with
    opens := (handle, ⟨owner, .file f⟩) :: s.opens, nextOpenId := next }
  have hself : t.file f = some { x with refs := x.refs + 1 } := update_self ..
  have hcounts : ∀ g, t.handles g = s.handles g + if OpenKind.file f == .file g then 1 else 0 :=
    fun g => countP_cons
  have hfself : t.handles f = s.handles f + 1 := by
    rw [hcounts, if_pos (by simp)]
  refine h.of_file hs f (AssocList.nodup_cons h.keys hfree) (fun g hg => ?_)
    (fun g hg => by rw [show t.file g = s.file g from update_of_ne hg ..])
    (fun g _ hl => hl) (fun z hz => ?_) fun _ => ⟨_, hself⟩
  · rw [hcounts, if_neg (by simpa using fun he : f = g => hg he.symm), add_zero]
  · rw [hself] at hz
    cases hz
    have hcount := (h.files f x hx).count
    refine ⟨?_, fun hdx => ?_, fun _ => hf, fun k hk hdir => ?_⟩
    · dsimp only
      omega
    · rw [hd] at hdx
      cases hdx
    · have hk : s.inode x.inode = some k := hk
      rw [hn] at hk
      cases hk
      exact absurd hdir htype

/-- What the changes need beyond what the server checks. -/
def KeepsOpen (s : Tmpfs) : FileEvent → Prop
  | .unlink f => s.handles f ≠ 1
  | .close handle => ∀ owner f x, s.openFrom handle = some ⟨owner, .file f⟩ → s.file f = some x →
      x.deleted = true → s.handles f ≠ 2
  | _ => True

theorem OpenInv.fileStep (h : OpenInv s) (hs : FileStep s e s') (hkeep : s.KeepsOpen e) :
    OpenInv s' := by
  have hs' := hs
  cases hs with
  | quiet hq =>
    exact h.of_relabel hs' (hq.opens ▸ h.keys) (handles_congr hq.opens) (fun g => by rw [hq.file])
      fun g hg => hq.list ▸ hg
  | touch | write | fill | mount => exact h.of_relabel hs' h.keys (handles_congr rfl) (fun _ => rfl) fun _ hg =>
    hg
  | create | link => exact h.newFile hs' rfl rfl rfl rfl rfl
  | unlink hf hx => exact h.unlink hs' hf hx hkeep
  | discard hf hx hn htype hunused =>
    have hok := h.files _ _ hx
    have hd := h.wf.not_deleted hf hx
    have hcount := hok.count
    rw [hd, hunused, if_neg (by simp)] at hcount
    exact h.unlink hs' hf hx (by omega)
  | @move f x n path hf =>
    have hrel := relabel_move s f path
    refine h.of_relabel hs' (hrel.opens ▸ h.keys) (handles_congr hrel.opens) hrel.file fun g hg => ?_
    show g ∈ f :: ((s.filesRemoveFile f).setPath f path).list
    have hlist : ((s.filesRemoveFile f).setPath f path).list = (s.filesRemoveFile f).list := by
      unfold setPath
      split <;> rfl
    rw [hlist, mem_cons, mem_filesRemoveFile h.wf]
    exact (em (g = f)).imp_right fun hne => ⟨hg, hne⟩
  | moveTree _ _ _ _ _ _ _ _ hfree =>
    obtain ⟨-, -, hrel, hlist, -⟩ := movedTree_spec h.wf hfree
    exact h.of_relabel hs' (hrel.opens ▸ h.keys) (handles_congr hrel.opens) hrel.file
      fun g hg => (hlist g).mpr hg
  | openFile hf hx hn htype hfree => exact h.openFile hs' hf hx hn htype hfree
  | openDir hfree =>
    refine h.of_relabel hs' (AssocList.nodup_cons h.keys hfree) (fun g => ?_) (fun _ => rfl)
      fun _ hg => hg
    exact countP_cons_of_neg (by simp)
  | @close handle o ho =>
    cases hk : o.kind with
    | file f =>
      have ho' : s.openFrom handle = some ⟨o.owner, .file f⟩ := by
        rw [ho, ← hk]
      exact h.closeFile hs' ho hk fun x => hkeep o.owner f x ho'
    | dir path =>
      have heq := closeHandle_eq ho
      rw [hk] at heq
      rw [heq] at hs' ⊢
      refine h.of_relabel hs' (AssocList.nodup_without h.keys) (fun g => ?_) (fun _ => rfl)
        fun _ hg => hg
      have := AssocList.countP_without (fun e => e.2.kind == .file g) h.keys ho
      rw [hk, if_neg (by simp), add_zero] at this
      exact this.symm

/-! ## What a handle is on -/

theorem FileStep.keeps_handle (h : s.Wf) (hs : FileStep s e s')
    (ho : s.openFrom handle = some o) (he : e ≠ .close handle) : s'.openFrom handle = some o := by
  have cons : ∀ {k : U64} {o' : TmpfsOpen} {l}, s.openFrom k = none → l = (k, o') :: s.opens →
      l.lookup handle = some o := by
    rintro k o' _ hfree rfl
    have hne : handle ≠ k := by
      rintro rfl
      rw [hfree] at ho
      cases ho
    rw [AssocList.lookup_cons_of_ne hne]
    exact ho
  cases hs with
  | quiet hq => rwa [openFrom, hq.opens]
  | touch | write | fill | create | link | mount => exact ho
  | unlink | discard => rwa [openFrom, fileUnlink_opens]
  | @move f _ _ path => rwa [openFrom, (relabel_move s f path).opens]
  | moveTree _ _ _ _ _ _ _ _ hfree => rwa [openFrom, (movedTree_spec h hfree).2.2.1.opens]
  | openFile _ _ _ _ hfree | openDir hfree => exact cons hfree rfl
  | @close k o' ho' =>
    have hne : handle ≠ k := fun hk => he (hk ▸ rfl)
    rw [closeHandle_eq ho']
    exact (AssocList.lookup_without hne).trans ho

theorem fileRelease_file_inode (h : s.Wf) (hy : (s.fileRelease g).file f = some y) :
    ∃ x, s.file f = some x ∧ y.inode = x.inode := by
  by_cases hg : g = f
  · subst hg
    cases hx : s.file g with
    | none =>
      unfold fileRelease at hy
      rw [hx] at hy
      rw [hx] at hy
      cases hy
    | some x =>
      rcases fileRelease_cases h hx with ⟨-, -, -, he⟩ | ⟨-, he⟩
      · rw [he, setFile_file_self] at hy
        cases hy
      · rw [he, setFile_file_self] at hy
        cases hy
        exact ⟨x, rfl, rfl⟩
  · have hsame : (s.fileRelease g).file f = s.file f := by
      unfold fileRelease
      split
      · rfl
      · split
        · rw [setFile_file_ne (Ne.symm hg), (inodeRelease_other _ _).1]
        · rw [setFile_file_ne (Ne.symm hg)]
    exact ⟨y, hsame ▸ hy, rfl⟩

theorem FileStep.file_cases (h : s.Wf) (hs : FileStep s e s') (hy : s'.file f = some y) :
    (∃ x, s.file f = some x ∧ y.inode = x.inode) ∨
      f = s.nextFile ∧ ∀ n, s.inode y.inode = some n → n.type ≠ .directory := by
  have relabel : (s'.file f).map (fun y => { y with path := [] }) =
      (s.file f).map (fun y => { y with path := [] }) → ∃ x, s.file f = some x ∧ y.inode = x.inode := by
    intro hmap
    obtain ⟨z, hz, -, -, hi⟩ := file_of_relabel hmap hy
    exact ⟨z, hz, hi⟩
  have update : ∀ {g : FileId} {z : Option TmpfsFile}, s'.file = update s.file g z →
      (∃ x, s.file f = some x ∧ y.inode = x.inode) ∨ f = g ∧ z = some y := by
    intro g z hfile
    rw [hfile] at hy
    exact update_cases (fun hg hy => .inr ⟨hg, hy⟩) (fun _ hy => .inl ⟨y, hy, rfl⟩) hy
  have unlinked : ∀ {g z}, g ∈ s.list → s.file g = some z → s'.file = (s.fileUnlink g).file →
      ∃ x, s.file f = some x ∧ y.inode = x.inode := by
    intro g z hg hz he
    rcases update (he.trans (fileUnlink_file h hg hz)) with hold | ⟨rfl, hw⟩
    · exact hold
    · split at hw <;> cases hw
      exact ⟨z, hz, rfl⟩
  cases hs with
  | quiet hq => exact .inl (relabel (by rw [hq.file]))
  | touch | write | fill | openDir | mount => exact .inl (relabel rfl)
  | create =>
    refine (update rfl).imp_right fun ⟨hg, hz⟩ => ⟨hg, fun n hn => ?_⟩
    cases hz
    exact absurd (h.inode_lt _ n hn) (lt_irrefl _)
  | link _ _ hn htype =>
    refine (update rfl).imp_right fun ⟨hg, hz⟩ => ⟨hg, fun n hn' => ?_⟩
    cases hz
    rw [hn] at hn'
    cases hn'
    exact htype
  | unlink hf hxf | discard hf hxf => exact .inl (unlinked hf hxf rfl)
  | @move g _ _ path => exact .inl (relabel ((relabel_move s g path).file f))
  | moveTree _ _ _ _ _ _ _ _ hfree => exact .inl (relabel ((movedTree_spec h hfree).2.2.1.file f))
  | openFile _ hxf =>
    refine .inl ((update rfl).elim id fun ⟨hg, hz⟩ => ?_)
    subst hg
    cases hz
    exact ⟨_, hxf, rfl⟩
  | @close _ o ho =>
    rw [closeHandle_eq ho] at hy
    cases hk : o.kind with
    | file g =>
      rw [hk] at hy
      exact .inl (fileRelease_file_inode h hy)
    | dir path =>
      rw [hk] at hy
      exact .inl ⟨y, hy, rfl⟩

theorem FileStep.keeps_inode (h : s.Wf) (hs : FileStep s e s') (hx : s.file f = some x)
    (hy : s'.file f = some y) : y.inode = x.inode := by
  rcases hs.file_cases h hy with ⟨z, hz, hi⟩ | ⟨rfl, -⟩
  · rw [hx] at hz
    cases hz
    exact hi
  · exact absurd (h.file_lt _ x hx) (lt_irrefl _)

theorem handles_pos_iff (hkeys : (s.opens.map Prod.fst).Nodup) :
    0 < s.handles f ↔ ∃ handle owner, s.openFrom handle = some ⟨owner, .file f⟩ := by
  unfold handles
  rw [countP_pos_iff]
  constructor
  · rintro ⟨⟨handle, owner, kind⟩, hmem, hkind⟩
    have hkind : kind = .file f := beq_iff_eq.mp hkind
    subst hkind
    exact ⟨handle, owner, AssocList.lookup_of_mem hkeys hmem⟩
  · rintro ⟨handle, owner, ho⟩
    exact ⟨_, AssocList.mem_of_lookup ho, by simp⟩

theorem two_le_links (h : s.Wf) (hx : s.file f = some x) (hy : s.file g = some y)
    (hne : f ≠ g) (hinode : y.inode = x.inode) : 2 ≤ s.links x.inode := by
  have hsub : ({f, g} : Finset FileId) ⊆ Finset.range s.nextFile := by
    intro k hk
    rcases Finset.mem_insert.mp hk with rfl | hk
    · exact Finset.mem_range.mpr (h.file_lt _ x hx)
    · rw [Finset.mem_singleton.mp hk]
      exact Finset.mem_range.mpr (h.file_lt _ y hy)
  calc 2 = ∑ k ∈ ({f, g} : Finset FileId), s.linkCount x.inode k := by
        rw [Finset.sum_pair hne, linkCount_some hx, linkCount_some hy, if_pos rfl, if_pos hinode]
    _ ≤ s.links x.inode := Finset.sum_le_sum_of_subset hsub

theorem OpenInv.keeps_contents (h : OpenInv s) (hs : FileStep s e s') (hkeep : s.KeepsOpen e)
    (ho : s.openFrom handle = some ⟨owner, .file f⟩) (he : e ≠ .close handle)
    (hof : s.inodeOf f = some (i, n)) :
    ∃ n', s'.inodeOf f = some (i, n') ∧ (n'.contents = n.contents ∨ e = .write i) := by
  have h' := h.fileStep hs hkeep
  have ho' := hs.keeps_handle h.wf ho he
  obtain ⟨x, hx, hxi, hn⟩ := inodeOf_eq_some hof
  obtain ⟨y, hy⟩ := h'.alive f ((handles_pos_iff h'.keys).mpr ⟨handle, owner, ho'⟩)
  have hinode := hs.keeps_inode h.wf hx hy
  obtain ⟨n', hn', hof'⟩ := h'.wf.inodeOf hy
  rw [hinode, hxi] at hn' hof'
  refine ⟨n', hof', ?_⟩
  rcases hs.inode_cases h.wf hn' with ⟨hnone, -⟩ | ⟨k, hk, hkept⟩
  · rw [hn] at hnone
    cases hnone
  rw [hn] at hk
  cases hk
  rcases hkept.contents with ⟨hdata, hsize⟩ | hwrite | ⟨g, z, -, hz, hzi, hone, hunused⟩
  · rw [TmpfsInode.contents, hdata, hsize]
    exact .inl rfl
  · exact .inr hwrite
  · -- the file that is filled is new, so that it is not this one, and it has its inode alone
    have hpos := (handles_pos_iff h.keys).mpr ⟨handle, owner, ho⟩
    have hne : f ≠ g := by
      rintro rfl
      have hcount := (h.files f z hz).count
      cases hd : z.deleted with
      | false =>
        rw [hd] at hcount
        simp at hcount
        omega
      | true =>
        have := (h.files f z hz).unlinked hd
        rw [hd] at hcount
        simp at hcount
        omega
    have htwo := two_le_links h.wf hx hz hne (hzi.trans hxi.symm)
    rw [hxi, ← (h.wf.refs i n hn).1] at htwo
    omega

/-! ## Requests -/

/-- What `UNLINK`, `RENAME` and `CLOSE` do not check: the name of a file with one handle is not
removed, and of the handles on a file without a name the last but one is not closed. -/
def KeepsOpenFiles (s : Tmpfs) (sender : U64) : TmpfsRequest → Prop
  | .unlink (some path) _ => ∀ f ∈ s.fileFind path, s.handles f ≠ 1
  | .rename (some old) (some new) _ _ => old ≠ new → ∀ f ∈ s.fileFind new, s.handles f ≠ 1
  | .close handle =>
    match s.openFromMessage handle sender with
    | some ⟨_, .file f⟩ => ∀ x ∈ s.file f, x.deleted = true → s.handles f ≠ 2
    | _ => True
  | _ => True

instance (s : Tmpfs) (sender : U64) (request : TmpfsRequest) :
    Decidable (s.KeepsOpenFiles sender request) := by
  unfold KeepsOpenFiles
  split
  · infer_instance
  · infer_instance
  · split <;> infer_instance
  · infer_instance

/-- A change in the course of a request that the state before it allows. -/
structure Allowed (s : Tmpfs) (sender : U64) (request : TmpfsRequest) (t : Tmpfs) (e : FileEvent)
    (t' : Tmpfs) : Prop where
  step : FileStep t e t'
  keeps : t.KeepsOpen e
  written : ∀ i, e = .write i → s.writtenInode sender request = some i
  closed : ∀ k, e = .close k → request = .close k ∧ ∃ o, s.openFrom k = some o ∧ o.owner = sender

theorem OpenInv.outcome_run (h : OpenInv s) (ho : Outcome s sender request s')
    (hkeep : s.KeepsOpenFiles sender request) :
    ∃ es, Run (Allowed s sender request) s es s' := by
  have single : ∀ {t t' : Tmpfs} {e : FileEvent}, FileStep t e t' → t.KeepsOpen e →
      (∀ i, e ≠ .write i) → (∀ k, e ≠ .close k) → Allowed s sender request t e t' :=
    fun hs hk hw hc => ⟨hs, hk, fun i he => absurd he (hw i), fun k he => absurd he (hc k)⟩
  cases ho with
  | harmless hs =>
    obtain ⟨es, hr⟩ := hs
    have hsim : ∀ a b e a', a = b → FileEvent.Harmless e ∧ FileStep a e a' →
        ∃ b', Allowed s sender request b e b' ∧ a' = b' := by
      rintro a _ e a' rfl ⟨hharmless, hs⟩
      refine ⟨a', single hs ?_ ?_ ?_, rfl⟩
      · cases e <;> first | exact trivial | exact absurd hharmless id
      · rintro i rfl
        exact hharmless
      · rintro k rfl
        exact hharmless
    obtain ⟨t, hrun, rfl⟩ := hr.simulate hsim rfl
    exact ⟨es, hrun⟩
  | @write _ i s₁ _ hi hq hs =>
    refine ⟨[.quiet, .write i], .cons (single (.quiet hq) trivial nofun nofun) (.cons ?_ (.nil _))⟩
    refine ⟨hs, trivial, fun j hj => ?_, nofun⟩
    cases hj
    exact hi
  | @unlink raw path task f _ hpath hf hs =>
    rw [readPath_eq hpath] at hkeep
    exact ⟨[.unlink f], .cons (single hs (hkeep f hf) nofun nofun) (.nil _)⟩
  | @rmdir raw path task f _ hpath hf hdir hs =>
    obtain ⟨-, x, n, hx, -, -, hn, hof, -⟩ := h.wf.of_fileFind hf
    have hzero := (h.files f x hx).no_dir n hn (hdir _ n hof)
    refine ⟨[.unlink f], .cons (single hs ?_ nofun nofun) (.nil _)⟩
    show s.handles f ≠ 1
    omega
  | @rename rawOld rawNew old new task flags f s₁ s₂ _ hold hnew hf hne hover hq hmove =>
    rw [readPath_eq hold, readPath_eq hnew] at hkeep
    have hrun₁ : ∃ es, Run (Allowed s sender (.rename rawOld rawNew task flags)) s es s₁ := by
      rcases hover with rfl | ⟨g, hg, hs⟩
      · exact ⟨[], .nil _⟩
      · exact ⟨[.unlink g], .cons (single hs (hkeep hne g hg) nofun nofun) (.nil _)⟩
    obtain ⟨es, hrun₁⟩ := hrun₁
    have hrun₂ := hrun₁.snoc (single (.quiet hq) trivial nofun nofun)
    rcases hmove with rfl | hs | hs
    · exact ⟨_, hrun₂⟩
    · exact ⟨_, hrun₂.snoc (single hs trivial nofun nofun)⟩
    · exact ⟨_, hrun₂.snoc (single hs trivial nofun nofun)⟩
  | @close handle o _ ho howner hs =>
    refine ⟨[.close handle], .cons ⟨hs, ?_, nofun, fun k hk => ?_⟩ (.nil _)⟩
    · intro owner f x ho' hx hd
      have hmsg : s.openFromMessage handle sender = some ⟨owner, .file f⟩ := by
        rw [ho] at ho'
        cases ho'
        exact filter_eq_some_iff.mpr ⟨ho, by simpa using howner⟩
      simp only [KeepsOpenFiles, hmsg] at hkeep
      exact hkeep x hx hd
    · cases hk
      exact ⟨rfl, o, ho, howner⟩

theorem OpenInv.outcome (h : OpenInv s) (ho : Outcome s sender request s')
    (hkeep : s.KeepsOpenFiles sender request) : OpenInv s' := by
  obtain ⟨es, hr⟩ := h.outcome_run ho hkeep
  exact hr.invariant (P := OpenInv) (fun _ _ _ h hs => h.fileStep hs.step hs.keeps) h

theorem OpenInv.outcome_handle (h : OpenInv s) (hout : Outcome s sender request s')
    (hkeep : s.KeepsOpenFiles sender request) (ho : s.openFrom handle = some ⟨owner, .file f⟩)
    (hof : s.inodeOf f = some (i, n)) (hclose : ¬(request = .close handle ∧ sender = owner)) :
    s'.openFrom handle = some ⟨owner, .file f⟩ ∧ ∃ n', s'.inodeOf f = some (i, n') ∧
        (n'.contents = n.contents ∨ s.writtenInode sender request = some i) := by
  obtain ⟨es, hr⟩ := h.outcome_run hout hkeep
  have hinv := hr.invariant (P := fun t => OpenInv t ∧ t.openFrom handle = some ⟨owner, .file f⟩ ∧
    ∃ n', t.inodeOf f = some (i, n') ∧
      (n'.contents = n.contents ∨ s.writtenInode sender request = some i)) ?_
    ⟨h, ho, n, hof, .inl rfl⟩
  · exact hinv.2
  rintro t e t' ⟨ht, hot, k, hk, hcontents⟩ hs
  have hne : e ≠ .close handle := by
    rintro rfl
    obtain ⟨hreq, o, hk, howner⟩ := hs.closed handle rfl
    rw [ho] at hk
    cases hk
    exact hclose ⟨hreq, howner.symm⟩
  obtain ⟨k', hk', hor⟩ := ht.keeps_contents hs.step hs.keeps hot hne hk
  refine ⟨ht.fileStep hs.step hs.keeps, hs.step.keeps_handle ht.wf hot hne, k', hk', ?_⟩
  rcases hor with heq | hwrite
  · exact hcontents.imp_left heq.trans
  · exact .inr (hs.written i hwrite)

/-! ## Reading and writing -/

theorem contentsAt_eq (hlt : offset < n.size) :
    contentsAt n offset len = (n.contents.drop offset.toNat).take len.toNat := by
  have hsub : (n.size - offset).toNat = n.size.toNat - offset.toNat :=
    BitVec.toNat_sub_of_le (BitVec.le_def.mpr (le_of_lt hlt))
  unfold contentsAt TmpfsInode.contents
  rw [drop_take, take_take, toNat_minU64, hsub, min_comm]

theorem step_read (ho : s.openFrom handle = some ⟨owner, .file f⟩)
    (hof : s.inodeOf f = some (i, n)) (hcaller : s.senderIsVfsCaller owner = true)
    (hbuffer : env.buffer = true) (hwrite : env.bufferWrite = true) :
    ∃ r, s.step env owner (.read handle offset len) = some (r, s) ∧ r.status = 0 ∧
      r.data = (n.contents.drop offset.toNat).take len.toNat := by
  have hmsg : s.openFromMessage handle owner = some ⟨owner, .file f⟩ :=
    filter_eq_some_iff.mpr ⟨ho, by simp⟩
  have hstep : s.step env owner (.read handle offset len) =
      if n.size ≤ offset then some ({}, s)
      else some ({ word1 := minU64 (n.size - offset) len, data := contentsAt n offset len }, s) := by
    simp [Tmpfs.step, needsCaller, hcaller, handleVfs, handleRead, hbuffer, onHandle, hmsg, hof, hwrite]
  rw [hstep]
  by_cases hle : n.size ≤ offset
  · rw [if_pos hle]
    refine ⟨_, rfl, rfl, ?_⟩
    have hle : n.size.toNat ≤ offset.toNat := hle
    have hdrop : n.contents.drop offset.toNat = [] := by
      rw [drop_eq_nil_iff, TmpfsInode.contents, length_take]
      omega
    rw [hdrop, take_nil]
  · rw [if_neg hle]
    exact ⟨_, rfl, rfl, contentsAt_eq (BitVec.not_le.mp hle)⟩

/-- What a file holds after a write. -/
structure Written (n n' : TmpfsInode) (offset : Nat) (bytes : List UInt8) : Prop where
  length : n'.contents.length = max (offset + bytes.length) n.contents.length
  inside : (n'.contents.drop offset).take bytes.length = bytes
  outside : ∀ k, k < n.contents.length → ¬(offset ≤ k ∧ k < offset + bytes.length) →
    n'.contents[k]? = n.contents[k]?

theorem length_contents (h : n.Bounded) : n.contents.length = n.size.toNat := by
  rw [TmpfsInode.contents, length_take, min_eq_left h.1]

theorem overwrite_getElem? {data off} (hfit : off + bytes.length ≤ data.length) :
    (overwrite data off bytes)[k]? =
      if off ≤ k ∧ k < off + bytes.length then bytes[k - off]? else data[k]? := by
  unfold overwrite
  have hlen : (data.take off ++ bytes).length = off + bytes.length := by
    rw [length_append, length_take]
    omega
  by_cases hk : k < off + bytes.length
  · rw [getElem?_append_left (by omega)]
    by_cases hoff : off ≤ k
    · rw [if_pos ⟨hoff, hk⟩, getElem?_append_right (by rw [length_take]; omega),
        length_take, min_eq_left (by omega)]
    · rw [if_neg (by omega), getElem?_append_left (by rw [length_take]; omega),
        getElem?_take_of_lt (by omega)]
  · rw [if_neg (by omega), getElem?_append_right (by omega), hlen, getElem?_drop]
    congr 1
    omega

theorem written_overwrite (hb : n.Bounded) (hres : Resized n m (offset + len) true)
    (hlen : bytes.length = len.toNat) (hfit : offset.toNat + len.toNat ≤ m.data.length) :
    Written n { m with data := overwrite m.data offset.toNat bytes
                       size := maxU64 (offset + len) m.size } offset.toNat bytes := by
  set n' : TmpfsInode := { m with data := overwrite m.data offset.toNat bytes
                                  size := maxU64 (offset + len) m.size }
  have hbm := hres.bounded hb
  have hbn' : n'.Bounded := bounded_overwrite hbm hlen hfit (hres.enough hb rfl)
  have hsum : (offset + len).toNat = offset.toNat + len.toNat := by
    rw [BitVec.toNat_add, mod_eq_of_lt (by have := hbm.2.lt; omega)]
  have hsize : n'.size.toNat = max (offset.toNat + len.toNat) n.size.toNat := by
    rw [toNat_maxU64, hsum, hres.same_size]
  have hget : ∀ k, k < n'.size.toNat → n'.contents[k]? =
      if offset.toNat ≤ k ∧ k < offset.toNat + bytes.length then bytes[k - offset.toNat]?
      else m.data[k]? := by
    intro k hk
    rw [TmpfsInode.contents, getElem?_take_of_lt hk]
    exact overwrite_getElem? (by omega)
  refine ⟨?_, ?_, fun k hk hout => ?_⟩
  · rw [length_contents hbn', length_contents hb, hsize, hlen]
  · refine ext_getElem? fun k => ?_
    by_cases hk : k < bytes.length
    · rw [getElem?_take_of_lt hk, getElem?_drop, hget _ (by omega), if_pos (by omega)]
      congr 1
      omega
    · rw [getElem?_eq_none (by rw [length_take]; omega), getElem?_eq_none (by omega)]
  · rw [length_contents hb] at hk
    rw [hget k (by omega), if_neg hout, TmpfsInode.contents, getElem?_take_of_lt hk]
    obtain ⟨zeros, hdata⟩ := hres.data
    rw [hdata, getElem?_append_left (by have := hb.1; omega)]

theorem OpenInv.step_write {task} (h : OpenInv s)
    (ho : s.openFrom handle = some ⟨owner, .file f⟩) (hof : s.inodeOf f = some (i, n))
    (hs : s.step env owner (.write handle offset len task (some bytes)) = some (r, s'))
    (hr : r.status = 0) :
    ∃ n', s'.inodeOf f = some (i, n') ∧ Written n n' offset.toNat bytes := by
  obtain ⟨x, hx, hxi, hn⟩ := inodeOf_eq_some hof
  have hmsg : s.openFromMessage handle owner = some ⟨owner, .file f⟩ :=
    filter_eq_some_iff.mpr ⟨ho, by simp⟩
  unfold Tmpfs.step at hs
  split at hs
  · cases hs
    cases hr
  simp only [handleVfs, handleWrite, onHandle, hmsg, hof] at hs
  split at hs
  · cases hs
    cases hr
  split at hs
  · cases hs
  · cases hs
    cases hr
  rename_i m s₁ hres
  obtain ⟨hq, hres⟩ := resize_spec hres
  split at hs
  · cases hs
  rename_i hcond
  simp only [not_or, ne_eq, not_not, not_lt] at hcond
  cases hs
  refine ⟨_, ?_, written_overwrite (h.bounded i n hn) hres hcond.1 hcond.2⟩
  have hfile : s₁.file f = some x := (congrFun hq.file f).trans hx
  subst hxi
  exact inodeOf_eq hfile (setInode_inode_self _)

/-! ## Runs -/

/-- Files and inodes are there exactly as long as something refers to them, and handles are on what
they were opened on. -/
structure OpenFilesKept (s : Tmpfs) : Prop where
  file_iff : ∀ f, (s.file f).isSome = true ↔
    f ∈ s.list ∨ ∃ handle owner, s.openFrom handle = some ⟨owner, .file f⟩
  inode_iff : ∀ i, (s.inode i).isSome = true ↔ ∃ f x, s.file f = some x ∧ x.inode = i
  kept : ∀ (call : TmpfsCall) s', s.KeepsOpenFiles call.sender call.request →
    s.serve call = some s' → ∀ handle owner f i n, s.openFrom handle = some ⟨owner, .file f⟩ →
      s.inodeOf f = some (i, n) → ¬(call.request = .close handle ∧ call.sender = owner) →
      s'.openFrom handle = some ⟨owner, .file f⟩ ∧ ∃ n', s'.inodeOf f = some (i, n') ∧
        (n'.contents = n.contents ∨ s.writtenInode call.sender call.request = some i)
  read : ∀ (env : TmpfsEnv) handle owner f i n (offset len : U64),
    s.openFrom handle = some ⟨owner, .file f⟩ → s.inodeOf f = some (i, n) →
      s.senderIsVfsCaller owner = true → env.buffer = true → env.bufferWrite = true →
      ∃ r, s.step env owner (.read handle offset len) = some (r, s) ∧ r.status = 0 ∧
        r.data = (n.contents.drop offset.toNat).take len.toNat
  write : ∀ (env : TmpfsEnv) handle owner f i n (offset len task : U64) bytes r s',
    s.openFrom handle = some ⟨owner, .file f⟩ → s.inodeOf f = some (i, n) →
      s.step env owner (.write handle offset len task (some bytes)) = some (r, s') → r.status = 0 →
      ∃ n', s'.inodeOf f = some (i, n') ∧ Written n n' offset.toNat bytes

theorem OpenInv.file_iff (h : OpenInv s) (f : FileId) : (s.file f).isSome = true ↔
    f ∈ s.list ∨ ∃ handle owner, s.openFrom handle = some ⟨owner, .file f⟩ := by
  rw [← handles_pos_iff h.keys, isSome_iff_exists]
  constructor
  · rintro ⟨x, hx⟩
    have hok := h.files f x hx
    cases hd : x.deleted with
    | false => exact .inl (hok.named hd)
    | true => exact .inr (lt_of_lt_of_le (by decide) (hok.unlinked hd))
  · rintro (hf | hpos)
    · obtain ⟨x, hx, -, -⟩ := h.wf.listed f hf
      exact ⟨x, hx⟩
    · exact h.alive f hpos

theorem Wf.inode_iff (h : s.Wf) (i : InodeId) :
    (s.inode i).isSome = true ↔ ∃ f x, s.file f = some x ∧ x.inode = i := by
  rw [isSome_iff_exists]
  constructor
  · rintro ⟨n, hn⟩
    obtain ⟨hrefs, hpos⟩ := h.refs i n hn
    -- the count of the references is positive, so one of its summands is
    rw [hrefs] at hpos
    obtain ⟨f, -, hf⟩ := Finset.exists_ne_zero_of_sum_ne_zero (ne_of_gt hpos)
    cases hx : s.file f with
    | none => exact absurd (linkCount_none hx) hf
    | some x =>
      refine ⟨f, x, hx, ?_⟩
      rw [linkCount_some hx] at hf
      by_contra hne
      exact hf (if_neg hne)
  · rintro ⟨f, x, hx, rfl⟩
    exact h.inodes f x hx

theorem OpenInv.openFilesKept (h : OpenInv s) : OpenFilesKept s where
  file_iff := h.file_iff
  inode_iff := h.wf.inode_iff
  kept := by
    intro call s' hkeep hs handle owner f i n ho hof hclose
    obtain ⟨⟨r, t⟩, hstep, rfl⟩ := map_eq_some_iff.mp hs
    exact h.outcome_handle (step_outcome h.wf hstep) hkeep ho hof hclose
  read := by
    intro env handle owner f i n offset len ho hof hcaller hbuffer hwrite
    exact step_read ho hof hcaller hbuffer hwrite
  write := by
    intro env handle owner f i n offset len task bytes r s' ho hof hs hr
    exact h.step_write ho hof hs hr

theorem openInv_init (allocs : Nat → Bool) : OpenInv (init allocs) where
  wf := wf_init allocs
  keys := nodup_nil
  files := fun f x hx => by cases hx
  alive := fun f hpos => absurd hpos (lt_irrefl 0)
  bounded := fun i n hn => by cases hn

/-- **Open files survive.** In every run of a server in which no name is removed from a file with one
handle, and the last handle but one of a file without a name is not closed. -/
theorem open_files_kept {allocs : Nat → Bool} {calls : List TmpfsCall}
    (hr : Run (fun s (call : TmpfsCall) s' =>
      s.KeepsOpenFiles call.sender call.request ∧ s.serve call = some s') (init allocs) calls s) :
    OpenFilesKept s := by
  refine (hr.invariant (P := OpenInv) (fun s call s' h hs => ?_) (openInv_init allocs)).openFilesKept
  obtain ⟨hkeep, hs⟩ := hs
  obtain ⟨⟨r, t⟩, hstep, rfl⟩ := map_eq_some_iff.mp hs
  exact h.outcome (step_outcome h.wf hstep) hkeep

/-- `/a` is opened twice, and its name removed. -/
def unlinkOpenTwice : List TmpfsCall :=
  [⟨openEnv, 1, .grantSubject 0⟩, ⟨openEnv, 1, .create (some "/a".toList) 1 0o644⟩,
    ⟨openEnv, 1, .openPath (some "/a".toList)⟩, ⟨openEnv, 1, .openPath (some "/a".toList)⟩,
    ⟨openEnv, 1, .unlink (some "/a".toList) 1⟩]

/-- `/a` is opened once, and its name removed. -/
def unlinkOpenOnce : List TmpfsCall :=
  [⟨openEnv, 1, .grantSubject 0⟩, ⟨openEnv, 1, .create (some "/a".toList) 1 0o644⟩,
    ⟨openEnv, 1, .openPath (some "/a".toList)⟩, ⟨openEnv, 1, .unlink (some "/a".toList) 1⟩]

theorem open_files_kept_open_twice :
    ∃ s, Run (fun s (call : TmpfsCall) s' =>
        s.KeepsOpenFiles call.sender call.request ∧ s.serve call = some s')
        (init fun _ => true) unlinkOpenTwice s ∧
      s.list = [] ∧ s.openFrom 2 = some ⟨1, .file 0⟩ ∧ OpenFilesKept s := by
  obtain ⟨s, hr, hlist, ho⟩ := Run.exists_of_exec_guard serve (init fun _ => true) unlinkOpenTwice
    (fun s => s.list = [] ∧ s.openFrom 2 = some ⟨1, .file 0⟩)
    (fun s call => s.KeepsOpenFiles call.sender call.request) (by decide +kernel)
  exact ⟨s, hr, hlist, ho, open_files_kept hr⟩

theorem open_file_freed :
    ∃ s, Run (fun s (call : TmpfsCall) s' => s.serve call = some s')
        (init fun _ => true) unlinkOpenOnce s ∧
      s.openFrom 1 = some ⟨1, .file 0⟩ ∧ s.file 0 = none ∧ s.inode 0 = none ∧
      s.serve ⟨openEnv, 1, .read 1 0 1⟩ = none := by
  obtain ⟨s, hrun, ho, hfile, hinode, hread⟩ := Run.exists_of_exec serve (init fun _ => true) unlinkOpenOnce
    (fun s => s.openFrom 1 = some ⟨1, .file 0⟩ ∧ s.file 0 = none ∧ s.inode 0 = none ∧
      (s.serve ⟨openEnv, 1, .read 1 0 1⟩).isNone = true) (by decide +kernel)
  exact ⟨s, hrun, ho, hfile, hinode, isNone_iff_eq_none.mp hread⟩

end Tmpfs

end Bunix.User
