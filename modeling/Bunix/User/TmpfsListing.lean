import Mathlib.Data.List.TakeWhile
import Bunix.Lib.Cursor
import Bunix.User.DirHandles

/-! # tmpfs: listing a directory while it changes

READDIR counts the entries of a directory along the list of all files. A new file stands at the head of
this list, and a file that is renamed goes there, so that the position a reader has come to means
another entry after every change before it.
-/
namespace Bunix.User.Tmpfs

open Bunix.Lib List Nat

variable {env : TmpfsEnv} {s s' t u : Tmpfs} {f g : FileId} {x : TmpfsFile} {e : FileEvent}
  {dir old new p : Path} {sender handle index max : U64} {r : VfsReply} {call : TmpfsCall} {n : Nat}
  {P : FileId → Bool}

/-! ## The order of the list -/

/-- Files that have a name before and after stand in the same order. -/
def OrderKept (s s' : Tmpfs) : Prop :=
  ∀ P : FileId → Bool, (∀ f, P f = true → ∃ p, s.index p = some f ∧ s'.index p = some f) →
    s'.list.filter P = s.list.filter P

/-- Names come and go, but none is moved. -/
structure NoMove (s s' : Tmpfs) : Prop where
  order : ∀ P : FileId → Bool, (∀ f, P f = true → f ∈ s.list ∧ f ∈ s'.list) →
    s'.list.filter P = s.list.filter P
  index : ∀ p f, f ∈ s'.list → s.index p = some f → s'.index p = some f
  fresh : ∀ f ∈ s'.list, f ∈ s.list ∨ s.nextFile ≤ f
  mono : s.nextFile ≤ s'.nextFile

theorem noMove_of_eq (hlist : s'.list = s.list) (hindex : s'.index = s.index)
    (hnext : s'.nextFile = s.nextFile) : NoMove s s' where
  order := fun P _ => by rw [hlist]
  index := fun p f _ hp => by rw [hindex, hp]
  fresh := fun f hf => .inl (hlist ▸ hf)
  mono := hnext.ge

theorem NoMove.between (h : s.Wf) (hst : NoMove s t) (htu : NoMove t u) (hf : f ∈ s.list)
    (hu : f ∈ u.list) : f ∈ t.list := by
  rcases htu.fresh f hu with ht | hfresh
  · exact ht
  · obtain ⟨x, hx, -⟩ := h.listed f hf
    exact absurd (h.file_lt f x hx) (not_lt.mpr (hst.mono.trans hfresh))

theorem NoMove.trans (h : s.Wf) (hst : NoMove s t) (htu : NoMove t u) : NoMove s u where
  order := by
    intro P hP
    have hmid := fun f hf => hst.between h htu (hP f hf).1 (hP f hf).2
    rw [htu.order P fun f hf => ⟨hmid f hf, (hP f hf).2⟩, hst.order P fun f hf => ⟨(hP f hf).1, hmid f hf⟩]
  index := fun p f hf hp =>
    htu.index p f hf (hst.index p f (hst.between h htu (h.indexed p f hp).1 hf) hp)
  fresh := by
    intro f hf
    rcases htu.fresh f hf with ht | hfresh
    · exact hst.fresh f ht
    · exact .inr (hst.mono.trans hfresh)
  mono := hst.mono.trans htu.mono

theorem NoMove.orderKept (h : s.Wf) (h' : s'.Wf) (hm : NoMove s s') : OrderKept s s' := by
  intro P hP
  refine hm.order P fun f hf => ?_
  obtain ⟨p, hp, hp'⟩ := hP f hf
  exact ⟨(h.indexed p f hp).1, (h'.indexed p f hp').1⟩

theorem fileRelease_nextFile (s : Tmpfs) (f : FileId) : (s.fileRelease f).nextFile = s.nextFile := by
  have hinode : ∀ i, (s.inodeRelease i).nextFile = s.nextFile := by
    intro i
    unfold inodeRelease
    split
    · rfl
    · split <;> rfl
  unfold fileRelease
  split
  · rfl
  · split
    · exact hinode _
    · rfl

theorem filter_erase (hP : P f = false) (l : List FileId) : (l.erase f).filter P = l.filter P := by
  induction l with
  | nil => rfl
  | cons g l ih =>
    by_cases hg : g = f
    · rw [hg, erase_cons_head, filter_cons_of_neg (by simp [hP])]
    · rw [erase_cons_tail (by simpa using hg), filter_cons, filter_cons, ih]

theorem noMove_fileUnlink (h : s.Wf) (hf : f ∈ s.list) (hx : s.file f = some x) :
    NoMove s (s.fileUnlink f) := by
  have hlist := fileUnlink_list h hf hx
  have hne : ∀ {g}, g ∈ (s.fileUnlink f).list → g ≠ f ∧ g ∈ s.list := by
    intro g hg
    rwa [hlist, h.nodup.mem_erase_iff] at hg
  refine ⟨fun P hP => ?_, fun p g hg hp => ?_, fun g hg => .inl (hne hg).2, ?_⟩
  · rw [hlist]
    exact filter_erase (Bool.eq_false_of_not_eq_true fun hPf => (hne (hP f hPf).2).1 rfl) _
  · rw [(h.fileUnlink hf hx).index_iff, fileUnlink_file h hf hx, Function.update_of_ne (hne hg).1]
    exact ⟨hg, (h.indexed p g hp).2⟩
  · rw [fileUnlink_eq h hf hx, fileRelease_nextFile, filesRemoveFile_listed h hf hx]
    exact le_refl _

theorem FileStep.noMove (h : s.Wf) (hs : FileStep s e s') (hmove : ∀ f p, e ≠ .move f p)
    (htree : ∀ f p, e ≠ .moveTree f p) : NoMove s s' := by
  have added : ∀ {path}, s.index path = none → s'.list = s.nextFile :: s.list →
      s'.index = Function.update s.index path (some s.nextFile) → s'.nextFile = s.nextFile + 1 →
      NoMove s s' := by
    intro path hnone hlist hindex hnext
    refine ⟨fun P hP => ?_, fun p f _ hp => ?_, fun f hf => ?_, hnext ▸ le_succ _⟩
    · rw [hlist, filter_cons_of_neg]
      exact fun hP' => h.not_mem_nextFile (hP _ hP').1
    · rw [hindex, Function.update_of_ne, hp]
      rintro rfl
      rw [hnone] at hp
      cases hp
    · rw [hlist, mem_cons] at hf
      exact hf.symm.imp_right fun he => he.ge
  cases hs with
  | quiet hq => exact noMove_of_eq hq.list hq.index hq.nextFile
  | touch | write | fill | openFile | openDir | mount => exact noMove_of_eq rfl rfl rfl
  | create _ hnone | link _ _ _ _ _ hnone => exact added hnone rfl rfl rfl
  | unlink hf hx | discard hf hx => exact noMove_fileUnlink h hf hx
  | move => exact absurd rfl (hmove _ _)
  | moveTree => exact absurd rfl (htree _ _)
  | @close _ o ho =>
    rw [closeHandle_eq ho]
    cases o.kind with
    | file f =>
      obtain ⟨hindex, hlist, -⟩ := fileRelease_names s f
      exact noMove_of_eq hlist hindex (fileRelease_nextFile s f)
    | dir => exact noMove_of_eq rfl rfl rfl

/-! ## Moves -/

theorem filter_filesRemoveFile (hP : P f = false) :
    (s.filesRemoveFile f).list.filter P = s.list.filter P := by
  unfold filesRemoveFile
  split
  · rfl
  · exact filter_erase hP _

theorem filter_insertMoved (ms : List (FileId × Path))
    (hP : ∀ gp ∈ ms, P gp.1 = false) : (insertMoved ms t).2.list.filter P = t.list.filter P := by
  induction ms generalizing t with
  | nil => rfl
  | cons gp ms ih =>
    obtain ⟨f, p⟩ := gp
    have hf : P f = false := hP (f, p) mem_cons_self
    have hset : (t.setPath f p).list = t.list := by
      unfold setPath
      split <;> rfl
    have hins : ((t.setPath f p).filesInsertFile f).2.list.filter P = t.list.filter P := by
      unfold filesInsertFile
      split
      · rw [hset]
      split_ifs
      iterate 4 rw [hset]
      rw [filter_cons_of_neg (by simp [hf]), hset]
    unfold insertMoved
    split
    · rename_i u hu
      rw [hu] at hins
      rw [ih fun gp hgp => hP gp (mem_cons_of_mem _ hgp), hins]
    · rename_i u hu
      rw [hu] at hins
      unfold setDeleted
      split <;> exact hins

theorem FileStep.orderKept_move (h : s.Wf) (hs : FileStep s (.move f p) s') :
    OrderKept s s' ∧ ∀ g ∈ s'.list, g ∈ s.list := by
  have h' := h.fileStep hs
  cases hs with
  | @move _ x _ _ hf hx _ _ _ hnone =>
    have hset := setPath_eq ((congrFun (filesRemoveFile_file s f) f).trans hx) p
    have hlist : ((s.filesRemoveFile f).setPath f p).list = (s.filesRemoveFile f).list := by
      rw [hset]
      rfl
    refine ⟨fun P hP => ?_, fun g hg => ?_⟩
    · have hPf : P f = false := by
        refine Bool.eq_false_of_not_eq_true fun hPf => ?_
        obtain ⟨q, hq, hq'⟩ := hP f hPf
        obtain ⟨-, y, hy, rfl⟩ := h'.indexed q f hq'
        have hy : ((s.filesRemoveFile f).setPath f p).file f = some y := hy
        rw [hset, setFile_file_self] at hy
        cases hy
        rw [hnone] at hq
        cases hq
      show (f :: ((s.filesRemoveFile f).setPath f p).list).filter P = _
      rw [filter_cons_of_neg (by simp [hPf]), hlist, filter_filesRemoveFile hPf]
    · rcases mem_cons.mp (show g ∈ f :: ((s.filesRemoveFile f).setPath f p).list from hg) with rfl | hg
      · exact hf
      · rw [hlist, mem_filesRemoveFile h] at hg
        exact hg.1

theorem FileStep.orderKept_moveTree (h : s.Wf) (hs : FileStep s (.moveTree f p) s') :
    OrderKept s s' ∧ ∀ g ∈ s'.list, g ∈ s.list := by
  cases hs with
  | @moveTree _ x _ _ hf hx _ _ _ _ hnone _ hfree =>
    obtain ⟨hok, h', -, hlist, -⟩ := movedTree_spec h hfree
    refine ⟨fun P hP => ?_, fun g => (hlist g).mp⟩
    have hP' : ∀ g ∈ s.subtree x.path, P g = false := by
      intro g hg
      refine Bool.eq_false_of_not_eq_true fun hPg => ?_
      obtain ⟨q, hq, hq'⟩ := hP g hPg
      obtain ⟨hgl, y, hy, rfl⟩ := h.indexed q g hq
      obtain ⟨-, z, hz, hpath⟩ := h'.indexed _ g hq'
      rw [movedTree_file h hok hy, if_pos hg] at hz
      cases hz
      obtain ⟨rest, hrest, -⟩ := ((mem_subtree h hgl hy x.path).mp hg).exists_append
      rw [hrest, SlashPath.rebase_append] at hpath
      rw [append_cancel_right hpath, h.index_path hf hx] at hnone
      cases hnone
    have hremove : ∀ (moved : List FileId) (t : Tmpfs), (∀ g ∈ moved, P g = false) →
        (moved.foldl filesRemoveFile t).list.filter P = t.list.filter P := by
      intro moved
      induction moved with
      | nil => exact fun t _ => rfl
      | cons g moved ih =>
        intro t hmoved
        rw [foldl_cons, ih _ fun k hk => hmoved k (mem_cons_of_mem _ hk),
          filter_filesRemoveFile (hmoved g mem_cons_self)]
    unfold movedTree
    rw [filter_insertMoved, hremove _ _ hP']
    intro gp hgp
    obtain ⟨g, hg, hgp⟩ := mem_filterMap.mp hgp
    obtain ⟨y, -, rfl⟩ := Option.map_eq_some_iff.mp hgp
    exact hP' g hg

theorem NoMove.orderKept_trans (h : s.Wf) (ht : t.Wf) (hu : u.Wf) (hst : NoMove s t)
    (htu : OrderKept t u ∧ ∀ g ∈ u.list, g ∈ t.list) : OrderKept s u := by
  intro P hP
  have hmid : ∀ f, P f = true → ∃ p, s.index p = some f ∧ t.index p = some f ∧ u.index p = some f := by
    intro f hf
    obtain ⟨p, hp, hp'⟩ := hP f hf
    exact ⟨p, hp, hst.index p f (htu.2 f (hu.indexed p f hp').1) hp, hp'⟩
  rw [htu.1 P fun f hf => (hmid f hf).imp fun _ hp => hp.2,
    hst.orderKept h ht P fun f hf => (hmid f hf).imp fun _ hp => ⟨hp.1, hp.2.1⟩]

theorem step_orderKept {request} (h : s.Wf)
    (hs : s.step env sender request = some (r, s')) : OrderKept s s' := by
  have single : ∀ {e}, FileStep s e s' → (∀ f p, e ≠ .move f p) → (∀ f p, e ≠ .moveTree f p) →
      OrderKept s s' := fun hs hm ht => (hs.noMove h hm ht).orderKept h (h.fileStep hs)
  cases step_outcome h hs with
  | harmless hh =>
    obtain ⟨es, hr⟩ := hh
    have hall : s'.Wf ∧ NoMove s s' := by
      refine hr.invariant (P := fun t => t.Wf ∧ NoMove s t) ?_ ⟨h, noMove_of_eq rfl rfl rfl⟩
      rintro t e u ⟨ht, hst⟩ ⟨he, hs⟩
      exact ⟨ht.fileStep hs, hst.trans h (hs.noMove ht (by rintro f p rfl; exact he)
        (by rintro f p rfl; exact he))⟩
    exact hall.2.orderKept h hall.1
  | write _ hq hs =>
    have hq' := hq.wf h
    exact (((FileStep.quiet hq).noMove h nofun nofun).trans h (hs.noMove hq' nofun nofun)).orderKept h
      (hq'.fileStep hs)
  | unlink _ _ hs | rmdir _ _ _ hs | close _ _ hs => exact single hs nofun nofun
  | @rename _ _ _ _ _ _ _ s₁ s₂ _ _ _ _ _ hover hq hmove =>
    obtain ⟨h₁, hn₁⟩ : s₁.Wf ∧ NoMove s s₁ := by
      rcases hover with rfl | ⟨g, -, hu⟩
      · exact ⟨h, noMove_of_eq rfl rfl rfl⟩
      · exact ⟨h.fileStep hu, hu.noMove h nofun nofun⟩
    have h₂ := hq.wf h₁
    have hn₂ := hn₁.trans h ((FileStep.quiet hq).noMove h₁ nofun nofun)
    rcases hmove with rfl | hm | hm
    · exact hn₂.orderKept h h₂
    · exact hn₂.orderKept_trans h h₂ (h₂.fileStep hm) (hm.orderKept_move h₂)
    · exact hn₂.orderKept_trans h h₂ (h₂.fileStep hm) (hm.orderKept_moveTree h₂)

/-! ## The entries of a directory -/

/-- The path of an entry of the directory. -/
def IsEntry (dir p : Path) : Prop :=
  pathHasPrefixChild p dir = true ∧ (p.drop (dir.length + 1)).contains '/' = false

/-- What READDIR counts. -/
def children (s : Tmpfs) (dir : Path) : List FileId := s.list.filter fun f => s.fileIsChildOf f dir

/-- READDIR returns the entry `p` at this index. -/
def Lists (s : Tmpfs) (dir : Path) (index : Nat) (p : Path) : Prop :=
  ∃ f, (s.children dir)[index]? = some f ∧ s.fileFind p = some f

theorem mem_children (h : s.Wf) : f ∈ s.children dir ↔ ∃ p, s.fileFind p = some f ∧ IsEntry dir p := by
  have hchild : ∀ {x}, f ∈ s.list → s.file f = some x → (s.fileIsChildOf f dir = true ↔ IsEntry dir x.path) := by
    intro x hf hx
    have hd := h.not_deleted hf hx
    unfold fileIsChildOf IsEntry
    rw [h.fileIsValid hx, hx]
    simp [hd]
  unfold children
  rw [mem_filter]
  constructor
  · rintro ⟨hf, hc⟩
    obtain ⟨x, hx, -, hi⟩ := h.listed f hf
    exact ⟨x.path, by rw [h.fileFind, hi], (hchild hf hx).mp hc⟩
  · rintro ⟨p, hp, he⟩
    rw [h.fileFind] at hp
    obtain ⟨hf, x, hx, rfl⟩ := h.indexed p f hp
    exact ⟨hf, (hchild hf hx).mpr he⟩

/-- No entry of the directory is added or replaced, and none of the first `n` is removed. -/
def Spares (dir : Path) (n : Nat) (s s' : Tmpfs) : Prop :=
  ∀ p, IsEntry dir p → s'.fileFind p = s.fileFind p ∨ s'.fileFind p = none ∧ ∀ k < n, ¬ s.Lists dir k p

theorem take_children (h : s.Wf) (h' : s'.Wf) (ho : OrderKept s s') (hs : Spares dir n s s') :
    (s'.children dir).take n = (s.children dir).take n := by
  have hkept : ∀ {f}, f ∈ s'.children dir → ∃ p, IsEntry dir p ∧ s.fileFind p = some f ∧
      s'.fileFind p = some f := by
    intro f hf
    obtain ⟨p, hp, he⟩ := (mem_children h').mp hf
    rcases hs p he with heq | ⟨hnone, -⟩
    · exact ⟨p, he, heq ▸ hp, hp⟩
    · rw [hnone] at hp
      cases hp
  have hsub : (s'.children dir).Sublist (s.children dir) := by
    have hP := ho (fun f => decide (f ∈ s'.children dir)) fun f hf => by
      obtain ⟨p, -, hp, hp'⟩ := hkept (of_decide_eq_true hf)
      rw [h.fileFind] at hp
      rw [h'.fileFind] at hp'
      exact ⟨p, hp, hp'⟩
    have heq : s'.list.filter (fun f => decide (f ∈ s'.children dir)) = s'.children dir :=
      filter_congr fun f hf => by simp [children, mem_filter, hf]
    rw [← heq, hP]
    refine monotone_filter_right _ fun f hf => ?_
    obtain ⟨p, he, hp, -⟩ := hkept (of_decide_eq_true hf)
    exact (mem_filter.mp ((mem_children h).mpr ⟨p, hp, he⟩)).2
  refine Cursor.take_eq_of_sublist (h.nodup.filter _) hsub fun f hf => ?_
  obtain ⟨k, hk, rfl⟩ := mem_take_iff_getElem.mp hf
  obtain ⟨p, hp, he⟩ := (mem_children h).mp (mem_of_mem_take hf)
  rcases hs p he with heq | ⟨-, hnot⟩
  · exact (mem_children h').mpr ⟨p, heq.trans hp, he⟩
  · exact absurd ⟨_, getElem?_eq_getElem (by omega), hp⟩ (hnot k (by omega))

/-- What an answer to READDIR says. -/
structure Reads (s : Tmpfs) (dir : Path) (index : U64) (r : VfsReply) : Prop where
  entry : r.status = 0 → index.toNat < treeWalkLimit ∧ ∃ p, s.Lists dir index.toNat p ∧
    r.data = (pathBytes (p.drop (dir.length + 1))).take r.word3.toNat
  last : r.status = VfsErr.noent → (s.children dir).length ≤ index.toNat

theorem Reads.error {e : U64} (h₀ : e ≠ 0) (hn : e ≠ VfsErr.noent) : Reads s dir index (.error e) :=
  ⟨fun h => absurd h h₀, fun h => absurd h hn⟩

theorem readdir_reads (h : s.Wf) (ho : s.openFrom handle = some ⟨sender, .dir dir⟩)
    (hs : s.step env sender (.readdir handle index max) = some (r, s')) : Reads s dir index r := by
  unfold step at hs
  split at hs
  · cases hs
    exact .error (by decide) (by decide)
  have hopen : s.openFromMessage handle sender = some ⟨sender, .dir dir⟩ := by
    unfold openFromMessage
    rw [ho]
    simp
  have hs : handleReaddir env s sender handle index max = (r, s') := Option.some.inj hs
  unfold handleReaddir at hs
  rw [hopen] at hs
  dsimp only at hs
  split at hs
  · cases hs
    exact .error (by decide) (by decide)
  have hvalid : (s.list.take treeWalkLimit).takeWhile s.fileIsValid = s.list.take treeWalkLimit := by
    refine takeWhile_eq_self_iff.mpr fun f hf => ?_
    obtain ⟨x, hx, -⟩ := h.listed f (mem_of_mem_take hf)
    exact h.fileIsValid hx
  rw [hvalid] at hs
  obtain ⟨rest, hwalked⟩ : (s.list.take treeWalkLimit).filter (fun f => s.fileIsChildOf f dir) <+:
    s.children dir := (List.take_prefix _ _).filter _
  split at hs
  · rename_i f hf
    obtain ⟨hlt, -⟩ := List.getElem?_eq_some_iff.mp hf
    have hget : (s.children dir)[index.toNat]? = some f := by
      rw [← hwalked, getElem?_append_left hlt, hf]
    split at hs
    · rename_i file _ inode hfile _
      split at hs
      · cases hs
        exact .error (by decide) (by decide)
      split at hs
      · cases hs
        exact .error (by decide) (by decide)
      cases hs
      refine ⟨fun _ => ⟨?_, file.path, ⟨f, hget, ?_⟩, rfl⟩,
        fun hn => absurd hn (show (0 : U64) ≠ VfsErr.noent by decide)⟩
      · have := length_filter_le (fun f => s.fileIsChildOf f dir) (s.list.take treeWalkLimit)
        rw [length_take] at this
        omega
      · obtain ⟨p, hp, -⟩ := (mem_children h).mp (mem_of_getElem? hget)
        have hi := h.fileFind p ▸ hp
        obtain ⟨-, x, hx, rfl⟩ := h.indexed p f hi
        rw [hfile] at hx
        cases hx
        exact hp
    · cases hs
      exact .error (by decide) (by decide)
  · rename_i hnone
    split at hs
    · cases hs
      exact .error (by decide) (by decide)
    rename_i hall
    cases hs
    refine ⟨fun h₀ => absurd h₀ (by decide), fun _ => ?_⟩
    rw [take_of_length_le (not_lt.mp fun hlt => hall (.inr hlt))] at hnone
    exact getElem?_eq_none_iff.mp hnone

/-! ## Iterations -/

theorem spared_run {calls} (h : s.Wf)
    (hr : Run (fun s (call : TmpfsCall) s' => Spares dir n s s' ∧ s.serve call = some s') s calls s') :
    s'.Wf ∧ (s'.children dir).take n = (s.children dir).take n ∧
      ∀ p, IsEntry dir p → s'.fileFind p = s.fileFind p ∨ s'.fileFind p = none := by
  refine hr.invariant (P := fun t => t.Wf ∧ (t.children dir).take n = (s.children dir).take n ∧
    ∀ p, IsEntry dir p → t.fileFind p = s.fileFind p ∨ t.fileFind p = none) ?_ ⟨h, rfl, fun _ _ => .inl rfl⟩
  rintro t call u ⟨ht, htake, hfind⟩ ⟨hspare, hserve⟩
  obtain ⟨⟨r, _⟩, hstep, rfl⟩ := Option.map_eq_some_iff.mp hserve
  have hu := (step_outcome ht hstep).invariant (P := Wf) (fun _ _ _ ht hs => ht.fileStep hs) ht
  refine ⟨hu, (take_children ht hu (step_orderKept ht hstep) hspare).trans htake, fun p he => ?_⟩
  rcases hspare p he with heq | ⟨hnone, -⟩
  · rw [heq]
    exact hfind p he
  · exact .inr hnone

/-- `/d` has the entries `c`, `b` and `a`, and a handle. -/
def openThree : List TmpfsCall :=
  [⟨openEnv, 1, .grantSubject 0⟩, ⟨openEnv, 1, .mkdir (some "/d".toList) 1 0o755⟩,
    ⟨openEnv, 1, .create (some "/d/a".toList) 1 0o644⟩, ⟨openEnv, 1, .create (some "/d/b".toList) 1 0o644⟩,
    ⟨openEnv, 1, .create (some "/d/c".toList) 1 0o644⟩, ⟨openEnv, 1, .openPath (some "/d".toList)⟩]

def listed (s : Tmpfs) (index : Nat) : Option (U64 × List UInt8) :=
  (s.step openEnv 1 (.readdir 1 (BitVec.ofNat 64 index) 8)).map fun e => (e.1.status, e.1.data)

end Bunix.User.Tmpfs
