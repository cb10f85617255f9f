import Bunix.User.TmpfsOutcome

/-! # tmpfs: the names are a tree

Names are full paths, so nothing in the data says that they are a tree: every request that makes or
moves a name looks at the parent itself. `rename` does not look at it if it moves something that is
no directory, and it does not move a mount root along with the directory around it.
-/
namespace Bunix.User

open Bunix.Lib SlashPath Option Bool

namespace Tmpfs

/-- The search tree and the list hold the same names, and every name has a parent. -/
structure Tree (s : Tmpfs) : Prop where
  wf : s.Wf
  closed : NameTree.Closed (fun k : EntryMeta => k.type = .directory) (fun p => s.pathIsRoot p = true)
    s.entry

variable {s s' s₁ s₂ : Tmpfs} {f : FileId} {i : InodeId} {x : TmpfsFile} {n m : TmpfsInode}
  {path old new : Path} {e : FileEvent} {request : TmpfsRequest} {sender : U64}

theorem pathParentExists_iff : s.pathParentExists path = true ↔
    NameTree.ParentOk (fun k : EntryMeta => k.type = .directory) (fun p => s.pathIsRoot p = true)
      s.entry path := by
  unfold Tmpfs.pathParentExists NameTree.ParentOk entry
  constructor
  · intro h
    split at h
    · cases h
    rename_i d hd
    refine ⟨d, pathParentPath_eq_some.mp hd, ?_⟩
    rw [or_eq_true] at h
    refine h.imp_right fun h => ?_
    obtain ⟨⟨i, n⟩, hi, ht⟩ := (any_eq_true _ _).mp h
    exact ⟨n.meta, by rw [hi, map_some], beq_iff_eq.mp ht⟩
  · rintro ⟨d, hd, hok⟩
    rw [pathParentPath_eq_some.mpr hd]
    rw [or_eq_true]
    refine hok.imp_right fun ⟨k, hk, ht⟩ => ?_
    obtain ⟨⟨i, n⟩, hi, rfl⟩ := map_eq_some_iff.mp hk
    rw [hi]
    simpa [TmpfsInode.meta] using ht

theorem not_parent_of_empty (h : s.Wf) (hempty : s.directoryIsEmpty path = true)
    (hpath : path ≠ ['/']) (q : Path) (k : EntryMeta) (hq : s.entry q = some k) :
    ¬ Parent path q := by
  rintro ⟨-, ⟨-, name, hname, rfl⟩ | ⟨hslash, -⟩⟩
  swap
  · exact hpath hslash
  have hi : s.index (path ++ '/' :: name) ≠ none := by
    rw [ne_eq, ← h.entry_none, hq]
    exact some_ne_none k
  obtain ⟨g, hg⟩ := ne_none_iff_exists'.mp hi
  obtain ⟨hl, y, hy, hp⟩ := h.indexed _ g hg
  obtain ⟨z, hz, hd, -⟩ := h.listed g hl
  rw [hy] at hz
  cases hz
  have hchild : s.fileIsChildOf g path = true := by
    unfold fileIsChildOf
    rw [h.fileIsValid hy, hy]
    have hunder : pathHasPrefixChild (path ++ '/' :: name) path = true :=
      pathHasPrefixChild_iff.mpr ⟨name, rfl⟩
    have hdrop : (path ++ '/' :: name).drop (path.length + 1) = name := by
      simp
    simp only [Bool.true_and, hd, Bool.not_false, hp, hunder, hdrop]
    simpa using hname
  unfold directoryIsEmpty at hempty
  rw [and_eq_true, List.all_eq_true] at hempty
  have := hempty.2 g hl
  rw [hchild] at this
  simp at this

/-- What the changes need beyond what the server checks. -/
def KeepsTree (s : Tmpfs) : FileEvent → Prop
  | .move _ path => s.pathParentExists path = true
  | .moveTree f _ => ∀ x, s.file f = some x → ∀ root ∈ s.roots, AtOrUnder x.path root →
      ∃ k, s.entry root = some k ∧ k.type = .directory
  | _ => True

theorem Tree.of_entry (h : Tree s) (hwf : s'.Wf) (hroots : s'.roots = s.roots)
    (hentry : s'.entry = s.entry) : Tree s' := by
  refine ⟨hwf, ?_⟩
  unfold pathIsRoot
  rw [hroots, hentry]
  exact h.closed

theorem Tree.of_closed (hwf : s'.Wf) (hroots : s'.roots = s.roots)
    (hclosed : NameTree.Closed (fun k : EntryMeta => k.type = .directory)
      (fun p => s.pathIsRoot p = true) s'.entry) : Tree s' := by
  refine ⟨hwf, ?_⟩
  unfold pathIsRoot
  rw [hroots]
  exact hclosed

theorem Tree.touch (h : Tree s) (hn : s.inode i = some n) (hrefs : m.refs = n.refs)
    (htype : m.type = n.type) : Tree (s.setInode i (some m)) := by
  have hkeep : ∀ p, (s.inodeFind p).any (fun e => e.1 == i) = true → s.entry p = some n.meta := by
    intro p hany
    obtain ⟨⟨j, k⟩, hfind, hj⟩ := (any_eq_true _ _).mp hany
    have hj : j = i := by simpa using hj
    subst hj
    have hk := h.wf.of_inodeFind hfind
    rw [hn] at hk
    cases hk
    unfold entry
    rw [hfind, map_some]
  refine .of_closed (h.wf.setInode hn hrefs) rfl (h.closed.congr (fun p k' hp => ?_) fun p k hp => ?_)
  · rw [h.wf.entry_setInode hn hrefs] at hp
    split at hp
    · rename_i hany
      cases hp
      exact ⟨_, hkeep p hany, by rw [TmpfsInode.meta, TmpfsInode.meta, htype]⟩
    · exact ⟨k', hp, .rfl⟩
  · rw [h.wf.entry_setInode hn hrefs]
    split
    · rename_i hany
      rw [hkeep p hany] at hp
      cases hp
      exact ⟨_, rfl, by rw [TmpfsInode.meta, TmpfsInode.meta, htype]⟩
    · exact ⟨k, hp, .rfl⟩

theorem Tree.unlink (h : Tree s) (hf : f ∈ s.list) (hx : s.file f = some x)
    (hn : s.inode x.inode = some n)
    (hleaf : n.type ≠ .directory ∨ s.directoryIsEmpty x.path = true) : Tree (s.fileUnlink f) := by
  refine .of_closed (h.wf.fileUnlink hf hx) (fileUnlink_roots h.wf hf hx) ?_
  rw [h.wf.entry_fileUnlink hf hx]
  refine h.closed.remove ?_
  rcases hleaf with htype | hempty
  · refine .inl fun k hk => ?_
    rw [h.wf.entry_listed hf hx hn] at hk
    cases hk
    exact htype
  by_cases hslash : x.path = ['/']
  · exact .inr (.inl (by simp [pathIsRoot, hslash]))
  · exact .inr (.inr (not_parent_of_empty h.wf hempty hslash))

theorem Tree.moveTree (h : Tree s) (hf : f ∈ s.list) (hx : s.file f = some x)
    (hparent : s.pathParentExists path = true) (hunder : pathHasPrefixChild path x.path = false)
    (hroot : s.pathIsRoot x.path = false) (hfree : s.MoveFree x.path path)
    (hroots : ∀ root ∈ s.roots, AtOrUnder x.path root →
      ∃ k, s.entry root = some k ∧ k.type = .directory) :
    Tree (s.movedTree x.path path).2 := by
  obtain ⟨-, hwf, hrel, -, hentry⟩ := movedTree_spec h.wf hfree
  refine .of_closed hwf hrel.roots ?_
  rw [hentry]
  obtain ⟨n, hn⟩ := h.wf.inodes f x hx
  have hhead := h.closed.head? (h.wf.entry_listed hf hx hn)
  have hparent := pathParentExists_iff.mp hparent
  have hslash : s.pathIsRoot ['/'] = true := by simp [pathIsRoot]
  have hne : x.path ≠ ['/'] := by
    intro he
    rw [he, hslash] at hroot
    cases hroot
  have hnil : x.path ≠ [] := by
    intro he
    rw [he] at hhead
    cases hhead
  have hnew : path ≠ [] := by
    rintro rfl
    obtain ⟨d, hd, -⟩ := hparent
    cases hd.1
  refine h.closed.moveSubtree hslash hnew hnil ?_ hparent hne ?_ ?_
  · rw [← pathHasPrefixChild_iff, hunder]
    simp
  · intro d hd hdr
    unfold pathIsRoot at hdr
    rw [or_eq_true, beq_iff_eq, List.contains_iff_mem] at hdr
    rcases hdr with rfl | hdr
    · rcases hd with h0 | ⟨rest, h0⟩
      · exact absurd h0.symm hne
      · cases hp : x.path with
        | nil => exact absurd hp hnil
        | cons c p =>
          rw [hp] at h0
          simp at h0
    · exact hroots d hdr hd
  · intro p k hp hk
    have hi : s.index p ≠ none := by
      rw [ne_eq, ← h.wf.entry_none, hk]
      exact some_ne_none k
    obtain ⟨g, hg⟩ := ne_none_iff_exists'.mp hi
    obtain ⟨hl, y, hy, rfl⟩ := h.wf.indexed p g hg
    have hmem := (mem_subtree h.wf hl hy x.path).mpr hp
    rw [h.wf.entry_none]
    cases hi' : s.index (rebase x.path path y.path) with
    | none => exact .inl rfl
    | some g' =>
      obtain ⟨hl', z, hz, hpz⟩ := h.wf.indexed _ g' hi'
      rw [← hpz]
      exact .inr ((mem_subtree h.wf hl' hz x.path).mp (hfree g hmem y hy g' hi'))

theorem Tree.fileStep (h : Tree s) (hs : FileStep s e s') (hkeep : s.KeepsTree e) : Tree s' := by
  have hwf := h.wf.fileStep hs
  cases hs with
  | quiet hq => exact h.of_entry hwf hq.roots hq.entry
  | touch hn hrefs htype => exact h.touch hn hrefs htype
  | write hn hrefs hmeta | fill hx _ hn _ hrefs hmeta =>
    exact h.of_entry hwf rfl (h.wf.entry_setInode_meta hn hrefs hmeta)
  | create hparent hnone hrefs =>
    refine .of_closed hwf rfl ?_
    rw [(h.wf.create hnone hrefs).2]
    exact h.closed.insert (h.wf.entry_none.mpr hnone) (pathParentExists_iff.mp hparent)
  | link _ _ hn _ hparent hnone =>
    refine .of_closed hwf rfl ?_
    rw [(h.wf.link hn hnone).2]
    exact h.closed.insert (h.wf.entry_none.mpr hnone) (pathParentExists_iff.mp hparent)
  | unlink hf hx hn hleaf => exact h.unlink hf hx hn hleaf
  | discard hf hx hn htype => exact h.unlink hf hx hn (.inl htype)
  | @move f x n path hf hx hn htype _ hnone =>
    refine .of_closed hwf (relabel_move s f path).roots ?_
    rw [(h.wf.move hf hx hn hnone).2]
    exact h.closed.move (h.wf.entry_listed hf hx hn) (h.wf.entry_none.mpr hnone) htype
      (pathParentExists_iff.mp hkeep)
  | @moveTree f x _ path hf hx _ _ hparent hunder _ hroot hfree =>
    exact h.moveTree hf hx hparent hunder hroot hfree (hkeep x hx)
  | openFile _ hx => exact h.of_entry hwf rfl (h.wf.openFile hx).2
  | openDir => exact h.of_entry hwf rfl rfl
  | close ho => exact h.of_entry hwf (h.wf.close ho).2.2 (h.wf.close ho).2.1
  | mount =>
    refine ⟨hwf, h.closed.mono_root fun p hp => ?_⟩
    unfold pathIsRoot at hp ⊢
    rw [or_eq_true] at hp ⊢
    refine hp.imp_right fun hp => ?_
    rw [List.contains_iff_mem] at hp ⊢
    exact List.mem_cons_of_mem _ hp

/-! ## Requests -/

theorem Tree.harmless (h : Tree s) (hs : Harmless s s') : Tree s' := by
  obtain ⟨es, hr⟩ := hs
  refine hr.invariant (P := Tree) (fun s e s' h hs => ?_) h
  obtain ⟨hharmless, hs⟩ := hs
  refine h.fileStep hs ?_
  cases e <;> first | exact trivial | exact absurd hharmless id

theorem before_move (h : s.Wf) (hf : s.fileFind old = some f)
    (hover : s₁ = s ∨ ∃ g, s.fileFind new = some g ∧ FileStep s (.unlink g) s₁) (hq : Quiet s₁ s₂)
    (hl : f ∈ s₂.list) :
    s₂.Wf ∧ s₂.roots = s.roots ∧ s₂.index old = some f ∧ ∀ p, p ≠ new → s₂.entry p = s.entry p := by
  rcases hover with rfl | ⟨g, hg, hs⟩
  · refine ⟨hq.wf h, hq.roots, ?_, fun p _ => congrFun hq.entry p⟩
    rw [hq.index, ← h.fileFind, hf]
  have hwf₁ := h.fileStep hs
  cases hs with
  | @unlink _ y _ hlg hy _ _ =>
    obtain ⟨-, z, -, hz, hpath, -⟩ := h.of_fileFind hg
    rw [hy] at hz
    cases hz
    have hne : old ≠ y.path := by
      rintro rfl
      rw [hpath, hg] at hf
      cases hf
      exact not_mem_fileUnlink h hlg hy (hq.list ▸ hl)
    refine ⟨hq.wf hwf₁, hq.roots.trans (fileUnlink_roots h hlg hy), ?_, fun p hp => ?_⟩
    · rw [hq.index, index_fileUnlink h hlg hy, Function.update_of_ne hne, ← h.fileFind, hf]
    rw [hq.entry, h.entry_fileUnlink hlg hy, Function.update_of_ne (hpath.symm ▸ hp)]

theorem moved_file (h : s.Wf) (hf : s.fileFind old = some f)
    (hover : s₁ = s ∨ ∃ g, s.fileFind new = some g ∧ FileStep s (.unlink g) s₁) (hq : Quiet s₁ s₂)
    (hl : f ∈ s₂.list) (hx : s₂.file f = some x) (hn : s₂.inode x.inode = some n)
    (hnone : s₂.index new = none) : x.path = old ∧ old ≠ new ∧ s.entry old = some n.meta := by
  obtain ⟨hwf, -, hi, hsame⟩ := before_move h hf hover hq hl
  have hne : old ≠ new := by
    rintro rfl
    rw [hi] at hnone
    cases hnone
  obtain ⟨-, y, hy, hpath⟩ := hwf.indexed _ f hi
  rw [hx] at hy
  cases hy
  refine ⟨hpath, hne, ?_⟩
  rw [← hsame old hne, ← hpath, hwf.entry_listed hl hx hn]

/-- Something that is no directory goes below a root or a directory; a directory does not leave a
root behind that is no directory itself. -/
def RenameKeepsTree (s : Tmpfs) (old new : Path) : Prop :=
  ∀ e ∈ s.entry old,
    if e.type = .directory then
      ∀ root ∈ s.roots, pathIsAtOrUnder root old → ∃ k ∈ s.entry root, k.type = .directory
    else s.pathParentExists new = true

theorem Tree.rename (h : Tree s) (hf : s.fileFind old = some f)
    (hover : s₁ = s ∨ ∃ g, s.fileFind new = some g ∧ FileStep s (.unlink g) s₁) (hq : Quiet s₁ s₂)
    (hmove : s' = s₂ ∨ FileStep s₂ (.move f new) s' ∨ FileStep s₂ (.moveTree f new) s')
    (hkeep : s.RenameKeepsTree old new) : Tree s' := by
  have htree₁ : Tree s₁ := by
    rcases hover with rfl | ⟨g, -, hs⟩
    · exact h
    · exact h.fileStep hs trivial
  have htree₂ : Tree s₂ := htree₁.fileStep (.quiet hq) trivial
  rcases hmove with rfl | hs | hs
  · exact htree₂
  · refine htree₂.fileStep hs ?_
    cases hs with
    | @move _ y m _ hl hy hm htype _ hnone =>
      obtain ⟨-, hroots, -, hsame⟩ := before_move h.wf hf hover hq hl
      obtain ⟨-, -, hentry⟩ := moved_file h.wf hf hover hq hl hy hm hnone
      have hparent := hkeep _ hentry
      rw [TmpfsInode.meta_type, if_neg htype, pathParentExists_iff] at hparent
      obtain ⟨d, hd, hok⟩ := hparent
      refine pathParentExists_iff.mpr ⟨d, hd, ?_⟩
      unfold pathIsRoot at hok ⊢
      rw [hroots]
      by_cases hdn : d = new
      · -- only the root of all is its own parent
        obtain ⟨-, ⟨-, hc⟩ | ⟨rfl, -⟩⟩ := hd
        · exact absurd (hdn ▸ hc.under) not_under_self
        · exact .inl (by simp)
      · rwa [hsame d hdn]
  · refine htree₂.fileStep hs ?_
    cases hs with
    | @moveTree _ y m _ hl hy hm htype _ hunder hnone _ _ =>
      obtain ⟨-, hroots, -, hsame⟩ := before_move h.wf hf hover hq hl
      obtain ⟨hpath, hne, hentry⟩ := moved_file h.wf hf hover hq hl hy hm hnone
      have hdirs := hkeep _ hentry
      rw [TmpfsInode.meta_type, if_pos htype] at hdirs
      intro z hz root hroot hat
      rw [hy] at hz
      cases hz
      rw [hpath] at hat
      have hrn : root ≠ new := by
        rintro rfl
        rcases hat with h0 | h0
        · exact hne h0.symm
        · rw [← pathHasPrefixChild_iff, ← hpath, hunder] at h0
          cases h0
      rw [hsame root hrn]
      exact hdirs root (hroots ▸ hroot) (pathIsAtOrUnder_iff.mpr hat)

/-- What `rename` does not check. -/
def KeepsTreeShape (s : Tmpfs) : TmpfsRequest → Prop
  | .rename (some old) (some new) _ _ => s.RenameKeepsTree old new
  | _ => True

instance (s : Tmpfs) (old new : Path) : Decidable (s.RenameKeepsTree old new) := by
  unfold RenameKeepsTree
  infer_instance

instance (s : Tmpfs) (request : TmpfsRequest) : Decidable (s.KeepsTreeShape request) := by
  apply @TmpfsRequest.casesOn _ request
  case rename =>
    exact fun
      | some old, some new, _, _ => inferInstanceAs (Decidable (s.RenameKeepsTree old new))
      | none, _, _, _ | some _, none, _, _ => instDecidableTrue
  all_goals
    intros
    exact instDecidableTrue

theorem Tree.outcome (h : Tree s) (ho : Outcome s sender request s')
    (hkeep : s.KeepsTreeShape request) : Tree s' := by
  cases ho with
  | harmless hs => exact h.harmless hs
  | write _ hq hs => exact (h.fileStep (.quiet hq) trivial).fileStep hs trivial
  | unlink _ _ hs | rmdir _ _ _ hs | close _ _ hs => exact h.fileStep hs trivial
  | rename hold hnew hf _ hover hq hmove =>
    rw [readPath_eq hold, readPath_eq hnew] at hkeep
    exact h.rename hf hover hq hmove hkeep

theorem tree_init (allocs : Nat → Bool) : Tree (init allocs) where
  wf := wf_init allocs
  closed := fun p k hp => by cases hp

/-- The names of a server, in the words of its data: the search tree and the list have the same
files, all valid and with different paths, and every path has a parent. -/
structure NamesFormTree (s : Tmpfs) : Prop where
  found : ∀ p f, s.index p = some f → f ∈ s.list
  listed : ∀ f ∈ s.list, s.fileIsValid f = true ∧
    ∃ x, s.file f = some x ∧ x.deleted = false ∧ s.index x.path = some f
  nodup : s.list.Nodup
  distinct : ∀ f ∈ s.list, ∀ g ∈ s.list,
    (s.file f).map TmpfsFile.path = (s.file g).map TmpfsFile.path → f = g
  parent : ∀ f ∈ s.list, ∀ x, s.file f = some x → s.pathParentExists x.path = true

theorem Tree.namesFormTree (h : Tree s) : NamesFormTree s where
  found := fun p f hi => (h.wf.indexed p f hi).1
  listed := fun f hf => by
    obtain ⟨x, hx, hd, hi⟩ := h.wf.listed f hf
    exact ⟨h.wf.fileIsValid hx, x, hx, hd, hi⟩
  nodup := h.wf.nodup
  distinct := fun f hf g hg he => by
    obtain ⟨x, hx, -, -⟩ := h.wf.listed f hf
    obtain ⟨y, hy, -, -⟩ := h.wf.listed g hg
    rw [hx, hy] at he
    exact h.wf.path_injective hf hg hx hy (some.inj he)
  parent := fun f hf x hx => by
    obtain ⟨n, hn⟩ := h.wf.inodes f x hx
    exact pathParentExists_iff.mpr (h.closed _ _ (h.wf.entry_listed hf hx hn))

/-- **The names form a tree.** In every run of a server whose renames keep to what they do not check
themselves, whether its requests succeed or not. -/
theorem names_form_tree {allocs : Nat → Bool} {calls : List TmpfsCall}
    (hr : Run (fun s (call : TmpfsCall) s' =>
      s.KeepsTreeShape call.request ∧ s.serve call = some s') (init allocs) calls s) :
    NamesFormTree s := by
  refine (hr.invariant (P := Tree) (fun s call s' h hs => ?_) (tree_init allocs)).namesFormTree
  obtain ⟨hkeep, hs⟩ := hs
  obtain ⟨⟨r, t⟩, hstep, rfl⟩ := map_eq_some_iff.mp hs
  exact h.outcome (step_outcome h.wf hstep) hkeep

def mv : TmpfsRequest := .rename (some "/a".toList) (some "/d/x".toList) 1 0

/-- `/a` is moved below the directory `/d`. -/
def moveBelowDirectory : List TmpfsCall :=
  [⟨openEnv, 1, .grantSubject 0⟩, ⟨openEnv, 1, .mkdir (some "/d".toList) 1 0o755⟩,
    ⟨openEnv, 1, .create (some "/a".toList) 1 0o644⟩, ⟨openEnv, 1, mv⟩]

/-- The same with a file at `/d`. -/
def moveBelowFile : List TmpfsCall :=
  [⟨openEnv, 1, .grantSubject 0⟩, ⟨openEnv, 1, .create (some "/d".toList) 1 0o644⟩,
    ⟨openEnv, 1, .create (some "/a".toList) 1 0o644⟩, ⟨openEnv, 1, mv⟩]

theorem names_form_tree_below_directory :
    ∃ s, Run (fun s (call : TmpfsCall) s' => s.KeepsTreeShape call.request ∧ s.serve call = some s')
        (init fun _ => true) moveBelowDirectory s ∧
      s.index "/d/x".toList = some 1 ∧ NamesFormTree s := by
  obtain ⟨s, hr, hx⟩ := Run.exists_of_exec_guard serve (init fun _ => true) moveBelowDirectory
    (fun s => s.index "/d/x".toList = some 1) (fun s call => s.KeepsTreeShape call.request)
    (by decide +kernel)
  exact ⟨s, hr, hx, names_form_tree hr⟩

theorem names_below_file :
    ∃ s, Run (fun s (call : TmpfsCall) s' => s.serve call = some s')
        (init fun _ => true) moveBelowFile s ∧ ¬ NamesFormTree s := by
  obtain ⟨s, hrun, hl, hpath, hparent⟩ := Run.exists_of_exec serve (init fun _ => true) moveBelowFile
    (fun s => 1 ∈ s.list ∧ (s.file 1).map TmpfsFile.path = some "/d/x".toList ∧
      s.pathParentExists "/d/x".toList = false) (by decide +kernel)
  refine ⟨s, hrun, fun h => ?_⟩
  obtain ⟨x, hx, hpath⟩ := map_eq_some_iff.mp hpath
  have := h.parent 1 hl x hx
  rw [hpath, hparent] at this
  cases this

end Tmpfs

end Bunix.User
