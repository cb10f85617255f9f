import Bunix.User.TmpfsRename
import Bunix.User.VfsMounts

/-! # Handles on directories

A handle on a file of tmpfs is on the file, wherever its name goes. A handle on a directory is a path,
in tmpfs, which lists the names below it, and in the VFS, which resolves relative paths against it.
Neither is told of a rename, so that the handle is left behind with the old path.
-/
namespace Bunix.User

open Bunix.Lib Prog Option

/-! ## Directories have one name -/

namespace Tmpfs

variable {env : TmpfsEnv} {s s' : Tmpfs} {i j : InodeId} {n m k : TmpfsInode} {e : FileEvent}
  {p q old new path : Path} {sender task flags handle owner : U64} {r : VfsReply} {o : TmpfsOpen}

structure DirsOnce (s : Tmpfs) : Prop where
  wf : s.Wf
  once : ∀ {f g x y n}, s.file f = some x → s.file g = some y → x.inode = y.inode →
    s.inode x.inode = some n → n.type = .directory → f = g

theorem DirsOnce.fileStep (h : DirsOnce s) (hs : FileStep s e s') : DirsOnce s' := by
  refine ⟨h.wf.fileStep hs, fun {f g x y m} hx hy hi hm hdir => ?_⟩
  rcases hs.file_cases h.wf hx with ⟨x₀, hx₀, hxi⟩ | ⟨rfl, hnew⟩
  · obtain ⟨n, hn, ht⟩ := h.wf.type_of_kept hs hx₀ hxi m hm
    rcases hs.file_cases h.wf hy with ⟨y₀, hy₀, hyi⟩ | ⟨rfl, hnew⟩
    · exact h.once hx₀ hy₀ (hxi.symm.trans (hi.trans hyi)) hn (ht ▸ hdir)
    · exact absurd (ht ▸ hdir) (hnew n (by rwa [← hi, hxi]))
  · rcases hs.file_cases h.wf hy with ⟨y₀, hy₀, hyi⟩ | ⟨rfl, -⟩
    · obtain ⟨n, hn, ht⟩ := h.wf.type_of_kept hs hy₀ hyi m (hi ▸ hm)
      exact absurd (ht ▸ hdir) (hnew n (by rwa [hi, hyi]))
    · rfl

theorem dirsOnce_run {allocs calls}
    (hr : Run (fun s (call : TmpfsCall) s' => s.serve call = some s') (init allocs) calls s) :
    DirsOnce s := by
  refine hr.invariant (fun s call s' h hs => ?_) ⟨wf_init allocs, fun hx => by cases hx⟩
  obtain ⟨⟨r, t⟩, hstep, rfl⟩ := map_eq_some_iff.mp hs
  exact (step_outcome h.wf hstep).invariant (fun _ _ _ ht hs => ht.fileStep hs) h

theorem DirsOnce.path_unique (h : DirsOnce s) (hp : s.inodeFind p = some (i, n))
    (hq : s.inodeFind q = some (i, m)) (hdir : n.type = .directory) : p = q := by
  obtain ⟨f, hf, hof⟩ := bind_eq_some_iff.mp hp
  obtain ⟨g, hg, hog⟩ := bind_eq_some_iff.mp hq
  obtain ⟨x, hx, hxi, hn⟩ := inodeOf_eq_some hof
  obtain ⟨y, hy, hyi, -⟩ := inodeOf_eq_some hog
  obtain rfl := h.once hx hy (hxi.trans hyi.symm) (hxi ▸ hn) hdir
  rw [h.wf.fileFind] at hf hg
  obtain ⟨-, z, hz, rfl⟩ := h.wf.indexed p f hf
  obtain ⟨-, w, hw, rfl⟩ := h.wf.indexed q f hg
  rw [hz] at hw
  cases hw
  rfl

/-! ## Handles in tmpfs -/

/-- The directory that a handle stands for: READDIR lists the names below its path. -/
def handleDirectory (s : Tmpfs) (handle : U64) : Option InodeId :=
  match s.openFrom handle with
  | some ⟨_, .dir path⟩ => (s.inodeFind path).map Prod.fst
  | _ => none

theorem openFrom_rename (h : s.Wf) (ho : s.openFrom handle = some o)
    (hstep : s.step env sender (.rename (some old) (some new) task flags) = some (r, s')) :
    s'.openFrom handle = some o := by
  cases step_outcome h hstep with
  | harmless hh =>
    obtain ⟨es, hr⟩ := hh
    refine (hr.invariant (P := fun t => t.Wf ∧ t.openFrom handle = some o) ?_ ⟨h, ho⟩).2
    rintro t e t' ⟨hwf, ho⟩ ⟨he, hs⟩
    exact ⟨hwf.fileStep hs, hs.keeps_handle hwf ho (by rintro rfl; exact he)⟩
  | write hi => cases hi
  | @rename _ _ _ _ _ _ _ s₁ s₂ _ _ _ _ _ hover hq hmove =>
    obtain ⟨hwf₁, ho₁⟩ : s₁.Wf ∧ s₁.openFrom handle = some o := by
      rcases hover with rfl | ⟨g, -, hu⟩
      · exact ⟨h, ho⟩
      · exact ⟨h.fileStep hu, hu.keeps_handle h ho (by simp)⟩
    have ho₂ := (FileStep.quiet hq).keeps_handle hwf₁ ho₁ (by simp)
    rcases hmove with rfl | hm | hm
    · exact ho₂
    · exact hm.keeps_handle (hq.wf hwf₁) ho₂ (by simp)
    · exact hm.keeps_handle (hq.wf hwf₁) ho₂ (by simp)

theorem inodeFind_of_binding (h : s.binding p = some (i, n)) : ∃ m, s.inodeFind p = some (i, m) := by
  obtain ⟨⟨j, m⟩, hm, he⟩ := map_eq_some_iff.mp h
  cases he
  exact ⟨m, hm⟩

theorem DirsOnce.rename_leaves (h : DirsOnce s) (hold : s.inodeFind old = some (j, k))
    (hk : k.type = .directory) (hp : s.inodeFind path = some (i, n)) (hdir : n.type = .directory)
    (hunder : SlashPath.AtOrUnder old path)
    (hstep : s.step env sender (.rename (some old) (some new) task flags) = some (r, s'))
    (hok : r.status = 0) : (s'.inodeFind path).map Prod.fst = some i ↔ old = new := by
  have hb := binding_rename h.wf (fun j' k' hj hk' => by rw [hold] at hj; cases hj; exact absurd hk hk') hstep hok
  have hmap : ∀ t : Tmpfs, (t.inodeFind path).map Prod.fst = (t.binding path).map Prod.fst := by
    intro t
    unfold binding
    rw [map_map]
    rfl
  rw [hmap, hb]
  by_cases hne : old = new
  · rw [if_pos hne, ← hmap, hp]
    exact iff_of_true rfl hne
  rw [if_neg hne]
  refine iff_of_false (fun hi => ?_) hne
  obtain ⟨⟨i', m⟩, hm, rfl⟩ := map_eq_some_iff.mp hi
  rcases NameTree.moveSubtree_eq_some.mp hm with ⟨q, hq, hT, he⟩ | ⟨hout, -⟩
  · have hqn : q ≠ new := by
      rintro rfl
      rw [Function.update_self] at hT
      cases hT
    rw [Function.update_of_ne hqn] at hT
    obtain ⟨m', hm'⟩ := inodeFind_of_binding hT
    obtain rfl := h.path_unique hp hm' hdir
    obtain ⟨rest, rfl, -⟩ := hq.exists_append
    rw [SlashPath.rebase_append] at he
    exact hne (List.append_cancel_right he)
  · exact hout hunder

end Tmpfs

/-! ## Handles in the VFS -/

section
variable {v v' : VfsServer} {message : VfsMessage} {base owner : U64} {cwd input : Path}

/-- Whatever the outside answers, the open files stay as they are. -/
def KeepsOpen (m : VfsM β) (v : VfsServer) : Prop :=
  Only (fun _ _ => True) (fun _ => True) (m v) fun result => result.2.openFiles = v.openFiles

theorem KeepsOpen.bind (hm : KeepsOpen m v) (hf : ∀ b v', KeepsOpen (f b) v') : KeepsOpen (m >>= f) v :=
  only_bindT.mpr (hm.mono fun result hresult => (hf result.1 result.2).mono fun _ h => h.trans hresult)

theorem keepsOpen_forwardMountPath {mount request path}
    (htype : request.type ≠ .openBuffer) : KeepsOpen (forwardMountPath mount owner request path) v := by
  unfold forwardMountPath
  split
  · exact rfl
  refine .bind ⟨trivial, fun _ _ => rfl⟩ fun reply v' => ?_
  cases reply with
  | none => exact rfl
  | some reply =>
    dsimp only
    rw [if_neg (fun h => htype h.1)]
    exact rfl

theorem keepsOpen_vfsTwoPaths {oldPath newPath} (htype : message.type ≠ .openBuffer) :
    KeepsOpen (vfsTwoPaths message oldPath newPath) v := by
  refine .bind rfl fun s v' => .bind rfl fun _ v' => ?_
  split
  · split
    · exact rfl
    refine .bind ⟨trivial, fun _ _ => rfl⟩ fun created v' => ?_
    split
    · exact .bind (keepsOpen_forwardMountPath htype) fun _ _ => rfl
    · exact rfl
  · exact rfl
  · exact rfl

theorem keepsOpen_handleTwoPaths (htype : message.type ≠ .openBuffer) :
    KeepsOpen (handleTwoPaths message) v := by
  refine .bind rfl fun s v' => ?_
  dsimp only
  split
  · split
    · exact rfl
    split
    · exact keepsOpen_vfsTwoPaths htype
    · exact rfl
    · exact rfl
  · exact rfl

theorem VfsServer.Serves.openFiles_rename (h : v.Serves message v') (htype : message.type = .renameBuffer) :
    v'.openFiles = v.openFiles := by
  obtain ⟨reply, h⟩ := h
  unfold vfsServe at h
  rw [htype] at h
  exact (keepsOpen_handleTwoPaths (by rw [htype]; decide)).returns h

theorem VfsServer.Serves.vfsResolveWithBase_rename (h : v.Serves message v')
    (htype : message.type = .renameBuffer) :
    v'.vfsResolveWithBase base owner cwd input = v.vfsResolveWithBase base owner cwd input := by
  unfold VfsServer.vfsResolveWithBase
  rw [h.openFiles_rename htype]

end

/-! ## Renames -/

namespace Tmpfs

/-- **Handles on directories and renames.** A directory of tmpfs is renamed. A handle on it or on a
directory below it, and a path that the VFS resolves to one against an open directory, stands for the
same directory afterwards exactly if the new path is the old one. -/
theorem directory_handles_follow_renames {allocs : Nat → Bool} {calls : List TmpfsCall}
    {env : TmpfsEnv} {s s' : Tmpfs} {v v' : VfsServer} {message : VfsMessage} {j : InodeId}
    {k : TmpfsInode} {old new : Path} {sender task flags : U64} {r : VfsReply}
    (hreach : Run (fun s (call : TmpfsCall) s' => s.serve call = some s') (init allocs) calls s)
    (hold : s.inodeFind old = some (j, k)) (hk : k.type = .directory)
    (hstep : s.step env sender (.rename (some old) (some new) task flags) = some (r, s'))
    (hok : r.status = 0) (hserves : v.Serves message v') (htype : message.type = .renameBuffer)
    {path : Path} {i : InodeId} {n : TmpfsInode} (hpath : s.inodeFind path = some (i, n))
    (hdir : n.type = .directory) (hunder : SlashPath.AtOrUnder old path) :
    (∀ handle owner, s.openFrom handle = some ⟨owner, .dir path⟩ →
      (s'.handleDirectory handle = some i ↔ old = new)) ∧
    (∀ base owner cwd input, v.vfsResolveWithBase base owner cwd input = .ok path →
      ((∃ path', v'.vfsResolveWithBase base owner cwd input = .ok path' ∧
        (s'.inodeFind path').map Prod.fst = some i) ↔ old = new)) := by
  have hdirs := dirsOnce_run hreach
  have hleaves := hdirs.rename_leaves hold hk hpath hdir hunder hstep hok
  refine ⟨fun handle owner ho => ?_, fun base owner cwd input hresolve => ?_⟩
  · have ho' := openFrom_rename hdirs.wf ho hstep
    unfold handleDirectory
    rw [ho']
    exact hleaves
  · rw [hserves.vfsResolveWithBase_rename htype, hresolve]
    constructor
    · rintro ⟨path', he, hi⟩
      cases he
      exact hleaves.mp hi
    · exact fun he => ⟨path, rfl, hleaves.mpr he⟩

/-- `/a` has one entry, and a handle. -/
def openDirectory : List TmpfsCall :=
  [⟨openEnv, 1, .grantSubject 0⟩, ⟨openEnv, 1, .mkdir (some "/a".toList) 1 0o755⟩,
    ⟨openEnv, 1, .create (some "/a/x".toList) 1 0o644⟩, ⟨openEnv, 1, .openPath (some "/a".toList)⟩]

theorem directory_handles_follow_renames_moved :
    ∃ (s s' : Tmpfs) (r : VfsReply) (i : InodeId) (n : TmpfsInode),
      s.inodeFind "/a".toList = some (i, n) ∧ n.type = .directory ∧
      s.openFrom 1 = some ⟨1, .dir "/a".toList⟩ ∧
      s.step openEnv 1 (.rename (some "/a".toList) (some "/b".toList) 1 0) = some (r, s') ∧
      r.status = 0 ∧ (s'.handleDirectory 1 = some i ↔ "/a".toList = "/b".toList) := by
  obtain ⟨s, hreach, hopen, ⟨⟨i, n⟩, hfind, hdir⟩, ⟨r, s'⟩, hstep, hok⟩ := Run.exists_of_exec serve
    (init fun _ => true) openDirectory (fun s => s.openFrom 1 = some ⟨1, .dir "/a".toList⟩ ∧
      (∃ e ∈ s.inodeFind "/a".toList, e.2.type = .directory) ∧
      ∃ e ∈ s.step openEnv 1 (.rename (some "/a".toList) (some "/b".toList) 1 0), e.1.status = 0)
    (by decide +kernel)
  have hserves : VfsServer.Serves {} { type := .renameBuffer, sender := 1 } {} := ⟨_, .ret⟩
  exact ⟨s, s', r, i, n, hfind, hdir, hopen, hstep, hok,
    (directory_handles_follow_renames hreach hfind hdir hstep hok hserves rfl hfind hdir (.inl rfl)).1 1 1
      hopen⟩

/-- A handle on `/a` lists its entry; `/a` becomes `/b`, and the handle lists nothing, as `/a` is not
there any more, and the VFS resolves against the old path. -/
theorem renamed_directory_lost :
    ∃ s s' r, Run (fun s (call : TmpfsCall) s' => s.serve call = some s') (init fun _ => true)
        openDirectory s ∧
      s.step openEnv 1 (.rename (some "/a".toList) (some "/b".toList) 1 0) = some (r, s') ∧
      r.status = 0 ∧
      (s.step openEnv 1 (.readdir 1 0 8)).map (fun e => (e.1.status, e.1.data)) = some (0, pathBytes ['x']) ∧
      (s'.step openEnv 1 (.readdir 1 0 8)).map (fun e => e.1.status) = some VfsErr.noent ∧
      s'.inodeFind "/a".toList = none := by
  obtain ⟨s, hrun, hbefore, ⟨r, s'⟩, hstep, hok, hafter, hgone⟩ := Run.exists_of_exec serve
    (init fun _ => true) openDirectory (fun s =>
      (s.step openEnv 1 (.readdir 1 0 8)).map (fun e => (e.1.status, e.1.data)) =
        some (0, pathBytes ['x']) ∧
      ∃ e ∈ s.step openEnv 1 (.rename (some "/a".toList) (some "/b".toList) 1 0), e.1.status = 0 ∧
        (e.2.step openEnv 1 (.readdir 1 0 8)).map (fun e => e.1.status) = some VfsErr.noent ∧
        (e.2.inodeFind "/a".toList).isNone = true) (by decide +kernel)
  exact ⟨s, s', r, hrun, hstep, hok, hbefore, hafter, isNone_iff_eq_none.mp hgone⟩

end Tmpfs

end Bunix.User
