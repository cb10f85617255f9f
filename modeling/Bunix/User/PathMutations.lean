import Bunix.User.FileStack
import Bunix.User.TmpfsBytes

/-! # Requests that make, remove or move a name

`open`, `stat` and `access` follow the symbolic links on the way to a name. The requests that change a
directory do not: the VFS hands their path on as it stands, and tmpfs looks up its text. So they act
in the directory that a path leads to only if the path is written without links.
-/
namespace Bunix.User

open Bunix.Lib Prog

variable {O : Type} {service task : U64} {s : VfsServer} {t : Tmpfs} {path dir dir' name : Path}

inductive Mutation where
  | create
  | mkdir
  | unlink
  | rmdir
  | symlink (target : Path)
  | renameFrom (newPath : Path)
  | renameTo (oldPath : Path)

/-- What the VFS does for a request with a path, whose other words are those of `message`. -/
def Mutation.serve (message : VfsMessage) (path : Path) : Mutation → VfsM VfsReply
  | .create => vfsMutatePath { message with type := .createBuffer } path
  | .mkdir => vfsMutatePath { message with type := .mkdirBuffer } path
  | .unlink => vfsMutatePath { message with type := .unlinkBuffer } path
  | .rmdir => vfsMutatePath { message with type := .rmdirBuffer } path
  | .symlink target => vfsSymlinkPath { message with type := .symlinkBuffer } target path
  | .renameFrom newPath => vfsTwoPaths { message with type := .renameBuffer } path newPath
  | .renameTo oldPath => vfsTwoPaths { message with type := .renameBuffer } oldPath path

/-- The reply, and the servers and the outside after it. -/
def mutated (env : StackEnv O) (message : VfsMessage) (m : Mutation) (path : Path) (σ : FileStack O) :
    (VfsReply × VfsServer) × (Tmpfs × O) :=
  exec (vfsAnswer env message) (m.serve message path σ.vfs) (σ.tmpfs, σ.outside)

/-- What `open` and `stat` make of a path. -/
def resolved (env : StackEnv O) (message : VfsMessage) (task : U64) (path : Path) (σ : FileStack O) :
    Except U64 Path :=
  (exec (vfsAnswer env message) (vfsResolveSymlinks path task true σ.vfs) (σ.tmpfs, σ.outside)).1.1

def below (dir name : Path) : Path := if dir = ['/'] then '/' :: name else dir ++ '/' :: name

/-- Whatever the request and the name, whoever asks, however much memory there is and whatever the
others answer: in both directories the outcome and the effect are the same. -/
def MutatesAlike (service task : U64) (s : VfsServer) (t : Tmpfs) (dir dir' : Path) : Prop :=
  ∀ (O : Type) (env : StackEnv O) (outside : O) (allocs : Nat → Bool) (message : VfsMessage)
    (m : Mutation) (name : Path), env.tmpfsService = service → env.vfsTask = task → '/' ∉ name →
    mutated env message m (below dir name) ⟨s, { t with allocs }, outside⟩ =
      mutated env message m (below dir' name) ⟨s, { t with allocs }, outside⟩

/-- A directory of tmpfs that can take a new name. -/
structure TakesName (service task : U64) (s : VfsServer) (t : Tmpfs) (dir name : Path) : Prop where
  wf : t.Wf
  caller : t.senderIsVfsCaller task = true
  served : service ≠ 0
  slash : '/' ∉ name
  absolute : dir.head? = some '/'
  directory : t.pathIsRoot dir = true ∨ ∃ i n, t.inodeFind dir = some (i, n) ∧ n.type = .directory
  root : t.pathIsRoot (below dir name) = false
  absent : t.index (below dir name) = none
  length : (below dir name).length < maxPath
  routed : (s.mountForPath (below dir name)).map VfsMount.service = some service

theorem parent_below (hdir : dir.head? = some '/') (hname : '/' ∉ name) :
    SlashPath.Parent dir (below dir name) := by
  unfold below
  split
  · rename_i hroot
    exact ⟨rfl, .inr ⟨hroot, name, hname, rfl⟩⟩
  · cases dir with
    | nil => cases hdir
    | cons c dir => exact ⟨hdir, .inl ⟨List.cons_ne_nil c dir, name, hname, rfl⟩⟩

/-! ## A new directory -/

/-- Everything is there, and nobody but tmpfs answers. -/
def plainEnv (service task : U64) : StackEnv Unit :=
  { rootEnv with tmpfsService := service, vfsTask := task }

def plainMessage : VfsMessage where
  type := .mkdirBuffer
  sender := 0

theorem mutated_mkdir (s : VfsServer) (path : Path) (hserved : service ≠ 0) (hcaller : t.senderIsVfsCaller task = true) :
    ∃ env, (mutated (plainEnv service task) plainMessage .mkdir path ⟨s, t, ()⟩).2.1 =
      if (s.mountForPath path).map VfsMount.service = some service then
        (Tmpfs.handleMkdir env t (some path) 0 0).2
      else t := by
  have hmessage : messageSetSubject plainMessage (s.messageSubject plainMessage) = plainMessage := by
    simp [messageSetSubject, VfsServer.messageSubject, plainMessage, low32]
  have hrequest : tmpfsRequest plainMessage (bufferPathRequest plainMessage path) =
      some (.mkdir (some path) 0 0) := by
    simp [tmpfsRequest, bufferPathRequest, plainMessage, FsRequest.string, low32, high32]
  have hstep : ∀ env, t.step env (plainEnv service task).vfsTask (.mkdir (some path) 0 0) =
      some (Tmpfs.handleMkdir env t (some path) 0 0) := fun env => if_neg (by simp [plainEnv, hcaller])
  obtain ⟨env, hasked⟩ : ∃ env, tmpfsCall (plainEnv service task) plainMessage
      (bufferPathRequest plainMessage path) (t, ()) = (some (Tmpfs.handleMkdir env t (some path) 0 0).1,
        (Tmpfs.handleMkdir env t (some path) 0 0).2, ()) := by
    rw [tmpfsCall, hrequest]
    dsimp only
    rw [hstep]
    exact ⟨_, rfl⟩
  refine ⟨env, ?_⟩
  show (exec _ (vfsMutatePath plainMessage path s) (t, ())).2.1 = _
  rw [vfsMutatePath_eq, hmessage]
  cases s.mountForPath path with
  | none => rfl
  | some mount =>
    have hcreate : vfsAnswer (plainEnv service task) plainMessage
      (.createBuffer (2 + stringLen path + 0 + 0)) (t, ()) = (true, (t, ())) := rfl
    simp only [Option.map_some, Option.some.injEq]
    by_cases hmount : mount.service = service
    · rw [exec_forwardMountBufferPath (by decide) (by decide) rfl hcreate ((if_pos hmount).trans hasked),
        if_neg (by decide), if_neg (hmount ▸ hserved), if_pos hmount]
    · rw [exec_forwardMountBufferPath (by decide) (by decide) rfl hcreate (if_neg hmount),
        if_neg (by decide), if_neg hmount]
      split <;> rfl

namespace Tmpfs

variable {env : TmpfsEnv} {mode : U64}

theorem fileCreate_index (h : t.Wf) (hparent : t.pathParentExists path = true)
    (hnone : t.index path = none) (hlength : path.length < maxPath) (hallocs : ∀ n, t.allocs n = true) :
    (fileCreate env t path mode (some .directory) task).2.2.index path = some t.nextFile := by
  unfold fileCreate
  simp [hparent, fileFind, hnone, strDup, not_le.mpr hlength, alloc, hallocs, filesInsertFile, newFile,
    newInode, setFile, setInode, takeInodeId, fileIsValid, inodeOf, h.not_mem_nextFile]

theorem fileCreate_index_ne {type} (h : t.Wf) (hne : q ≠ path) :
    (fileCreate env t path mode type task).2.2.index q = t.index q := by
  have hcreated : Created t path type (fileCreate env t path mode type task) :=
    created_fileCreate h path mode type task
  generalize fileCreate env t path mode type task = result at hcreated
  cases hcreated with
  | failed _ hq => exact congrFun hq.index q
  | made _ _ hq => exact (Function.update_of_ne hne ..).trans (congrFun hq.index q)

theorem handleMkdir_index (h : TakesName service task s t dir name) (hallocs : ∀ n, t.allocs n = true)
    (env : TmpfsEnv) (path : Path) (mode : U64) :
    (handleMkdir env t (some path) 0 mode).2.index (below dir name) = none ↔ path ≠ below dir name := by
  have hparent := parent_below h.absolute h.slash
  have hdir : pathParentPath (below dir name) = some dir := pathParentPath_eq_some.mpr hparent
  constructor
  · rintro hnone rfl
    have hexists : t.pathParentExists (below dir name) = true := by
      unfold pathParentExists
      rw [hdir]
      rcases h.directory with hroot | ⟨i, n, hi, ht⟩
      · simp [hroot]
      · simp [hi, ht]
    have haccess : taskCanAccess env 0 (t.parentFileForPath (below dir name)) 3 = true := by
      unfold parentFileForPath
      rw [hdir]
      rcases h.directory with hroot | ⟨i, n, hi, ht⟩
      · simp [hroot, taskCanAccess]
      · simp only [hi]
        split <;> simp [taskCanAccess]
    have hread : readPath (some (below dir name)) = some (below dir name) := by
      simp [readPath, hparent.1, h.length]
    unfold handleMkdir at hnone
    rw [hread] at hnone
    dsimp only at hnone
    rw [if_neg (by simp [h.root, h.wf.fileFind, h.absent]), if_neg (by rw [haccess]; decide), withStatus,
      fileCreate_index h.wf hexists h.absent h.length hallocs] at hnone
    cases hnone
  · intro hne
    unfold handleMkdir
    split
    · exact h.absent
    rename_i hread
    cases readPath_eq hread
    split
    · exact h.absent
    split
    · exact h.absent
    · exact (fileCreate_index_ne h.wf hne.symm).trans h.absent

end Tmpfs

/-- **The requests act alike in the directory that a path leads to exactly if no link is met on the
way.** -/
theorem mutations_follow_links_iff {env : StackEnv O} {σ : FileStack O} {message : VfsMessage}
    {subject : U64} (hres : resolved env message subject dir σ = .ok dir') (hdir : dir.head? = some '/')
    (htakes : TakesName env.tmpfsService env.vfsTask σ.vfs σ.tmpfs dir' name) :
    MutatesAlike env.tmpfsService env.vfsTask σ.vfs σ.tmpfs dir dir' ↔
      resolved env message subject dir σ = .ok dir := by
  rw [hres, Except.ok.injEq]
  constructor
  · -- a new directory is found at one of the two paths only
    intro halike
    have hmem : TakesName env.tmpfsService env.vfsTask σ.vfs { σ.tmpfs with allocs := fun _ => true } dir'
        name := { htakes with wf := { htakes.wf with } }
    have hsame := halike Unit (plainEnv env.tmpfsService env.vfsTask) () (fun _ => true) plainMessage
      .mkdir name rfl rfl htakes.slash
    obtain ⟨env₁, hdir₁⟩ := mutated_mkdir σ.vfs (below dir name) hmem.served hmem.caller
    obtain ⟨env₂, hdir₂⟩ := mutated_mkdir σ.vfs (below dir' name) hmem.served hmem.caller
    rw [if_pos hmem.routed] at hdir₂
    by_contra hne
    have hpath : below dir name ≠ below dir' name := fun he =>
      hne ((parent_below hmem.absolute hmem.slash).unique (he ▸ parent_below hdir hmem.slash))
    have hmade := (Tmpfs.handleMkdir_index hmem (fun _ => rfl) env₂ (below dir' name) 0).not.mpr
      (not_not.mpr rfl)
    rw [← hdir₂, ← hsame, hdir₁] at hmade
    split at hmade
    · exact hmade ((Tmpfs.handleMkdir_index hmem (fun _ => rfl) env₁ _ 0).mpr hpath)
    · exact hmade hmem.absent
  · rintro rfl
    intro O env outside allocs message m name _ _ _
    rfl

def tmpfsRoot : VfsServer where
  mounts := [{ path := ['/'], id := 1, service := 9, fstype := 0 }]

/-- A directory `/d`, and a link `/l` to it. -/
def linkToDirectory : List TmpfsCall :=
  [⟨Tmpfs.openEnv, 2, .grantSubject 0⟩, ⟨Tmpfs.openEnv, 2, .mkdir (some "/d".toList) 0 0o755⟩,
    ⟨Tmpfs.openEnv, 2, .symlink (some "/d".toList) (some "/l".toList) 0⟩]

theorem mutations_not_alike_below_link :
    ∃ t, Run (fun s (call : TmpfsCall) s' => s.serve call = some s') (Tmpfs.init fun _ => true)
        linkToDirectory t ∧
      resolved rootEnv plainMessage 1 "/l".toList ⟨tmpfsRoot, t, ()⟩ = .ok "/d".toList ∧
      ¬ MutatesAlike 9 2 tmpfsRoot t "/l".toList "/d".toList := by
  obtain ⟨t, hr, hres, hcaller, hdir, hroot, habsent⟩ := Run.exists_of_exec Tmpfs.serve
    (Tmpfs.init fun _ => true) linkToDirectory (fun t =>
      resolved rootEnv plainMessage 1 "/l".toList ⟨tmpfsRoot, t, ()⟩ = .ok "/d".toList ∧
      t.senderIsVfsCaller 2 = true ∧
      ((t.inodeFind "/d".toList).any fun e => e.2.type == .directory) = true ∧
      t.pathIsRoot (below "/d".toList ['x']) = false ∧ t.index (below "/d".toList ['x']) = none)
    (by decide +kernel)
  obtain ⟨⟨i, n⟩, hi, hn⟩ := (Option.any_eq_true _ _).mp hdir
  refine ⟨t, hr, hres, (mutations_follow_links_iff hres rfl ⟨(Tmpfs.sized_run hr).wf, hcaller, by decide,
    by decide, rfl, .inr ⟨i, n, hi, beq_iff_eq.mp hn⟩, hroot, habsent, by decide, rfl⟩).not.mpr ?_⟩
  rw [hres]
  decide

theorem create_below_link :
    ∃ t, Run (fun s (call : TmpfsCall) s' => s.serve call = some s') (Tmpfs.init fun _ => true)
        linkToDirectory t ∧
      resolved rootEnv plainMessage 1 "/l".toList ⟨tmpfsRoot, t, ()⟩ = .ok "/d".toList ∧
      (mutated rootEnv plainMessage .create "/d/x".toList ⟨tmpfsRoot, t, ()⟩).1.1.status = 0 ∧
      (mutated rootEnv plainMessage .create "/l/x".toList ⟨tmpfsRoot, t, ()⟩).1.1.status = VfsErr.noent :=
  Run.exists_of_exec Tmpfs.serve _ _ _ (by decide +kernel)

end Bunix.User
