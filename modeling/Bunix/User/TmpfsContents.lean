import Bunix.User.TmpfsOutcome

/-! # tmpfs: who learns the contents of a file

Two servers that differ in the contents of one regular file, and not in the length of the memory for
it, answer every request the same that does not read this file.
-/
namespace Bunix.User.Tmpfs

open Bunix.Lib Function Option

variable {request : TmpfsRequest} {sender handle : U64} {reply : VfsReply}

/-- Two inodes with the number `j`, the same but for the contents of the regular file `i`. -/
structure Alike (i j : InodeId) (n n' : TmpfsInode) : Prop where
  eq : n' = { n with data := n'.data }
  length : n'.data.length = n.data.length
  data : j ≠ i ∨ n.type ≠ .regular → n'.data = n.data

/-- The servers are the same but for the contents of the regular file `i`. -/
structure SameBut (i : InodeId) (t t' : Tmpfs) : Prop where
  rest : t' = { t with inode := t'.inode }
  inode : ∀ j, Option.Rel (Alike i j) (t.inode j) (t'.inode j)

/-- The first parts are the same, the others stand in the relation `R`. -/
inductive SameFst {α β : Type} (R : β → β → Prop) : α × β → α × β → Prop
  | mk {a : α} {b b' : β} (rest : R b b') : SameFst R (a, b) (a, b')

/-- The same result in servers that are the same but for the contents. -/
abbrev SameResult {α : Type} (i : InodeId) : α × Tmpfs → α × Tmpfs → Prop := SameFst (SameBut i)

/-- The same inode, after its contents have been changed in the same way. -/
abbrev SameSized (i j : InodeId) : Bool × TmpfsInode × Tmpfs → Bool × TmpfsInode × Tmpfs → Prop :=
  SameFst fun x x' => Alike i j x.1 x'.1 ∧ SameBut i x.2 x'.2

/-- The same inode, found in both servers. -/
inductive SameInode (i : InodeId) : InodeId × TmpfsInode → InodeId × TmpfsInode → Prop
  | mk {j : InodeId} {n n' : TmpfsInode} (alike : Alike i j n n') : SameInode i (j, n) (j, n')

variable {i j : InodeId} {n n' : TmpfsInode} {t t' : Tmpfs} {f : FileId} {path : Path} {env : TmpfsEnv}
  {task : U64}

namespace Alike

theorem refl (i j : InodeId) (n : TmpfsInode) : Alike i j n n := ⟨rfl, rfl, fun _ => rfl⟩

section
variable (h : Alike i j n n')
include h

theorem size : n'.size = n.size := by rw [h.eq]

theorem type : n'.type = n.type := by rw [h.eq]

theorem refs : n'.refs = n.refs := by rw [h.eq]

theorem statFile : Tmpfs.statFile n' = Tmpfs.statFile n := by rw [h.eq]; rfl

theorem capacity : Tmpfs.capacity n' = Tmpfs.capacity n := by
  unfold Tmpfs.capacity
  rw [h.length]

theorem taskCanAccess (mask : U64) :
    Tmpfs.taskCanAccess env task (some n') mask = Tmpfs.taskCanAccess env task (some n) mask := by
  rw [h.eq]; rfl

theorem setRefs (refs : Nat) :
    Alike i j { n with refs := refs } { n' with refs := refs } where
  __ := h
  eq := by rw [h.eq]

theorem setData (size : U64) (g : List UInt8 → List UInt8)
    (hlength : (g n'.data).length = (g n.data).length) :
    Alike i j { n with data := g n.data, size } { n' with data := g n'.data, size } where
  eq := by rw [h.eq]
  length := hlength
  data := fun hother => congrArg g (h.data hother)

end

end Alike

theorem overwrite_length (data : List UInt8) (off : Nat) (bytes : List UInt8) :
    (overwrite data off bytes).length = min off data.length + bytes.length +
      (data.length - (off + bytes.length)) := by
  simp [overwrite, Nat.add_assoc]

@[elab_as_elim]
theorem rel_elim {α : Type} {r : α → α → Prop} {x x' : Option α} {motive : Option α → Option α → Prop}
    (h : Option.Rel r x x') (none : motive none none)
    (some : ∀ {a a'}, r a a' → motive (some a) (some a')) : motive x x' := by
  cases h with
  | none => exact none
  | some h => exact some h

namespace SameBut

theorem refl (i : InodeId) (t : Tmpfs) : SameBut i t t where
  rest := rfl
  inode := fun j => by
    cases t.inode j with
    | none => exact .none
    | some n => exact .some (Alike.refl i j n)

section
variable (h : SameBut i t t')
include h

theorem congr (g : Tmpfs → Tmpfs) (hg : ∀ t, (g t).inode = t.inode)
    (hcomm : ∀ t m, g { t with inode := m } = { g t with inode := m }) : SameBut i (g t) (g t') where
  rest := by rw [hg, h.rest, hcomm]
  inode := fun j => by
    rw [hg, hg]
    exact h.inode j

theorem file : t'.file = t.file := by rw [h.rest]

theorem list : t'.list = t.list := by rw [h.rest]

theorem index : t'.index = t.index := by rw [h.rest]

theorem opens : t'.opens = t.opens := by rw [h.rest]

theorem pathIsRoot : t'.pathIsRoot path = t.pathIsRoot path := by
  rw [h.rest]; rfl

theorem senderIsVfsCaller (sender : U64) :
    t'.senderIsVfsCaller sender = t.senderIsVfsCaller sender := by
  rw [h.rest]; rfl

/-! ## What is looked up -/

theorem inodeOf (f : FileId) :
    Option.Rel (SameInode i) (t.inodeOf f) (t'.inodeOf f) := by
  unfold Tmpfs.inodeOf
  rw [h.file]
  cases t.file f with
  | none => exact .none
  | some file =>
    show Option.Rel _ ((t.inode file.inode).map _) ((t'.inode file.inode).map _)
    exact rel_elim (h.inode file.inode) .none fun hn => .some ⟨hn⟩

theorem fileIsValid (f : FileId) : t'.fileIsValid f = t.fileIsValid f := by
  unfold Tmpfs.fileIsValid
  exact rel_elim (h.inodeOf f) rfl fun _ => rfl

theorem fileFind (path : Path) : t'.fileFind path = t.fileFind path := by
  unfold Tmpfs.fileFind
  rw [h.index, h.file]
  simp only [h.fileIsValid]

theorem inodeFind (path : Path) :
    Option.Rel (SameInode i) (t.inodeFind path) (t'.inodeFind path) := by
  unfold Tmpfs.inodeFind
  rw [h.fileFind]
  cases t.fileFind path with
  | none => exact .none
  | some f => exact h.inodeOf f

theorem pathParentExists (path : Path) :
    t'.pathParentExists path = t.pathParentExists path := by
  unfold Tmpfs.pathParentExists
  cases pathParentPath path with
  | none => rfl
  | some parent =>
    show (t'.pathIsRoot parent || _) = (t.pathIsRoot parent || _)
    rw [h.pathIsRoot]
    congr 1
    exact rel_elim (h.inodeFind parent) rfl fun ⟨hn⟩ => by simp only [any_some, hn.type]

theorem parentFileForPath (path : Path) :
    Option.Rel (fun n n' => ∀ env task mask,
      taskCanAccess env task (some n') mask = taskCanAccess env task (some n) mask)
      (t.parentFileForPath path) (t'.parentFileForPath path) := by
  unfold Tmpfs.parentFileForPath
  cases pathParentPath path with
  | none => exact .none
  | some parent =>
    dsimp only
    rw [h.pathIsRoot]
    split
    · exact .some fun _ _ _ => rfl
    · exact rel_elim (h.inodeFind parent) .none fun ⟨hn⟩ => .some fun _ _ => hn.taskCanAccess

theorem parentAccess (env : TmpfsEnv) (task : U64) (path : Path) (mask : U64) :
    taskCanAccess env task (t'.parentFileForPath path) mask =
      taskCanAccess env task (t.parentFileForPath path) mask :=
  rel_elim (h.parentFileForPath path) rfl fun ha => ha env task mask

/-! ## Changes -/

theorem setFile (f : FileId) (file : Option TmpfsFile) :
    SameBut i (t.setFile f file) (t'.setFile f file) :=
  h.congr (fun t => t.setFile f file) (fun _ => rfl) fun _ _ => rfl

theorem setInode (j : InodeId) {m m' : Option TmpfsInode}
    (hm : Option.Rel (Alike i j) m m') : SameBut i (t.setInode j m) (t'.setInode j m') where
  rest := by
    rw [h.rest]
    rfl
  inode := fun k => by
    show Option.Rel _ (update t.inode j m k) (update t'.inode j m' k)
    exact update_cases₂ (fun hk => hk ▸ hm) fun _ => h.inode k

theorem congrResult (g : Tmpfs → α × Tmpfs) (hg : ∀ t, (g t).2.inode = t.inode)
    (hcomm : ∀ t m, g { t with inode := m } = ((g t).1, { (g t).2 with inode := m })) :
    SameResult i (g t) (g t') := by
  have hfst : (g t').1 = (g t).1 := by rw [h.rest, hcomm]
  have hsame := h.congr (fun t => (g t).2) hg fun t m => by rw [hcomm]
  show SameFst _ ((g t).1, (g t).2) ((g t').1, (g t').2)
  rw [hfst]
  exact ⟨hsame⟩

theorem alloc : SameResult i t.alloc t'.alloc :=
  h.congrResult (fun t => t.alloc) (fun _ => rfl) fun _ _ => rfl

theorem filesRemoveFile (f : FileId) :
    SameBut i (t.filesRemoveFile f) (t'.filesRemoveFile f) := by
  refine h.congr (fun t => t.filesRemoveFile f) (fun t => ?_) fun t m => ?_
  · unfold Tmpfs.filesRemoveFile
    cases t.file f <;> rfl
  · unfold Tmpfs.filesRemoveFile
    cases t.file f <;> rfl

theorem inodeRelease (j : InodeId) :
    SameBut i (t.inodeRelease j) (t'.inodeRelease j) := by
  unfold Tmpfs.inodeRelease
  refine rel_elim (h.inode j) h fun hn => ?_
  dsimp only
  rw [hn.refs]
  split
  · exact h.setInode j .none
  · exact h.setInode j (.some (hn.setRefs _))

theorem fileRelease (f : FileId) :
    SameBut i (t.fileRelease f) (t'.fileRelease f) := by
  unfold Tmpfs.fileRelease
  rw [h.file]
  cases t.file f with
  | none => exact h
  | some file =>
    dsimp only
    split
    · exact (h.inodeRelease file.inode).setFile f none
    · exact h.setFile f _

theorem fileUnlink (f : FileId) : SameBut i (t.fileUnlink f) (t'.fileUnlink f) := by
  unfold Tmpfs.fileUnlink
  rw [h.file]
  cases t.file f with
  | none => exact h
  | some file => exact ((h.setFile f _).filesRemoveFile f).fileRelease f

theorem filesInsertFile (f : FileId) :
    SameResult i (t.filesInsertFile f) (t'.filesInsertFile f) := by
  unfold Tmpfs.filesInsertFile
  rw [h.file]
  cases t.file f with
  | none => exact ⟨h⟩
  | some file =>
    dsimp only
    rw [h.fileIsValid, h.fileFind, h.list, h.index]
    split
    · exact ⟨h⟩
    split
    · exact ⟨h⟩
    split
    · exact ⟨h⟩
    split
    · exact ⟨h⟩
    · refine ⟨?_, h.inode⟩
      rw [h.rest]

theorem strDup (path : Path) : SameResult i (t.strDup path) (t'.strDup path) := by
  unfold Tmpfs.strDup
  split
  · exact ⟨h⟩
  · exact h.alloc

theorem takeInodeId : SameResult i t.takeInodeId t'.takeInodeId :=
  h.congrResult (fun t => t.takeInodeId) (fun _ => rfl) fun _ _ => rfl

theorem nextInode : t'.nextInode = t.nextInode := by rw [h.rest]

theorem nextFile : t'.nextFile = t.nextFile := by rw [h.rest]

theorem newInode (n : TmpfsInode) : SameBut i (t.newInode n) (t'.newInode n) := by
  unfold Tmpfs.newInode
  rw [h.nextInode]
  exact (h.setInode t.nextInode (.some (Alike.refl i _ n))).congr
    (fun u => { u with nextInode := t.nextInode + 1 }) (fun _ => rfl) fun _ _ => rfl

theorem newFile (file : TmpfsFile) :
    SameBut i (t.newFile file) (t'.newFile file) := by
  unfold Tmpfs.newFile
  rw [h.nextFile]
  exact (h.setFile t.nextFile (some file)).congr
    (fun u => { u with nextFile := t.nextFile + 1 }) (fun _ => rfl) fun _ _ => rfl

theorem fileCreate (env : TmpfsEnv) (task : U64) (path : Path) (mode : U64) (type : Option VfsType) :
    SameFst (SameResult i) (Tmpfs.fileCreate env t path mode type task)
      (Tmpfs.fileCreate env t' path mode type task) := by
  unfold Tmpfs.fileCreate
  rw [h.pathParentExists, h.fileFind]
  split
  · exact ⟨⟨h⟩⟩
  split
  · exact ⟨⟨h⟩⟩
  split
  · exact ⟨⟨h⟩⟩
  · exact ⟨⟨h⟩⟩
  rename_i type hchar
  refine (h.strDup path).casesOn fun {ok _ _} hs₁ => ?_
  cases ok with
  | false => exact ⟨⟨hs₁⟩⟩
  | true =>
    dsimp only
    refine hs₁.alloc.casesOn fun {ok _ _} hs₂ => ?_
    cases ok with
    | false => exact ⟨⟨hs₂⟩⟩
    | true =>
      dsimp only
      refine hs₂.takeInodeId.casesOn fun {ino t₃ t₃'} hs₃ => ?_
      rw [hs₃.nextFile, hs₃.nextInode]
      refine (((hs₃.newInode
          { ino, type, mode := mode.setWidth 32 &&& 0o777, uid := (taskOwner env task).1.setWidth 32,
            gid := (taskOwner env task).2.setWidth 32 }).newFile
          { path, inode := t₃.nextInode }).filesInsertFile t₃.nextFile).casesOn fun {res _ _} hs₄ => ?_
      cases res with
      | ok => exact ⟨⟨hs₄⟩⟩
      | exists_ | failed => exact ⟨⟨(hs₄.inodeRelease _).setFile _ none⟩⟩

theorem openFrom (handle : U64) : t'.openFrom handle = t.openFrom handle := by
  unfold Tmpfs.openFrom
  rw [h.opens]

theorem freeOpenId (start : U64) (fuel : Nat) (next : U64) :
    t'.freeOpenId start fuel next = t.freeOpenId start fuel next := by
  induction fuel generalizing next with
  | zero => rfl
  | succ fuel ih =>
    unfold Tmpfs.freeOpenId
    simp only [h.openFrom, ih]

theorem openHandle (o : TmpfsOpen) :
    SameResult i (t.openHandle o) (t'.openHandle o) := by
  have hnext : t'.nextOpenId = t.nextOpenId := by rw [h.rest]
  unfold Tmpfs.openHandle
  rw [hnext, h.opens, h.freeOpenId]
  generalize t.freeOpenId t.nextOpenId _ _ = r
  obtain ⟨found, next⟩ := r
  cases found with
  | none =>
    exact ⟨h.congr (fun u => { u with nextOpenId := next, opens := t.opens })
      (fun _ => rfl) fun _ _ => rfl⟩
  | some id =>
    exact ⟨h.congr
      (fun u => { u with nextOpenId := next, opens := (id, o) :: t.opens }) (fun _ => rfl) fun _ _ => rfl⟩

theorem openDir (path : Path) (owner : U64) :
    SameResult i (t.openDir path owner) (t'.openDir path owner) := by
  unfold Tmpfs.openDir
  refine h.alloc.casesOn fun {ok _ _} hs₁ => ?_
  cases ok with
  | false => exact ⟨hs₁⟩
  | true =>
    dsimp only
    refine (hs₁.openHandle { owner, kind := .dir path }).casesOn fun {id _ _} hs₂ => ?_
    cases id with
    | none | some id => exact ⟨hs₂⟩

theorem openFile (f : FileId) (owner : U64) :
    SameResult i (t.openFile f owner) (t'.openFile f owner) := by
  unfold Tmpfs.openFile
  rw [h.file]
  cases t.file f with
  | none => exact ⟨h⟩
  | some file =>
    dsimp only
    split
    · exact ⟨h⟩
    refine h.alloc.casesOn fun {ok _ _} hs₁ => ?_
    cases ok with
    | false => exact ⟨hs₁⟩
    | true =>
      dsimp only
      refine ((hs₁.setFile f (some { file with refs := file.refs + 1 })).openHandle
        { owner, kind := .file f }).casesOn fun {id _ _} hs₂ => ?_
      cases id with
      | none => exact ⟨hs₂.fileRelease f⟩
      | some id => exact ⟨hs₂⟩

theorem closeHandle (handle owner : U64) :
    SameBut i (t.closeHandle handle owner) (t'.closeHandle handle owner) := by
  unfold Tmpfs.closeHandle
  rw [h.openFrom]
  cases t.openFrom handle with
  | none => exact h
  | some o =>
    dsimp only
    split
    · exact h
    cases o.kind with
    | dir path =>
      exact h.congr (fun u => { u with opens := u.opens.filter fun e => e.1 != handle })
        (fun _ => rfl) fun _ _ => rfl
    | file f =>
      exact (h.fileRelease f).congr (fun u => { u with opens := u.opens.filter fun e => e.1 != handle })
        (fun _ => rfl) fun _ _ => rfl

theorem resize (hn : Alike i j n n') (size : U64) :
    Option.Rel (SameSized i j) (t.resize n size) (t'.resize n' size) := by
  unfold Tmpfs.resize
  rw [hn.capacity]
  split
  · exact .some ⟨⟨hn, h⟩⟩
  cases growCapacity size 65 _ with
  | none => exact .none
  | some grown =>
    refine h.alloc.casesOn fun {ok _ _} hs₁ => ?_
    cases ok with
    | false => exact .some ⟨⟨hn, hs₁⟩⟩
    | true =>
      refine .some ⟨⟨?_, hs₁⟩⟩
      have hdata := hn.setData n.size
        (fun data => data ++ List.replicate (grown.toNat - data.length) 0) (by simp [hn.length])
      simpa only [hn.size] using hdata

theorem setSize (hn : Alike i j n n') (size : U64) :
    Option.Rel (SameSized i j) (t.setSize n size) (t'.setSize n' size) := by
  unfold Tmpfs.setSize
  refine rel_elim (h.resize hn size) .none fun {x x'} hx => ?_
  obtain @⟨ok, ⟨m, s⟩, ⟨m', s'⟩, hm, hs⟩ := hx
  cases ok with
  | false => exact .some ⟨⟨hm, hs⟩⟩
  | true =>
    rw [hn.size]
    refine .some ⟨⟨?_, hs⟩⟩
    exact hm.setData size (fun data => if n.size < size then
      overwrite data n.size.toNat (List.replicate (size.toNat - n.size.toNat) 0) else data)
      (by split <;> simp only [overwrite_length, hm.length])

/-! ## Requests -/

theorem handleOpen (sender : U64) (raw : Option Path) :
    SameResult i (t.handleOpen sender raw) (t'.handleOpen sender raw) := by
  unfold Tmpfs.handleOpen
  cases readPath raw with
  | none => exact ⟨h⟩
  | some path =>
    dsimp only
    rw [h.pathIsRoot, h.fileFind]
    split
    · exact (h.openDir path sender).casesOn fun hs => ⟨hs⟩
    cases t.fileFind path with
    | none => exact ⟨h⟩
    | some f =>
      dsimp only
      refine rel_elim (h.inodeOf f) ⟨h⟩ fun ⟨hn⟩ => ?_
      dsimp only
      rw [hn.type, hn.size]
      split
      · exact (h.openDir path sender).casesOn fun hs => ⟨hs⟩
      · exact (h.openFile f sender).casesOn fun hs => ⟨hs⟩

theorem handleCreate (raw : Option Path) (mode : U64) :
    SameResult i (Tmpfs.handleCreate env t raw task mode) (Tmpfs.handleCreate env t' raw task mode) := by
  unfold Tmpfs.handleCreate
  cases readPath raw with
  | none => exact ⟨h⟩
  | some path =>
    dsimp only
    rw [h.parentAccess]
    split
    · exact ⟨h⟩
    refine rel_elim (h.inodeFind path) ?_ fun ⟨hn⟩ => ?_
    · exact (h.fileCreate env task path mode (some .regular)).casesOn fun ⟨hs⟩ => ⟨hs⟩
    · dsimp only
      rw [hn.type]
      exact ⟨h⟩

theorem onInode (raw : Option Path) {g g'}
    (hg : ∀ j n n', Alike i j n n' → SameResult i (g j n) (g' j n')) :
    SameResult i (t.onInode raw g) (t'.onInode raw g') := by
  unfold Tmpfs.onInode
  cases readPath raw with
  | none => exact ⟨h⟩
  | some path =>
    dsimp only
    rw [h.pathIsRoot]
    split
    · exact ⟨h⟩
    exact rel_elim (h.inodeFind path) ⟨h⟩ fun ⟨hn⟩ => hg _ _ _ hn

theorem handleStat (raw : Option Path) :
    SameResult i (t.handleStat raw) (t'.handleStat raw) := by
  refine h.onInode raw fun j n n' hn => ?_
  rw [hn.statFile]
  exact ⟨h⟩

theorem handleReadlink (raw : Option Path) (outCap : U64) :
    SameResult i (Tmpfs.handleReadlink env t raw outCap) (Tmpfs.handleReadlink env t' raw outCap) := by
  refine h.onInode raw fun j n n' hn => ?_
  rw [hn.type, hn.size]
  by_cases hlink : n.type = .symlink
  swap
  · rw [if_pos (.inl hlink), if_pos (.inl hlink)]
    exact ⟨h⟩
  have hdata : n'.data = n.data := by
    refine hn.data (.inr ?_)
    rw [hlink]
    decide
  rw [hdata]
  split
  · exact ⟨h⟩
  split
  · exact ⟨h⟩
  dsimp only
  split
  · exact ⟨h⟩
  · exact ⟨h⟩

theorem handleUnlink (raw : Option Path) :
    SameResult i (Tmpfs.handleUnlink env t raw task) (Tmpfs.handleUnlink env t' raw task) := by
  unfold Tmpfs.handleUnlink
  cases readPath raw with
  | none => exact ⟨h⟩
  | some path =>
    dsimp only
    refine rel_elim (h.parentFileForPath path) ⟨h⟩ fun ha => ?_
    dsimp only
    rw [ha, h.fileFind]
    split
    · exact ⟨h⟩
    cases t.fileFind path with
    | none => exact ⟨h⟩
    | some f =>
      dsimp only
      have hdir : ((t'.inodeOf f).any fun x => x.2.type == .directory) =
          (t.inodeOf f).any fun x => x.2.type == .directory := by
        exact rel_elim (h.inodeOf f) rfl fun ⟨hn⟩ => by simp only [any_some, hn.type]
      rw [hdir]
      split
      · exact ⟨h⟩
      · exact ⟨h.fileUnlink f⟩

theorem handleTruncatePath (raw : Option Path) (size : U64) :
    Option.Rel (SameResult i) (Tmpfs.handleTruncatePath env t raw task size)
      (Tmpfs.handleTruncatePath env t' raw task size) := by
  unfold Tmpfs.handleTruncatePath
  cases readPath raw with
  | none => exact .some ⟨h⟩
  | some path =>
    dsimp only [bind_some]
    refine rel_elim (h.inodeFind path) (.some ⟨h⟩) fun ⟨hn⟩ => ?_
    dsimp only
    rw [hn.type, hn.taskCanAccess]
    split
    · exact .some ⟨h⟩
    split
    · exact .some ⟨h⟩
    exact rel_elim (h.setSize hn size) .none fun ⟨hm, hs⟩ => .some ⟨hs.setInode _ (.some hm)⟩

theorem handleClose (sender handle : U64) :
    SameResult i (t.handleClose sender handle) (t'.handleClose sender handle) := by
  unfold Tmpfs.handleClose Tmpfs.openFromMessage
  rw [h.openFrom]
  split
  · exact ⟨h⟩
  · exact ⟨h.closeHandle handle sender⟩

end

end SameBut

def Leads (t : Tmpfs) (handle : U64) (i : InodeId) : Prop :=
  ∃ o f file, t.openFrom handle = some o ∧ o.kind = .file f ∧ t.file f = some file ∧ file.inode = i

instance (t : Tmpfs) (handle : U64) (i : InodeId) : Decidable (t.Leads handle i) :=
  decidable_of_iff ((t.openFrom handle).any fun o => match o.kind with
      | .dir _ => false
      | .file f => (t.file f).any fun file => file.inode == i) <| by
    constructor
    · intro h
      obtain ⟨o, ho, h⟩ := (Option.any_eq_true _ _).mp h
      cases hkind : o.kind with
      | dir path => simp [hkind] at h
      | file f =>
        rw [hkind] at h
        obtain ⟨file, hfile, h⟩ := (Option.any_eq_true _ _).mp h
        exact ⟨o, f, file, ho, hkind, hfile, beq_iff_eq.mp h⟩
    · rintro ⟨o, f, file, ho, hkind, hfile, hinode⟩
      simp [ho, hkind, hfile, hinode]

namespace SameBut

theorem onHandle (h : SameBut i t t') (sender handle : U64)
    {g g' : InodeId → TmpfsInode → Option (VfsReply × Tmpfs)}
    (hg : ∀ j n n', (j = i → t.Leads handle i) → Alike i j n n' →
      Option.Rel (SameResult i) (g j n) (g' j n')) :
    Option.Rel (SameResult i) (t.onHandle sender handle g) (t'.onHandle sender handle g') := by
  unfold Tmpfs.onHandle Tmpfs.openFromMessage
  rw [h.openFrom]
  split
  · rename_i owner f hopen
    obtain ⟨hopen, -⟩ := filter_eq_some_iff.mp hopen
    have hlook := h.inodeOf f
    cases hfile : t.file f with
    | none =>
      have he : t.inodeOf f = none := by simp [Tmpfs.inodeOf, hfile]
      have he' : t'.inodeOf f = none := by simp [Tmpfs.inodeOf, h.file, hfile]
      rw [he, he']
      exact .none
    | some file =>
      have hj : ∀ {x}, t.inodeOf f = some x → x.1 = file.inode := by
        intro x he
        simp only [Tmpfs.inodeOf, hfile, bind_some, map_eq_some_iff] at he
        obtain ⟨m, -, rfl⟩ := he
        rfl
      revert hj
      refine rel_elim hlook (fun _ => .none) ?_
      rintro _ _ ⟨hn⟩ hj
      exact hg _ _ _ (fun hji => ⟨_, f, file, hopen, rfl, hfile, (hj rfl).symm.trans hji⟩) hn
  · exact .some ⟨h⟩

theorem handleStatHandle (h : SameBut i t t') (sender handle : U64) :
    Option.Rel (SameResult i) (t.handleStatHandle sender handle) (t'.handleStatHandle sender handle) := by
  unfold Tmpfs.handleStatHandle
  have hopen : t'.openFromMessage handle sender = t.openFromMessage handle sender := by
    unfold Tmpfs.openFromMessage
    rw [h.openFrom]
  rw [hopen]
  split
  · exact .some ⟨h⟩
  · refine h.onHandle sender handle fun j n n' _ hn => ?_
    rw [hn.statFile]
    exact .some ⟨h⟩

theorem contentsAt (hn : Alike i j n n') (hother : j ≠ i) (offset len : U64) :
    Tmpfs.contentsAt n' offset len = Tmpfs.contentsAt n offset len := by
  unfold Tmpfs.contentsAt
  rw [hn.size, hn.data (.inl hother)]

theorem handleRead (h : SameBut i t t') (sender handle offset len : U64) (hread : ¬ t.Leads handle i) :
    Option.Rel (SameResult i) (Tmpfs.handleRead env t sender handle offset len)
      (Tmpfs.handleRead env t' sender handle offset len) := by
  unfold Tmpfs.handleRead
  split
  · exact .some ⟨h⟩
  refine h.onHandle sender handle fun j n n' hleads hn => ?_
  rw [contentsAt hn fun hji => hread (hleads hji), hn.size]
  split
  · exact .some ⟨h⟩
  split
  · exact .some ⟨h⟩
  · exact .some ⟨h⟩

theorem handleMmapPage (h : SameBut i t t') (sender handle offset len : U64)
    (hread : ¬ t.Leads handle i) :
    Option.Rel (SameResult i) (Tmpfs.handleMmapPage env t sender handle offset len)
      (Tmpfs.handleMmapPage env t' sender handle offset len) := by
  unfold Tmpfs.handleMmapPage
  split
  · exact .some ⟨h⟩
  refine h.onHandle sender handle fun j n n' hleads hn => ?_
  rw [contentsAt hn fun hji => hread (hleads hji), hn.size]
  split
  · exact .some ⟨h⟩
  split
  · exact .some ⟨h⟩
  · exact .some ⟨h⟩

theorem handleWrite (h : SameBut i t t') (sender handle offset len : U64)
    (payload : Option (List UInt8)) :
    Option.Rel (SameResult i) (Tmpfs.handleWrite env t sender handle offset len task payload)
      (Tmpfs.handleWrite env t' sender handle offset len task payload) := by
  refine h.onHandle sender handle fun j n n' _ hn => ?_
  rw [hn.taskCanAccess]
  split
  · exact .some ⟨h⟩
  refine rel_elim (h.resize hn (offset + len)) .none fun {x x'} hx => ?_
  obtain @⟨ok, ⟨m, s⟩, ⟨m', s'⟩, hm, hs⟩ := hx
  cases ok with
  | false => exact .some ⟨hs⟩
  | true =>
    cases payload with
    | none => exact .some ⟨hs.setInode j (.some hm)⟩
    | some bytes =>
      dsimp only at hm ⊢
      rw [hm.length]
      split
      · exact .none
      refine .some ⟨hs.setInode j (.some ?_)⟩
      rw [hm.size]
      exact hm.setData _ (fun data => overwrite data offset.toNat bytes)
        (by simp only [overwrite_length, hm.length])

theorem handleTruncate (h : SameBut i t t') (sender handle size : U64) :
    Option.Rel (SameResult i) (Tmpfs.handleTruncate env t sender handle task size)
      (Tmpfs.handleTruncate env t' sender handle task size) := by
  refine h.onHandle sender handle fun j n n' _ hn => ?_
  rw [hn.taskCanAccess]
  split
  · exact .some ⟨h⟩
  exact rel_elim (h.setSize hn size) .none fun ⟨hm, hs⟩ => .some ⟨hs.setInode j (.some hm)⟩

end SameBut

/-- The requests that opening, reading and writing files lead to. -/
def accessesFile : TmpfsRequest → Bool
  | .openPath _ | .create .. | .stat _ | .readlink .. | .unlink .. | .statHandle _ | .read ..
  | .mmapPage .. | .write .. | .truncatePath .. | .truncate .. | .close _ => true
  | _ => false

/-- The handle that a request takes contents from. -/
def readsFrom : TmpfsRequest → Option U64
  | .read handle _ _ | .mmapPage handle _ _ => some handle
  | _ => none

/-- **Only the two requests for contents tell servers apart that hold different contents of a file.** -/
theorem step_sameBut (h : SameBut i t t') (env : TmpfsEnv) (sender : U64)
    (haccess : accessesFile request = true)
    (hread : ∀ handle, readsFrom request = some handle → ¬ t.Leads handle i) :
    Option.Rel (SameResult i) (t.step env sender request) (t'.step env sender request) := by
  unfold step
  rw [h.senderIsVfsCaller]
  split
  · exact .some ⟨h⟩
  cases request with
  | openPath path => exact .some (h.handleOpen sender path)
  | create path task mode => exact .some (h.handleCreate path mode)
  | stat path => exact .some (h.handleStat path)
  | readlink path outCap => exact .some (h.handleReadlink path outCap)
  | unlink path task => exact .some (h.handleUnlink path)
  | statHandle handle => exact h.handleStatHandle sender handle
  | read handle offset len => exact h.handleRead sender handle offset len (hread handle rfl)
  | mmapPage handle offset len => exact h.handleMmapPage sender handle offset len (hread handle rfl)
  | write handle offset len task payload => exact h.handleWrite sender handle offset len payload
  | truncatePath path task size => exact h.handleTruncatePath path size
  | truncate handle task size => exact h.handleTruncate sender handle size
  | close handle => exact .some (h.handleClose sender handle)
  | _ => cases haccess

theorem step_readsFrom
    (hread : readsFrom request = some handle) (h : t.step env sender request = some (reply, t')) :
    t' = t := by
  unfold step at h
  split at h
  · cases h
    rfl
  cases request with
  | read handle offset len => exact handleRead_eq h
  | mmapPage handle offset len => exact handleMmapPage_eq h
  | _ => cases hread

end Bunix.User.Tmpfs
