import Bunix.User.Vfs
import Bunix.Lib.Transition

/-! # tmpfs: files, names and handles

The file server for files in memory (`user/tmpfs/main.c`). A name is a `tmpfs_file`: it is found
by its path in a search tree, it stands in a list of all files, and it refers to an inode, which
hard links share. Files and inodes are in a heap; what has been freed is not there any more. A freed
file has no `magic`, so the checks of the source fail for it.

The search tree is a map from paths, into which a path that is there cannot be inserted again.
`allocs` tells for every future allocation whether it succeeds.
-/
namespace Bunix.User

open Bunix.Lib Function

abbrev FileId := Nat
abbrev InodeId := Nat

structure TmpfsInode where
  /-- The memory for the contents; its length is the capacity. -/
  data : List UInt8 := []
  size : U64 := 0
  refs : Nat := 1
  ino : U64
  type : VfsType
  mode : U32
  uid : U32
  gid : U32
  atime : U64 := 0
  mtime : U64 := 0
  ctime : U64 := 0
deriving DecidableEq, Repr

structure TmpfsFile where
  path : Path
  refs : Nat := 0
  deleted : Bool := false
  inode : InodeId
deriving DecidableEq, Repr

inductive OpenKind where
  | dir (path : Path)
  | file (f : FileId)
deriving DecidableEq, Repr

structure TmpfsOpen where
  owner : U64
  kind : OpenKind
deriving DecidableEq, Repr

structure Tmpfs where
  roots : List Path
  /-- `files_by_path`. -/
  index : Path → Option FileId
  /-- The list at `files_head`. -/
  list : List FileId
  file : FileId → Option TmpfsFile
  inode : InodeId → Option TmpfsInode
  nextFile : FileId
  nextInode : InodeId
  opens : List (U64 × TmpfsOpen)
  nextOpenId : U64
  nextInodeId : U64
  vfsCallers : List U64
  /-- `vfs_caller_grantor`. -/
  grantor : U64
  allocs : Nat → Bool

/-- What the server learns from others in the course of a request. -/
structure TmpfsEnv where
  /-- `BUNIX_USER_CAN_ACCESS` of the user server. -/
  canAccess : (task : U64) → (uid gid mode : U32) → (mask : U64) → Bool
  geteuid : U64 → Option U64
  getegid : U64 → Option U64
  now : U64
  /-- The request carries a buffer with the right that is needed. -/
  buffer : Bool
  /-- `bunix_buffer_write` succeeds. -/
  bufferWrite : Bool
  /-- VFS mounts the path. -/
  mounted : Bool

namespace Tmpfs

variable (env : TmpfsEnv) (s : Tmpfs) (inode : TmpfsInode) (f : FileId) (path : Path)

def treeWalkLimit : Nat := 8192

def rootInode : TmpfsInode where
  ino := 1
  type := .directory
  mode := 0o777
  uid := 0
  gid := 0

def alloc : Bool × Tmpfs := (s.allocs 0, { s with allocs := fun n => s.allocs (n + 1) })

def setFile (file : Option TmpfsFile) : Tmpfs :=
  { s with file := update s.file f file }

def setInode (i : InodeId) (inode : Option TmpfsInode) : Tmpfs :=
  { s with inode := update s.inode i inode }

def newFile (file : TmpfsFile) : Tmpfs :=
  { s.setFile s.nextFile (some file) with nextFile := s.nextFile + 1 }

def newInode : Tmpfs :=
  { s.setInode s.nextInode (some inode) with nextInode := s.nextInode + 1 }

/-- The inode of a file, if both are valid. -/
def inodeOf : Option (InodeId × TmpfsInode) :=
  (s.file f).bind fun file => (s.inode file.inode).map fun inode => (file.inode, inode)

def fileIsValid : Bool := (s.inodeOf f).isSome

/-! ## Names -/

def pathIsRoot : Bool := path == ['/'] || s.roots.contains path

def fileFind : Option FileId :=
  match s.index path with
  | none => none
  | some f =>
    match s.file f with
    | none => none
    | some file => if s.fileIsValid f ∧ file.deleted = false ∧ file.path = path then some f else none

/-- `file_find`, and the inode of the file. -/
def inodeFind : Option (InodeId × TmpfsInode) :=
  (s.fileFind path).bind s.inodeOf

def pathParentExists : Bool :=
  match pathParentPath path with
  | none => false
  | some parent => s.pathIsRoot parent ||
      (s.inodeFind parent).any fun (_, inode) => inode.type == .directory

/-- `parent_file_for_path`, as the inode of the parent. -/
def parentFileForPath : Option TmpfsInode :=
  match pathParentPath path with
  | none => none
  | some parent => if s.pathIsRoot parent then some rootInode else (s.inodeFind parent).map (·.2)

/-- A file of a directory, and not of a directory below it. -/
def fileIsChildOf (dir : Path) : Bool :=
  s.fileIsValid f && match s.file f with
    | none => false
    | some file => !file.deleted && pathHasPrefixChild file.path dir &&
        !(file.path.drop (dir.length + 1)).contains '/'

/-- A list that reaches the limit is never taken for one without a child. -/
def directoryIsEmpty : Bool :=
  s.list.length < treeWalkLimit && s.list.all fun f => s.fileIsValid f && !s.fileIsChildOf f path

inductive InsertResult where
  | ok
  | failed
  | exists_
deriving DecidableEq, Repr

def filesInsertFile : InsertResult × Tmpfs :=
  match s.file f with
  | none => (.failed, s)
  | some file =>
    if s.fileIsValid f = false then (.failed, s)
    else if (s.fileFind file.path).isSome then (.exists_, s)
    else if (s.index file.path).isSome then (.failed, s)
    else if f ∈ s.list then (.failed, s)
    else (.ok, { s with index := update s.index file.path (some f), list := f :: s.list })

def filesRemoveFile : Tmpfs :=
  match s.file f with
  | none => s
  | some file =>
    { s with
      index := if s.index file.path = some f then update s.index file.path none else s.index
      list := s.list.erase f }

/-! ## References -/

def inodeRelease (i : InodeId) : Tmpfs :=
  match s.inode i with
  | none => s
  | some inode =>
    if inode.refs - 1 = 0 then s.setInode i none
    else s.setInode i (some { inode with refs := inode.refs - 1 })

def fileRelease : Tmpfs :=
  match s.file f with
  | none => s
  | some file =>
    if file.refs - 1 = 0 ∧ file.deleted then (s.inodeRelease file.inode).setFile f none
    else s.setFile f (some { file with refs := file.refs - 1 })

def fileUnlink : Tmpfs :=
  match s.file f with
  | none => s
  | some file => ((s.setFile f (some { file with deleted := true })).filesRemoveFile f).fileRelease f

/-! ## Creating and moving -/

/-- `task_can_access`; `file` is the inode of the file. -/
def taskCanAccess (task : U64) (file : Option TmpfsInode) (mask : U64) : Bool :=
  match file with
  | none => false
  | some inode =>
    task == 0 || mask == 0 || env.canAccess task inode.uid inode.gid inode.mode mask

/-- The effective user and group of a task, 0 if the user server does not know it. -/
def taskOwner (task : U64) : U64 × U64 :=
  if task = 0 then (0, 0)
  else match env.geteuid task, env.getegid task with
    | some uid, some gid => (uid, gid)
    | _, _ => (0, 0)

/-- `next_inode_id++`, which skips 0. -/
def takeInodeId : U64 × Tmpfs :=
  let ino := if s.nextInodeId = 0 then 1 else s.nextInodeId
  (ino, { s with nextInodeId := ino + 1 })

/-- `str_dup`, and the allocation of `file_alloc_with_path`. -/
def strDup : Bool × Tmpfs :=
  if maxPath ≤ path.length then (false, s) else s.alloc

/-- The status, and the new file. `type` is `none` for a number that is no type. -/
def fileCreate (mode : U64) (type : Option VfsType) (task : U64) : U64 × Option FileId × Tmpfs :=
  if s.pathParentExists path = false then (VfsErr.noent, none, s)
  else if (s.fileFind path).isSome then (VfsErr.exist, none, s)
  else match type with
  | none | some .character => (VfsErr.inval, none, s)
  | some type =>
    match s.strDup path with
    | (false, s) => (VfsErr.inval, none, s)
    | (true, s) =>
      match s.alloc with
      | (false, s) => (VfsErr.inval, none, s)
      | (true, s) =>
        let (ino, s) := s.takeInodeId
        let (uid, gid) := taskOwner env task
        let f := s.nextFile
        let i := s.nextInode
        let s := s.newInode
          { ino, type, mode := mode.setWidth 32 &&& 0o777, uid := uid.setWidth 32,
            gid := gid.setWidth 32 }
        let s := s.newFile { path, inode := i }
        match s.filesInsertFile f with
        | (.ok, s) => (0, some f, s)
        | (.exists_, s) => (VfsErr.exist, none, (s.inodeRelease i).setFile f none)
        | (.failed, s) => (VfsErr.inval, none, (s.inodeRelease i).setFile f none)

/-- `mkdir_p_path`; every level is shorter, so that the length of the path is enough `fuel`. -/
def mkdirPPath (env : TmpfsEnv) (mode task : U64) : Nat → Tmpfs → Path → Bool × Tmpfs
  | 0, s, _ => (false, s)
  | fuel + 1, s, path =>
    if path.head? ≠ some '/' then (false, s)
    else if s.pathIsRoot path then (true, s)
    else match s.inodeFind path with
    | some (_, inode) => (inode.type == .directory, s)
    | none =>
      match pathParentPath path with
      | none => (false, s)
      | some parent =>
        match mkdirPPath env mode task fuel s parent with
        | (false, s) => (false, s)
        | (true, s) =>
          match fileCreate env s path mode (some .directory) task with
          | (status, file, s) => (file.isSome || status == VfsErr.exist, s)

/-- Give a file another path; the search tree and the list do not change. -/
def setPath : Tmpfs :=
  match s.file f with
  | none => s
  | some file => s.setFile f (some { file with path })

/-- A file that could not be inserted again. -/
def setDeleted : Tmpfs :=
  match s.file f with
  | none => s
  | some file => s.setFile f (some { file with deleted := true })

def fileMoveToPath (newPath : Path) : Bool × Tmpfs :=
  match s.file f with
  | none => (false, s)
  | some file =>
    if (s.fileFind newPath).isSome then (false, s)
    else match s.strDup newPath with
    | (false, s) => (false, s)
    | (true, s) =>
      match ((s.filesRemoveFile f).setPath f newPath).filesInsertFile f with
      | (.ok, s) => (true, s)
      | (_, s) =>
        match (s.setPath f file.path).filesInsertFile f with
        | (.ok, s) => (false, s)
        | (_, s) => (false, s.setDeleted f)

def fileInRenamedSubtree (oldPath : Path) : Bool :=
  s.fileIsValid f && match s.file f with
    | none => false
    | some file => !file.deleted && pathIsAtOrUnder file.path oldPath

/-- The path of a file below `oldPath` after the move; `none` if it gets too long. -/
def renamedSubtreePath (oldPath newPath path : Path) : Option Path :=
  let suffix := path.drop oldPath.length
  if newPath.length ≥ maxPath ∨ oldPath.length ≥ maxPath ∨
      ¬(suffix = [] ∨ suffix.head? = some '/') then none
  else if suffix ≠ [] ∧ newPath.length + suffix.length ≥ maxPath then none
  else some (newPath ++ suffix)

/-- The loop over `moved` that computes and copies the new paths. -/
def subtreePaths (oldPath newPath : Path) (moved : List FileId) :
    List FileId → Tmpfs → Option (List Path) × Tmpfs
  | [], s => (some [], s)
  | f :: fs, s =>
    match (s.file f).bind fun file => renamedSubtreePath oldPath newPath file.path with
    | none => (none, s)
    | some path =>
      if (s.fileFind path).any (fun existing => !moved.contains existing) then (none, s)
      else match s.strDup path with
      | (false, s) => (none, s)
      | (true, s) =>
        match subtreePaths oldPath newPath moved fs s with
        | (some paths, s) => (some (path :: paths), s)
        | (none, s) => (none, s)

/-- The loop that inserts the files again; the rest is left out after a failure. -/
def insertMoved : List (FileId × Path) → Tmpfs → Bool × Tmpfs
  | [], s => (true, s)
  | (f, path) :: rest, s =>
    match (s.setPath f path).filesInsertFile f with
    | (.ok, s) => insertMoved rest s
    | (_, s) => (false, s.setDeleted f)

def fileMoveSubtreeToPath (newPath : Path) : Bool × Tmpfs :=
  match s.file f, s.inodeOf f with
  | some file, some (_, inode) =>
    if file.deleted ∨ inode.type ≠ .directory ∨ s.pathParentExists newPath = false ∨
        pathHasPrefixChild newPath file.path ∨ maxPath ≤ newPath.length then (false, s)
    else if treeWalkLimit ≤ s.list.length ∨ s.list.any (fun g => !s.fileIsValid g) then (false, s)
    else
      let moved := s.list.filter fun g => s.fileInRenamedSubtree g file.path
      if moved = [] then (false, s)
      else
        -- `moved` and `new_paths` are both allocated before either is looked at
        let (ok, s) := s.alloc
        let (ok', s) := s.alloc
        if (ok && ok') = false then (false, s)
        else match subtreePaths file.path newPath moved moved s with
          | (none, s) => (false, s)
          | (some paths, s) => insertMoved (moved.zip paths) (moved.foldl filesRemoveFile s)
  | _, _ => (false, s)

def fileLinkToPath (newPath : Path) : Bool × Tmpfs :=
  match s.file f, s.inodeOf f with
  | some file, some (i, inode) =>
    if file.deleted ∨ (s.fileFind newPath).isSome ∨ s.pathParentExists newPath = false ∨
        inode.type = .directory then (false, s)
    else
      match s.strDup newPath with
      | (false, s) => (false, s)
      | (true, s) =>
        let link := s.nextFile
        let s := s.setInode i (some { inode with refs := inode.refs + 1 })
        let s := s.newFile { path := newPath, inode := i }
        match s.filesInsertFile link with
        | (.ok, s) => (true, s)
        | (_, s) => (false, (s.inodeRelease i).setFile link none)
  | _, _ => (false, s)

/-! ## Handles -/

def openFrom (handle : U64) : Option TmpfsOpen := s.opens.lookup handle

/-- The loop that looks for a free identifier, from `nextOpenId` on; one more round than there are
handles is enough. -/
def freeOpenId (s : Tmpfs) (start : U64) : Nat → U64 → Option U64 × U64
  | 0, next => (none, next)
  | fuel + 1, next =>
    let id := next
    let next := if next + 1 = 0 then 1 else next + 1
    if (s.openFrom id).isSome then
      if next = start then (none, next) else freeOpenId s start fuel next
    else if id = 0 then (none, next)
    else (some id, next)

/-- The common end of `open_dir` and `open_file`. -/
def openHandle (open_ : TmpfsOpen) : Option U64 × Tmpfs :=
  match s.freeOpenId s.nextOpenId (s.opens.length + 1) s.nextOpenId with
  | (some id, next) => (some id, { s with nextOpenId := next, opens := (id, open_) :: s.opens })
  | (none, next) => (none, { s with nextOpenId := next })

/-- The handle, 0 if there is none. -/
def openDir (owner : U64) : U64 × Tmpfs :=
  match s.alloc with
  | (false, s) => (0, s)
  | (true, s) =>
    match s.openHandle { owner, kind := .dir path } with
    | (some id, s) => (id, s)
    | (none, s) => (0, s)

def openFile (owner : U64) : U64 × Tmpfs :=
  match s.file f with
  | none => (0, s)
  | some file =>
    if file.deleted then (0, s)
    else match s.alloc with
    | (false, s) => (0, s)
    | (true, s) =>
      let s := s.setFile f (some { file with refs := file.refs + 1 })
      match s.openHandle { owner, kind := .file f } with
      | (some id, s) => (id, s)
      | (none, s) => (0, s.fileRelease f)

def openFromMessage (handle sender : U64) : Option TmpfsOpen :=
  (s.openFrom handle).filter fun o => o.owner == sender

def closeHandle (handle owner : U64) : Tmpfs :=
  match s.openFrom handle with
  | none => s
  | some o =>
    if o.owner ≠ owner then s
    else
      let s := match o.kind with
        | .file f => s.fileRelease f
        | .dir _ => s
      { s with opens := s.opens.filter fun e => e.1 != handle }

/-! ## Contents -/

def capacity : U64 := BitVec.ofNat 64 inode.data.length

/-- The doubling loop of `file_resize`. A capacity that has become 0 is never enough, so that 65
rounds tell whether it ends. -/
def growCapacity (size : U64) : Nat → U64 → Option U64
  | 0, _ => none
  | fuel + 1, capacity => if capacity < size then growCapacity size fuel (capacity * 2) else some capacity

/-- `file_resize` on an inode: `none` if the loop does not end, else the inode, unchanged if there
is no memory. -/
def resize (size : U64) : Option (Bool × TmpfsInode × Tmpfs) :=
  if size ≤ capacity inode then some (true, inode, s)
  else match growCapacity size 65 (if capacity inode = 0 then 64 else capacity inode) with
    | none => none
    | some grown =>
      match s.alloc with
      | (false, s) => some (false, inode, s)
      | (true, s) =>
        some (true, { inode with
          data := inode.data ++ List.replicate (grown.toNat - inode.data.length) 0 }, s)

/-- Bytes in memory from `off` on are replaced. -/
def overwrite (data : List UInt8) (off : Nat) (bytes : List UInt8) : List UInt8 :=
  data.take off ++ bytes ++ data.drop (off + bytes.length)

def setSize (size : U64) : Option (Bool × TmpfsInode × Tmpfs) :=
  match s.resize inode size with
  | none => none
  | some (false, inode', s) => some (false, inode', s)
  | some (true, inode', s) =>
    let zeros := List.replicate (size.toNat - inode.size.toNat) 0
    some (true, { inode' with
      data := if inode.size < size then overwrite inode'.data inode.size.toNat zeros else inode'.data
      size }, s)

end Tmpfs

end Bunix.User
