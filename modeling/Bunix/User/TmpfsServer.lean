import Bunix.User.Tmpfs

/-! # tmpfs: the requests

One step of the loop of `main`: a request with its arguments taken out of the words of the message
and its buffer, and the reply. A string that cannot be read is `none`. There is no next state if
the request makes the server follow a pointer to a freed file, write outside of the contents of a
file, or loop for ever.
-/
namespace Bunix.User

open Bunix.Lib

inductive TmpfsRequest where
  | openPath (path : Option Path)
  | create (path : Option Path) (task mode : U64)
  | mkdir (path : Option Path) (task mode : U64)
  | mknod (path : Option Path) (task type mode : U64)
  | symlink (target path : Option Path) (task : U64)
  | stat (path : Option Path)
  | access (path : Option Path) (task mask : U64)
  | readlink (path : Option Path) (outCap : U64)
  | utimens (path : Option Path) (task flags : U64) (times : Option (U64 × U64))
  | statHandle (handle : U64)
  | read (handle offset len : U64)
  | mmapPage (handle offset len : U64)
  /-- `payload` is what the buffer holds, of the given length. -/
  | write (handle offset len task : U64) (payload : Option (List UInt8))
  | truncatePath (path : Option Path) (task size : U64)
  | truncate (handle task size : U64)
  | chmodPath (path : Option Path) (task mode : U64)
  | chmod (handle task mode : U64)
  | chownPath (path : Option Path) (task uid gid : U64)
  | chown (handle task uid gid : U64)
  | unlink (path : Option Path) (task : U64)
  | rmdir (path : Option Path) (task : U64)
  | rename (oldPath newPath : Option Path) (task flags : U64)
  | link (oldPath newPath : Option Path) (task : U64)
  | readdir (handle index max : U64)
  | close (handle : U64)
  | mountRoot (path : Option Path)
  | mkdirP (path : Option Path) (mode task : U64)
  | setMeta (path : Option Path) (stat : Option VfsStat)
  | grantSubject (task : U64)
deriving DecidableEq, Repr

namespace Tmpfs

variable (env : TmpfsEnv) (s : Tmpfs) (sender handle : U64) (raw : Option Path)

/-- `read_resolved_path`, and what `read_rename_buffer` and `read_symlink_buffer` check of a path. -/
def readPath : Option Path :=
  raw.filter fun path => path.head? == some '/' && path.length < maxPath

def statOf (inode : TmpfsInode) : VfsStat where
  size := inode.size
  mode := inode.mode
  type := inode.type
  uid := inode.uid
  gid := inode.gid
  ino := inode.ino
  nlink := BitVec.ofNat 64 inode.refs
  atime := inode.atime
  mtime := inode.mtime
  ctime := inode.ctime

def statFile (inode : TmpfsInode) : VfsReply := .ofStat (statOf inode)

def statDir : VfsReply := .ofStat (statOf rootInode)

/-! ## Requests that name a path -/

def handleOpen : VfsReply × Tmpfs :=
  match readPath raw with
  | none => (.error VfsErr.noent, s)
  | some path =>
    let reply (handle size type : U64) : VfsReply :=
      { status := if handle = 0 then VfsErr.fail else 0, word1 := handle, word2 := size, word3 := type }
    if s.pathIsRoot path then
      let (handle, s) := s.openDir path sender
      (reply handle 0 VfsType.directory.code, s)
    else match s.fileFind path with
    | none => (.error VfsErr.noent, s)
    | some f =>
      match s.inodeOf f with
      | none => (.error VfsErr.noent, s)
      | some (_, inode) =>
        let (handle, s) :=
          if inode.type = .directory then s.openDir path sender else s.openFile f sender
        (reply handle inode.size inode.type.code, s)

def withStatus (result : U64 × Option FileId × Tmpfs) : VfsReply × Tmpfs :=
  (.error result.1, result.2.2)

def handleCreate (task mode : U64) : VfsReply × Tmpfs :=
  match readPath raw with
  | none => (.error VfsErr.noent, s)
  | some path =>
    if taskCanAccess env task (s.parentFileForPath path) 3 = false then (.error VfsErr.access, s)
    else match s.inodeFind path with
    | none => withStatus (fileCreate env s path mode (some .regular) task)
    | some (_, inode) => (.error (if inode.type = .directory then VfsErr.isdir else 0), s)

def handleMkdir (task mode : U64) : VfsReply × Tmpfs :=
  match readPath raw with
  | none => (.error VfsErr.noent, s)
  | some path =>
    if s.pathIsRoot path ∨ (s.fileFind path).isSome then (.error VfsErr.exist, s)
    else if taskCanAccess env task (s.parentFileForPath path) 3 = false then (.error VfsErr.access, s)
    else withStatus (fileCreate env s path mode (some .directory) task)

def handleMknod (task type mode : U64) : VfsReply × Tmpfs :=
  match readPath raw with
  | none => (.error VfsErr.noent, s)
  | some path =>
    if taskCanAccess env task (s.parentFileForPath path) 3 = false then (.error VfsErr.access, s)
    else if (s.fileFind path).isSome then (.error VfsErr.exist, s)
    else withStatus (fileCreate env s path mode (VfsType.ofCode type) task)

def handleSymlink (rawTarget raw : Option Path) (task : U64) : Option (VfsReply × Tmpfs) :=
  match rawTarget.filter (fun target => target ≠ [] ∧ target.length < maxPath), readPath raw with
  | some target, some path =>
    if taskCanAccess env task (s.parentFileForPath path) 3 = false then
      some (.error VfsErr.access, s)
    else match fileCreate env s path 0o777 (some .symlink) task with
    | (status, none, s) => some (.error (if status = 0 then VfsErr.inval else status), s)
    | (_, some f, s) =>
      match s.inodeOf f with
      | none => none
      | some (i, inode) =>
        -- the target is stored with its zero
        let bytes := pathBytes target ++ [0]
        match s.resize inode (BitVec.ofNat 64 bytes.length) with
        | none => none
        | some (false, _, s) => some (.error VfsErr.inval, s.fileUnlink f)
        | some (true, inode, s) =>
          some (.error 0, s.setInode i (some { inode with
            data := overwrite inode.data 0 bytes
            size := BitVec.ofNat 64 target.length }))
  | _, _ => some (.error VfsErr.noent, s)

/-- The start that `stat`, `access`, `readlink` and `utimens` by path share: all of them answer for
a root like `stat`. -/
def onInode (f : InodeId → TmpfsInode → VfsReply × Tmpfs) : VfsReply × Tmpfs :=
  match readPath raw with
  | none => (.error VfsErr.noent, s)
  | some path =>
    if s.pathIsRoot path then (statDir, s)
    else match s.inodeFind path with
    | none => (.error VfsErr.noent, s)
    | some (i, inode) => f i inode

def handleStat : VfsReply × Tmpfs :=
  s.onInode raw fun _ inode => (statFile inode, s)

def handleAccess (task mask : U64) : VfsReply × Tmpfs :=
  s.onInode raw fun _ inode =>
    (.error (if taskCanAccess env task (some inode) mask then 0 else VfsErr.access), s)

def handleReadlink (outCap : U64) : VfsReply × Tmpfs :=
  s.onInode raw fun _ inode =>
    if inode.type ≠ .symlink ∨ inode.data = [] then (.error VfsErr.inval, s)
    else if outCap = 0 ∨ env.buffer = false then
      ({ status := VfsErr.fail, word1 := inode.size }, s)
    else
      let written := minU64 inode.size outCap
      if written ≠ 0 ∧ env.bufferWrite = false then
        ({ status := VfsErr.fail, word1 := inode.size }, s)
      else ({ word1 := inode.size, word2 := inode.size, word3 := written,
              data := inode.data.take written.toNat }, s)

def handleUtimens (task flags : U64) (times : Option (U64 × U64)) : VfsReply × Tmpfs :=
  s.onInode raw fun i inode =>
    match times with
    | none => (.error VfsErr.access, s)
    | some (atime, mtime) =>
      if taskCanAccess env task (some inode) 2 = false then (.error VfsErr.access, s)
      else (.error 0, s.setInode i (some { inode with
        atime := if flags &&& 1 = 0 then (if flags &&& 4 ≠ 0 then env.now else atime) else inode.atime
        mtime := if flags &&& 2 = 0 then (if flags &&& 8 ≠ 0 then env.now else mtime) else inode.mtime
        ctime := env.now }))

def handleTruncatePath (task size : U64) : Option (VfsReply × Tmpfs) :=
  match (readPath raw).bind s.inodeFind with
  | none => some (.error VfsErr.noent, s)
  | some (i, inode) =>
    if inode.type ≠ .regular then some (.error VfsErr.noent, s)
    else if taskCanAccess env task (some inode) 2 = false then some (.error VfsErr.access, s)
    else (s.setSize inode size).map fun (ok, inode, s) =>
      (.error (if ok then 0 else VfsErr.fail), s.setInode i (some inode))

def taskCanChmod (task : U64) (inode : TmpfsInode) : Bool :=
  task == 0 || (env.geteuid task).any fun euid => euid == 0 || euid == inode.uid.zeroExtend 64

def taskCanChown (task : U64) : Bool := task == 0 || env.geteuid task == some 0

def handleChmodPath (task mode : U64) : VfsReply × Tmpfs :=
  match readPath raw with
  | none => (.error VfsErr.noent, s)
  | some path =>
    match s.inodeFind path with
    | none => (.error VfsErr.access, s)
    | some (i, inode) =>
      if taskCanChmod env task inode = false then (.error VfsErr.access, s)
      else (.error 0, s.setInode i (some { inode with mode := mode.setWidth 32 &&& 0o777 }))

/-- The new owner and group; all ones leave one of them as it is. -/
def chownInode (inode : TmpfsInode) (uid gid keepUid keepGid : U64) : TmpfsInode :=
  { inode with
    uid := if uid = keepUid then inode.uid else uid.setWidth 32
    gid := if gid = keepGid then inode.gid else gid.setWidth 32 }

def handleChownPath (task uid gid : U64) : VfsReply × Tmpfs :=
  match (readPath raw).bind s.inodeFind with
  | none => (.error VfsErr.noent, s)
  | some (i, inode) =>
    if taskCanChown env task = false then (.error VfsErr.access, s)
    else (.error 0, s.setInode i (some (chownInode inode uid gid (-1) 0xffffffff)))

def handleUnlink (task : U64) : VfsReply × Tmpfs :=
  match readPath raw with
  | none => (.error VfsErr.noent, s)
  | some path =>
    match s.parentFileForPath path with
    | none => (.error VfsErr.noent, s)
    | some parent =>
      if taskCanAccess env task (some parent) 3 = false then (.error VfsErr.access, s)
      else match s.fileFind path with
      | none => (.error VfsErr.noent, s)
      | some f =>
        if (s.inodeOf f).any fun (_, inode) => inode.type == .directory then (.error VfsErr.isdir, s)
        else (.error 0, s.fileUnlink f)

def handleRmdir (task : U64) : VfsReply × Tmpfs :=
  match readPath raw with
  | none => (.error VfsErr.noent, s)
  | some path =>
    match s.parentFileForPath path with
    | none => (.error VfsErr.noent, s)
    | some parent =>
      if taskCanAccess env task (some parent) 3 = false then (.error VfsErr.access, s)
      else match s.fileFind path with
      | none => (.error VfsErr.noent, s)
      | some f =>
        if (s.inodeOf f).any fun (_, inode) => inode.type != .directory then (.error VfsErr.notdir, s)
        else if s.directoryIsEmpty path = false then (.error VfsErr.fail, s)
        else (.error 0, s.fileUnlink f)

/-- The last part of a rename, once the file that stood at the new path is gone. -/
def renameTo (f : FileId) (type : VfsType) (newPath : Path) : VfsReply × Tmpfs :=
  let (ok, s) :=
    if type = .directory then s.fileMoveSubtreeToPath f newPath else s.fileMoveToPath f newPath
  (.error (if ok then 0 else VfsErr.noent), s)

def handleRename (rawOld rawNew : Option Path) (task flags : U64) : VfsReply × Tmpfs :=
  match readPath rawOld, readPath rawNew with
  | some path, some newPath =>
    if s.pathIsRoot path ∨ s.pathIsRoot newPath then (.error VfsErr.noent, s)
    else match s.fileFind path, s.inodeFind path with
    | some f, some (_, inode) =>
      if path = newPath then (.error 0, s)
      else if taskCanAccess env task (s.parentFileForPath path) 3 = false ∨
          taskCanAccess env task (s.parentFileForPath newPath) 3 = false then (.error VfsErr.access, s)
      else if inode.type = .directory ∧ pathHasPrefixChild newPath path then (.error VfsErr.inval, s)
      else match s.fileFind newPath, s.inodeFind newPath with
      | some target, some (_, targetInode) =>
        if flags &&& 1 ≠ 0 then (.error VfsErr.exist, s)
        else if targetInode.type = .directory ∧ inode.type ≠ .directory then (.error VfsErr.isdir, s)
        else if targetInode.type ≠ .directory ∧ inode.type = .directory then (.error VfsErr.notdir, s)
        else if targetInode.type = .directory ∧ s.directoryIsEmpty newPath = false then
          (.error VfsErr.notempty, s)
        else (s.fileUnlink target).renameTo f inode.type newPath
      | _, _ => s.renameTo f inode.type newPath
    | _, _ => (.error VfsErr.noent, s)
  | _, _ => (.error VfsErr.noent, s)

def handleLink (rawOld rawNew : Option Path) (task : U64) : VfsReply × Tmpfs :=
  match readPath rawOld, readPath rawNew with
  | some path, some newPath =>
    if s.pathIsRoot path ∨ s.pathIsRoot newPath then (.error VfsErr.noent, s)
    else match s.fileFind path, s.inodeFind path with
    | some f, some (_, inode) =>
      if (s.fileFind newPath).isSome then (.error VfsErr.exist, s)
      else if inode.type = .directory then (.error VfsErr.access, s)
      else if taskCanAccess env task (s.parentFileForPath path) 1 = false ∨
          taskCanAccess env task (s.parentFileForPath newPath) 3 = false then (.error VfsErr.access, s)
      else
        let (ok, s) := s.fileLinkToPath f newPath
        (.error (if ok then 0 else VfsErr.fail), s)
    | _, _ => (.error VfsErr.noent, s)
  | _, _ => (.error VfsErr.noent, s)

/-! ## Requests that name a handle -/

/-- The inode behind a handle on a file, for which `f` answers; there is no answer if the file has
been freed. -/
def onHandle (f : InodeId → TmpfsInode → Option (VfsReply × Tmpfs)) : Option (VfsReply × Tmpfs) :=
  match s.openFromMessage handle sender with
  | some ⟨_, .file g⟩ =>
    match s.inodeOf g with
    | none => none
    | some (i, inode) => f i inode
  | _ => some (.error VfsErr.fail, s)

def handleStatHandle : Option (VfsReply × Tmpfs) :=
  match s.openFromMessage handle sender with
  | some ⟨_, .dir _⟩ => some (statDir, s)
  | _ => s.onHandle sender handle fun _ inode => some (statFile inode, s)

/-- The bytes of a file from `offset` on, `len` at most. -/
def contentsAt (inode : TmpfsInode) (offset len : U64) : List UInt8 :=
  (inode.data.drop offset.toNat).take (minU64 (inode.size - offset) len).toNat

def handleRead (offset len : U64) : Option (VfsReply × Tmpfs) :=
  if env.buffer = false then some (.error VfsErr.fail, s)
  else s.onHandle sender handle fun _ inode =>
    if inode.size ≤ offset then some ({}, s)
    else if env.bufferWrite = false then some (.error VfsErr.fail, s)
    else some ({ word1 := minU64 (inode.size - offset) len, data := contentsAt inode offset len }, s)

def mmapPageData : U64 := 1
def mmapPageBus : U64 := 3

def handleMmapPage (offset len : U64) : Option (VfsReply × Tmpfs) :=
  if env.buffer = false then some (.error VfsErr.fail, s)
  else s.onHandle sender handle fun _ inode =>
    if inode.size ≤ offset then some ({ word1 := mmapPageBus }, s)
    else if env.bufferWrite = false then some (.error VfsErr.fail, s)
    else some ({ word1 := mmapPageData, word2 := minU64 (inode.size - offset) len,
                 data := contentsAt inode offset len }, s)

def handleWrite (offset len task : U64) (payload : Option (List UInt8)) :
    Option (VfsReply × Tmpfs) :=
  s.onHandle sender handle fun i inode =>
    if taskCanAccess env task (some inode) 2 = false ∨ env.buffer = false then
      some (.error VfsErr.fail, s)
    else match s.resize inode (offset + len) with
    | none => none
    | some (false, _, s) => some (.error VfsErr.fail, s)
    | some (true, inode, s) =>
      match payload with
      | none => some (.error VfsErr.fail, s.setInode i (some inode))
      | some bytes =>
        if bytes.length ≠ len.toNat ∨ inode.data.length < offset.toNat + len.toNat then none
        else some ({ word1 := len }, s.setInode i (some { inode with
          data := overwrite inode.data offset.toNat bytes
          size := maxU64 (offset + len) inode.size }))

def handleTruncate (task size : U64) : Option (VfsReply × Tmpfs) :=
  s.onHandle sender handle fun i inode =>
    if taskCanAccess env task (some inode) 2 = false then some (.error VfsErr.access, s)
    else (s.setSize inode size).map fun (ok, inode, s) =>
      (.error (if ok then 0 else VfsErr.fail), s.setInode i (some inode))

/-- The start of `chmod` and `chown` by handle: a directory is looked up by the path it was opened
with. -/
def onAnyHandle (f : InodeId → TmpfsInode → VfsReply × Tmpfs) : Option (VfsReply × Tmpfs) :=
  match s.openFromMessage handle sender with
  | some ⟨_, .dir path⟩ =>
    match s.inodeFind path with
    | none => some (.error VfsErr.access, s)
    | some (i, inode) => some (f i inode)
  | _ => s.onHandle sender handle fun i inode => some (f i inode)

def handleChmod (task mode : U64) : Option (VfsReply × Tmpfs) :=
  s.onAnyHandle sender handle fun i inode =>
    if taskCanChmod env task inode = false then (.error VfsErr.access, s)
    else (.error 0, s.setInode i (some { inode with mode := mode.setWidth 32 &&& 0o777 }))

def handleChown (task uid gid : U64) : Option (VfsReply × Tmpfs) :=
  s.onAnyHandle sender handle fun i inode =>
    if taskCanChown env task = false then (.error VfsErr.access, s)
    else (.error 0, s.setInode i (some (chownInode inode uid gid (-1) (-1))))

/-- `READDIR`: the `index`-th child of the directory in the order of the list. -/
def handleReaddir (index max : U64) : VfsReply × Tmpfs :=
  match s.openFromMessage handle sender with
  | some ⟨_, .dir path⟩ =>
    if env.buffer = false then (.error VfsErr.fail, s)
    else
      let walked := s.list.take treeWalkLimit
      -- the walk stops at the first file that is not valid
      let valid := walked.takeWhile s.fileIsValid
      match (valid.filter fun f => s.fileIsChildOf f path)[index.toNat]? with
      | some f =>
        match s.file f, s.inodeOf f with
        | some file, some (_, inode) =>
          let name := file.path.drop (path.length + 1)
          let nameLen := BitVec.ofNat 64 name.length
          let written := minU64 nameLen max
          if written ≠ 0 ∧ env.bufferWrite = false then (.error VfsErr.fail, s)
          -- the last step of the walk counts as one too many
          else if treeWalkLimit ≤ s.list.idxOf f + 1 then (.error VfsErr.fail, s)
          else ({ word1 := (index + 1) ||| (inode.type.code <<< 32), word2 := nameLen,
                  word3 := written, data := (pathBytes name).take written.toNat }, s)
        | _, _ => (.error VfsErr.fail, s)
      | none =>
        if valid.length < walked.length ∨ treeWalkLimit < s.list.length then (.error VfsErr.fail, s)
        else (.error VfsErr.noent, s)
  | _ => (.error VfsErr.notdir, s)

def handleClose : VfsReply × Tmpfs :=
  match s.openFromMessage handle sender with
  | none => (.error VfsErr.fail, s)
  | some _ => (.error 0, s.closeHandle handle sender)

/-! ## Requests of other protocols -/

/-- `mount_root`. A root that is known stays, so there is never a stale one to recycle. -/
def mountRoot (path : Path) : Bool × Tmpfs :=
  if path.head? ≠ some '/' then (false, s)
  else if s.roots.contains path then (env.mounted, s)
  else match s.alloc with
  | (false, s) => (false, s)
  | (true, s) =>
    match s.strDup path with
    | (false, s) => (false, s)
    | (true, s) => if env.mounted then (true, { s with roots := path :: s.roots }) else (false, s)

def handleMountRoot : VfsReply × Tmpfs :=
  match raw.filter fun path => path.length < maxPath with
  | none => (.error VfsErr.fail, s)
  | some path =>
    let (ok, s) := s.mountRoot env path
    (.error (if ok then 0 else VfsErr.fail), s)

def handleMkdirP (mode task : U64) : VfsReply × Tmpfs :=
  match raw.filter fun path => path.length < maxPath with
  | none => (.error VfsErr.fail, s)
  | some path =>
    let (ok, s) := mkdirPPath env mode task (path.length + 1) s path
    (.error (if ok then 0 else VfsErr.fail), s)

/-- `reply_set_meta`. -/
def handleSetMeta (stat : Option VfsStat) : VfsReply × Tmpfs :=
  match raw.filter (fun path => path.length < maxPath), stat with
  | some path, some stat =>
    match s.inodeFind path with
    | none => (.error VfsErr.noent, s)
    | some (i, inode) =>
      if stat.type ≠ inode.type then (.error VfsErr.inval, s)
      else (.error 0, s.setInode i (some { inode with
        mode := stat.mode &&& 0o777, uid := stat.uid, gid := stat.gid
        atime := stat.atime, mtime := stat.mtime, ctime := stat.ctime }))
  | _, _ => (.error VfsErr.fail, s)

def grantVfsCallerTask (task : U64) : U64 × Tmpfs :=
  if sender = 0 then (VfsErr.access, s)
  else if s.grantor ≠ 0 ∧ sender ≠ s.grantor then (VfsErr.access, s)
  else
    let s := { s with grantor := if s.grantor = 0 then sender else s.grantor }
    let task := if task = 0 then sender else task
    if s.vfsCallers.contains task then (0, s)
    else match s.alloc with
    | (false, s) => (VfsErr.fail, s)
    | (true, s) => (0, { s with vfsCallers := task :: s.vfsCallers })

def senderIsVfsCaller : Bool := sender != 0 && s.vfsCallers.contains sender

/-- The `switch` of `main`. -/
def handleVfs :
    TmpfsRequest → Option (VfsReply × Tmpfs)
  | .openPath path => some (s.handleOpen sender path)
  | .create path task mode => some (handleCreate env s path task mode)
  | .mkdir path task mode => some (handleMkdir env s path task mode)
  | .mknod path task type mode => some (handleMknod env s path task type mode)
  | .symlink target path task => handleSymlink env s target path task
  | .stat path => some (s.handleStat path)
  | .access path task mask => some (handleAccess env s path task mask)
  | .readlink path outCap => some (handleReadlink env s path outCap)
  | .utimens path task flags times => some (handleUtimens env s path task flags times)
  | .statHandle handle => s.handleStatHandle sender handle
  | .read handle offset len => handleRead env s sender handle offset len
  | .mmapPage handle offset len => handleMmapPage env s sender handle offset len
  | .write handle offset len task payload => handleWrite env s sender handle offset len task payload
  | .truncatePath path task size => handleTruncatePath env s path task size
  | .truncate handle task size => handleTruncate env s sender handle task size
  | .chmodPath path task mode => some (handleChmodPath env s path task mode)
  | .chmod handle task mode => handleChmod env s sender handle task mode
  | .chownPath path task uid gid => some (handleChownPath env s path task uid gid)
  | .chown handle task uid gid => handleChown env s sender handle task uid gid
  | .unlink path task => some (handleUnlink env s path task)
  | .rmdir path task => some (handleRmdir env s path task)
  | .rename oldPath newPath task flags => some (handleRename env s oldPath newPath task flags)
  | .link oldPath newPath task => some (handleLink env s oldPath newPath task)
  | .readdir handle index max => some (handleReaddir env s sender handle index max)
  | .close handle => some (s.handleClose sender handle)
  | .mountRoot path => some (handleMountRoot env s path)
  | .mkdirP path mode task => some (handleMkdirP env s path mode task)
  | .setMeta path stat => some (s.handleSetMeta path stat)
  | .grantSubject task =>
    let (status, s) := s.grantVfsCallerTask sender task
    some (.error status, s)

/-- The requests of the VFS protocol that need the caller to have been granted. -/
def needsCaller : TmpfsRequest → Bool
  | .mountRoot _ | .mkdirP .. | .setMeta .. | .grantSubject _ => false
  | _ => true

def step (env : TmpfsEnv) (sender : U64) (request : TmpfsRequest) : Option (VfsReply × Tmpfs) :=
  if needsCaller request ∧ s.senderIsVfsCaller sender = false then some (.error VfsErr.access, s)
  else handleVfs env s sender request

def init (allocs : Nat → Bool) : Tmpfs where
  roots := []
  index := fun _ => none
  list := []
  file := fun _ => none
  inode := fun _ => none
  nextFile := 0
  nextInode := 0
  opens := []
  nextOpenId := 1
  nextInodeId := 2
  vfsCallers := []
  grantor := 0
  allocs := allocs

end Tmpfs

/-- A request with who sent it and what the others answer in its course. -/
structure TmpfsCall where
  env : TmpfsEnv
  sender : U64
  request : TmpfsRequest

def Tmpfs.serve (s : Tmpfs) (call : TmpfsCall) : Option Tmpfs :=
  (s.step call.env call.sender call.request).map (·.2)

end Bunix.User
