import Bunix.User.LinuxFiles

/-! # The Linux server: the calls

Reading, writing, looking up and changing files, and what happens to descriptors when processes
start, fork and end (`user/linux/main.c`). `Linux.serve` is one round of the loop of `main`.
-/
namespace Bunix.User

open Bunix.Lib Prog

/-- A record of `linux_store_dirent`. -/
structure LinuxDirent where
  ino : U64
  next : U64
  type : U64
  name : Path
deriving DecidableEq, Repr

/-- What a call returns, and what it has put into the buffer of the caller. -/
structure LinuxResult where
  value : Int
  bytes : List UInt8 := []
  stat : Option LinuxVfsStat := none
  dirents : List LinuxDirent := []
  /-- `reply.words[1]`. -/
  word1 : U64 := 0
deriving DecidableEq, Repr

inductive LinuxCall where
  | openat (dirfd : U64) (path : Option Path) (flags mode : U64)
  | close (fd : U64)
  | read (fd len : U64) (buffer : Option (List UInt8))
  | mmap (fd offset len : U64) (buffer : Option (List UInt8))
  | write (fd len : U64) (buffer : Option (List UInt8))
  | sendfile (outFd inFd len offset : U64) (buffer : Option (List UInt8))
  | lseek (fd offset whence : U64)
  | ftruncate (fd length : U64)
  | truncate (dirfd : U64) (path : Option Path) (length : U64)
  | faccessat (dirfd : U64) (path : Option Path) (mode flags : U64)
  | newfstatat (dirfd : U64) (path : Option Path) (flags : U64)
  | fstat (fd : U64)
  | getdents64 (fd len : U64) (buffer : Bool)
  | readlinkat (dirfd : U64) (path : Option Path) (outSize : U64)
  | unlinkat (dirfd : U64) (path : Option Path) (flags : U64)
  | rmdir (path : Option Path)
  | mkdirat (dirfd : U64) (path : Option Path) (mode : U64)
  | mknodat (dirfd : U64) (path : Option Path) (mode : U64)
  | symlinkat (dirfd : U64) (target path : Option Path)
  | renameat2 (oldDirfd newDirfd : U64) (oldPath newPath : Option Path) (flags : U64)
  | linkat (oldDirfd newDirfd : U64) (oldPath newPath : Option Path) (flags : U64)
  | fchmodat (dirfd : U64) (path : Option Path) (mode flags : U64)
  | fchmod (fd mode : U64)
  | fchown (fd uid gid : U64)
  | fchownat (dirfd : U64) (path : Option Path) (uid gid flags : U64)
  | utimensat (dirfd : U64) (path : Option Path) (flags : U64) (times : Option (U64 × U64))
  | chdir (path : Option Path)
  | fchdir (fd : U64)
  | dup (oldFd : U64) (newFd : Option U64) (cloexec allowSame : Bool)
  | mount (target fstype : Path) (flags : U64)
  | umount (path : Option Path)
  /-- `setuid` and the like, which are left to the user server. -/
  | setCredentials (type : Nat) (args : List U64)
  | registerProcess (task : U64)
  | fork (child : U64)
  | exec
  | exit
deriving Repr

namespace Linux

variable (fd : LinuxFd) (task n dirfd : U64) (arg : Option Path)

/-! ## Reading and writing -/

def linuxMaxWrite : U64 := 65536
def maxMmapBuffer : U64 := 1024 * 1024
def mmapPageSize : U64 := 4096
def mmapPageData : U64 := 1
def mmapPageZero : U64 := 2
def mmapPageBus : U64 := 3

/-- The buffer of the caller after `bytes` have been written to its start. -/
def fillBuffer (buf bytes : List UInt8) : List UInt8 := bytes ++ buf.drop bytes.length

/-- The sockets that are read by `linux_recvfrom`; another one is taken for a file. -/
def socketHasReader (handle : U64) : Bool := 3 ≤ handle && handle ≤ 8

/-- A request for contents, into the buffer of the caller. -/
def vfsReadCall (type : VfsOp) (handle offset len : U64) : LinuxM (Option VfsReply) := do
  let s ← get
  vfs (s.handleMessage type handle offset len 0 (some fun _ _ => none) false true)

def allowsZeroSizeRead : Bool := "/proc/".toList.isPrefixOf fd.path

/-- `bunix_buffer_write` of what a cache holds; it fails if there is no room. -/
def fitsBuffer (buf : List UInt8) (cached : Option (List UInt8)) : Option (List UInt8) :=
  cached.filter fun bytes => bytes.length ≤ buf.length

/-- The memory for the read-ahead of an open file is there. -/
def readBufferReady (file : Nat) : CachedM Bool := do
  if ← aheadReady file then return true
  else if ← alloc then
    aheadReserve file
    return true
  else return false

def readaheadFill (offset len : U64) : CachedM (Option (List UInt8)) := do
  let s ← get
  match fd.openFile with
  | some file =>
    if fd.path.head? ≠ some '/' ∨ len = 0 ∨ fileReadaheadTriggerMax < len ∨ s.fdSize fd ≤ offset ∨
        fileReadCacheAllowed fd.path = false then return none
    else
      if (← readBufferReady file) = false then return none
      else
        let readLen := minU64 (s.fdSize fd - offset) fileReadaheadSize
        if readLen < len then return none
        else if ← buffer then
          match ← vfsReadCall .readFileBuffer fd.handle offset readLen with
          | none =>
            aheadClear file
            return none
          | some reply =>
            if reply.status ≠ 0 ∨ reply.word1 < len ∨ readLen < reply.word1 then
              aheadClear file
              return none
            else
              -- the buffer was new, so that what the server has not written is 0
              let bytes := fillBuffer (List.replicate readLen.toNat 0) reply.data
              aheadPut file fd.path offset (bytes.take reply.word1.toNat)
              aheadGet file fd.path offset len
        else return none
  | none => return none

/-- `linux_open_file_readahead_get` on the open file of a descriptor. -/
def readaheadOf (offset len : U64) : CachedM (Option (List UInt8)) :=
  match fd.openFile with
  | none => return none
  | some file => aheadGet file fd.path offset len

/-- The read-ahead, which is filled if it does not have the bytes. -/
def readAhead (offset len : U64) (buf : List UInt8) : CachedM (Option (List UInt8)) := do
  if fileReadaheadTriggerMax < len then return none
  else
    match fitsBuffer buf (← readaheadOf fd offset len) with
    | some bytes => return some bytes
    | none => return fitsBuffer buf (← readaheadFill fd offset len)

/-- The caches that `linux_read` looks at, in turn. -/
def readCached (offset len : U64) (buf : List UInt8) : CachedM (Option (List UInt8)) := do
  let s ← get
  if fd.kind ≠ .file ∨ fd.path.head? ≠ some '/' ∨ s.fdSize fd < offset ∨ s.fdSize fd - offset < len then
    return none
  else
    match ← readAhead fd offset len buf with
    | some bytes => return some bytes
    | none =>
      if fileReadCacheMax < len then return none
      else return fitsBuffer buf (← readGet fd.path offset len)

/-- The part of `linux_read` for what the VFS has a handle for. -/
def readFile (fd : LinuxFd) (requested len : U64) (buf : List UInt8) : CachedM LinuxResult := do
  let s ← get
  let offset := s.fdOffset fd
  match ← readCached fd offset len buf with
  | some bytes =>
    modify fun s => s.fdSetOffset task n (offset + len)
    return { value := len.toInt, bytes := fillBuffer buf bytes }
  | none =>
    match ← vfsReadCall .readFileBuffer fd.handle offset requested with
    | none => return { value := -Errno.eio, bytes := buf }
    | some reply =>
      if reply.status ≠ 0 then return { value := linuxVfsError reply.status, bytes := buf }
      else
        let bytes := fillBuffer buf reply.data
        if fd.kind = .file ∧ fd.path.head? = some '/' ∧ reply.word1 = len then
          readPut fd.path offset len
            (if len.toNat ≤ bytes.length then some (bytes.take len.toNat) else none)
        modify fun s => s.fdSetOffset task n (offset + reply.word1)
        return { value := reply.word1.toInt, bytes }

/-- `linux_read`. The request to the VFS is for the length that the caller asked for, whatever `len`
has been cut to. -/
def read (len : U64) (buffer : Option (List UInt8)) : CachedM LinuxResult := do
  let s ← get
  let fd := s.fd task n
  match buffer with
  | none => return { value := -Errno.ebadf }
  | some buf =>
    let requested := len
    let len := minU64 len linuxMaxWrite
    if fd.kind = .free then return { value := -Errno.ebadf, bytes := buf }
    else if len = 0 then return { value := 0, bytes := buf }
    else if fd.kind = .console ∨ fd.kind = .pipeRead ∨
        (fd.kind = .socket ∧ socketHasReader fd.handle = true) then
      let (value, bytes) ← readDevice fd len
      return { value, bytes := fillBuffer buf bytes }
    else if fd.kind = .dir then return { value := -Errno.eisdir, bytes := buf }
    else if fd.kind = .file then
      let offset := s.fdOffset fd
      let size := s.fdSize fd
      if size ≤ offset ∧ ¬(size = 0 ∧ allowsZeroSizeRead fd = true) then
        return { value := 0, bytes := buf }
      else
        readFile task n fd requested (if size ≠ 0 ∧ size - offset < len then size - offset else len) buf
    else readFile task n fd requested len buf

/-- The cache that `linux_mmap_read` looks at. -/
def mmapCached (offset len : U64) : CachedM (Option (List UInt8)) :=
  if fd.path.head? = some '/' ∧ len ≤ fileReadCacheMax then readGet fd.path offset len
  else return none

/-- `linux_mmap_read`; the class of the page is in the second word of the reply. -/
def mmapRead (offset len : U64) (buffer : Option (List UInt8)) : CachedM LinuxResult := do
  let s ← get
  let fd := s.fd task n
  let pageClass := (s.proc task).lastMmapPageClass
  let setClass (word1 : U64) : CachedM Unit :=
    modify fun s => s.setProc task { s.proc task with lastMmapPageClass := word1 }
  match buffer with
  | none => return { value := -Errno.efault, word1 := pageClass }
  | some buf =>
    if maxMmapBuffer < len then return { value := -Errno.einval, bytes := buf, word1 := pageClass }
    else if fd.kind ≠ .file then return { value := -Errno.ebadf, bytes := buf, word1 := pageClass }
    else if s.fdSize fd ≤ offset then
      setClass mmapPageBus
      return { value := 0, bytes := buf, word1 := mmapPageBus }
    else
      let len := minU64 (minU64 len mmapPageSize) (s.fdSize fd - offset)
      setClass mmapPageData
      match fitsBuffer buf (← mmapCached fd offset len) with
      | some bytes => return { value := len.toInt, bytes := fillBuffer buf bytes, word1 := mmapPageData }
      | none =>
        match ← vfsReadCall .mmapPageBuffer fd.handle offset len with
        | none => return { value := -Errno.eio, bytes := buf, word1 := mmapPageData }
        | some reply =>
          if reply.status ≠ 0 then
            return { value := linuxVfsError reply.status, bytes := buf, word1 := mmapPageData }
          else
            setClass reply.word1
            let bytes := fillBuffer buf reply.data
            if reply.word1 = mmapPageBus then return { value := 0, bytes, word1 := reply.word1 }
            else if reply.word1 = mmapPageZero then
              return { value := reply.word2.toInt, bytes, word1 := reply.word1 }
            else if reply.word1 ≠ mmapPageData then
              return { value := -Errno.eio, bytes, word1 := reply.word1 }
            else
              if fd.path.head? = some '/' ∧ reply.word2 = len then
                readPut fd.path offset len
                  (if len.toNat ≤ bytes.length then some (bytes.take len.toNat) else none)
              return { value := reply.word2.toInt, bytes, word1 := reply.word1 }

/-- The loop of `linux_write_buffer` over the parts of a file: the result of a return out of the loop,
or how much has been written. -/
def writeLoop (task handle offset len : U64) (buf : List UInt8) : Nat → U64 → LinuxM (Except Int U64)
  | 0, done => return .ok done
  | fuel + 1, done => do
    if done < len ∨ (len = 0 ∧ done = 0) then
      let chunk := minU64 (len - done) linuxMaxWrite
      let failed (error : Int) : Except Int U64 := .error (if done ≠ 0 then done.toInt else error)
      let created ← buffer
      if created = false then return failed (-Errno.enomem)
      else if buf.length < done.toNat + chunk.toNat then return failed (-Errno.efault)
      else
        let part := (buf.drop done.toNat).take chunk.toNat
        let s ← get
        match ← vfs (s.handleMessage .writeFileBuffer handle (offset + done) chunk task
            (some (bytesBuffer part)) true false) with
        | none => return failed (-Errno.eio)
        | some reply =>
          if reply.status ≠ 0 then return failed (linuxVfsError reply.status)
          else if chunk = 0 ∨ reply.word1 ≠ chunk then return .ok (done + reply.word1)
          else writeLoop task handle offset len buf fuel (done + reply.word1)
    else return .ok done

/-- `linux_write_buffer`. A return out of the loop leaves the offset where it was. -/
def write (len : U64) (buffer : Option (List UInt8)) : LinuxM Int := do
  let s ← get
  let fd := s.fd task n
  if fd.kind = .free then return -Errno.ebadf
  else
    match buffer with
    | none => return -Errno.efault
    | some buf =>
      if fd.kind = .pipeWrite ∨ fd.kind = .console ∨ (fd.kind = .socket ∧
          (fd.handle = 3 ∨ fd.handle = 4 ∨ fd.handle = 8)) then
        writeDevice fd (buf.take len.toNat)
      else if fd.kind = .file then
        let offset := if fd.statusFlags &&& oAppend ≠ 0 then s.fdSize fd else s.fdOffset fd
        match ← writeLoop task fd.handle offset len buf (len.toNat / linuxMaxWrite.toNat + 1) 0 with
        | .error result => return result
        | .ok done =>
          modify fun s =>
            let s := s.fdSetOffset task n (offset + done)
            let fd := s.fd task n
            if s.fdSize fd < s.fdOffset fd then s.fdSetSize task n (s.fdOffset fd) else s
          if done ≠ 0 then
            if let some file := fd.openFile then aheadClear file
            noteMutation (if fd.path = [] then none else some fd.path)
          return done.toInt
      else return -Errno.ebadf

/-- `linux_sendfile`; the offset -1 stands for that of the descriptor. -/
def sendfile (outFd inFd len offset : U64) (buffer : Option (List UInt8)) :
    CachedM LinuxResult := do
  let s ← get
  let fd := s.fd task inFd
  if fd.kind = .free then return { value := -Errno.ebadf, bytes := buffer.getD [], word1 := offset }
  else if fd.kind ≠ .file then
    return { value := -Errno.einval, bytes := buffer.getD [], word1 := offset }
  else
    let saved := s.fdOffset fd
    modify fun s => if offset ≠ -1 then s.fdSetOffset task inFd offset else s
    let result ← read task inFd len buffer
    let s ← get
    let next :=
      if offset ≠ -1 ∧ 0 < result.value then s.fdOffset (s.fd task inFd) else offset
    set (if offset ≠ -1 then s.fdSetOffset task inFd saved else s)
    if result.value ≤ 0 then return { value := result.value, bytes := result.bytes, word1 := next }
    else
      let value ← write task outFd (BitVec.ofInt 64 result.value) (some result.bytes)
      return { value, bytes := result.bytes, word1 := next }

def lseek (offset whence : U64) : LinuxM Int := do
  let s ← get
  let fd := s.fd task n
  if fd.kind = .free then return -Errno.ebadf
  else if fd.kind ≠ .file ∧ fd.kind ≠ .dir then return -29
  else
    let base? := if whence = 0 then some 0 else if whence = 1 then some (s.fdOffset fd)
      else if whence = 2 then some (s.fdSize fd) else none
    match base? with
    | none => return -Errno.einval
    | some base =>
      if offset >>> 63 ≠ 0 ∨ base + offset < base then return -Errno.einval
      else
        set (s.fdSetOffset task n (base + offset))
        return (base + offset).toInt

/-! ## Access and metadata -/

/-- The path of a call and the handle it is relative to. -/
def pathAndBase : LinuxM (Except Int (Path × U64)) := do
  match linuxReadPathArg arg with
  | .error e => return .error e
  | .ok path =>
    match ← dirfdBaseHandle task dirfd path with
    | .error e => return .error e
    | .ok base => return .ok (path, base)

def withBase {α : Type} (task dirfd : U64) (arg : Option Path) (error : Int → α)
    (handle : Path → U64 → LinuxM α) : LinuxM α := do
  match ← pathAndBase task dirfd arg with
  | .error e => return error e
  | .ok (path, base) => handle path base

/-- As `withBase`, for the calls that first see whether the path can be normalized. -/
def withNormalized {α : Type} (task dirfd : U64) (arg : Option Path) (error : Int → α)
    (handle : Path → Path → U64 → LinuxM α) : LinuxM α := do
  match linuxReadPathArg arg with
  | .error e => return error e
  | .ok path =>
    let s ← get
    match pathNormalize (s.proc task).cwd path with
    | .error e => return error e
    | .ok fullPath =>
      match ← dirfdBaseHandle task dirfd path with
      | .error e => return error e
      | .ok base => handle path fullPath base

/-- The end of `linux_faccessat`: what the VFS answers, if it can be asked. -/
def accessCall (base : U64) (path : Path) (mode : U64) : LinuxM (Option Int) := do
  match ← vfsPathCallFlags task .accessBuffer base path mode with
  | none => return none
  | some reply => return some (if reply.status ≠ 0 then linuxVfsError reply.status else 0)

/-- `LINUX_AT_SYMLINK_NOFOLLOW` and others. -/
def atSymlinkNofollow : U64 := 0x100
def atRemovedir : U64 := 0x200
def atEaccess : U64 := 0x200
def atSymlinkFollow : U64 := 0x400
def atNoAutomount : U64 := 0x800
def atEmptyPath : U64 := 0x1000

/-- `linux_faccessat`, once the path and its base are known. -/
def accessAt (path : Path) (base mode flags : U64) : CachedM Int := do
  let s ← get
  let cwd := (s.proc task).cwd
  let key := s.cachePathForDirfd task dirfd path
  match ← accessGet task cwd base path key mode flags with
  | some result => return result
  | none =>
    match ← accessCall task base path mode with
    | none => return -Errno.eio
    | some result =>
      accessPut task cwd base path key mode flags result
      return result

def faccessat (mode flags : U64) : CachedM Int := do
  if mode &&& ~~~7 ≠ 0 ∨ flags &&& ~~~(atEaccess ||| atSymlinkNofollow) ≠ 0 then return -Errno.einval
  else
    match ← pathAndBase task dirfd arg with
    | .error e => return e
    | .ok (path, base) => accessAt task dirfd path base mode flags

/-- `linux_vfs_stat_from_buffer` and `linux_vfs_stat_from_reply`. -/
def statOfReply (reply : VfsReply) (fallbackIno : U64) : LinuxVfsStat :=
  match reply.stat with
  | some st =>
    { size := st.size, modeType := st.modeType, owner := st.owner, dev := 1
      ino := if st.ino = 0 then 1 else st.ino, nlink := if st.nlink = 0 then 1 else st.nlink
      rdev := 0, blksize := 4096, blocks := (st.size + 511) / 512
      atime := st.atime, mtime := st.mtime, ctime := st.ctime }
  | none =>
    { size := reply.word1, modeType := reply.word2, owner := reply.word3, dev := 1
      ino := if fallbackIno = 0 then 1 else fallbackIno, nlink := 1
      rdev := 0, blksize := 4096, blocks := (reply.word1 + 511) / 512, atime := 0, mtime := 0, ctime := 0 }

def vfsFstatCall (handle : U64) : LinuxM (Int × Option LinuxVfsStat) := do
  if ← buffer then
    let s ← get
    match ← vfs (s.handleMessage .statMeta handle 0 0 0 (some fun _ _ => none) false true) with
    | none => return (-Errno.eio, none)
    | some reply =>
      return if reply.status ≠ 0 then (linuxVfsError reply.status, none)
        else (0, some (statOfReply reply handle))
  else return (-Errno.enomem, none)

def vfsPathStatCall (base : U64) (path : Path) (nofollow : U64) :
    LinuxM (Int × Option LinuxVfsStat) := do
  if ← buffer then
    let s ← get
    if s.pathsFit task [path] = false then return (-Errno.eio, none)
    else
      match ← vfs (s.pathMessage task .statPathMetaBuffer base path (task ||| (nofollow <<< 32)) true) with
      | none => return (-Errno.eio, none)
      | some reply =>
        return if reply.status ≠ 0 then (linuxVfsError reply.status, none)
          else (0, some (statOfReply reply 1))
  else return (-Errno.enomem, none)

/-- `linux_newfstatat`, once the path and its base are known. -/
def statAt (path : Path) (base nofollow : U64) : CachedM (Int × Option LinuxVfsStat) := do
  let s ← get
  let cwd := (s.proc task).cwd
  let key := s.cachePathForDirfd task dirfd path
  match ← statGet task cwd base path key nofollow with
  | some cached => return cached
  | none =>
    let found ← vfsPathStatCall task base path nofollow
    statPut task cwd base path key nofollow found.1 found.2
    return found

def newfstatat (flags : U64) : CachedM (Int × Option LinuxVfsStat) := do
  if flags &&& ~~~(atSymlinkNofollow ||| atNoAutomount ||| atEmptyPath) ≠ 0 then
    return (-Errno.einval, none)
  else if flags &&& atEmptyPath ≠ 0 ∧ arg = some [] then
    let s ← get
    let fd := s.fd task dirfd
    if fd.kind = .free then return (-Errno.ebadf, none) else vfsFstatCall fd.handle
  else
    match ← pathAndBase task dirfd arg with
    | .error e => return (e, none)
    | .ok (path, base) =>
      statAt task dirfd path base (if flags &&& atSymlinkNofollow ≠ 0 then 1 else 0)

/-- `linux_fstat`; what is not a file has fixed metadata. -/
def fstat : LinuxM (Int × Option LinuxVfsStat) := do
  let s ← get
  let fd := s.fd task n
  if fd.kind = .free then return (-Errno.ebadf, none)
  else if fd.kind = .file ∨ fd.kind = .dir then vfsFstatCall fd.handle
  else return (0, none)

/-! ## Directories -/

/-- `linux_readdir_name`: type, name and next offset. -/
def readdirName (handle index : U64) : LinuxM (Except Int (U64 × Path × U64)) := do
  let s ← get
  match ← vfs (s.handleMessage .readdirBuffer handle index 0 (BitVec.ofNat 64 (maxPath - 1))
      (some fun _ _ => none) false true) with
  | none => return .error (-Errno.eio)
  | some reply =>
    if reply.status ≠ 0 then return .error (linuxVfsError reply.status)
    else if BitVec.ofNat 64 maxPath ≤ reply.word2 ∨ reply.word3 < reply.word2 ∨
        reply.data.length < reply.word2.toNat then return .error (-Errno.eio)
    else
      let name := bytesPath ((reply.data.take reply.word2.toNat).takeWhile (· ≠ 0))
      return .ok (high32 reply.word1, name, low32 reply.word1 + 2)

/-- The loop of `linux_dir_cache_fill`: the names from `index` on, `none` if they are too many or one is
too long. -/
def dirNames (handle : U64) : Nat → U64 → LinuxM (Except Int (Option (List DirEntry)))
  | fuel, index => do
    match ← readdirName handle index with
    | .error error =>
      return if error = -Errno.enoent then .ok (some []) else .error error
    | .ok (type, name, _) =>
      match fuel with
      | 0 => return .ok none
      | fuel + 1 =>
        if nameMax < name.length then return .ok none
        else
          match ← dirNames handle fuel (index + 1) with
          | .ok (some entries) => return .ok (some ({ type, name } :: entries))
          | other => return other

def dirCacheFill (handle : U64) (path : Path) : CachedM (Except Int (Option (List DirEntry))) := do
  match ← dirLookup path with
  | some entries => return .ok (some entries)
  | none =>
    if dirCacheAllowed path = false then return .ok none
    else if ← buffer then
      let slot ← dirClaim
      match ← dirNames handle dirCacheMaxEntries 0 with
      | .ok (some entries) =>
        dirStore slot path entries
        return .ok (some entries)
      | other => return other
    else return .error (-Errno.enomem)

/-- The entry at an offset from 2 on; `none` at the end. -/
def getdentsEntry (offset : U64) : CachedM (Except Int (Option (U64 × Path × U64))) := do
  let index := offset - 2
  match ← dirCacheFill fd.handle fd.path with
  | .ok none =>
    match ← readdirName fd.handle index with
    | .error error => return if error = -Errno.enoent then .ok none else .error error
    | .ok entry => return .ok (some entry)
  | .ok (some entries) =>
    match entries[index.toNat]? with
    | none => return .ok none
    | some entry => return .ok (some (entry.type, entry.name, index + 3))
  | .error error => return if error = -Errno.enoent then .ok none else .error error

def direntReclen (name : Path) : Nat := (19 + name.length + 1 + 7) / 8 * 8

def direntType (type : U64) : U64 :=
  if type = VfsType.directory.code then 4
  else if type = VfsType.symlink.code then 10
  else if type = VfsType.fifo.code then 1
  else if type = VfsType.character.code then 2
  else 8

/-- The next name; the first two are not asked for. -/
def getdentsNext (offset : U64) : CachedM (Except Int (Option (U64 × Path × U64))) :=
  if offset = 0 then return .ok (some (VfsType.directory.code, ['.'], 1))
  else if offset = 1 then return .ok (some (VfsType.directory.code, ['.', '.'], 2))
  else getdentsEntry fd offset

/-- The loop of `linux_getdents64`: the records, and how long they are. -/
def getdentsLoop (task n : U64) (outLen : Nat) : Nat → Nat → CachedM (Except Int (List LinuxDirent × Nat))
  | 0, written => return .ok ([], written)
  | fuel + 1, written => do
    if outLen ≤ written then return .ok ([], written)
    else
      let s ← get
      let fd := s.fd task n
      let offset := s.fdOffset fd
      match ← getdentsNext fd offset with
      | .error error => return .error error
      | .ok none => return .ok ([], written)
      | .ok (some (type, name, next)) =>
        if next ≤ offset then return .error (-Errno.eio)
        else if outLen < written + direntReclen name then return .ok ([], written)
        else
          modify fun s => s.fdSetOffset task n next
          match ← getdentsLoop task n outLen fuel (written + direntReclen name) with
          | .error error => return .error error
          | .ok (records, total) =>
            return .ok ({ ino := offset + 1, next, type := direntType type, name } :: records, total)

def maxDirentBuffer : Nat := 512 * 1024

def getdents64 (len : U64) (buf : Bool) : CachedM LinuxResult := do
  let s ← get
  let fd := s.fd task n
  let created ← buffer
  if fd.kind = .free then return { value := -Errno.ebadf }
  else if fd.kind ≠ .dir then return { value := -Errno.enotdir }
  else if buf = false then return { value := -Errno.efault }
  else if len = 0 ∨ created = false then return { value := -Errno.einval }
  else if ← alloc then
    let outLen := min len.toNat maxDirentBuffer
    match ← getdentsLoop task n outLen outLen 0 with
    | .error error => return { value := error }
    | .ok (dirents, written) => return { value := written, dirents }
  else return { value := -Errno.enomem }

/-! ## Changing files -/

/-- The end of the calls that change files: if the VFS has done it, the epoch moves on. -/
def noteReply (reply : Option VfsReply) (path : Option Path) : LinuxM Int := do
  match reply with
  | none => return -Errno.eio
  | some reply =>
    if reply.status ≠ 0 then return linuxVfsError reply.status
    else
      noteMutation path
      return 0

/-- A change by path; the epoch is that of the path as the caches know it. -/
def mutatePath (type : VfsOp) (base : U64) (path : Path) (word3 : U64) : LinuxM Int := do
  let s ← get
  noteReply (← vfsPathCallWord3 task type base path word3) (s.cachePathForDirfd task dirfd path)

def finalDotComponent (path : Path) : Bool :=
  match (components path).getLast? with
  | some c => c == ['.'] || c == ['.', '.']
  | none => false

def unlinkat (flags : U64) : LinuxM Int := do
  if flags &&& ~~~atRemovedir ≠ 0 then return -Errno.einval
  else
    match linuxReadPathArg arg with
    | .error error => return error
    | .ok path =>
      let type : VfsOp := if flags &&& atRemovedir ≠ 0 then .rmdirBuffer else .unlinkBuffer
      if finalDotComponent path then return -Errno.einval
      else withNormalized task dirfd (some path) id fun path _ base =>
        mutatePath task dirfd type base path (task ||| (flags <<< 32))

def rmdir : LinuxM Int :=
  withNormalized task atFdcwd arg id fun path fullPath base => do
    noteReply (← vfsPathCallWord3 task .rmdirBuffer base path task) (some fullPath)

def mkdirat (mode : U64) : LinuxM Int :=
  withNormalized task dirfd arg id fun path _ base => do
    let s ← get
    mutatePath task dirfd .mkdirBuffer base path (createWord task mode (s.proc task).umask)

def mknodat (mode : U64) : LinuxM Int :=
  withBase task dirfd arg id fun path base => do
    let s ← get
    let fileType := mode &&& 0o170000
    let make (type : VfsType) : LinuxM Int := mutatePath task dirfd .mknodBuffer base path
      (task ||| (((mode &&& 0o777) &&& ~~~(s.proc task).umask) <<< 32) ||| (type.code <<< 48))
    if fileType = 0o010000 then make .fifo
    else if fileType = 0 ∨ fileType = 0o100000 then make .regular
    else if fileType = 0o020000 ∨ fileType = 0o060000 then
      match ← vfsPathCall task .statPathMetaBuffer base path with
      | some reply => return if reply.status = 0 then -Errno.eexist else -Errno.eperm
      | none => return -Errno.eperm
    else return -Errno.einval

/-- What `linux_symlinkat`, `linux_renameat2` and `linux_linkat` check of a string. -/
def readString : Except Int Path :=
  match arg with
  | none => .error (-Errno.efault)
  | some path =>
    if maxPath ≤ path.length then .error (-Errno.efault)
    else if path = [] then .error (-Errno.enoent)
    else .ok path

def vfsSymlinkCall (base : U64) (target path : Path) : LinuxM (Option VfsReply) := do
  let s ← get
  let cwd := (s.proc task).cwd
  let created ← buffer
  if created = false ∨ s.pathsFit task [target, path] = false ∨ 0xffffffff < base then return none
  else
    vfs { type := .symlinkBuffer, sender := s.self, send := false
          buffer := some (stringsBuffer [target, cwd, path])
          word0 := stringLen target, word1 := stringLen cwd, word2 := stringLen path
          word3 := task ||| (base <<< 32) }

def symlinkat (targetArg pathArg : Option Path) : LinuxM Int := do
  match readString targetArg, readString pathArg with
  | .ok target, .ok path =>
    if linuxCheckNameMax path = false then return -Errno.enametoolong
    else
      match ← dirfdBaseHandle task dirfd path with
      | .error error => return error
      | .ok base =>
        let s ← get
        let reply ← vfsSymlinkCall task base target path
        noteReply reply (s.cachePathForDirfd task dirfd path)
  | .error error, _ => return error
  | _, .error error => return error

def vfsTwoPathCall (type : VfsOp) (oldBase : U64) (oldPath : Path) (newBase : U64) (newPath : Path)
    (flags : U64) : LinuxM (Option VfsReply) := do
  let s ← get
  let cwd := (s.proc task).cwd
  let created ← buffer
  if created = false ∨ s.pathsFit task [oldPath, newPath] = false ∨ 0xffffffff < oldBase ∨
      0xffffffff < newBase ∨ 0xffffffff < flags then return none
  else
    vfs { type, sender := s.self, send := false
          buffer := some (stringsBuffer [cwd, oldPath, cwd, newPath])
          word0 := oldBase ||| (newBase <<< 32)
          word1 := stringLen cwd ||| (stringLen oldPath <<< 32)
          word2 := stringLen cwd ||| (stringLen newPath <<< 32)
          word3 := low32 task ||| (flags <<< 32) }

/-- `linux_renameat2`; the epochs of all domains move on. -/
def renameat2 (oldDirfd newDirfd : U64) (oldArg newArg : Option Path) (flags : U64) :
    LinuxM Int := do
  if flags &&& ~~~1 ≠ 0 then return -Errno.einval
  else
    match readString oldArg, readString newArg with
    | .ok oldPath, .ok newPath =>
      if linuxCheckNameMax oldPath = false ∨ linuxCheckNameMax newPath = false then
        return -Errno.enametoolong
      else
        match ← dirfdBaseHandle task oldDirfd oldPath with
        | .error error => return error
        | .ok oldBase =>
          match ← dirfdBaseHandle task newDirfd newPath with
          | .error error => return error
          | .ok newBase =>
            noteReply (← vfsTwoPathCall task .renameBuffer oldBase oldPath newBase newPath flags) none
    | .error error, _ => return error
    | _, .error error => return error

def parseProcSelfFd (path : Path) : Option U64 :=
  let digits := path.drop "/proc/self/fd/".length
  if "/proc/self/fd/".toList.isPrefixOf path ∧ digits ≠ [] ∧ digits.all (fun c => '0' ≤ c ∧ c ≤ '9') then
    digits.foldlM (fun (value : U64) c =>
      if (-1 : U64) / 10 < value then none else some (value * 10 + BitVec.ofNat 64 (c.toNat - 48))) 0
  else none

/-- Where `linux_linkat` takes the old file from. -/
def linkSource (oldDirfd : U64) (oldPath : Path) (flags : U64) :
    LinuxM (Except Int (U64 × Path)) := do
  match if flags &&& atSymlinkFollow ≠ 0 then parseProcSelfFd oldPath else none with
  | some oldFd =>
    let s ← get
    let fd := s.fd task oldFd
    if fd.kind = .free then return .error (-Errno.ebadf)
    else if fd.kind ≠ .file then return .error (-Errno.eperm)
    else if fd.path = [] then return .error (-Errno.enoent)
    else return .ok (0, fd.path)
  | none =>
    match ← dirfdBaseHandle task oldDirfd oldPath with
    | .error error => return .error error
    | .ok base => return .ok (base, oldPath)

def linkat (oldDirfd newDirfd : U64) (oldArg newArg : Option Path) (flags : U64) : LinuxM Int := do
  if flags &&& ~~~atSymlinkFollow ≠ 0 then return -Errno.einval
  else
    match readString oldArg, readString newArg with
    | .ok oldPath, .ok newPath =>
      if linuxCheckNameMax oldPath = false ∨ linuxCheckNameMax newPath = false then
        return -Errno.enametoolong
      else
        match ← linkSource task oldDirfd oldPath flags with
        | .error error => return error
        | .ok (oldBase, oldPath) =>
          match ← dirfdBaseHandle task newDirfd newPath with
          | .error error => return error
          | .ok newBase =>
            noteReply (← vfsTwoPathCall task .linkBuffer oldBase oldPath newBase newPath 0) none
    | .error error, _ => return error
    | _, .error error => return error

/-- `linux_chmodat`. -/
def fchmodat (mode flags : U64) : LinuxM Int := do
  if flags &&& ~~~atSymlinkNofollow ≠ 0 then return -Errno.einval
  else withNormalized task dirfd arg id fun path _ base =>
    mutatePath task dirfd .chmodBuffer base path (task ||| ((mode &&& 0o777) <<< 32))

/-- `linux_fchmod` and `linux_fchown`: a change of an open file. -/
def mutateHandle (type : VfsOp) (word1 word2 : U64) : LinuxM Int := do
  let s ← get
  let fd := s.fd task n
  if fd.kind ≠ .file ∧ fd.kind ≠ .dir then return -Errno.ebadf
  else
    noteReply (← vfsHandleCall type fd.handle word1 word2 task) (if fd.path = [] then none else some fd.path)

def fchmod (mode : U64) : LinuxM Int := mutateHandle task n .chmod (mode &&& 0o777) 0

def fchown (uid gid : U64) : LinuxM Int :=
  let keep (id : U64) : U64 := if low32 id = 0xffffffff then -1 else low32 id
  mutateHandle task n .chown (keep uid) (keep gid)

/-- `linux_chownat`. -/
def fchownat (uid gid flags : U64) : LinuxM Int := do
  if flags &&& ~~~atSymlinkNofollow ≠ 0 then return -Errno.einval
  else withNormalized task dirfd arg id fun path _ _ => do
    let opened ← match ← openat task dirfd (some path) 2 0 with
      | .ok n => pure (.ok n)
      | .error _ => openat task dirfd (some path) oDirectory 0
    match opened with
    | .error error => return error
    | .ok n =>
      let result ← fchown task n uid gid
      let _ ← close task n
      return result

def truncate (length : U64) : LinuxM Int := do
  if length >>> 63 ≠ 0 then return -Errno.einval
  else withNormalized task dirfd arg id fun path _ _ => do
    match ← openat task dirfd (some path) 2 0 with
    | .error error => return error
    | .ok n =>
      let result ← ftruncate task n length
      let _ ← close task n
      return result

/-- The bytes of two times, behind the strings of a request. -/
def timesBuffer (strings : List Path) (atime mtime : U64) (offset len : U64) : Option Path :=
  let strLen := (strings.map fun string => string.length + 1).sum
  if offset.toNat = strLen ∧ len = 16 then
    some (((List.range 8).map fun i => Char.ofNat ((atime >>> (8 * i)).toNat % 256)) ++
      (List.range 8).map fun i => Char.ofNat ((mtime >>> (8 * i)).toNat % 256))
  else stringsBuffer strings offset len

/-- `linux_utimensat`, and `linux_vfs_utimens_call`: the epoch is that of the path as the caller has
written it. -/
def utimensat (flags : U64) (times : Option (U64 × U64)) : LinuxM Int := do
  let timeFlags := high32 flags
  if low32 flags &&& ~~~atSymlinkNofollow ≠ 0 ∨ timeFlags &&& ~~~15 ≠ 0 then return -Errno.einval
  else
    match linuxReadPathArg arg, times with
    | .error error, _ => return error
    | .ok _, none => return -Errno.efault
    | .ok path, some (atime, mtime) =>
      let atime ← if timeFlags &&& 4 ≠ 0 then now else pure atime
      let mtime ← if timeFlags &&& 8 ≠ 0 then now else pure mtime
      match ← dirfdBaseHandle task dirfd path with
      | .error error => return error
      | .ok base =>
        let s ← get
        let cwd := (s.proc task).cwd
        if ← buffer then
          if s.pathsFit task [path] = false then return -Errno.eio
          else
            let reply ← vfs { type := .utimensBuffer, sender := s.self, send := false
                              buffer := some (timesBuffer [cwd, path] atime mtime)
                              word0 := stringLen cwd, word1 := stringLen path, word2 := base
                              word3 := task ||| ((timeFlags &&& ~~~12) <<< 32) }
            noteReply reply (if path.head? = some '/' then some path else none)
        else return -Errno.enomem

def readlinkat (outSize : U64) : LinuxM LinuxResult := do
  if outSize = 0 then return { value := -Errno.einval }
  else withBase task dirfd arg (fun e => { value := e }) fun path base => do
    let outCap := minU64 outSize (BitVec.ofNat 64 maxPath)
    let s ← get
    if ← buffer then
      if s.pathsFit task [path] = false then return { value := -Errno.einval }
      else
        match ← vfs (s.pathMessage task .readlinkBuffer base path (task ||| (outCap <<< 32)) true) with
        | none => return { value := -Errno.eio }
        | some reply =>
          let copyLen := minU64 reply.word1 outSize
          if reply.status ≠ 0 then return { value := linuxVfsError reply.status }
          else if reply.word3 < copyLen ∨ BitVec.ofNat 64 maxPath < copyLen then
            return { value := -Errno.efault }
          else return { value := copyLen.toInt, bytes := reply.data.take copyLen.toNat }
    else return { value := -Errno.enomem }

/-! ## Processes -/

/-- `linux_process_set_cwd`: whether there is memory. -/
def setCwd (cwd : Path) : LinuxM Bool := do
  if cwd.head? ≠ some '/' then return false
  else if ← alloc then
    modify fun s => s.setProc task { s.proc task with cwd }
    accessClear task
    return true
  else return false

/-- The end of `linux_chdir` and `linux_fchdir`. -/
def enterDir (reply : VfsReply) (cwd : Path) : LinuxM Int := do
  if reply.word3 ≠ VfsType.directory.code then
    closeRawVfsHandle reply.word1
    return -Errno.enotdir
  else if ← setCwd task cwd then
    let s ← get
    let old := (s.proc task).cwdHandle
    set (s.setProc task { s.proc task with cwdHandle := reply.word1 })
    fileRefAdd reply.word1
    closeVfsHandle old
    return 0
  else
    closeRawVfsHandle reply.word1
    return -Errno.enomem

def chdir : LinuxM Int :=
  withNormalized task atFdcwd arg id fun path fullPath base => do
    match ← vfsPathCall task .openBuffer base path with
    | none => return -Errno.enoent
    | some reply =>
      if reply.status ≠ 0 then return linuxVfsError reply.status else enterDir task reply fullPath

def fchdir : LinuxM Int := do
  let s ← get
  let fd := s.fd task n
  if fd.kind = .free then return -Errno.ebadf
  else if fd.kind ≠ .dir then return -Errno.enotdir
  else if fd.path.head? ≠ some '/' then return -Errno.enoent
  else
    match ← vfsPathCall task .openBuffer 0 fd.path with
    | none => return -Errno.enoent
    | some reply =>
      if reply.status ≠ 0 then return linuxVfsError reply.status else enterDir task reply fd.path

/-- The number of the new descriptor. -/
def dupTarget (old : LinuxFd) (newFd : Option U64) : LinuxM (Except Int U64) := do
  match newFd with
  | none => allocFd task old.kind old.handle old.size
  | some n =>
    let s ← get
    let fds := (s.proc task).fds
    if n.toNat < fds.length then return .ok n
    else if ← alloc then
      modify fun s => s.setProc task { s.proc task with
        fds := fds ++ List.replicate (fdCapacity (n.toNat + 1) 64 fds.length - fds.length) {} }
      return .ok n
    else return .error (-Errno.emfile)

/-- A descriptor that is to be replaced is closed. -/
def dupClose (newFd : Option U64) : LinuxM Int := do
  let s ← get
  if newFd.isSome ∧ (s.fd task n).kind ≠ .free then close task n else return 0

/-- `linux_dup_to`; a number is given for `dup2`, which allows the same one, and `dup3`. -/
def dup (oldFd : U64) (newFd : Option U64) (cloexec allowSame : Bool) : LinuxM Int := do
  let s ← get
  let old := s.fd task oldFd
  if old.kind = .free then return -Errno.ebadf
  else
    match ← dupTarget task old newFd with
    | .error error => return error
    | .ok n =>
      if n = oldFd then return if allowSame then n.toInt else -Errno.einval
      else
        let closed ← dupClose task n newFd
        if closed ≠ 0 then return closed
        else
          modify fun s => (s.openFileRefAdd old).setFd task n { old with cloexec }
          return n.toInt

/-- `linux_register_process`, without a pid that is asked for. -/
def registerProcess : LinuxM Int := do
  let s ← get
  if task = 0 ∨ (s.process task).isSome then return -Errno.einval
  else if ← alloc then
    let console : LinuxFd := { kind := .console }
    set { s.setProc task { pid := s.nextPid, procPid := s.nextPid
                           fds := List.replicate 3 console ++ List.replicate 13 {} } with
          nextPid := s.nextPid + 1 }
    accessClear task
    return s.nextPid.toInt
  else return -3

def fork (child : U64) : LinuxM Int := do
  let s ← get
  if child = 0 ∨ (s.process child).isSome then return -Errno.einval
  else if ← alloc then
    let parent := s.proc task
    let s' := parent.fds.foldl LinuxServer.openFileRefAdd s
    set { s'.setProc child { parent with pid := s.nextPid, procPid := s.nextPid, lastMmapPageClass := 0 } with
          nextPid := s.nextPid + 1 }
    fileRefAdd parent.cwdHandle
    accessClear child
    return s.nextPid.toInt
  else return -3

/-- The loops of `linux_close_process_fds` and `linux_exec_process`: `stop` is what ends the loop. -/
def closeFds (task : U64) (which : LinuxFd → Bool) (stop : Int → Bool) : List Nat → LinuxM Int
  | [] => return 0
  | n :: rest => do
    let s ← get
    let fd := s.fd task (BitVec.ofNat 64 n)
    if fd.kind ≠ .free ∧ which fd = true then
      let closed ← close task (BitVec.ofNat 64 n)
      if stop closed then return closed else closeFds task which stop rest
    else closeFds task which stop rest

def exec : LinuxM Int := do
  let s ← get
  let p := s.proc task
  let closed ← closeFds task (fun fd => fd.cloexec) (· != 0) (List.range p.fds.length)
  return if closed ≠ 0 then closed else p.pid.toInt

/-- `linux_process_reset`. -/
def exit : LinuxM Int := do
  let s ← get
  let _ ← user task 0 []
  let _ ← closeFds task (fun _ => true) (fun _ => false) (List.range (s.proc task).fds.length)
  let s ← get
  closeVfsHandle (s.proc task).cwdHandle
  modify fun s => { s with process := Function.update s.process task none }
  return 0

/-! ## Mounts -/

/-- The kinds of file systems that `linux_mount` knows. -/
def mountable (fstype : Path) : Bool :=
  ["proc", "procfs", "tmpfs", "devtmpfs", "devfs", "unionfs"].any fun name => fstype == name.toList

/-- `linux_mount`; for a path that is there already, `MS_REMOUNT` moves the epoch only. -/
def mount (target fstype : Path) (flags : U64) : LinuxM Int := do
  let euid ← user task 1 []
  if euid < 0 then return euid
  else if euid ≠ 0 then return -Errno.eperm
  else if target = [] ∨ maxPath ≤ target.length then return -Errno.einval
  else
    let s ← get
    match pathNormalize (s.proc task).cwd target with
    | .error error => return error
    | .ok fullTarget =>
      if flags &&& 32 ≠ 0 then
        noteMutation (some fullTarget)
        return 0
      else if fstype = [] then return -Errno.einval
      else if mountable fstype = false then return -Errno.enodev
      else
        match ← mountCommand fstype fullTarget with
        | none => return -Errno.enodev
        | some status =>
          if status ≠ 0 then return -Errno.ebusy
          else
            noteMutation (some fullTarget)
            return 0

/-- `linux_umount2` and `linux_vfs_unmount`. -/
def umount : LinuxM Int := do
  let euid ← user task 1 []
  if euid < 0 then return euid
  else if euid ≠ 0 then return -Errno.eperm
  else
    match linuxReadPathArg arg with
    | .error error => return error
    | .ok path =>
      let s ← get
      match pathNormalize (s.proc task).cwd path with
      | .error error => return error
      | .ok fullPath =>
        match ← vfs { type := .unmountBuffer, sender := s.self, send := false
                      buffer := some (stringsBuffer [fullPath]), word0 := stringLen fullPath } with
        | none => return -Errno.enosys
        | some reply =>
          if reply.status ≠ 0 then return linuxVfsError reply.status
          else
            noteMutation (some fullPath)
            return 0

/-! ## The loop -/

def ofValue (m : LinuxM Int) : LinuxM LinuxResult := do return { value := ← m }

def ofFd (m : LinuxM (Except Int U64)) : LinuxM LinuxResult := do
  match ← m with
  | .ok n => return { value := n.toInt }
  | .error error => return { value := error }

def ofStat (result : Int × Option LinuxVfsStat) : LinuxResult :=
  { value := result.1, stat := result.2 }

/-- The calls that do not look into the caches; `none` for the others. -/
def servePlain : LinuxCall → Option (LinuxM LinuxResult)
  | .openat dirfd path flags mode => some (ofFd (openat task dirfd path flags mode))
  | .close n => some (ofValue (close task n))
  | .write n len buf => some (ofValue (write task n len buf))
  | .lseek n offset whence => some (ofValue (lseek task n offset whence))
  | .ftruncate n length => some (ofValue (ftruncate task n length))
  | .truncate dirfd path length => some (ofValue (truncate task dirfd path length))
  | .fstat n => some (do return ofStat (← fstat task n))
  | .readlinkat dirfd path outSize => some (readlinkat task dirfd path outSize)
  | .unlinkat dirfd path flags => some (ofValue (unlinkat task dirfd path flags))
  | .rmdir path => some (ofValue (rmdir task path))
  | .mkdirat dirfd path mode => some (ofValue (mkdirat task dirfd path mode))
  | .mknodat dirfd path mode => some (ofValue (mknodat task dirfd path mode))
  | .symlinkat dirfd target path => some (ofValue (symlinkat task dirfd target path))
  | .renameat2 oldDirfd newDirfd oldPath newPath flags =>
    some (ofValue (renameat2 task oldDirfd newDirfd oldPath newPath flags))
  | .linkat oldDirfd newDirfd oldPath newPath flags =>
    some (ofValue (linkat task oldDirfd newDirfd oldPath newPath flags))
  | .fchmodat dirfd path mode flags => some (ofValue (fchmodat task dirfd path mode flags))
  | .fchmod n mode => some (ofValue (fchmod task n mode))
  | .fchown n uid gid => some (ofValue (fchown task n uid gid))
  | .fchownat dirfd path uid gid flags => some (ofValue (fchownat task dirfd path uid gid flags))
  | .utimensat dirfd path flags times => some (ofValue (utimensat task dirfd path flags times))
  | .chdir path => some (ofValue (chdir task path))
  | .fchdir n => some (ofValue (fchdir task n))
  | .dup oldFd newFd cloexec allowSame => some (ofValue (dup task oldFd newFd cloexec allowSame))
  | .mount target fstype flags => some (ofValue (mount task target fstype flags))
  | .umount path => some (ofValue (umount task path))
  | .setCredentials type args => some (ofValue (user task type args))
  | .fork child => some (ofValue (fork task child))
  | .exec => some (ofValue (exec task))
  | .exit => some (ofValue (exit task))
  | .registerProcess child => some (ofValue (registerProcess child))
  | .read .. | .mmap .. | .sendfile .. | .faccessat .. | .newfstatat .. | .getdents64 .. => none

def serveCached : LinuxCall → CachedM LinuxResult
  | .read n len buf => read task n len buf
  | .mmap n offset len buf => mmapRead task n offset len buf
  | .sendfile outFd inFd len offset buf => sendfile task outFd inFd len offset buf
  | .faccessat dirfd path mode flags => do return { value := ← faccessat task dirfd path mode flags }
  | .newfstatat dirfd path flags => do return ofStat (← newfstatat task dirfd path flags)
  | .getdents64 n len buf => getdents64 task n len buf
  | _ => return { value := -Errno.enosys }

/-- A process is registered by a task that may have none. -/
def registers : LinuxCall → Bool
  | .registerProcess _ => true
  | _ => false

/-- One round of the loop of `main`, for a message of `task`. -/
def serve (call : LinuxCall) : CachedM LinuxResult := do
  let s ← get
  if registers call = false ∧ (s.process task).isNone then return { value := -3 }
  else
    match servePlain task call with
    | some m => m
    | none => serveCached task call

end Linux

end Bunix.User
