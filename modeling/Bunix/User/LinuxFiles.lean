import Bunix.User.LinuxCache
import Bunix.User.VfsServer

/-! # The Linux server: descriptors, opening and reading

The part of `user/linux/main.c` that serves the file system calls of Linux processes by requests to
the VFS. All these requests come from one task, and each names the process it is for in its last word.

What the server asks of the outside is an action; so are the calls of the functions of its caches, so
that the same program can be run with the caches and without. Few calls look into the caches; those
that do not can only make entries invalid. Memory and buffers that cannot be had
are answers of actions too. Debug output is left out, and pipes, sockets and the terminal are devices
of the outside. A buffer of the caller is its bytes.
-/
namespace Bunix.User

open Bunix.Lib Prog Function

namespace Errno

def eperm : Int := 1
def enoent : Int := 2
def eio : Int := 5
def ebadf : Int := 9
def enomem : Int := 12
def eacces : Int := 13
def efault : Int := 14
def ebusy : Int := 16
def eexist : Int := 17
def exdev : Int := 18
def enodev : Int := 19
def enotdir : Int := 20
def eisdir : Int := 21
def einval : Int := 22
def emfile : Int := 24
def enametoolong : Int := 36
def enosys : Int := 38
def enotempty : Int := 39
def eloop : Int := 40

end Errno

def linuxVfsError (status : U64) : Int :=
  if status = VfsErr.access then -Errno.eacces
  else if status = VfsErr.notdir then -Errno.enotdir
  else if status = VfsErr.isdir then -Errno.eisdir
  else if status = VfsErr.exist then -Errno.eexist
  else if status = VfsErr.notempty then -Errno.enotempty
  else if status = VfsErr.xdev then -Errno.exdev
  else if status = VfsErr.inval then -Errno.einval
  else if status = VfsErr.busy then -Errno.ebusy
  else if status = VfsErr.loop then -Errno.eloop
  else -Errno.enoent

/-- The kind of a descriptor; `free` is 0 in the source. -/
inductive FdKind where
  | free
  | console
  | file
  | dir
  | socket
  | pipeRead
  | pipeWrite
deriving DecidableEq, Repr

structure LinuxOpenFile where
  handle : U64
  offset : U64 := 0
  size : U64
  refs : Nat := 1
deriving DecidableEq, Repr

structure LinuxFd where
  handle : U64 := 0
  kind : FdKind := .free
  offset : U64 := 0
  size : U64 := 0
  cloexec : Bool := false
  tmpfile : Bool := false
  statusFlags : U64 := 0
  openFile : Option Nat := none
  path : Path := []
deriving DecidableEq, Repr

structure LinuxProcess where
  pid : U64 := 0
  procPid : U64 := 0
  umask : U64 := 0o022
  cwd : Path := ['/']
  cwdHandle : U64 := 0
  fds : List LinuxFd := []
  lastMmapPageClass : U64 := 0
deriving DecidableEq, Repr

structure LinuxServer where
  self : U64
  /-- `process_by_task`. -/
  process : U64 → Option LinuxProcess := fun _ => none
  openFile : Nat → Option LinuxOpenFile := fun _ => none
  nextOpenFile : Nat := 0
  fileRefs : U64 → Nat := fun _ => 0
  tmpfileCounter : U64 := 0
  nextPid : U64 := 1

inductive LinuxAction where
  /-- `bunix_ipc_call` to the VFS; no reply if it fails. -/
  | vfs (message : VfsMessage)
  /-- Whether there is memory. -/
  | alloc
  /-- Whether a buffer can be created and written. -/
  | buffer
  | readDevice (fd : LinuxFd) (len : U64)
  | writeDevice (fd : LinuxFd) (bytes : List UInt8)
  | closeDevice (fd : LinuxFd)
  | user (task : U64) (type : Nat) (args : List U64)
  /-- A call to a file server, other than the VFS, to mount itself. -/
  | mountCommand (fstype target : Path)
  /-- `linux_realtime_seconds`. -/
  | now
  | noteMutation (path : Option Path)
  | accessClear (task : U64)
  | aheadClear (file : Nat)

def LinuxAction.Result : LinuxAction → Type
  | .vfs _ => Option VfsReply
  | .alloc | .buffer => Bool
  | .readDevice .. => Int × List UInt8
  | .writeDevice .. | .user .. => Int
  | .mountCommand .. => Option U64
  | .now => U64
  | .closeDevice _ | .noteMutation _ | .accessClear _ | .aheadClear _ => Unit

abbrev LinuxM := StateT LinuxServer (Prog LinuxAction LinuxAction.Result)

/-- What the calls with caches do: they look into the caches and put something there. -/
inductive CachedAction where
  | base (a : LinuxAction)
  | accessGet (task : U64) (cwd : Path) (base : U64) (path : Path) (cachePath : Option Path)
      (mode flags : U64)
  | accessPut (task : U64) (cwd : Path) (base : U64) (path : Path) (cachePath : Option Path)
      (mode flags : U64) (result : Int)
  | statGet (task : U64) (cwd : Path) (base : U64) (path : Path) (cachePath : Option Path)
      (nofollow : U64)
  | statPut (task : U64) (cwd : Path) (base : U64) (path : Path) (cachePath : Option Path)
      (nofollow : U64) (result : Int) (stat : Option LinuxVfsStat)
  | readGet (path : Path) (offset len : U64)
  | readPut (path : Path) (offset len : U64) (data : Option (List UInt8))
  | aheadGet (file : Nat) (path : Path) (offset len : U64)
  | aheadPut (file : Nat) (path : Path) (offset : U64) (data : List UInt8)
  | aheadReady (file : Nat)
  | aheadReserve (file : Nat)
  | dirLookup (path : Path)
  | dirClaim
  | dirStore (slot : Nat) (path : Path) (entries : List DirEntry)

def CachedAction.Result : CachedAction → Type
  | .base a => a.Result
  | .accessGet .. => Option Int
  | .statGet .. => Option (Int × Option LinuxVfsStat)
  | .readGet .. | .aheadGet .. => Option (List UInt8)
  | .dirLookup _ => Option (List DirEntry)
  | .aheadReady _ => Bool
  | .dirClaim => Nat
  | .accessPut .. | .statPut .. | .readPut .. | .aheadPut .. | .aheadReserve _ | .dirStore .. => Unit

abbrev CachedM := StateT LinuxServer (Prog CachedAction CachedAction.Result)

/-- The calls without caches as calls that may use them. -/
def liftProg {β : Type} : Prog LinuxAction LinuxAction.Result β → Prog CachedAction CachedAction.Result β
  | .ret b => .ret b
  | .act a k => .act (.base a) fun r => liftProg (k r)

instance : MonadLift LinuxM CachedM := ⟨fun m s => liftProg (m s)⟩

namespace Linux

variable (file : Nat) (path : Path) (task : U64) (cwd : Path) (base : U64)

def vfs (message : VfsMessage) : LinuxM (Option VfsReply) := performT (LinuxAction.vfs message)

def alloc : LinuxM Bool := performT LinuxAction.alloc

def buffer : LinuxM Bool := performT LinuxAction.buffer

def readDevice (fd : LinuxFd) (len : U64) : LinuxM (Int × List UInt8) :=
  performT (LinuxAction.readDevice fd len)

def writeDevice (fd : LinuxFd) (bytes : List UInt8) : LinuxM Int :=
  performT (LinuxAction.writeDevice fd bytes)

def closeDevice (fd : LinuxFd) : LinuxM Unit := performT (LinuxAction.closeDevice fd)

def user (type : Nat) (args : List U64) : LinuxM Int :=
  performT (LinuxAction.user task type args)

def noteMutation (path : Option Path) : LinuxM Unit := performT (LinuxAction.noteMutation path)

def accessGet (path : Path) (cachePath : Option Path) (mode flags : U64) : CachedM (Option Int) :=
  performT (CachedAction.accessGet task cwd base path cachePath mode flags)

def accessPut (path : Path) (cachePath : Option Path) (mode flags : U64) (result : Int) :
    CachedM Unit :=
  performT (CachedAction.accessPut task cwd base path cachePath mode flags result)

def accessClear : LinuxM Unit := performT (LinuxAction.accessClear task)

def statGet (path : Path) (cachePath : Option Path) (nofollow : U64) :
    CachedM (Option (Int × Option LinuxVfsStat)) :=
  performT (CachedAction.statGet task cwd base path cachePath nofollow)

def statPut (path : Path) (cachePath : Option Path) (nofollow : U64) (result : Int)
    (stat : Option LinuxVfsStat) : CachedM Unit :=
  performT (CachedAction.statPut task cwd base path cachePath nofollow result stat)

def readGet (offset len : U64) : CachedM (Option (List UInt8)) :=
  performT (CachedAction.readGet path offset len)

def readPut (offset len : U64) (data : Option (List UInt8)) : CachedM Unit :=
  performT (CachedAction.readPut path offset len data)

def aheadGet (offset len : U64) : CachedM (Option (List UInt8)) :=
  performT (CachedAction.aheadGet file path offset len)

def aheadPut (offset : U64) (data : List UInt8) : CachedM Unit :=
  performT (CachedAction.aheadPut file path offset data)

def aheadReady : CachedM Bool := performT (CachedAction.aheadReady file)

def aheadReserve : CachedM Unit := performT (CachedAction.aheadReserve file)

def aheadClear : LinuxM Unit := performT (LinuxAction.aheadClear file)

def dirLookup : CachedM (Option (List DirEntry)) := performT (CachedAction.dirLookup path)

def dirClaim : CachedM Nat := performT CachedAction.dirClaim

def dirStore (slot : Nat) (path : Path) (entries : List DirEntry) : CachedM Unit :=
  performT (CachedAction.dirStore slot path entries)

def mountCommand (fstype target : Path) : LinuxM (Option U64) :=
  performT (LinuxAction.mountCommand fstype target)

def now : LinuxM U64 := performT LinuxAction.now

end Linux

namespace LinuxServer

variable (s : LinuxServer) (task : U64)

def proc : LinuxProcess := (s.process task).getD {}

def setProc (p : LinuxProcess) : LinuxServer :=
  { s with process := update s.process task (some p) }

/-- A descriptor of a process; one that is out of range counts as one that is free. -/
def fd (n : U64) : LinuxFd := (s.proc task).fds.getD n.toNat {}

def setFd (n : U64) (fd : LinuxFd) : LinuxServer :=
  s.setProc task { s.proc task with fds := (s.proc task).fds.set n.toNat fd }

@[simp] theorem proc_setProc (s : LinuxServer) (task : U64) (p : LinuxProcess) :
    (s.setProc task p).proc task = p := by
  simp [proc, setProc]

theorem fd_setFd (s : LinuxServer) (task n : U64) (fd : LinuxFd) :
    (s.setFd task n fd).fd task n = if n.toNat < (s.proc task).fds.length then fd else {} := by
  unfold LinuxServer.fd setFd
  split
  · rename_i hlt
    simp [List.getD_eq_getElem?_getD, List.getElem?_set_self hlt]
  rename_i hle
  simp only [List.getD_eq_getElem?_getD]
  rw [List.getElem?_eq_none (by simpa using hle)]
  rfl

theorem fd_of_le (s : LinuxServer) (task n : U64) (h : (s.proc task).fds.length ≤ n.toNat) :
    s.fd task n = {} := by
  simp [LinuxServer.fd, List.getD_eq_getElem?_getD, h]

def fileOf (fd : LinuxFd) : Option LinuxOpenFile := fd.openFile.bind s.openFile

def setOpenFile (file : Nat) (o : Option LinuxOpenFile) : LinuxServer :=
  { s with openFile := update s.openFile file o }

def fdOffset (fd : LinuxFd) : U64 :=
  match s.fileOf fd with
  | some o => o.offset
  | none => fd.offset

def fdSize (fd : LinuxFd) : U64 :=
  match s.fileOf fd with
  | some o => o.size
  | none => fd.size

/-- `linux_open_file_ref_add` on the open file of a descriptor. -/
def openFileRefAdd (fd : LinuxFd) : LinuxServer :=
  match fd.openFile, s.fileOf fd with
  | some file, some o => s.setOpenFile file (some { o with refs := o.refs + 1 })
  | _, _ => s

def fdSetOffset (n offset : U64) : LinuxServer :=
  let fd := s.fd task n
  let s := s.setFd task n { fd with offset }
  match fd.openFile, s.fileOf fd with
  | some file, some o => s.setOpenFile file (some { o with offset })
  | _, _ => s

def fdSetSize (n size : U64) : LinuxServer :=
  let fd := s.fd task n
  match fd.openFile, s.fileOf fd with
  | some file, some o =>
    let offset := if size < o.offset then size else o.offset
    (s.setFd task n { fd with size, offset }).setOpenFile file (some { o with size, offset })
  | _, _ => s.setFd task n { fd with size, offset := if size < fd.offset then size else fd.offset }

end LinuxServer

/-! ## Paths -/

def nameMax : Nat := 255

def linuxCheckNameMax (path : Path) : Bool := (components path).all fun c => c.length ≤ nameMax

/-- `linux_read_path_arg`, of a string that the caller has put into a buffer; `none` if the buffer
cannot be read. -/
def linuxReadPathArg (arg : Option Path) : Except Int Path :=
  match arg with
  | none => .error (-Errno.efault)
  | some path =>
    if maxPath ≤ path.length then .error (-Errno.enametoolong)
    else if path = [] then .error (-Errno.enoent)
    else if linuxCheckNameMax path then .ok path
    else .error (-Errno.enametoolong)

def pathNormalize (cwd input : Path) : Except Int Path :=
  if input = [] then .error (-Errno.einval)
  else
    let start := if input.head? = some '/' ∨ cwd = [] then ['/'] else cwd.take (maxPath - 1)
    match (components input).foldlM
        (fun path c => if nameMax < c.length then none else appendComponent path c) start with
    | some path => .ok path
    | none => .error (-Errno.enametoolong)

def linuxPathJoinChild (dir name : Path) : Except Int Path :=
  if dir = [] ∨ name = [] then .error (-Errno.einval)
  else
    let path := if dir = ['.'] then name
      else if dir.getLast? = some '/' then dir ++ name else dir ++ '/' :: name
    if path.length < maxPath ∧ linuxCheckNameMax path = true then .ok path
    else .error (-Errno.enametoolong)

def atFdcwd : U64 := -100

def LinuxServer.cachePathForDirfd (s : LinuxServer) (task dirfd : U64) (path : Path) :
    Option Path :=
  let base :=
    if path.head? = some '/' ∨ dirfd = atFdcwd then some (s.proc task).cwd
    else
      let fd := s.fd task dirfd
      if fd.kind ≠ .dir ∨ fd.path.head? ≠ some '/' then none else some fd.path
  base.bind fun base => (pathNormalize base path).toOption

/-! ## Requests to the VFS -/

def zeroChar : Char := Char.ofNat 0

/-- A buffer with strings one after the other. -/
def stringsBuffer (strings : List Path) (offset len : U64) : Option Path :=
  let bytes := strings.flatMap fun string => string ++ [zeroChar]
  let slice := (bytes.drop offset.toNat).take len.toNat
  if bytes.length < offset.toNat + len.toNat ∨ slice.getLast? ≠ some zeroChar then none
  else some (slice.takeWhile (· ≠ zeroChar))

def bytesBuffer (bytes : List UInt8) (offset len : U64) : Option Path :=
  if bytes.length < offset.toNat + len.toNat then none
  else some (bytesPath ((bytes.drop offset.toNat).take len.toNat))

namespace LinuxServer

/-- The message of `linux_vfs_path_call_word3`, and of the calls that take an answer in the buffer. -/
def pathMessage (s : LinuxServer) (task : U64) (type : VfsOp) (base : U64) (path : Path) (word3 : U64)
    (send : Bool) : VfsMessage where
  type
  sender := s.self
  send
  buffer := some (stringsBuffer [(s.proc task).cwd, path])
  word0 := stringLen (s.proc task).cwd
  word1 := stringLen path
  word2 := base
  word3

/-- A message about an open file, with a buffer of the server for the answer or without one. -/
def handleMessage (s : LinuxServer) (type : VfsOp) (handle word1 word2 word3 : U64)
    (buffer : Option (U64 → U64 → Option Path)) (recv send : Bool) : VfsMessage where
  type
  sender := s.self
  recv
  send
  buffer
  word0 := handle
  word1
  word2
  word3

/-- Both strings fit into the buffers of the source. -/
def pathsFit (s : LinuxServer) (task : U64) (paths : List Path) : Bool :=
  ((s.proc task).cwd :: paths).all fun path => path.length < maxPath

end LinuxServer

namespace Linux

variable (task : U64) (type : VfsOp) (base : U64)

def vfsPathCallWord3 (path : Path) (word3 : U64) : LinuxM (Option VfsReply) := do
  let s ← get
  let created ← buffer
  if created = false ∨ s.pathsFit task [path] = false then return none
  else vfs (s.pathMessage task type base path word3 false)

def vfsPathCallFlags (path : Path) (flags : U64) : LinuxM (Option VfsReply) :=
  vfsPathCallWord3 task type base path (task ||| (flags <<< 32))

def vfsPathCall (path : Path) : LinuxM (Option VfsReply) := do
  let s ← get
  vfsPathCallWord3 task type base path
    (if type = .openBuffer then task ||| (low32 (s.proc task).procPid <<< 32) else task)

/-- A request about an open file without a buffer. -/
def vfsHandleCall (handle word1 word2 word3 : U64) : LinuxM (Option VfsReply) := do
  let s ← get
  vfs (s.handleMessage type handle word1 word2 word3 none false false)

/-- `linux_close_raw_vfs_handle`, whose result is not looked at. -/
def closeRawVfsHandle (handle : U64) : LinuxM Unit := do
  if handle = 0 then return ()
  else
    let _ ← vfsHandleCall .close handle 0 0 0
    return ()

def fileRefAdd (handle : U64) : LinuxM Unit := do
  if handle = 0 then return ()
  else modify fun s => { s with fileRefs := update s.fileRefs handle (s.fileRefs handle + 1) }

/-- `linux_close_vfs_handle`: the handle is closed with its last reference. -/
def closeVfsHandle (handle : U64) : LinuxM Unit := do
  let s ← get
  if handle = 0 then return ()
  else if 1 < s.fileRefs handle then
    set { s with fileRefs := update s.fileRefs handle (s.fileRefs handle - 1) }
  else
    set { s with fileRefs := update s.fileRefs handle 0 }
    closeRawVfsHandle handle

/-- `linux_ensure_cwd_handle`: whether there is one. -/
def ensureCwdHandle : LinuxM Bool := do
  let s ← get
  if (s.proc task).cwdHandle ≠ 0 then return true
  else
    match ← vfsPathCall task .openBuffer 0 ['/'] with
    | none => return false
    | some reply =>
      if reply.status ≠ 0 ∨ reply.word3 ≠ VfsType.directory.code then return false
      else
        modify fun s => s.setProc task { s.proc task with cwdHandle := reply.word1 }
        fileRefAdd reply.word1
        return true

def dirfdBaseHandle (dirfd : U64) (path : Path) : LinuxM (Except Int U64) := do
  if path.head? = some '/' then return .ok 0
  else if dirfd = atFdcwd then
    if ← ensureCwdHandle task then
      let s ← get
      return .ok (s.proc task).cwdHandle
    else return .error (-Errno.enoent)
  else
    let s ← get
    let fd := s.fd task dirfd
    if fd.kind = .free then return .error (-Errno.ebadf)
    else if fd.kind ≠ .dir then return .error (-Errno.enotdir)
    else return .ok fd.handle

/-! ## Descriptors -/

/-- The loop of `linux_process_ensure_fds`, which doubles the capacity. -/
def fdCapacity (count : Nat) : Nat → Nat → Nat
  | 0, capacity => capacity
  | fuel + 1, capacity =>
    if capacity = 0 then fdCapacity count fuel 16
    else if capacity < count then fdCapacity count fuel (2 * capacity)
    else capacity

def allocFd (kind : FdKind) (handle size : U64) : LinuxM (Except Int U64) := do
  let s ← get
  let fds := (s.proc task).fds
  let fd : LinuxFd := { kind, handle, size }
  match fds.findIdx? fun fd => fd.kind == .free with
  | some n =>
    set (s.setProc task { s.proc task with fds := fds.set n fd })
    return .ok (BitVec.ofNat 64 n)
  | none =>
    if ← alloc then
      let more := List.replicate (fdCapacity (fds.length + 1) 64 fds.length - fds.length - 1) ({} : LinuxFd)
      set (s.setProc task { s.proc task with fds := fds ++ fd :: more })
      return .ok (BitVec.ofNat 64 fds.length)
    else return .error (-Errno.emfile)

/-- `linux_fd_open_file_create`: whether there is memory. -/
def fdOpenFileCreate (n handle size : U64) : LinuxM Bool := do
  if ← alloc then
    let s ← get
    let file := s.nextOpenFile
    set ({ s.setFd task n { s.fd task n with handle, offset := 0, size, openFile := some file } with
      nextOpenFile := file + 1 }.setOpenFile file (some { handle, size }))
    aheadClear file
    return true
  else return false

def unlinkHiddenPath (path : Path) : LinuxM Unit := do
  if path = [] then return ()
  else
    match ← vfsPathCallWord3 task .unlinkBuffer 0 path task with
    | none => return ()
    | some reply =>
      if reply.status = 0 then noteMutation (if path.head? = some '/' then some path else none)
      else return ()

/-- `linux_open_file_ref_drop`: whether it returns 0. -/
def openFileRefDrop (n : U64) : LinuxM Bool := do
  let s ← get
  let fd := s.fd task n
  match fd.openFile, s.fileOf fd with
  | some file, some o =>
    let s := s.setFd task n { fd with openFile := none }
    if 1 < o.refs then
      set (s.setOpenFile file (some { o with refs := o.refs - 1 }))
      return true
    else
      set (s.setOpenFile file none)
      match ← vfsHandleCall .close o.handle 0 0 0 with
      | none => return false
      | some reply => return reply.status == 0
  | _, _ => return true

def close (n : U64) : LinuxM Int := do
  let s ← get
  let fd := s.fd task n
  if fd.kind = .free then return -Errno.ebadf
  else if fd.kind = .file ∨ fd.kind = .dir then
    if fd.tmpfile = true ∧ (s.fileOf fd).any (fun o => o.refs ≤ 1) then unlinkHiddenPath task fd.path
    if ← openFileRefDrop task n then
      modify fun s => s.setFd task n {}
      return 0
    else return -Errno.eio
  else
    closeDevice fd
    modify fun s => s.setFd task n {}
    return 0

/-! ## Opening -/

def oAccmode : U64 := 3
def oCreat : U64 := 0o100
def oExcl : U64 := 0o200
def oTrunc : U64 := 0o1000
def oAppend : U64 := 0o2000
def oNofollow : U64 := 0o400000
def oDirectory : U64 := 0o200000
def oCloexec : U64 := 0o2000000
def oTmpfileBit : U64 := 0o20000000
def oTmpfile : U64 := 0o20200000
def oTmpfileMask : U64 := 0o20300000

/-- The task, and the permissions of a new file. -/
def createWord (mode umask : U64) : U64 := task ||| (((mode &&& ~~~umask) &&& 0o777) <<< 32)

def consolePath (path : Path) : Bool :=
  ["/dev/tty".toList, "/dev/ttyS0".toList, "/dev/console".toList].contains path

def tmpfileName (pid serial : U64) : Path :=
  ".bunix-tmpfile.".toList ++ Nat.toDigits 10 pid.toNat ++ '.' :: Nat.toDigits 10 serial.toNat

/-- The end of opening a file of any kind: the descriptor for the handle of the VFS. `hidden` is the
path of a temporary file. -/
def openFd (kind : FdKind) (reply : VfsReply) (key hidden : Option Path) (flags : U64) :
    LinuxM (Except Int U64) := do
  match ← allocFd task kind reply.word1 reply.word2 with
  | .error error =>
    closeRawVfsHandle reply.word1
    if let some path := hidden then unlinkHiddenPath task path
    return .error error
  | .ok n =>
    if ← fdOpenFileCreate task n reply.word1 reply.word2 then
      modify fun s =>
        let fd := s.fd task n
        s.setFd task n { fd with
          path := key.getD fd.path, tmpfile := hidden.isSome
          cloexec := flags &&& oCloexec ≠ 0, statusFlags := flags &&& (oAccmode ||| oAppend) }
      return .ok n
    else
      closeRawVfsHandle reply.word1
      let _ ← close task n
      if let some path := hidden then unlinkHiddenPath task path
      return .error (-Errno.emfile)

/-- One round of the loop of `linux_open_tmpfile`, once a name has been created: the file is opened. -/
def reopenTmpfile (tmpPath tmpKey : Path) (flags : U64) : LinuxM (Except Int U64) := do
  match ← vfsPathCall task .openBuffer base tmpPath with
  | none =>
    unlinkHiddenPath task tmpKey
    return .error (-Errno.eio)
  | some reply =>
    if reply.status ≠ 0 then
      unlinkHiddenPath task tmpKey
      return .error (linuxVfsError reply.status)
    else if reply.word3 ≠ VfsType.regular.code then
      closeRawVfsHandle reply.word1
      unlinkHiddenPath task tmpKey
      return .error (-Errno.eio)
    else openFd task .file reply (some tmpKey) (some tmpKey) flags

/-- The loop of `linux_open_tmpfile`. -/
def tmpfileLoop (task base : U64) (path key : Path) (flags mode : U64) : Nat → LinuxM (Except Int U64)
  | 0 => return .error (-Errno.eexist)
  | attempts + 1 => do
    modify fun s => { s with tmpfileCounter := s.tmpfileCounter + 1 }
    let s ← get
    let name := tmpfileName (s.proc task).pid s.tmpfileCounter
    match linuxPathJoinChild path name, linuxPathJoinChild key name with
    | .ok tmpPath, .ok tmpKey =>
      match ← vfsPathCallWord3 task .createBuffer base tmpPath (createWord task mode (s.proc task).umask) with
      | none => return .error (-Errno.eio)
      | some reply =>
        if reply.status = VfsErr.exist then tmpfileLoop task base path key flags mode attempts
        else if reply.status ≠ 0 then return .error (linuxVfsError reply.status)
        else
          noteMutation (some tmpKey)
          reopenTmpfile task base tmpPath tmpKey flags
    | .error error, _ => return .error error
    | _, .error error => return .error error

def openTmpfile (path : Path) (base flags mode : U64) (key : Option Path) :
    LinuxM (Except Int U64) := do
  if flags &&& oAccmode = 0 then return .error (-Errno.einval)
  else
    match key.filter (· ≠ []) with
    | none => return .error (-Errno.enoent)
    | some key =>
      match ← vfsPathCall task .openBuffer base path with
      | none => return .error (-Errno.enoent)
      | some reply =>
        if reply.status ≠ 0 then return .error (linuxVfsError reply.status)
        else
          closeRawVfsHandle reply.word1
          if reply.word3 ≠ VfsType.directory.code then return .error (-Errno.enotdir)
          else tmpfileLoop task base path key flags mode 32

/-- Whether `linux_openat` finds a symbolic link where it must not follow one. -/
def openNofollow (path : Path) (flags : U64) : LinuxM Bool := do
  if flags &&& oNofollow = 0 then return false
  else
    match ← vfsPathCallFlags task .statPathMetaBuffer base path 1 with
    | none => return false
    | some reply => return reply.status == 0 && high32 reply.word2 == VfsType.symlink.code

/-- The reply to the request to open a file, which is created if it may be. -/
def openOrCreate (path : Path) (key : Option Path) (flags mode : U64) :
    LinuxM (Except Int VfsReply) := do
  match ← vfsPathCall task .openBuffer base path with
  | none => return .error (-Errno.enoent)
  | some reply =>
    if reply.status = 0 ∧ flags &&& (oCreat ||| oExcl) = oCreat ||| oExcl then
      closeRawVfsHandle reply.word1
      return .error (-Errno.eexist)
    else if reply.status = VfsErr.noent ∧ flags &&& oCreat ≠ 0 then
      let s ← get
      match ← vfsPathCallWord3 task .createBuffer base path (createWord task mode (s.proc task).umask) with
      | none => return .error (-Errno.eio)
      | some reply =>
        if reply.status ≠ 0 then return .error (linuxVfsError reply.status)
        else
          noteMutation key
          match ← vfsPathCall task .openBuffer base path with
          | none => return .error (-Errno.eio)
          | some reply => return if reply.status ≠ 0 then .error (linuxVfsError reply.status) else .ok reply
    else if reply.status ≠ 0 then return .error (linuxVfsError reply.status)
    else return .ok reply

def ftruncate (n length : U64) : LinuxM Int := do
  let s ← get
  let fd := s.fd task n
  if length >>> 63 ≠ 0 then return -Errno.einval
  else if fd.kind = .free then return -Errno.ebadf
  else if fd.kind ≠ .file then return -Errno.einval
  else
    match ← vfsHandleCall .truncate fd.handle length 0 task with
    | none => return -Errno.eio
    | some reply =>
      if reply.status ≠ 0 then return linuxVfsError reply.status
      else
        if let some file := fd.openFile then aheadClear file
        modify fun s => s.fdSetSize task n length
        noteMutation (if fd.path = [] then none else some fd.path)
        return 0

/-- The end of `linux_openat`, for a file that the VFS has opened. -/
def openReply (reply : VfsReply) (key : Option Path) (flags : U64) : LinuxM (Except Int U64) := do
  let isDir := reply.word3 = VfsType.directory.code
  if flags &&& oDirectory ≠ 0 ∧ ¬isDir then
    closeRawVfsHandle reply.word1
    return .error (-Errno.enotdir)
  else if isDir ∧ (flags &&& oAccmode ≠ 0 ∨ flags &&& oTrunc ≠ 0) then
    closeRawVfsHandle reply.word1
    return .error (-Errno.eisdir)
  else if key.any consolePath then
    -- the handle of a console is not looked at
    let fd ← allocFd task .console 0 0
    closeVfsHandle reply.word1
    return fd
  else
    match ← openFd task (if isDir then .dir else .file) reply key none flags with
    | .error error => return .error error
    | .ok n =>
      if flags &&& oTrunc ≠ 0 ∧ flags &&& oAccmode ≠ 0 ∧ ¬isDir then
        let result ← ftruncate task n 0
        if result ≠ 0 then
          let _ ← close task n
          return .error result
        else return .ok n
      else return .ok n

def openat (dirfd : U64) (arg : Option Path) (flags mode : U64) : LinuxM (Except Int U64) := do
  match linuxReadPathArg arg with
  | .error error => return .error error
  | .ok path =>
    let s ← get
    match pathNormalize (s.proc task).cwd path with
    | .error error => return .error error
    | .ok fullPath =>
      match ← dirfdBaseHandle task dirfd path with
      | .error error => return .error error
      | .ok base =>
        let s ← get
        let key := (s.cachePathForDirfd task dirfd path).or
          (if path.head? = some '/' ∨ dirfd = atFdcwd then some fullPath else none)
        if flags &&& oTmpfileBit ≠ 0 ∧ flags &&& oTmpfileMask ≠ oTmpfile then
          return .error (-Errno.einval)
        else if flags &&& oTmpfileMask = oTmpfile then openTmpfile task path base flags mode key
        else if ← openNofollow task base path flags then return .error (-Errno.eloop)
        else
          match ← openOrCreate task base path key flags mode with
          | .error error => return .error error
          | .ok reply => openReply task reply key flags

end Linux

end Bunix.User
