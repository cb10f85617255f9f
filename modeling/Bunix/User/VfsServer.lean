import Bunix.Lib.Performs
import Bunix.User.Vfs

/-! # The VFS server

The loop of `user/vfs/main.c`. Requests with paths are resolved to a mount and forwarded to the file
server there; requests with a handle go to the server that opened it. A file server takes the task
that a request is made for, its subject, from the low half of the last word: the VFS may name any.

What the server asks of the outside is an action: calls to file servers, buffers and memory. Debug
output, the console, and the closing of buffers have no effect here. Paths are strings without their
zero; those in the arrays of the source are always shorter than `VFS_MAX_PATH`.
-/
namespace Bunix.User

open Bunix.Lib Prog

inductive VfsOp where
  | openBuffer | statPathMetaBuffer | accessBuffer | createBuffer | chmodBuffer | chownBuffer
  | mkdirBuffer | rmdirBuffer | unlinkBuffer | utimensBuffer | mknodBuffer | symlinkBuffer
  | renameBuffer | linkBuffer | chmod | chown | truncate | readlinkBuffer | statMeta
  | readFileBuffer | mmapPageBuffer | writeFileBuffer | readdirBuffer | close
  | grantAdminTask | grantSubjectTask | mountBuffer | resolveMountBuffer | pinRouteBuffer
  | unpinRoute | unmountBuffer
  | other (code : U32)
deriving DecidableEq, Repr

/-- `BUNIX_SERVICE_PROCFS` and `BUNIX_SERVICE_UNIONFS`. -/
def serviceProcfs : U64 := 0x30534650
def serviceUnionfs : U64 := 0x4f494e55

/-- A request as the VFS receives it. `buffer` reads a string at an offset with its length, from the
buffer that comes with it. -/
structure VfsMessage where
  type : VfsOp
  sender : U64
  recv : Bool := true
  send : Bool := true
  buffer : Option (U64 → U64 → Option Path) := none
  word0 : U64 := 0
  word1 : U64 := 0
  word2 : U64 := 0
  word3 : U64 := 0

/-- The buffer of a forwarded request: none, that of the client, or a new one with strings and with
room for an answer. -/
inductive FsBuffer where
  | none
  | client
  | fresh (strings : List Path) (payload : Option Path) (room : U64)
deriving DecidableEq, Repr

structure FsRequest where
  type : VfsOp
  recv : Bool := false
  send : Bool := false
  buffer : FsBuffer := .none
  word0 : U64 := 0
  word1 : U64 := 0
  word2 : U64 := 0
  word3 : U64 := 0
deriving DecidableEq, Repr

inductive VfsAction where
  /-- `bunix_ipc_call`; no reply if it fails. -/
  | call (service : U64) (request : FsRequest)
  /-- Whether a buffer of a size can be created and written. -/
  | createBuffer (size : U64)
  /-- Whether an answer could be copied to the buffer of the client. -/
  | copyOut (offset len : U64)
  /-- Whether there is memory for a `vfs_open` and its path. -/
  | allocOpen
  /-- Whether there is memory for an entry of another table. -/
  | alloc
  /-- `resolve_service`. -/
  | resolveService (service : U64)
  /-- `notify_procfs_mount_event`, whose message goes to procfs only. -/
  | notifyProcfs (service : U64) (path : Path) (mounted : Bool)
deriving DecidableEq, Repr

def VfsAction.Result : VfsAction → Type
  | .call .. => Option VfsReply
  | .createBuffer _ | .copyOut .. | .allocOpen | .alloc => Bool
  | .resolveService _ => U64
  | .notifyProcfs .. => Unit

structure VfsMount where
  path : Path
  id : U64
  service : U64
  fstype : U64
  pins : Nat := 0
deriving DecidableEq, Repr

structure VfsRoutePin where
  owner : U64
  mountId : U64
deriving DecidableEq, Repr

structure VfsOpen where
  owner : U64
  service : U64
  remoteHandle : U64
  path : Path
  type : U64
deriving DecidableEq, Repr

structure VfsServer where
  mounts : List VfsMount := []
  resolvedPaths : List (Path × Path) := []
  admins : List U64 := []
  subjectIssuers : List U64 := []
  routePins : List (U64 × VfsRoutePin) := []
  openFiles : List (U64 × VfsOpen) := []
  nextOpenId : U64 := 1
  nextMountId : U64 := 1
  nextRoutePinId : U64 := 1
  adminGrantor : U64 := 0
  subjectGrantor : U64 := 0
deriving DecidableEq, Repr

abbrev VfsM := StateT VfsServer (Prog VfsAction VfsAction.Result)

variable (mount : VfsMount) (s : VfsServer) (message : VfsMessage) (path : Path) (task : U64)

def ipcCall (service : U64) (request : FsRequest) : VfsM (Option VfsReply) :=
  performT (VfsAction.call service request)

def createBuffer (size : U64) : VfsM Bool := performT (VfsAction.createBuffer size)

def copyOut (offset len : U64) : VfsM Bool := performT (VfsAction.copyOut offset len)

def allocOpen : VfsM Bool := performT VfsAction.allocOpen

def alloc : VfsM Bool := performT VfsAction.alloc

def notify (service : U64) (path : Path) (mounted : Bool) : VfsM Unit :=
  performT (VfsAction.notifyProcfs service path mounted)

def resolveService (service : U64) : VfsM U64 := performT (VfsAction.resolveService service)

/-! ## Subjects -/

def low32 (word : U64) : U64 := word &&& 0xffffffff

def high32 (word : U64) : U64 := word >>> 32

namespace VfsServer

def senderIsAdmin (sender : U64) : Bool := sender != 0 && s.admins.contains sender

def senderIsSubjectIssuer (sender : U64) : Bool :=
  sender != 0 && s.subjectIssuers.contains sender

def messageSubject : U64 :=
  if message.sender = 0 then 0
  else if s.senderIsSubjectIssuer message.sender then low32 message.word3
  else low32 message.sender

end VfsServer

def messageSetSubject (subject : U64) : VfsMessage :=
  { message with word3 := (message.word3 &&& 0xffffffff00000000) ||| low32 subject }

/-! ## Paths -/

/-- The loop of `vfs_resolve_path` that goes back to a slash, on the reversed path. -/
def backToSlash : Path → Path
  | c :: d :: rest => if c = '/' then c :: d :: rest else backToSlash (d :: rest)
  | rest => rest

/-- What `..` does to the reversed path. -/
def dropComponent (rev : Path) : Path :=
  match rev with
  | c :: d :: rest =>
    match backToSlash (if c = '/' then d :: rest else rev) with
    | '/' :: e :: rest => e :: rest
    | rest => rest
  | _ => rev

/-- The components of a path, without empty ones. -/
def components : List Path := (path.splitOn '/').filter fun c => c ≠ []

/-- One component of `vfs_resolve_path`; `none` when there is no room. -/
def appendComponent (component : Path) : Option Path :=
  if component = ['.'] then some path
  else if component = ['.', '.'] then some (dropComponent path.reverse).reverse
  else
    let path := if 1 < path.length then path ++ ['/'] else path
    if path.length < maxPath ∧ path.length + component.length < maxPath then some (path ++ component)
    else none

def vfsResolvePath (cwd input : Path) : Option Path :=
  if input = [] ∨ cwd.head? ≠ some '/' then none
  else (components input).foldlM appendComponent
    (if input.head? = some '/' then ['/'] else cwd.take (maxPath - 1))

def vfsPathIsAtOrUnder (dir : Path) : Bool :=
  if dir = [] then false
  else if dir = ['/'] then path.head? == some '/'
  else dir.isPrefixOf path && (path.drop dir.length).head?.all (· == '/')

def pathDirname : Path :=
  match (path.reverse.dropWhile (· ≠ '/')).reverse with
  | [] | [_] => ['/']
  | dir => dir.dropLast

def pathJoinSuffix (suffix : Path) : Option Path :=
  if suffix = [] then some path
  else
    let combined := if path = ['/'] then '/' :: suffix.drop 1 else path ++ suffix
    if combined.length < maxPath then vfsResolvePath ['/'] combined else none

/-- The length of a string with its zero, as a word. -/
def stringLen : U64 := BitVec.ofNat 64 (path.length + 1)

def VfsMessage.readPath (offset len : U64) : Option Path :=
  match message.buffer with
  | none => none
  | some read =>
    if len = 0 ∨ BitVec.ofNat 64 maxPath < len then none
    else (read offset len).filter fun path => path.length < maxPath

namespace VfsServer

def openFromMessage : Option VfsOpen :=
  (s.openFiles.lookup message.word0).filter fun file => file.owner == message.sender

def vfsResolveWithBase (base owner : U64) (cwd input : Path) : Except U64 Path :=
  if input.head? = some '/' ∨ base = 0 then
    match vfsResolvePath cwd input with
    | some path => .ok path
    | none => .error VfsErr.fail
  else
    match s.openFiles.lookup base with
    | none => .error VfsErr.notdir
    | some file =>
      if file.owner ≠ owner ∨ file.type ≠ VfsType.directory.code then .error VfsErr.notdir
      else match vfsResolvePath file.path input with
        | some path => .ok path
        | none => .error VfsErr.fail

/-- What every request with one path does first: current directory and path are in the buffer. -/
def requestPath : Except U64 Path :=
  if message.recv = false then .error VfsErr.fail
  else match message.readPath 0 message.word0, message.readPath message.word0 message.word1 with
    | some cwd, some input => s.vfsResolveWithBase message.word2 message.sender cwd input
    | _, _ => .error VfsErr.fail

/-- One round of `mount_for_path`. -/
def betterMount (best : Option VfsMount) (mount : VfsMount) : Option VfsMount :=
  let bestLen := match best with
    | none => 0
    | some best => best.path.length
  if mount.path.length < bestLen ∨ vfsPathIsAtOrUnder path mount.path = false then best else some mount

def mountForPath : Option VfsMount :=
  s.mounts.foldl (betterMount path) none

end VfsServer

def mountResolvesOwnPaths : Bool := mount.fstype == serviceProcfs

/-! ## Tables -/

/-- The loops over `next_open_id`, `next_mount_id` and `next_route_pin_id`: the next number that is
not 0 and not in use, and the counter behind it. One round more than there are numbers in use is
always enough. -/
def freshId (used : List U64) : Nat → U64 → U64 × U64
  | 0, next => (next, next + 1)
  | fuel + 1, next =>
    if next = 0 ∨ next ∈ used then freshId used fuel (next + 1) else (next, next + 1)

def resolvedCacheKey (path : Path) : Option Path :=
  let key := Nat.toDigits 10 task.toNat ++ ':' :: path
  if path.head? = some '/' ∧ key.length < maxPath then some key else none

def resolvedCacheLookup (path : Path) : VfsM (Option Path) := do
  let s ← get
  return (resolvedCacheKey task path).bind fun key => s.resolvedPaths.lookup key

def resolvedCacheInsert (path resolved : Path) : VfsM Unit := do
  let s ← get
  match resolvedCacheKey task path with
  | none => return ()
  | some key =>
    if (s.resolvedPaths.lookup key).isSome then return ()
    else if ← alloc then
      set { s with resolvedPaths := (key, resolved) :: s.resolvedPaths }
    else return ()

def resolvedCacheClear : VfsM Unit := modify fun s => { s with resolvedPaths := [] }

/-- `open_remote_file`; `none`, which is 0 in the source, if there is no room. -/
def openRemoteFile (owner service remoteHandle : U64) (path : Path) (type : U64) :
    VfsM (Option U64) := do
  if service = 0 ∨ remoteHandle = 0 then return none
  else if ← allocOpen then
    let s ← get
    let (handle, nextOpenId) := freshId (s.openFiles.map Prod.fst) (s.openFiles.length + 1) s.nextOpenId
    set { s with
      nextOpenId, openFiles := (handle, { owner, service, remoteHandle, path, type }) :: s.openFiles }
    return some handle
  else return none

def forgetOpenFile (handle : U64) : VfsM Unit :=
  modify fun s => { s with openFiles := s.openFiles.filter fun e => e.1 != handle }

/-! ## Forwarding -/

/-- `forward_mount_path`: whether it returns 0, and the reply. A file that cannot be recorded is
closed again. -/
def forwardMountPath (owner : U64) (request : FsRequest) (path : Path) :
    VfsM (Bool × VfsReply) := do
  if mount.service = 0 then return (false, .error VfsErr.noent)
  else
    match ← ipcCall mount.service request with
    | none => return (false, .error VfsErr.fail)
    | some reply =>
      if request.type = .openBuffer ∧ reply.status = 0 then
        match ← openRemoteFile owner mount.service reply.word1 path reply.word3 with
        | none =>
          let _ ← ipcCall mount.service { type := .close, word0 := reply.word1 }
          return (false, { reply with status := VfsErr.fail })
        | some handle => return (true, { reply with word1 := handle })
      else return (true, reply)

/-- What an answer that does not fit, or that cannot be copied to the client, makes of a reply. -/
def copyAnswer (room offset len : U64) (reply : VfsReply) : VfsM VfsReply := do
  if message.buffer.isNone ∨ message.send = false ∨ room < len then
    return { reply with status := VfsErr.fail }
  else if len = 0 then return reply
  else if ← copyOut offset len then return reply
  else return { reply with status := VfsErr.fail }

def vfsStatBytes : U64 := 96

/-- The room that the answer to a request needs in the buffer. -/
def VfsMessage.outCap : U64 :=
  if message.type = .readlinkBuffer then high32 message.word3
  else if message.type = .statPathMetaBuffer ∧ message.send = true then vfsStatBytes
  else 0

/-- The times that stand behind the path of a request to set them. -/
def VfsMessage.payload : Option Path :=
  if message.recv then message.buffer.bind fun read => read (message.word0 + message.word1) 16 else none

def bufferPathRequest : FsRequest where
  type := message.type
  recv := true
  send := message.outCap != 0
  buffer := .fresh [['/'], path] (if message.type = .utimensBuffer then message.payload else none)
    message.outCap
  word0 := 2
  word1 := stringLen path
  word2 := if message.type = .chownBuffer then message.word2 else 0
  word3 := if message.type = .readlinkBuffer then low32 message.word3 ||| (message.outCap <<< 32)
    else message.word3

def forwardMountBufferPath : VfsM VfsReply := do
  let payloadLen : U64 := if message.type = .utimensBuffer then 16 else 0
  let created ← createBuffer (2 + stringLen path + payloadLen + message.outCap)
  if (message.type = .utimensBuffer ∧ message.payload = none) ∨ created = false then
    return .error VfsErr.fail
  else
    let (ok, reply) ← forwardMountPath mount message.sender (bufferPathRequest message path) path
    if ok = true ∧ reply.status = 0 ∧ message.outCap ≠ 0 then
      let written := if message.type = .readlinkBuffer then reply.word3 else vfsStatBytes
      copyAnswer message message.outCap (message.word0 + message.word1) written reply
    else return reply

def forwardMountSymlinkPath (target path : Path) : VfsM VfsReply := do
  if ← createBuffer (stringLen target + 2 + stringLen path) then
    let (_, reply) ← forwardMountPath mount message.sender {
      type := message.type, recv := true, buffer := .fresh [target, ['/'], path] none 0
      word0 := stringLen target, word1 := 2, word2 := stringLen path
      word3 := low32 message.word3 } path
    return reply
  else return .error VfsErr.fail

def forwardMountTwoPath (oldPath newPath : Path) : VfsM VfsReply := do
  if ← createBuffer (2 + stringLen oldPath + 2 + stringLen newPath) then
    let (_, reply) ← forwardMountPath mount message.sender {
      type := message.type, recv := true, buffer := .fresh [['/'], oldPath, ['/'], newPath] none 0
      word0 := 0, word1 := 2 ||| (stringLen oldPath <<< 32), word2 := 2 ||| (stringLen newPath <<< 32)
      word3 := message.word3 } newPath
    return reply
  else return .error VfsErr.fail

/-- A request for directory entries; the capacity of the buffer of the client is in the word that
holds the subject. -/
def readdirRequest (remoteHandle : U64) : FsRequest where
  type := message.type
  send := true
  buffer := .fresh [] none (minU64 message.word3 (BitVec.ofNat 64 maxPath))
  word0 := remoteHandle
  word1 := message.word1
  word3 := minU64 message.word3 (BitVec.ofNat 64 maxPath)

def handleRequest (remoteHandle : U64) : FsRequest where
  type := message.type
  recv := message.recv
  send := message.send
  buffer := if message.buffer.isSome then .client else .none
  word0 := remoteHandle
  word1 := message.word1
  word2 := message.word2
  word3 := message.word3

def forwardRemoteHandle (file : VfsOpen) (message : VfsMessage) : VfsM (Bool × VfsReply) := do
  let s ← get
  if file.service = 0 ∨ file.remoteHandle = 0 then return (false, .error VfsErr.fail)
  else
    let message := messageSetSubject message (s.messageSubject message)
    if message.type = .readdirBuffer then
      let request := readdirRequest message file.remoteHandle
      let created ← createBuffer (if request.word3 = 0 then 1 else request.word3)
      if message.buffer.isNone ∨ message.send = false ∨ created = false then
        return (false, .error VfsErr.fail)
      else
        match ← ipcCall file.service request with
        | none => return (false, .error VfsErr.fail)
        | some reply =>
          if reply.status = 0 then
            let reply ← copyAnswer message request.word3 message.word2 reply.word3 reply
            return (reply.status == 0, reply)
          else return (true, reply)
    else
      match ← ipcCall file.service (handleRequest message file.remoteHandle) with
      | none => return (false, .error VfsErr.fail)
      | some reply => return (true, reply)

/-! ## Symbolic links -/

/-- A request of the VFS itself for a path, with what it says in the high half of the last word. -/
def pathRequest (type : VfsOp) (path : Path) (task flags room : U64) : FsRequest where
  type
  recv := true
  send := room != 0
  buffer := .fresh [['/'], path] none room
  word0 := 2
  word1 := stringLen path
  word3 := low32 task ||| (flags <<< 32)

/-- `vfs_lstat_path`: the type of a file, if there is one. -/
def vfsLstatPath : VfsM (Option U64) := do
  let s ← get
  match s.mountForPath path with
  | none => return none
  | some mount =>
    if ← createBuffer (2 + stringLen path) then
      let (ok, reply) ← forwardMountPath mount 0 (pathRequest .statPathMetaBuffer path task 1 0) path
      return if ok = true ∧ reply.status = 0 then some (high32 reply.word2) else none
    else return none

/-- `vfs_readlink_target`: the target, or the status. -/
def vfsReadlinkTarget : VfsM (Except U64 Path) := do
  let s ← get
  match s.mountForPath path with
  | none => return .error VfsErr.noent
  | some mount =>
    let room : U64 := BitVec.ofNat 64 (maxPath - 1)
    if ← createBuffer (2 + stringLen path + room) then
      let (ok, reply) ← forwardMountPath mount 0 (pathRequest .readlinkBuffer path task room room) path
      if ok = false then return .error VfsErr.fail
      else if reply.status ≠ 0 then return .error reply.status
      else if reply.word1 ≠ reply.word3 ∨ BitVec.ofNat 64 maxPath ≤ reply.word3 then
        return .error 0
      else return .ok (bytesPath (reply.data.takeWhile (· ≠ 0)))
    else return .error VfsErr.fail

/-- Where the prefixes of a path end that `vfs_resolve_symlinks` looks at: before each slash but the
first, and at the end. -/
def prefixEnds : List Nat :=
  ((List.range path.length).filter fun i => 1 ≤ i ∧ path[i]? = some '/') ++ [path.length]

/-- How the inner loop of `vfs_resolve_symlinks` ends. -/
inductive ResolveStep where
  | finish
  | final
  | fail (error : U64)
  | restart (pending : Path)

def resolvePrefixes (pending : Path) (task : U64) (followFinal : Bool) (linksLeft : Nat) :
    List Nat → VfsM ResolveStep
  | [] => return .finish
  | stop :: rest => do
    let isFinal := stop = pending.length
    if followFinal = false ∧ isFinal then return .final
    else
      match ← vfsLstatPath (pending.take stop) task with
      | none => return .finish
      | some type =>
        if type = VfsType.symlink.code then
          if linksLeft = 0 then return .fail VfsErr.loop
          else
            match ← vfsReadlinkTarget (pending.take stop) task with
            | .error status => return .fail (if status = 0 then VfsErr.fail else status)
            | .ok target =>
              match (vfsResolvePath (pathDirname (pending.take stop)) target).bind fun resolved =>
                  pathJoinSuffix resolved (pending.drop stop) with
              | none => return .fail VfsErr.fail
              | some pending => return .restart pending
        else if isFinal then return .finish
        else resolvePrefixes pending task followFinal linksLeft rest

def vfsMaxSymlinks : Nat := 40

def vfsResolveFinish (followFinal : Bool) (resolved : Path) : VfsM (Except U64 Path) := do
  if followFinal then resolvedCacheInsert task path resolved
  return .ok resolved

/-- One round of the outer loop; `again` goes on with the path that a link has changed. -/
def resolveRound (followFinal : Bool) (linksLeft : Nat) (pending : Path)
    (again : Path → VfsM (Except U64 Path)) : VfsM (Except U64 Path) := do
  if pending = ['/'] then vfsResolveFinish path task followFinal pending
  else
    match ← resolvePrefixes pending task followFinal linksLeft (prefixEnds pending) with
    | .finish => vfsResolveFinish path task followFinal pending
    | .final => return .ok pending
    | .fail error => return .error error
    | .restart pending => again pending

def resolveLinks (path : Path) (task : U64) (followFinal : Bool) : Nat → Path → VfsM (Except U64 Path)
  | 0, pending => resolveRound path task followFinal 0 pending fun _ => return .error VfsErr.loop
  | linksLeft + 1, pending =>
    resolveRound path task followFinal (linksLeft + 1) pending (resolveLinks path task followFinal linksLeft)

def vfsResolveSymlinks (followFinal : Bool) : VfsM (Except U64 Path) := do
  if followFinal then
    match ← resolvedCacheLookup task path with
    | some resolved => return .ok resolved
    | none => resolveLinks path task followFinal vfsMaxSymlinks path
  else resolveLinks path task followFinal vfsMaxSymlinks path

/-! ## Requests with a path -/

/-- The end of the requests that follow symbolic links. -/
def forwardResolved (followFinal : Bool) : VfsM VfsReply := do
  match ← vfsResolveSymlinks path task followFinal with
  | .error error => return .error error
  | .ok resolved =>
    let s ← get
    match s.mountForPath resolved with
    | none => return .error VfsErr.noent
    | some mount => forwardMountBufferPath mount message resolved

/-- `vfs_open_path`, and `vfs_stat_path` for a request that may ask not to follow the last link: a
mount that resolves its own paths gets the message as it came. -/
def openOrStatPath (followFinal : Bool) : VfsM VfsReply := do
  let s ← get
  let subject := s.messageSubject message
  match (s.mountForPath path).filter mountResolvesOwnPaths with
  | some mount => forwardMountBufferPath mount message path
  | none => forwardResolved (messageSetSubject message subject) path subject followFinal

def vfsOpenPath : VfsM VfsReply := openOrStatPath message path true

def vfsStatPath : VfsM VfsReply :=
  openOrStatPath message path (! (high32 message.word3).getLsbD 0)

/-- `vfs_access_path` and `vfs_readlink_path`. -/
def accessOrReadlinkPath (followFinal : Bool) : VfsM VfsReply := do
  let s ← get
  let subject := s.messageSubject message
  forwardResolved (messageSetSubject message subject) path subject followFinal

def vfsAccessPath : VfsM VfsReply :=
  accessOrReadlinkPath message path true

def vfsReadlinkPath : VfsM VfsReply :=
  accessOrReadlinkPath message path false

def vfsMutatePath : VfsM VfsReply := do
  let s ← get
  resolvedCacheClear
  match s.mountForPath path with
  | none => return .error VfsErr.access
  | some mount => forwardMountBufferPath mount (messageSetSubject message (s.messageSubject message)) path

def vfsSymlinkPath (target path : Path) : VfsM VfsReply := do
  let s ← get
  resolvedCacheClear
  match s.mountForPath path with
  | none => return .error VfsErr.access
  | some mount =>
    forwardMountSymlinkPath mount (messageSetSubject message (s.messageSubject message)) target path

/-- `vfs_rename_path` and `vfs_link_path`. -/
def vfsTwoPaths (oldPath newPath : Path) : VfsM VfsReply := do
  let s ← get
  resolvedCacheClear
  match s.mountForPath oldPath, s.mountForPath newPath with
  | some oldMount, some newMount =>
    if oldMount.id ≠ newMount.id then return .error VfsErr.xdev
    else forwardMountTwoPath oldMount (messageSetSubject message (s.messageSubject message)) oldPath newPath
  | none, none => return .error VfsErr.access
  | _, _ => return .error VfsErr.xdev

/-! ## Administration -/

/-- `grant_admin_task` and `grant_subject_task`: the first sender becomes the grantor. -/
def grantTask (grantor sender task : U64) (granted : List U64) (alloc : Bool) :
    U64 × U64 × List U64 :=
  if sender = 0 then (VfsErr.access, grantor, granted)
  else if grantor ≠ 0 ∧ sender ≠ grantor ∧ s.senderIsAdmin sender = false then
    (VfsErr.access, grantor, granted)
  else
    let grantor := if grantor = 0 then sender else grantor
    let task := if task = 0 then sender else task
    if granted.contains task then (0, grantor, granted)
    else if alloc then (0, grantor, task :: granted)
    else (VfsErr.fail, grantor, granted)

def grantAdminTask (sender task : U64) : VfsM VfsReply := do
  let s ← get
  let (status, adminGrantor, admins) := grantTask s s.adminGrantor sender task s.admins (← alloc)
  set { s with adminGrantor, admins }
  return .error status

def grantSubjectTask (sender task : U64) : VfsM VfsReply := do
  let s ← get
  let (status, subjectGrantor, subjectIssuers) :=
    grantTask s s.subjectGrantor sender task s.subjectIssuers (← alloc)
  set { s with subjectGrantor, subjectIssuers }
  return .error status

def mountTranslator (service fstype : U64) : VfsM U64 := do
  if path.head? ≠ some '/' ∨ service = 0 then return VfsErr.inval
  else
    resolvedCacheClear
    let s ← get
    match s.mounts.find? fun mount => mount.path == path with
    | some mount =>
      if mount.pins ≠ 0 then return VfsErr.busy
      else
        set { s with mounts := s.mounts.map fun m : VfsMount =>
          if m.path = path then { m with service, fstype } else m }
        return 0
    | none =>
      if ← alloc then
        let (id, nextMountId) := freshId (s.mounts.map VfsMount.id) (s.mounts.length + 1) s.nextMountId
        set { s with nextMountId, mounts := { path, id, service, fstype } :: s.mounts }
        return 0
      else return VfsErr.fail

def unmountTranslator : VfsM U64 := do
  let s ← get
  if path.head? ≠ some '/' ∨ path = ['/'] then return VfsErr.inval
  else
    match s.mounts.find? fun mount => mount.path == path with
    | none => return VfsErr.noent
    | some mount =>
      if (s.openFiles.any fun e => vfsPathIsAtOrUnder e.2.path mount.path) = true ∨ mount.pins ≠ 0 then
        return VfsErr.busy
      else
        set { s with resolvedPaths := [], mounts := s.mounts.filter fun m => m.path != path }
        return 0

def notifyProcfs (mounted : Bool) : VfsM Unit := do
  let s ← get
  match s.mounts.find? fun mount => mount.path == "/proc".toList with
  | none => return ()
  | some procfs =>
    if procfs.service = 0 then return ()
    else notify procfs.service path mounted

/-- `vfs_reply_mount_route`; the capability for the service goes with the reply. -/
def vfsReplyMountRoute (pin : Bool) : VfsM VfsReply := do
  let s ← get
  match s.mountForPath path with
  | none => return .error VfsErr.noent
  | some mount =>
    if mount.service = 0 then return .error VfsErr.noent
    else if mount.fstype = serviceUnionfs then
      return { status := VfsErr.inval, word1 := mount.fstype, word2 := 1 }
    else if pin = false then return { word1 := mount.fstype, word3 := mount.id }
    else if message.sender = 0 then return .error VfsErr.fail
    else if ← alloc then
      let (id, nextRoutePinId) :=
        freshId (s.routePins.map Prod.fst) (s.routePins.length + 1) s.nextRoutePinId
      set { s with
        nextRoutePinId, routePins := (id, ⟨message.sender, mount.id⟩) :: s.routePins
        mounts := s.mounts.map fun m : VfsMount => if m.id = mount.id then { m with pins := m.pins + 1 } else m }
      return { word1 := mount.fstype, word3 := id }
    else return .error VfsErr.fail

def vfsUnpinMountRoute : VfsM VfsReply := do
  let s ← get
  match s.routePins.lookup message.word0 with
  | none => return .error VfsErr.noent
  | some pin =>
    match s.mounts.find? fun mount => mount.id == pin.mountId with
    | none => return .error VfsErr.noent
    | some mount =>
      if pin.owner ≠ message.sender ∨ mount.pins = 0 then return .error VfsErr.noent
      else
        set { s with
          routePins := s.routePins.filter fun e => e.1 != message.word0
          mounts := s.mounts.map fun m : VfsMount => if m.id = mount.id then { m with pins := m.pins - 1 } else m }
        return { word1 := BitVec.ofNat 64 (mount.pins - 1) }

/-! ## The loop -/

def withPath (handle : Path → VfsM VfsReply) : VfsM VfsReply := do
  let s ← get
  match s.requestPath message with
  | .error error => return .error error
  | .ok path => handle path

/-- The requests with a handle; `status` answers those with a handle that is not the sender's. -/
def withHandle (status : U64) : VfsM VfsReply := do
  let s ← get
  match s.openFromMessage message with
  | none => return .error status
  | some file =>
    let (_, reply) ← forwardRemoteHandle file message
    return reply

/-- The requests of an administrator that name a path. -/
def withAdminPath (handle : Path → VfsM VfsReply) : VfsM VfsReply := do
  let s ← get
  if s.senderIsAdmin message.sender = false then return .error VfsErr.access
  else
    match if message.recv then message.readPath 0 message.word0 else none with
    | none => return .error VfsErr.fail
    | some path => handle path

def handleSymlink : VfsM VfsReply := do
  let s ← get
  match message.readPath 0 message.word0, message.readPath message.word0 message.word1,
      message.readPath (message.word0 + message.word1) message.word2 with
  | some target, some cwd, some input =>
    if message.recv = false ∨ target = [] then return .error VfsErr.fail
    else match s.vfsResolveWithBase (high32 message.word3) message.sender cwd input with
      | .error error => return .error error
      | .ok path => vfsSymlinkPath message target path
  | _, _, _ => return .error VfsErr.fail

def handleTwoPaths : VfsM VfsReply := do
  let s ← get
  let oldCwdLen := low32 message.word1
  let oldPathLen := high32 message.word1
  let newCwdLen := low32 message.word2
  let newPathLen := high32 message.word2
  let old := (message.readPath 0 oldCwdLen, message.readPath oldCwdLen oldPathLen)
  let new := (message.readPath (oldCwdLen + oldPathLen) newCwdLen,
    message.readPath (oldCwdLen + oldPathLen + newCwdLen) newPathLen)
  match old, new with
  | (some oldCwd, some oldInput), (some newCwd, some newInput) =>
    if message.recv = false then return .error VfsErr.fail
    else match s.vfsResolveWithBase (low32 message.word0) message.sender oldCwd oldInput,
        s.vfsResolveWithBase (high32 message.word0) message.sender newCwd newInput with
      | .ok oldPath, .ok newPath => vfsTwoPaths message oldPath newPath
      | .error error, _ => return .error error
      | _, .error error => return .error error
  | _, _ => return .error VfsErr.fail

def handleClose : VfsM VfsReply := do
  let s ← get
  match s.openFromMessage message with
  | none => return .error VfsErr.fail
  | some file =>
    let (ok, reply) ← forwardRemoteHandle file message
    if ok = true ∧ reply.status = 0 then forgetOpenFile message.word0
    return reply

def handleMount : VfsM VfsReply := do
  let s ← get
  if s.senderIsAdmin message.sender = false then return .error VfsErr.access
  else
    let service ← resolveService message.word1
    match if message.recv then message.readPath 0 message.word0 else none with
    | none => return .error VfsErr.fail
    | some path =>
      if service = 0 then return .error VfsErr.fail
      else
        let status ← mountTranslator path service message.word1
        if status = 0 then notifyProcfs path true
        return .error status

def handleUnmount : VfsM VfsReply := do
  let status ← unmountTranslator path
  if status = 0 then notifyProcfs path false
  return .error status

/-- One round of the loop of `main`. -/
def vfsServe : VfsM VfsReply :=
  match message.type with
  | .openBuffer => withPath message (vfsOpenPath message)
  | .statPathMetaBuffer => withPath message (vfsStatPath message)
  | .accessBuffer => withPath message (vfsAccessPath message)
  | .readlinkBuffer => withPath message (vfsReadlinkPath message)
  | .createBuffer | .chmodBuffer | .chownBuffer | .mkdirBuffer | .rmdirBuffer | .unlinkBuffer
  | .utimensBuffer | .mknodBuffer => withPath message (vfsMutatePath message)
  | .symlinkBuffer => handleSymlink message
  | .renameBuffer | .linkBuffer => handleTwoPaths message
  | .chmod | .chown | .writeFileBuffer => withHandle message VfsErr.access
  | .truncate =>
    if message.buffer.isSome then withPath message (vfsMutatePath message)
    else withHandle message VfsErr.access
  | .statMeta | .readFileBuffer | .mmapPageBuffer | .readdirBuffer => withHandle message VfsErr.fail
  | .close => handleClose message
  | .grantAdminTask => grantAdminTask message.sender message.word0
  | .grantSubjectTask => grantSubjectTask message.sender message.word0
  | .mountBuffer => handleMount message
  | .resolveMountBuffer => withAdminPath message fun path => vfsReplyMountRoute message path false
  | .pinRouteBuffer => withAdminPath message fun path => vfsReplyMountRoute message path true
  | .unpinRoute => do
    let s ← get
    if s.senderIsAdmin message.sender = false then return .error VfsErr.access
    else vfsUnpinMountRoute message
  | .unmountBuffer => withAdminPath message handleUnmount
  | .other _ => return .error VfsErr.fail

end Bunix.User
