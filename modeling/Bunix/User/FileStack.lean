import Bunix.User.LinuxBackend
import Bunix.User.TmpfsServer
import Bunix.User.VfsRequests

/-! # Linux server, VFS and tmpfs together

The Linux server asks the VFS, and the VFS asks tmpfs for the files that are mounted from there. All
else that the three ask of others is answered by an arbitrary outside with a state of its own.
-/
namespace Bunix.User

open Bunix.Lib Prog

/-! ## The words of a request -/

/-- A string of the buffer that comes with a request. -/
def FsRequest.string (request : FsRequest) (n : Nat) : Option Path :=
  match request.buffer with
  | .fresh strings _ _ => strings[n]?
  | _ => none

/-- The request carries a buffer with the right that tmpfs asks for. -/
def FsRequest.carriesBuffer (request : FsRequest) : Bool :=
  request.buffer ≠ .none && (if request.type = .writeFileBuffer then request.recv else request.send)

def loadU64Le (bytes : List UInt8) : U64 :=
  bytes.foldr (fun b word => (word <<< 8) ||| BitVec.ofNat 64 b.toNat) 0

/-- `read_utimens_payload`. -/
def FsRequest.times (request : FsRequest) : Option (U64 × U64) :=
  match request.buffer with
  | .fresh _ (some payload) _ =>
    let bytes := pathBytes payload
    if bytes.length < 16 then none
    else some (loadU64Le (bytes.take 8), loadU64Le ((bytes.drop 8).take 8))
  | _ => none

/-- What the `switch` of tmpfs takes out of the words of a request of the VFS, and out of the buffer
of the client if that comes with it. -/
def tmpfsRequest (message : VfsMessage) (request : FsRequest) : Option TmpfsRequest :=
  let path := request.string 1
  let task := low32 request.word3
  let high := high32 request.word3
  let byHandle := request.buffer = .none
  match request.type with
  | .openBuffer => some (.openPath path)
  | .createBuffer => some (.create path task high)
  | .mkdirBuffer => some (.mkdir path task high)
  | .mknodBuffer => some (.mknod path task (request.word3 >>> 48) (high &&& 0o777))
  | .symlinkBuffer => some (.symlink (request.string 0) (request.string 2) task)
  | .statPathMetaBuffer => some (.stat path)
  | .accessBuffer => some (.access path task high)
  | .readlinkBuffer => some (.readlink path high)
  | .utimensBuffer => some (.utimens path task high request.times)
  | .statMeta => some (.statHandle request.word0)
  | .readFileBuffer => some (.read request.word0 request.word1 request.word2)
  | .mmapPageBuffer => some (.mmapPage request.word0 request.word1 request.word2)
  | .writeFileBuffer =>
    let payload := (message.buffer.bind fun read => read 0 request.word2).map pathBytes
    some (.write request.word0 request.word1 request.word2 request.word3 payload)
  | .truncate =>
    some (if byHandle then .truncate request.word0 request.word3 request.word1
      else .truncatePath path task high)
  | .chmodBuffer => some (.chmodPath path task high)
  | .chmod => some (.chmod request.word0 task request.word1)
  | .chownBuffer => some (.chownPath path task request.word2 high)
  | .chown => some (.chown request.word0 request.word3 request.word1 request.word2)
  | .unlinkBuffer => some (.unlink path task)
  | .rmdirBuffer => some (.rmdir path task)
  | .renameBuffer => some (.rename path (request.string 3) task high)
  | .linkBuffer => some (.link path (request.string 3) task)
  | .readdirBuffer => some (.readdir request.word0 request.word1 request.word3)
  | .close => some (.close request.word0)
  | _ => none

/-! ## The three servers -/

/-- What the servers cannot do themselves is answered from the outside. -/
structure StackEnv (O : Type) where
  /-- The port of tmpfs in the VFS. -/
  tmpfsService : U64
  vfsTask : U64
  tmpfs : O → TmpfsEnv
  /-- A call of the VFS arrives. -/
  vfsUp : O → Bool
  vfs : (a : VfsAction) → O → a.Result × O
  linux : (a : LinuxAction) → O → a.Result × O

structure FileStack (O : Type) where
  vfs : VfsServer
  tmpfs : Tmpfs
  outside : O

variable {O : Type} (env : StackEnv O)

/-- A request that the VFS makes of tmpfs in the course of serving `message`. There is no answer if
tmpfs does not come to one. -/
def tmpfsCall (message : VfsMessage) (request : FsRequest) (σ : Tmpfs × O) :
    Option VfsReply × (Tmpfs × O) :=
  match tmpfsRequest message request with
  | none =>
    (some (.error (if σ.1.senderIsVfsCaller env.vfsTask then VfsErr.fail else VfsErr.access)), σ)
  | some r =>
    match σ.1.step { env.tmpfs σ.2 with buffer := request.carriesBuffer } env.vfsTask r with
    | none => (none, σ)
    | some (reply, t) => (some reply, (t, σ.2))

def vfsOutside (a : VfsAction) (σ : Tmpfs × O) : a.Result × (Tmpfs × O) :=
  ((env.vfs a σ.2).1, (σ.1, (env.vfs a σ.2).2))

def vfsAnswer (message : VfsMessage) : (a : VfsAction) → Tmpfs × O → a.Result × (Tmpfs × O)
  | .call service request, σ =>
    if service = env.tmpfsService then tmpfsCall env message request σ
    else vfsOutside env (.call service request) σ
  | a, σ => vfsOutside env a σ

def vfsCall (message : VfsMessage) (σ : FileStack O) : Option VfsReply × FileStack O :=
  if env.vfsUp σ.outside then
    let r := Prog.exec (vfsAnswer env message) (vfsServe message σ.vfs) (σ.tmpfs, σ.outside)
    (some r.1.1, { vfs := r.1.2, tmpfs := r.2.1, outside := r.2.2 })
  else (none, σ)

def stackAnswer : LinuxAnswers (FileStack O)
  | .vfs message, σ => vfsCall env message σ
  | a, σ => ((env.linux a σ.outside).1, { σ with outside := (env.linux a σ.outside).2 })

/-- An outside of which nothing is known but that the task 1 is root, and that others have the rights
of others. -/
def rootEnv : StackEnv Unit where
  tmpfsService := 9
  vfsTask := 2
  tmpfs := fun _ => {
    canAccess := fun task _ _ mode mask => task == 1 || (mode.setWidth 64 &&& mask) == mask
    geteuid := fun task => some (if task = 1 then 0 else 1000)
    getegid := fun task => some (if task = 1 then 0 else 1000)
    now := 0, buffer := true, bufferWrite := true, mounted := true }
  vfsUp := fun _ => true
  vfs := fun a _ => match a with
    | .call .. => (none, ())
    | .createBuffer _ | .copyOut .. | .allocOpen | .alloc => (true, ())
    | .resolveService _ => ((0 : U64), ())
    | .notifyProcfs .. => ((), ())
  linux := fun a _ => match a with
    | .vfs _ => (none, ())
    | .alloc | .buffer => (true, ())
    | .readDevice .. => ((0, []), ())
    | .writeDevice .. | .user .. => ((0 : Int), ())
    | .mountCommand .. => (none, ())
    | .now => ((0 : U64), ())
    | .closeDevice _ | .noteMutation _ | .accessClear _ | .aheadClear _ => ((), ())

end Bunix.User
