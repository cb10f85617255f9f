import Bunix.User.VfsRequests

/-! # The subject of forwarded requests

A task that may not name a subject is to be the subject of every request that the VFS makes for it.
Two of the handlers pass on the word of the client: opening a path and asking for its metadata, when
the path is on a mount that resolves its own paths. And the word that a request for directory entries
carries is the capacity of its buffer, into which the VFS has written the subject.
-/
namespace Bunix.User

open Bunix.Lib Prog BitVec

variable {request : FsRequest} {a : VfsAction}

/-- The file servers never give out the handle 0, and there is memory to record an opened file, so
that it need not be closed again. -/
def recorded : (a : VfsAction) → a.Result → Prop
  | .allocOpen, ok => ok = true
  | .call _ request, reply =>
    request.type = .openBuffer → ∀ r : VfsReply, reply = some r → r.status = 0 → r.word1 ≠ 0
  | .createBuffer _, _ | .copyOut .., _ | .alloc, _ | .resolveService _, _ | .notifyProcfs .., _ => True

/-- A request to a file server is made for a task. -/
def Carries (task : U64) : VfsAction → Prop
  | .call _ request => low32 request.word3 = low32 task
  | _ => True

variable {task : U64} {s : VfsServer} {message : VfsMessage} {mount : VfsMount} {path : Path}
  {β γ : Type}

/-- Everything the VFS asks of file servers is for a task. -/
def Sends (task : U64) (m : VfsM β) (s : VfsServer) : Prop :=
  Only recorded (Carries task) (m s) fun _ => True

/-! ## Halves of words -/

theorem low32_low32 (word : U64) : low32 (low32 word) = low32 word := by
  unfold low32
  rw [BitVec.and_assoc, BitVec.and_self]

theorem low32_or (a b : U64) : low32 (a ||| b) = low32 a ||| low32 b := and_or_distrib_right

theorem low32_high (word : U64) : low32 (word &&& 0xffffffff00000000) = 0 := by
  unfold low32
  rw [BitVec.and_assoc]
  exact BitVec.and_zero

theorem toNat_low32 (word : U64) : (low32 word).toNat = word.toNat % 2 ^ 32 := by
  exact Nat.and_two_pow_sub_one_eq_mod word.toNat 32

theorem toNat_high32 (word : U64) : (high32 word).toNat = word.toNat / 2 ^ 32 := by
  unfold high32
  rw [toNat_ushiftRight, Nat.shiftRight_eq_div_pow]

theorem low32_shiftLeft (word : U64) : low32 (word <<< 32) = 0 := by
  apply eq_of_toNat_eq
  rw [toNat_low32, toNat_shiftLeft, Nat.shiftLeft_eq]
  show _ = 0
  omega

theorem toNat_setLow (word low : U64) : ((word &&& 0xffffffff00000000) ||| low32 low).toNat =
    word.toNat / 2 ^ 32 * 2 ^ 32 + low.toNat % 2 ^ 32 := by
  have disjoint : ∀ x : U64, (word &&& 0xffffffff00000000) &&& low32 x = 0 := by
    intro x
    unfold low32
    rw [BitVec.and_comm x, ← BitVec.and_assoc, show (word &&& 0xffffffff00000000) &&& 0xffffffff = 0
      from low32_high word]
    exact zero_and
  have sum : ∀ x : U64, ((word &&& 0xffffffff00000000) ||| low32 x).toNat =
      ((word &&& 0xffffffff00000000).toNat + x.toNat % 2 ^ 32) % 2 ^ 64 := by
    intro x
    rw [← add_eq_or_of_and_eq_zero _ _ (disjoint x), toNat_add, toNat_low32]
  have whole : (word &&& 0xffffffff00000000) ||| low32 word = word := by
    unfold low32
    rw [← and_or_distrib_left]
    exact and_allOnes
  have hword := sum word
  rw [whole] at hword
  rw [sum low]
  omega

theorem low32_messageSetSubject (message : VfsMessage) (subject : U64) :
    low32 (messageSetSubject message subject).word3 = low32 subject := by
  show low32 ((message.word3 &&& 0xffffffff00000000) ||| low32 subject) = low32 subject
  rw [low32_or, low32_high, low32_low32]
  exact zero_or

theorem messageSubject_of_not_issuer (h : s.senderIsSubjectIssuer message.sender = false) :
    s.messageSubject message = low32 message.sender := by
  unfold VfsServer.messageSubject
  rw [h]
  split
  · rename_i hzero
    rw [hzero]
    rfl
  · rfl

theorem low32_bufferPathRequest :
    low32 (bufferPathRequest message path).word3 = low32 message.word3 := by
  unfold bufferPathRequest
  dsimp only
  split
  · rw [low32_or, low32_low32, low32_shiftLeft]
    exact or_zero
  · rfl

theorem low32_pathRequest (type : VfsOp) (path : Path) (task flags room : U64) :
    low32 (pathRequest type path task flags room).word3 = low32 task := by
  show low32 (low32 task ||| (flags <<< 32)) = low32 task
  rw [low32_or, low32_low32, low32_shiftLeft]
  exact or_zero

theorem low32_subject (h : s.senderIsSubjectIssuer message.sender = false) :
    low32 (messageSetSubject message (s.messageSubject message)).word3 = low32 message.sender := by
  rw [low32_messageSetSubject, messageSubject_of_not_issuer h, low32_low32]

/-- The subject survives as the capacity of the buffer for directory entries. -/
def FitsCapacity (message : VfsMessage) : Prop :=
  low32 message.sender = BitVec.ofNat 64 maxPath ∨
    high32 message.word3 = 0 ∧ low32 message.sender ≤ BitVec.ofNat 64 maxPath

theorem fitsCapacity_iff (h : s.senderIsSubjectIssuer message.sender = false) :
    low32 (minU64 (messageSetSubject message (s.messageSubject message)).word3
      (BitVec.ofNat 64 maxPath)) = low32 message.sender ↔ FitsCapacity message := by
  have hmax : (BitVec.ofNat 64 maxPath).toNat = 4096 := by decide
  have hword := toNat_setLow message.word3 (s.messageSubject message)
  rw [messageSubject_of_not_issuer h, toNat_low32] at hword
  unfold FitsCapacity
  rw [← toNat_inj, toNat_low32, toNat_minU64, messageSubject_of_not_issuer h]
  show min ((message.word3 &&& 0xffffffff00000000) ||| low32 (low32 message.sender)).toNat _ % 2 ^ 32 =
    _ ↔ _
  rw [hword, hmax, ← toNat_inj, ← toNat_inj, le_def, toNat_low32, toNat_high32, hmax]
  show _ ↔ _ ∨ message.word3.toNat / 2 ^ 32 = 0 ∧ _
  omega

/-! ## The server -/

/-- The requests for which the VFS does not name their sender as the subject. -/
inductive Misnamed (s : VfsServer) (message : VfsMessage) : Prop
  /-- A path on a mount that resolves its own paths is opened or looked up with the word of the
  client. -/
  | ownPaths {path : Path} {mount : VfsMount}
      (type : message.type = .openBuffer ∨ message.type = .statPathMetaBuffer)
      (path_eq : s.requestPath message = .ok path) (mount_eq : s.mountForPath path = some mount)
      (fstype : mount.fstype = serviceProcfs) (service : mount.service ≠ 0)
      (word : low32 message.word3 ≠ low32 message.sender)
  /-- The entries of a directory are asked for with the capacity of a buffer instead. -/
  | capacity {file : VfsOpen} (type : message.type = .readdirBuffer)
      (buffer : message.buffer.isSome = true) (send : message.send = true)
      (file_eq : s.openFromMessage message = some file) (service : file.service ≠ 0)
      (handle : file.remoteHandle ≠ 0) (word : ¬ FitsCapacity message)

theorem mayAsk_of_not_misnamed (h : s.senderIsSubjectIssuer message.sender = false)
    (hmis : ¬ Misnamed s message) :
    MayAsk recorded (fun request => low32 request.word3 = low32 message.sender) s message where
  close := fun {_ _ reply} htype hreply hstatus =>
    .inr ⟨hreply htype reply rfl hstatus, fun _ hok => hok⟩
  links := by
    intro type path flags room _
    rw [low32_pathRequest, messageSubject_of_not_issuer h, low32_low32]
  path := fun _ => low32_bufferPathRequest.trans (low32_subject h)
  ownPaths := by
    intro path mount htype hpath hmount hproc hservice
    rw [low32_bufferPathRequest]
    by_contra hword
    exact hmis (.ownPaths htype hpath hmount hproc hservice hword)
  symlink := by
    intro request _ hword
    rw [hword, low32_low32]
    exact low32_subject h
  twoPaths := by
    intro request _ hword
    rw [hword]
    exact low32_subject h
  readdir := by
    intro file hfile htype hbuffer hsend hservice hhandle
    refine (fitsCapacity_iff h).mpr ?_
    by_contra hword
    exact hmis (.capacity htype hbuffer hsend hfile hservice hhandle hword)
  handle := fun _ _ => low32_subject h

theorem sends_vfsServe (h : s.senderIsSubjectIssuer message.sender = false)
    (hmis : ¬ Misnamed s message) : Sends message.sender (vfsServe message) s := by
  exact Only.mono (asks_vfsServe (mayAsk_of_not_misnamed h hmis)) fun _ _ => trivial

/-! ## Requests in the name of another task -/

theorem performs_ipcCall_bind {service} :
    Performs recorded ((ipcCall service request >>= f) s) (.call service request) :=
  Performs.bind .here

theorem performs_createBuffer_bind {size}
    (h : Performs recorded (f true s) a) : Performs recorded ((createBuffer size >>= f) s) a :=
  .later trivial h

theorem performs_get_bind {f : VfsServer → VfsM β}
    (h : Performs recorded (f s s) a) : Performs recorded ((get >>= f) s) a := h

theorem performs_withPath {handle : Path → VfsM VfsReply}
    (hpath : s.requestPath message = .ok path) (h : Performs recorded (handle path s) a) :
    Performs recorded (withPath message handle s) a := by
  refine performs_get_bind ?_
  rw [hpath]
  exact h

theorem performs_forwardMountPath {owner} (hservice : mount.service ≠ 0) :
    Performs recorded (forwardMountPath mount owner request path s) (.call mount.service request) := by
  unfold forwardMountPath
  rw [if_neg hservice]
  exact performs_ipcCall_bind

section
variable (hutimens : message.type ≠ .utimensBuffer)
include hutimens

theorem performs_forwardMountBufferPath
    (hservice : mount.service ≠ 0) : Performs recorded (forwardMountBufferPath mount message path s)
      (.call mount.service (bufferPathRequest message path)) := by
  refine performs_createBuffer_bind ?_
  rw [if_neg (by simp [hutimens])]
  exact Performs.bind (performs_forwardMountPath hservice)

theorem performs_openOrStatPath {followFinal : Bool}
    (hmount : s.mountForPath path = some mount) (hproc : mount.fstype = serviceProcfs)
    (hservice : mount.service ≠ 0) : Performs recorded (openOrStatPath message path followFinal s)
      (.call mount.service (bufferPathRequest message path)) := by
  have hown : (s.mountForPath path).filter mountResolvesOwnPaths = some mount := by
    simp [hmount, mountResolvesOwnPaths, hproc]
  refine performs_get_bind ?_
  rw [hown]
  exact performs_forwardMountBufferPath hutimens hservice

theorem performs_vfsMutatePath
    (hmount : s.mountForPath path = some mount) (hservice : mount.service ≠ 0) :
    Performs recorded (vfsMutatePath message path s) (.call mount.service (bufferPathRequest
      (messageSetSubject message (s.messageSubject message)) path)) := by
  have hperf : ∀ s', Performs recorded (forwardMountBufferPath mount (messageSetSubject message
      (s.messageSubject message)) path s') (.call mount.service (bufferPathRequest
        (messageSetSubject message (s.messageSubject message)) path)) :=
    fun s' => performs_forwardMountBufferPath hutimens hservice
  refine performs_get_bind ?_
  rw [hmount]
  exact hperf _

end

theorem performs_readdir {file : VfsOpen} (htype : message.type = .readdirBuffer)
    (hbuffer : message.buffer.isSome = true) (hsend : message.send = true)
    (hfile : s.openFromMessage message = some file) (hservice : file.service ≠ 0)
    (hhandle : file.remoteHandle ≠ 0) :
    Performs recorded (withHandle message VfsErr.fail s) (.call file.service (readdirRequest
      (messageSetSubject message (s.messageSubject message)) file.remoteHandle)) := by
  refine performs_get_bind ?_
  rw [hfile]
  refine Performs.bind (performs_get_bind ?_)
  rw [if_neg (not_or.mpr ⟨hservice, hhandle⟩), if_pos (by exact htype)]
  refine performs_createBuffer_bind ?_
  have hbuf : ¬ (messageSetSubject message (s.messageSubject message)).buffer.isNone = true := by
    simpa [messageSetSubject, Option.isSome_iff_ne_none] using hbuffer
  have hsend' : ¬ (messageSetSubject message (s.messageSubject message)).send = false := by
    simpa [messageSetSubject] using hsend
  rw [if_neg (not_or.mpr ⟨hbuf, not_or.mpr ⟨hsend', nofun⟩⟩)]
  exact performs_ipcCall_bind

/-- **The VFS names the sender of a request as its subject, exactly if the request is not one of
those two.** -/
theorem subject_named_iff (h : s.senderIsSubjectIssuer message.sender = false) :
    (∀ service request, Performs recorded (vfsServe message s) (.call service request) →
      low32 request.word3 = low32 message.sender) ↔ ¬ Misnamed s message := by
  constructor
  · intro hall hmis
    cases hmis with
    | @ownPaths path mount htype hpath hmount hproc hservice hword =>
      have hutimens : message.type ≠ .utimensBuffer := by rcases htype with he | he <;> simp [he]
      have hperf : Performs recorded (vfsServe message s)
          (.call mount.service (bufferPathRequest message path)) := by
        unfold vfsServe
        rcases htype with he | he
        · rw [he]
          exact performs_withPath hpath (performs_openOrStatPath hutimens hmount hproc hservice)
        · rw [he]
          exact performs_withPath hpath (performs_openOrStatPath hutimens hmount hproc hservice)
      exact hword (low32_bufferPathRequest.symm.trans (hall _ _ hperf))
    | @capacity file htype hbuffer hsend hfile hservice hhandle hword =>
      have hperf : Performs recorded (vfsServe message s) (.call file.service (readdirRequest
          (messageSetSubject message (s.messageSubject message)) file.remoteHandle)) := by
        unfold vfsServe
        rw [htype]
        exact performs_readdir htype hbuffer hsend hfile hservice hhandle
      exact hword ((fitsCapacity_iff h).mp (hall _ _ hperf))
  · intro hmis service request hperf
    exact (sends_vfsServe h hmis).performs hperf

def rootMount : VfsMount where
  path := "/".toList
  id := 1
  service := 5
  fstype := 1

def procMount : VfsMount where
  path := "/proc".toList
  id := 2
  service := 6
  fstype := serviceProcfs

def rootAndProc : VfsServer where
  mounts := [rootMount, procMount]

/-- A request of task 7 for a path, with another number in the place of the subject. -/
def pathMessage (type : VfsOp) (path : Path) : VfsMessage where
  type
  sender := 7
  buffer := some fun offset _ => if offset = 0 then some "/".toList else some path
  word0 := 2
  word1 := stringLen path
  word3 := 1

theorem subject_named_chmod : rootAndProc.senderIsSubjectIssuer 7 = false ∧
    ∃ service request, Performs recorded
      (vfsServe (pathMessage .chmodBuffer "/f".toList) rootAndProc) (.call service request) ∧
      low32 request.word3 = low32 7 := by
  have hnot : ¬ Misnamed rootAndProc (pathMessage .chmodBuffer "/f".toList) := by
    intro h
    cases h with
    | ownPaths htype | capacity htype => simp [pathMessage] at htype
  have hpath : rootAndProc.requestPath (pathMessage .chmodBuffer "/f".toList) = .ok "/f".toList := rfl
  have hmount : rootAndProc.mountForPath "/f".toList = some rootMount := by decide +kernel
  have htype : (pathMessage .chmodBuffer "/f".toList).type ≠ .utimensBuffer := by simp [pathMessage]
  have hmutate := performs_vfsMutatePath htype hmount (by decide)
  have hperf : Performs recorded (vfsServe (pathMessage .chmodBuffer "/f".toList) rootAndProc) _ :=
    performs_withPath hpath hmutate
  exact ⟨rfl, _, _, hperf, (subject_named_iff rfl).mpr hnot _ _ hperf⟩

def procFile : Path := "/proc/1".toList

/-- **A task acts as another one in procfs.** Task 7 opens a file of procfs as task 1. -/
theorem subject_not_named : ∃ (s : VfsServer) (message : VfsMessage) (service : U64)
    (request : FsRequest), s.senderIsSubjectIssuer message.sender = false ∧
      Performs recorded (vfsServe message s) (.call service request) ∧
      low32 message.sender = 7 ∧ low32 request.word3 = 1 := by
  have hpath : rootAndProc.requestPath (pathMessage .openBuffer procFile) = .ok procFile := rfl
  have hmount : rootAndProc.mountForPath procFile = some procMount := by decide +kernel
  have htype : (pathMessage .openBuffer procFile).type ≠ .utimensBuffer := nofun
  have hopen : Performs recorded (vfsOpenPath (pathMessage .openBuffer procFile) procFile rootAndProc)
      (.call 6 (bufferPathRequest (pathMessage .openBuffer procFile) procFile)) :=
    performs_openOrStatPath htype hmount rfl (by decide)
  exact ⟨rootAndProc, pathMessage .openBuffer procFile, 6, _, rfl, performs_withPath hpath hopen,
    by decide, by decide⟩

end Bunix.User
