import Bunix.User.VfsSubject

/-! # Truncation on ext2

The VFS has one message to truncate a file by its handle and by its path, and passes both on under
the type it came with. tmpfs tells them apart by the buffer. `user/ext2/main.c` does not: it takes the
first word for a handle and the second for the size, where a request with a path has the length of the
current directory, which is always 2, and the length of the path.
-/
namespace Bunix.User

open Bunix.Lib Prog Function

/-- What `read_inode` keeps of an inode, as far as truncation uses it. -/
structure Ext2Inode where
  mode : U64
  size : U64
  blocks : U64
  block : Fin 15 → U64

/-- The same fields as they are in the image. -/
structure Ext2RawInode where
  sizeLow : U32
  sizeHigh : U32
  blocks : U32
  block : Fin 15 → U32

def Ext2RawInode.size (raw : Ext2RawInode) : U64 := raw.sizeHigh ++ raw.sizeLow

structure Ext2Open where
  owner : U64
  ino : U64
  inode : Ext2Inode

/-- What is in memory of a mounted image. -/
structure Ext2Mount where
  blockSize : U64
  firstDataBlock : U64
  blocksCount : U64
  /-- `parse_super` refuses every other size. -/
  sized : blockSize = 1024 ∨ blockSize = 2048 ∨ blockSize = 4096

/-- The image. An access that fails changes nothing; `answers` says which ones do. -/
structure Ext2Image where
  /-- The inode of the file that a path names. -/
  named : Path → Option U64
  inodes : U64 → Ext2RawInode
  /-- The bits of the block bitmaps. -/
  allocated : U64 → Bool
  answers : Nat → Bool
  accesses : Nat := 0

/-- A file that is worked on, and the image it is on. -/
structure Ext2File where
  mount : Ext2Mount
  ino : U64
  inode : Ext2Inode
  image : Ext2Image

abbrev Ext2M := StateM Ext2File

/-- `mount_read_bytes` and `mount_write_bytes`: whether they return 0. -/
def mountAccess (change : Ext2Image → Ext2Image) : Ext2M Bool := fun f =>
  let image := { f.image with accesses := f.image.accesses + 1 }
  let ok := f.image.answers f.image.accesses
  (ok, { f with image := if ok then change image else image })

/-- A write to a field of the inode. Its place was found by `inode_disk_offset` when the file was
opened, and is found again. -/
def writeInode (change : Ext2RawInode → Ext2RawInode) : Ext2M Bool := do
  let f ← get
  mountAccess fun image =>
    { image with inodes := update image.inodes f.ino (change (image.inodes f.ino)) }

def setInode (change : Ext2Inode → Ext2Inode) : Ext2M Bool := do
  modify fun f => { f with inode := change f.inode }
  return true

def ext2InodeVfsType (inode : Ext2Inode) : Option VfsType :=
  match (inode.mode &&& 0xf000).toNat with
  | 0x8000 => some .regular
  | 0x4000 => some .directory
  | 0xa000 => some .symlink
  | 0x1000 => some .fifo
  | 0x2000 => some .character
  | _ => none

def writeInodeSize (size : U64) : Ext2M Bool := do
  let f ← get
  writeInode (fun raw => { raw with sizeLow := size.setWidth 32 })
    <&&> (if f.inode.mode &&& 0xf000 = 0x8000 then
        writeInode fun raw => { raw with sizeHigh := (size >>> 32).setWidth 32 }
      else return true)
    <&&> setInode fun inode => { inode with size }

def writeInodeBlocks (blocks : U64) : Ext2M Bool :=
  writeInode (fun raw => { raw with blocks := blocks.setWidth 32 })
    <&&> setInode fun inode => { inode with blocks }

def writeInodeDirectBlock (logical : Fin 15) (physical : U64) : Ext2M Bool :=
  if 12 ≤ logical.val ∨ 0xffffffff < physical then return false
  else writeInode (fun raw => { raw with
      block := update raw.block logical (physical.setWidth 32) })
    <&&> setInode fun inode => { inode with block := update inode.block logical physical }

/-- `free_block`: the bit in the bitmap is read and written, then the counts of free blocks are. -/
def freeBlock (block : U64) : Ext2M Bool := do
  let f ← get
  if block < f.mount.firstDataBlock ∨ f.mount.blocksCount ≤ block then return false
  else
    mountAccess id <&&> (return f.image.allocated block)
      <&&> mountAccess (fun image =>
        { image with allocated := update image.allocated block false })
      <&&> mountAccess id <&&> mountAccess id

/-- The loop of `free_direct_blocks_from`. -/
def freeDirectBlocks (sectors : U64) : List (Fin 15) → Ext2M Bool
  | [] => return true
  | logical :: rest => do
    let f ← get
    if f.inode.block logical = 0 then freeDirectBlocks sectors rest
    else
      writeInodeDirectBlock logical 0
        <&&> freeBlock (f.inode.block logical)
        <&&> writeInodeBlocks (if sectors ≤ f.inode.blocks then f.inode.blocks - sectors else 0)
        <&&> freeDirectBlocks sectors rest

def directFrom (firstLogical : U64) : List (Fin 15) :=
  (List.finRange 15).filter fun i => firstLogical.toNat ≤ i.val ∧ i.val < 12

def freeDirectBlocksFrom (firstLogical : U64) : Ext2M Bool := do
  let f ← get
  let sectors := f.mount.blockSize / 512
  if sectors = 0 ∨ 12 < firstLogical then return false
  else freeDirectBlocks sectors (directFrom firstLogical)

def keepBlocks (mount : Ext2Mount) (size : U64) : U64 :=
  if size = 0 then 0 else (size - 1) / mount.blockSize + 1

/-- `reply_truncate` for a file that is open. -/
def replyTruncate (size : U64) : Ext2M VfsReply := do
  let f ← get
  if ext2InodeVfsType f.inode ≠ some .regular then return .error VfsErr.fail
  else if f.inode.size < size then return .error VfsErr.access
  else if 12 < keepBlocks f.mount size then return .error VfsErr.access
  else if ← freeDirectBlocksFrom (keepBlocks f.mount size) <&&> writeInodeSize size then
    return { word1 := size }
  else return .error VfsErr.fail

structure Ext2 where
  mount : Ext2Mount
  vfsCallers : List U64 := []
  openFiles : List (U64 × Ext2Open) := []

namespace Ext2

variable (e : Ext2)

def senderIsVfsCaller (sender : U64) : Bool := sender != 0 && e.vfsCallers.contains sender

def openFromMessage (sender : U64) (request : FsRequest) : Option Ext2Open :=
  (e.openFiles.lookup request.word0).filter fun file => file.owner == sender

/-- One round of the loop of `main`, for a request to truncate. -/
def serveTruncate (sender : U64) (request : FsRequest) (image : Ext2Image) :
    VfsReply × Ext2 × Ext2Image :=
  if e.senderIsVfsCaller sender = false then (.error VfsErr.access, e, image)
  else match e.openFromMessage sender request with
    | none => (.error VfsErr.fail, e, image)
    | some file =>
      let (reply, f) := (replyTruncate request.word1).run
        { mount := e.mount, ino := file.ino, inode := file.inode, image }
      let opened := fun entry : U64 × Ext2Open =>
        if entry.1 = request.word0 then (entry.1, { entry.2 with inode := f.inode }) else entry
      (reply, { e with openFiles := e.openFiles.map opened }, f.image)

end Ext2

/-- What else the VFS asks for is answered by `other`. -/
def ext2Answer (service vfsTask : U64) (other : (a : VfsAction) → a.Result) :
    (a : VfsAction) → Ext2 × Ext2Image → a.Result × (Ext2 × Ext2Image)
  | .call port request, σ =>
    if port = service ∧ request.type = .truncate then
      let r := σ.1.serveTruncate vfsTask request σ.2
      (some r.1, r.2)
    else (other (.call port request), σ)
  | a, σ => (other a, σ)

/-- The VFS serves a message while ext2 answers at a port. -/
def serveOnExt2 (s : VfsServer) (message : VfsMessage) (service vfsTask : U64)
    (other : (a : VfsAction) → a.Result) (σ : Ext2 × Ext2Image) : VfsReply × Ext2Image :=
  let r := Prog.exec (ext2Answer service vfsTask other) (vfsServe message s) σ
  (r.1.1, r.2.2)

/-- Only the file that the path names has been changed, and if the request has succeeded, it has the
size. -/
def TruncatedOnly (path : Path) (size : U64) (image : Ext2Image) (r : VfsReply × Ext2Image) : Prop :=
  (∀ ino, image.named path ≠ some ino → r.2.inodes ino = image.inodes ino) ∧
    (r.1.status = 0 → ∃ ino, image.named path = some ino ∧ (r.2.inodes ino).size = size)

/-- Some regular file is open for a task under the handle 2, and is not too short or too long to be
cut to a size. -/
def Ext2.CutsSecond (e : Ext2) (task size : U64) : Prop :=
  e.senderIsVfsCaller task = true ∧ keepBlocks e.mount size ≤ 12 ∧
    ∃ file, e.openFiles.lookup 2 = some file ∧ file.owner = task ∧
      ext2InodeVfsType file.inode = some .regular ∧ size ≤ file.inode.size

/-! ## What truncation does -/

variable {f : Ext2File}

theorem andM_run {m k : Ext2M Bool} :
    (m <&&> k) f = if (m f).1 then k (m f).2 else (false, (m f).2) := by
  show (match (m f).1 with | true => k | false => pure (m f).1) (m f).2 = _
  cases h : (m f).1 <;> rfl

theorem freeBlock_unallocated {block : U64} (h : f.image.allocated block = false) :
    (freeBlock block f).1 = false ∧ (freeBlock block f).2.image.inodes = f.image.inodes := by
  show ((if block < f.mount.firstDataBlock ∨ f.mount.blocksCount ≤ block then (return false : Ext2M Bool)
    else _) f).1 = false ∧ ((ite _ _ _ : Ext2M Bool) f).2.image.inodes = _
  split
  · exact ⟨rfl, rfl⟩
  · simp only [andM_run, mountAccess, h]
    cases f.image.answers f.image.accesses <;> exact ⟨rfl, rfl⟩

/-- The image answers every access, and nothing in it is marked as used. -/
structure Writable (f : Ext2File) : Prop where
  answers : ∀ n, f.image.answers n = true
  unallocated : ∀ block, f.image.allocated block = false

/-- The file after a write to its inode. -/
def Ext2File.written (f : Ext2File) (change : Ext2RawInode → Ext2RawInode) : Ext2File :=
  { f with image := { f.image with
      inodes := update f.image.inodes f.ino (change (f.image.inodes f.ino))
      accesses := f.image.accesses + 1 } }

theorem Writable.writeInode_eq (h : Writable f) (change : Ext2RawInode → Ext2RawInode) :
    writeInode change f = (true, f.written change) := by
  show (mountAccess fun image => { image with
    inodes := update image.inodes f.ino (change (image.inodes f.ino)) }) f = _
  simp only [mountAccess, h.answers, if_true]
  rfl

theorem Writable.written (h : Writable f) (change : Ext2RawInode → Ext2RawInode) :
    Writable (f.written change) := ⟨h.answers, h.unallocated⟩

theorem written_inode (change : Ext2RawInode → Ext2RawInode) :
    (f.written change).image.inodes f.ino = change (f.image.inodes f.ino) := update_self ..

/-- The file after a direct block has been taken from it. -/
def Ext2File.cleared (f : Ext2File) (logical : Fin 15) : Ext2File :=
  { f.written (fun raw => { raw with block := update raw.block logical 0 }) with
    inode := { f.inode with block := update f.inode.block logical 0 } }

theorem Writable.clear_eq (h : Writable f) {logical : Fin 15} (hdirect : logical.val < 12) :
    writeInodeDirectBlock logical 0 f = (true, f.cleared logical) := by
  have hchecks : ¬ (12 ≤ logical.val ∨ (0xffffffff : U64) < 0) :=
    not_or.mpr ⟨not_le.mpr hdirect, by decide⟩
  unfold writeInodeDirectBlock
  rw [if_neg hchecks, andM_run, h.writeInode_eq]
  rfl

/-- With nothing marked as used, the loop has either nothing to free, or gives up after it has taken
one block from the file. -/
theorem Writable.freeDirectBlocks (h : Writable f) (sectors : U64) {logicals}
    (hdirect : ∀ l ∈ logicals, l.val < 12) :
    freeDirectBlocks sectors logicals f = (true, f) ∨ (freeDirectBlocks sectors logicals f).1 = false ∧
        ∃ l, ((freeDirectBlocks sectors logicals f).2.image.inodes f.ino).block l = 0 := by
  induction logicals with
  | nil => exact .inl rfl
  | cons l rest ih =>
    show (ite _ _ _ : Ext2M Bool) f = _ ∨ ((ite _ _ _ : Ext2M Bool) f).1 = _ ∧
      ∃ l, (((ite _ _ _ : Ext2M Bool) f).2.image.inodes f.ino).block l = 0
    split
    · exact ih fun l hl => hdirect l (List.mem_cons_of_mem _ hl)
    obtain ⟨hfail, hkeep⟩ := freeBlock_unallocated (f := f.cleared l) (h.unallocated (f.inode.block l))
    rw [andM_run, h.clear_eq (hdirect l List.mem_cons_self), if_pos rfl, andM_run, hfail]
    refine .inr ⟨rfl, l, ?_⟩
    show ((freeBlock (f.inode.block l) (f.cleared l)).2.image.inodes f.ino).block l = 0
    rw [hkeep]
    have hraw : (f.cleared l).image.inodes f.ino = { f.image.inodes f.ino with
      block := update (f.image.inodes f.ino).block l 0 } := update_self ..
    rw [hraw]
    exact update_self ..

theorem Writable.writeInodeSize (h : Writable f) (size : U64) :
    ((writeInodeSize size f).2.image.inodes f.ino).sizeLow = size.setWidth 32 := by
  show (((writeInode _ <&&> _ : Ext2M Bool) f).2.image.inodes f.ino).sizeLow = _
  rw [andM_run, h.writeInode_eq, if_pos rfl, andM_run]
  let low := f.written fun raw => { raw with sizeLow := size.setWidth 32 }
  have hlow : (low.image.inodes f.ino).sizeLow = size.setWidth 32 :=
    congrArg Ext2RawInode.sizeLow (written_inode _)
  by_cases hreg : f.inode.mode &&& 0xf000 = 0x8000
  · rw [if_pos hreg, (h.written _).writeInode_eq, if_pos rfl]
    have hhigh := written_inode (f := low) fun raw =>
      { raw with sizeHigh := (size >>> 32).setWidth 32 }
    exact (congrArg Ext2RawInode.sizeLow hhigh).trans hlow
  · rw [if_neg hreg]
    exact hlow

theorem replyTruncate_image {size} (hreg : ext2InodeVfsType f.inode = some .regular)
    (hlong : size ≤ f.inode.size) (hkeep : keepBlocks f.mount size ≤ 12) :
    (replyTruncate size f).2 =
      ((freeDirectBlocksFrom (keepBlocks f.mount size) <&&> writeInodeSize size) f).2 := by
  show ((ite _ _ _ : Ext2M VfsReply) f).2 = _
  rw [if_neg (not_not.mpr hreg), if_neg (BitVec.not_lt.mpr hlong), if_neg (BitVec.not_lt.mpr hkeep)]
  show ((if ((freeDirectBlocksFrom _ <&&> writeInodeSize size) f).1 then _ else _ : Ext2M VfsReply) _).2 = _
  split <;> rfl

theorem freeDirectBlocksFrom_eq {firstLogical} (hfirst : firstLogical ≤ 12) :
    freeDirectBlocksFrom firstLogical f =
      freeDirectBlocks (f.mount.blockSize / 512) (directFrom firstLogical) f := by
  have hsectors : f.mount.blockSize / 512 ≠ 0 := by
    rcases f.mount.sized with h | h | h <;> rw [h] <;> decide
  have hchecks : ¬ (f.mount.blockSize / 512 = 0 ∨ 12 < firstLogical) :=
    not_or.mpr ⟨hsectors, BitVec.not_lt.mpr hfirst⟩
  show (ite _ _ _ : Ext2M Bool) f = _
  rw [if_neg hchecks]

/-- An inode that differs from every one that has been cut to a size. -/
def uncut (size : U64) : Ext2RawInode where
  sizeLow := ~~~ size.setWidth 32
  sizeHigh := 0
  blocks := 0
  block := fun _ => 1

theorem uncut_sizeLow (size : U64) : (uncut size).sizeLow ≠ size.setWidth 32 := by
  intro h
  have hbit := congrArg (fun x => x.getLsbD 0) h
  simp [uncut] at hbit

theorem Writable.replyTruncate_cuts (h : Writable f) {size : U64}
    (hkeep : keepBlocks f.mount size ≤ 12) (hreg : ext2InodeVfsType f.inode = some .regular)
    (hlong : size ≤ f.inode.size) :
    (replyTruncate size f).2.image.inodes f.ino ≠ uncut size := by
  have hdirect : ∀ l ∈ directFrom (keepBlocks f.mount size), l.val < 12 := fun l hl =>
    (of_decide_eq_true (List.mem_filter.mp hl).2).2
  rw [replyTruncate_image hreg hlong hkeep, andM_run, freeDirectBlocksFrom_eq hkeep]
  intro heq
  rcases h.freeDirectBlocks (f.mount.blockSize / 512) hdirect with hnone | ⟨hfail, l, hl⟩
  · rw [hnone, if_pos rfl] at heq
    have hlow := h.writeInodeSize size
    rw [heq] at hlow
    exact uncut_sizeLow size hlow
  · rw [hfail, if_neg nofun] at heq
    rw [heq] at hl
    exact absurd hl (show (1 : U32) ≠ 0 by decide)

variable {e : Ext2} {task size : U64} {request : FsRequest}

theorem VfsErr.access_ne : VfsErr.access ≠ 0 := by decide

theorem VfsErr.fail_ne : VfsErr.fail ≠ 0 := by decide

theorem Ext2.serveTruncate_none (hhandle : request.word0 = 2)
    (hcuts : ¬ e.CutsSecond task request.word1) (image : Ext2Image) :
    (e.serveTruncate task request image).1.status ≠ 0 ∧
      (e.serveTruncate task request image).2.2 = image := by
  unfold Ext2.serveTruncate
  split
  · exact ⟨VfsErr.access_ne, rfl⟩
  rename_i hcaller
  split
  · exact ⟨VfsErr.fail_ne, rfl⟩
  rename_i file hfile
  obtain ⟨hlookup, howner⟩ := Option.filter_eq_some_iff.mp hfile
  show ((ite _ _ _ : Ext2M VfsReply) _).1.status ≠ 0 ∧ ((ite _ _ _ : Ext2M VfsReply) _).2.image = image
  split
  · exact ⟨VfsErr.fail_ne, rfl⟩
  split
  · exact ⟨VfsErr.access_ne, rfl⟩
  split
  · exact ⟨VfsErr.access_ne, rfl⟩
  · rename_i hreg hshort hkeep
    exact absurd ⟨Bool.eq_true_of_not_eq_false hcaller, BitVec.not_lt.mp hkeep, file,
      hhandle ▸ hlookup, of_decide_eq_true howner, not_not.mp hreg, BitVec.not_lt.mp hshort⟩ hcuts

/-- An image in which no inode is like one that has been cut to the size. -/
def uncutImage (size : U64) : Ext2Image where
  named := fun _ => none
  inodes := fun _ => uncut size
  allocated := fun _ => false
  answers := fun _ => true

theorem Ext2.serveTruncate_cuts (hhandle : request.word0 = 2) (hcuts : e.CutsSecond task request.word1) :
    ∃ ino, (e.serveTruncate task request (uncutImage request.word1)).2.2.inodes ino ≠
      uncut request.word1 := by
  obtain ⟨hcaller, hkeep, file, hlookup, howner, hreg, hlong⟩ := hcuts
  have hfile : e.openFromMessage task request = some file := by
    unfold Ext2.openFromMessage
    rw [hhandle, hlookup, Option.filter_some, if_pos (beq_iff_eq.mpr howner)]
  refine ⟨file.ino, ?_⟩
  unfold Ext2.serveTruncate
  rw [if_neg (by simp [hcaller]), hfile]
  exact Writable.replyTruncate_cuts ⟨fun _ => rfl, fun _ => rfl⟩ hkeep hreg hlong

/-! ## What the VFS asks for -/

section
variable {s : VfsServer} {message : VfsMessage} {mount : VfsMount} {path : Path} {vfsTask : U64}
  {other : (a : VfsAction) → a.Result} {e : Ext2} {image : Ext2Image}

theorem ext2Answer_truncate {request} (htype : request.type = .truncate) {service} :
    ext2Answer service vfsTask other (.call service request) (e, image) =
      (some (e.serveTruncate vfsTask request image).1, (e.serveTruncate vfsTask request image).2) :=
  if_pos ⟨rfl, htype⟩

variable (htype : message.type = .truncate) (hbuffer : message.buffer.isSome = true)
  (hpath : s.requestPath message = .ok path) (hmount : s.mountForPath path = some mount)
include htype hbuffer hpath hmount

theorem vfsServe_truncate : vfsServe message s = forwardMountBufferPath mount
    (messageSetSubject message (s.messageSubject message)) path { s with resolvedPaths := [] } := by
  unfold vfsServe
  rw [htype]
  rw [if_pos hbuffer]
  show withPath message (vfsMutatePath message) s = _
  rw [withPath, get_bind_run, hpath]
  dsimp only
  rw [vfsMutatePath_eq, hmount]

theorem serveOnExt2_eq (hservice : mount.service ≠ 0) {created : Bool}
    (hcreated : other (.createBuffer (2 + stringLen path + 0 + 0)) = created) :
    serveOnExt2 s message mount.service vfsTask other (e, image) =
      if created then
        let r := e.serveTruncate vfsTask (bufferPathRequest (messageSetSubject message
          (s.messageSubject message)) path) image
        (r.1, r.2.2)
      else (.error VfsErr.fail, image) := by
  have htype' : (messageSetSubject message (s.messageSubject message)).type = .truncate := htype
  have hcreate : ext2Answer mount.service vfsTask other (.createBuffer (2 + stringLen path + 0 + 0))
      (e, image) = (created, (e, image)) := congrArg (fun ok : Bool => (ok, (e, image))) hcreated
  have hcall : ext2Answer mount.service vfsTask other (.call mount.service (bufferPathRequest
      (messageSetSubject message (s.messageSubject message)) path)) (e, image) = _ :=
    ext2Answer_truncate htype'
  unfold serveOnExt2
  rw [vfsServe_truncate htype hbuffer hpath hmount, exec_forwardMountBufferPath (by simp [htype'])
    (by simp [htype']) (by simp [VfsMessage.outCap, htype']) hcreate hcall, if_neg hservice]
  cases created <;> rfl

/-- An outside with memory for everything. -/
def enoughMemory : (a : VfsAction) → a.Result
  | .call .. => none
  | .createBuffer _ | .copyOut .. | .allocOpen | .alloc => true
  | .resolveService _ => (0 : U64)
  | .notifyProcfs .. => ()

/-- **A path can be truncated through the VFS without harm to other files, exactly if the VFS has no
regular file open under the handle 2 that is at least as long as the path.** -/
theorem truncate_named_iff (hservice : mount.service ≠ 0) :
    (∀ other image, TruncatedOnly path (high32 message.word3) image
      (serveOnExt2 s message mount.service vfsTask other (e, image))) ↔
    ¬ e.CutsSecond vfsTask (stringLen path) := by
  constructor
  · intro hall hcuts
    have hhandle : (bufferPathRequest (messageSetSubject message (s.messageSubject message)) path).word0 =
      2 := rfl
    obtain ⟨ino, hino⟩ := Ext2.serveTruncate_cuts hhandle hcuts
    have hnamed := (hall enoughMemory (uncutImage (stringLen path))).1 ino nofun
    rw [serveOnExt2_eq htype hbuffer hpath hmount hservice rfl] at hnamed
    exact hino hnamed
  · intro hcuts other image
    have hhandle : (bufferPathRequest (messageSetSubject message (s.messageSubject message)) path).word0 =
      2 := rfl
    obtain ⟨hstatus, himage⟩ := Ext2.serveTruncate_none hhandle hcuts image
    rw [serveOnExt2_eq htype hbuffer hpath hmount hservice rfl]
    split
    · refine ⟨fun ino _ => congrFun (congrArg Ext2Image.inodes himage) ino, fun h => absurd h hstatus⟩
    · exact ⟨fun _ _ => rfl, fun h => absurd h VfsErr.fail_ne⟩

end

/-- The VFS, which is task 3, has the file with inode 12 open, under the handle 2. -/
def oneOpenFile : Ext2 where
  mount := { blockSize := 1024, firstDataBlock := 1, blocksCount := 8192, sized := Or.inl rfl }
  vfsCallers := [3]
  openFiles :=
    let inode := { mode := 0x81a4, size := 8, blocks := 2, block := fun i => if i = 0 then 40 else 0 }
    [(2, { owner := 3, ino := 12, inode })]

/-- The path `/b` names another file than the one that is open. -/
def twoFiles : Ext2Image where
  named := fun path => if path = "/b".toList then some 13 else none
  inodes := fun ino =>
    { sizeLow := if ino = 12 then 8 else 5, sizeHigh := 0, blocks := 2,
      block := fun i => if i ≠ 0 then 0 else if ino = 12 then 40 else 41 }
  allocated := fun _ => true
  answers := fun _ => true

theorem truncate_named_no_file : TruncatedOnly "/b".toList 0 twoFiles (serveOnExt2 rootAndProc
    (pathMessage .truncate "/b".toList) 5 3 enoughMemory ({ oneOpenFile with openFiles := [] }, twoFiles)) := by
  have hpath : rootAndProc.requestPath (pathMessage .truncate "/b".toList) = .ok "/b".toList := rfl
  have hmount : rootAndProc.mountForPath "/b".toList = some rootMount := by decide +kernel
  refine (truncate_named_iff rfl rfl hpath hmount (by decide)).mpr ?_ enoughMemory twoFiles
  rintro ⟨-, -, file, hfile, -⟩
  exact absurd hfile nofun

/-- **Another file is cut.** To truncate `/b` to nothing cuts the file that is open to three bytes,
leaves `/b` as it is, and is reported as done. -/
theorem truncate_cuts_other : ∃ (s : VfsServer) (message : VfsMessage) (e : Ext2) (image : Ext2Image),
    message.type = .truncate ∧ s.requestPath message = .ok "/b".toList ∧ high32 message.word3 = 0 ∧
      image.named "/b".toList = some 13 ∧ (image.inodes 12).size = 8 ∧ (image.inodes 13).size = 5 ∧
      (serveOnExt2 s message 5 3 enoughMemory (e, image)).1.status = 0 ∧
      ((serveOnExt2 s message 5 3 enoughMemory (e, image)).2.inodes 12).size = 3 ∧
      ((serveOnExt2 s message 5 3 enoughMemory (e, image)).2.inodes 13).size = 5 :=
  ⟨rootAndProc, pathMessage .truncate "/b".toList, oneOpenFile, twoFiles, rfl, rfl, by decide +kernel⟩

end Bunix.User
