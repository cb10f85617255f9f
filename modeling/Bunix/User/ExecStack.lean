import Bunix.Types

/-! # The initial stack of a program

`build_initial_stack` of `user/proc/exec_stack.c`. The stack is built in a buffer from its end down
and then written to the task.
-/
namespace Bunix.User

open Option

variable (r : StackRequest) (l : StackLayout) (image : StackImage)

/-! ## Building -/

/-- A string as C programs pass it. -/
structure CString where
  text : List UInt8
  noNul : 0 ∉ text

/-- The string with its terminator. -/
def CString.bytes (s : CString) : List UInt8 := s.text ++ [0]

/-- The types of the entries of the auxiliary vector, `AT_*` and `BUNIX_AT_*`. -/
inductive AuxType where
  | null | phdr | phent | phnum | pagesz | base | entry | uid | euid | gid | egid | clktck | secure
  | random | execfn | stdout | stderr | time | proc | names

def AuxType.code : AuxType → U64
  | null => 0 | phdr => 3 | phent => 4 | phnum => 5 | pagesz => 6 | base => 7 | entry => 9
  | uid => 11 | euid => 12 | gid => 13 | egid => 14 | clktck => 17 | secure => 23 | random => 25
  | execfn => 31 | stdout => 0x62780101 | stderr => 0x62780102 | time => 0x62780103
  | proc => 0x62780104 | names => 0x62780106

/-- `struct exec_info`, with the program headers it points at, if any. -/
structure ExecInfo where
  (entry phent phnum phdrAddr : U64)
  phdrs : List UInt8
  size : phdrs = [] ∨ phdrs.length = (phnum * phent).toNat

structure ExecStrings where
  (argv envp : List CString)

structure ExecCredentials where
  (uid gid euid egid secure : U64)

structure ExecHandles where
  (stdoutHandle stderrHandle timeHandle procHandle namesHandle : U64)

/-- What `load_task_image` calls `build_initial_stack` with; a null pointer is `none`. -/
structure StackRequest where
  path : CString
  exec : ExecInfo
  interpreterBase : U64
  strings : Option ExecStrings
  creds : Option ExecCredentials
  handles : Option ExecHandles

/-- A program always has a first argument. -/
def StackRequest.argv : List CString :=
  match r.strings with
  | some ⟨value :: rest, _⟩ => value :: rest
  | _ => [r.path]

def StackRequest.envp (r : StackRequest) : List CString := r.strings.elim [] (·.envp)

def rootCreds : ExecCredentials := ⟨0, 0, 0, 0, 0⟩

def emptyHandles : ExecHandles := ⟨0, 0, 0, 0, 0⟩

def procInitStackMax : Nat := 512 * 1024

def userStackTop : Nat := 0x800000

/-- `random_bytes`, the text "bunix-musl-rand". -/
def randomBytes : List UInt8 :=
  [0x62, 0x75, 0x6e, 0x69, 0x78, 0x2d, 0x6d, 0x75, 0x73, 0x6c, 0x2d, 0x72, 0x61, 0x6e, 0x64, 0x00]

/-- `init_stack`, and how much of it is free. -/
structure StackImage where
  sp : Nat
  buffer : Nat → UInt8

namespace StackImage

/-- `mem_copy` to below `sp`. -/
def push (data : List UInt8) : Option StackImage :=
  if data.length > image.sp then none
  else some
    { sp := image.sp - data.length
      buffer := fun i =>
        if image.sp - data.length ≤ i ∧ i < image.sp then data.getD (i - (image.sp - data.length)) 0
        else image.buffer i }

def alignDown (align : Nat) : StackImage :=
  { image with sp := image.sp - image.sp % align }

/-- `stack_base + sp`. -/
def addr : Nat := userStackTop - procInitStackMax + image.sp

/-- The loops over `envp` and `argv`, which start with the last string. -/
def pushStrings (image : StackImage) : List CString → Option (List Nat × StackImage)
  | [] => some ([], image)
  | value :: rest => do
    let (addrs, image) ← image.pushStrings rest
    let image ← image.push value.bytes
    some (image.addr :: addrs, image)

end StackImage

/-- Where the parts of the stack are. -/
structure StackLayout where
  argvAddrs : List Nat
  envAddrs : List Nat
  execfn : Nat
  randomAddr : Nat
  copiedPhdrAddr : Nat

def StackLayout.phdrAddr (l : StackLayout) (exec : ExecInfo) : U64 :=
  if exec.phdrAddr ≠ 0 then exec.phdrAddr else BitVec.ofNat 64 l.copiedPhdrAddr

/-- The auxiliary vector before its `AT_NULL`. -/
def auxv : List (AuxType × U64) :=
  let creds := r.creds.getD rootCreds
  let handles := r.handles.getD emptyHandles
  [(.pagesz, 4096), (.entry, r.exec.entry)] ++
    (if r.interpreterBase ≠ 0 then [(.base, r.interpreterBase)] else []) ++
    [(.phdr, l.phdrAddr r.exec), (.phent, r.exec.phent), (.phnum, r.exec.phnum),
      (.execfn, BitVec.ofNat 64 l.execfn), (.uid, creds.uid), (.euid, creds.euid), (.gid, creds.gid),
      (.egid, creds.egid), (.secure, creds.secure), (.random, BitVec.ofNat 64 l.randomAddr),
      (.clktck, 100), (.stdout, handles.stdoutHandle), (.stderr, handles.stderrHandle),
      (.time, handles.timeHandle), (.proc, handles.procHandle), (.names, handles.namesHandle)]

def auxvPairs (interpreterBase : U64) : Nat := if interpreterBase ≠ 0 then 20 else 19

def stackWords (interpreterBase : U64) (argc envc : Nat) : Nat :=
  1 + argc + 1 + envc + 1 + auxvPairs interpreterBase * 2

def auxWords (aux : List (AuxType × U64)) : List U64 := aux.flatMap fun entry => [entry.1.code, entry.2]

def StackLayout.words (aux : List (AuxType × U64)) : List U64 :=
  BitVec.ofNat 64 l.argvAddrs.length :: (l.argvAddrs.map (BitVec.ofNat 64) ++
    0 :: (l.envAddrs.map (BitVec.ofNat 64) ++ 0 :: auxWords (aux ++ [(.null, 0)])))

/-- The words in little-endian order. -/
def wordBytes (words : List U64) : List UInt8 :=
  words.flatMap fun word => (List.range 8).map fun i => UInt8.ofNat (word.toNat / 256 ^ i)

/-- The cleared buffer is filled from its end. -/
def layoutStack : Option (StackLayout × StackImage) := do
  let (envAddrs, image) ← StackImage.pushStrings ⟨procInitStackMax, fun _ => 0⟩ r.envp
  let (argvAddrs, image) ← image.pushStrings r.argv
  let image ← image.push r.path.bytes
  let execfn := image.addr
  let image ← (image.alignDown 16).push randomBytes
  let randomAddr := image.addr
  let image ← (image.alignDown 8).push r.exec.phdrs
  let l : StackLayout := ⟨argvAddrs, envAddrs, execfn, randomAddr, image.addr⟩
  let image ← (image.alignDown 16).push (wordBytes (l.words (auxv r l)))
  some (l, image)

/-- The result is `*stack` and what is there, or a failure. `allocated` is whether the buffers could be
allocated, and `written` whether `task_write_bytes` can write the image. -/
def buildInitialStack (allocated : Bool) (written : StackImage → Bool) (r : StackRequest) :
    Option (Nat × StackImage) := do
  guard (r.exec.phdrs ≠ [] ∧ allocated = true)
  let (_, image) ← layoutStack r
  guard (written image)
  some (image.addr, image)

/-! ## The stack pointer -/

variable {image image' : StackImage} {r : StackRequest} {allocated : Bool}
  {written : StackImage → Bool} {sp : Nat}

theorem StackImage.push_sp {data} (h : image.push data = some image') : image'.sp + data.length = image.sp := by
  unfold push at h
  split at h
  · cases h
  · cases h
    exact Nat.sub_add_cancel (by omega)

theorem StackImage.length_pushStrings {strings addrs} (h : image.pushStrings strings = some (addrs, image')) :
    addrs.length = strings.length := by
  induction strings generalizing addrs image' with
  | nil =>
    cases h
    rfl
  | cons value rest ih =>
    simp only [pushStrings, bind_eq_bind, bind_eq_some_iff] at h
    obtain ⟨⟨addrs', image₁⟩, hrest, image₂, hpush, h⟩ := h
    cases h
    simp [ih hrest]

theorem length_wordBytes (words : List U64) : (wordBytes words).length = 8 * words.length := by
  simp [wordBytes, List.length_flatMap, Nat.mul_comm]

theorem length_words (r : StackRequest) (l : StackLayout) :
    (l.words (auxv r l)).length = stackWords r.interpreterBase l.argvAddrs.length l.envAddrs.length := by
  simp only [StackLayout.words, auxWords, auxv, stackWords, auxvPairs]
  split <;> simp <;> omega

/-- The words end at a multiple of 16. -/
theorem layoutStack_sp {l} (h : layoutStack r = some (l, image)) :
    (image.sp + 8 * stackWords r.interpreterBase r.argv.length r.envp.length) % 16 = 0 := by
  simp only [layoutStack, bind_eq_bind, bind_eq_some_iff] at h
  obtain ⟨⟨envAddrs, image₁⟩, henv, ⟨argvAddrs, image₂⟩, hargv, image₃, hpath, image₄, hrandom, image₅,
    hphdrs, image₆, hwords, h⟩ := h
  cases h
  have hsp := StackImage.push_sp hwords
  rw [length_wordBytes, length_words, StackImage.length_pushStrings henv,
    StackImage.length_pushStrings hargv] at hsp
  simp only [StackImage.alignDown] at hsp
  omega

theorem buildInitialStack_sp (h : buildInitialStack allocated written r = some (sp, image)) :
    (sp + 8 * stackWords r.interpreterBase r.argv.length r.envp.length) % 16 = 0 := by
  simp only [buildInitialStack, bind_eq_bind, bind_eq_some_iff] at h
  obtain ⟨_, -, ⟨l, image⟩, hlayout, _, -, h⟩ := h
  cases h
  have hsp := layoutStack_sp hlayout
  simp only [StackImage.addr, userStackTop, procInitStackMax]
  omega

/-- **The stack pointer is aligned for an odd number of strings only**: the words are pushed after
the last alignment. -/
theorem initial_stack_aligned_iff (h : buildInitialStack allocated written r = some (sp, image)) :
    sp % 16 = 0 ↔ (r.argv.length + r.envp.length) % 2 = 1 := by
  have hsp := buildInitialStack_sp h
  unfold stackWords auxvPairs at hsp
  split at hsp <;> omega

def shPath : CString := ⟨[0x2f, 0x73, 0x68], by decide⟩

/-- A program with one header. -/
def shRequest (strings : Option ExecStrings) : StackRequest :=
  ⟨shPath, ⟨0x400000, 56, 1, 0, List.replicate 56 0, .inr rfl⟩, 0, strings, none, none⟩

theorem shRequest_built (strings : Option ExecStrings)
    (h : (buildInitialStack true (fun _ => true) (shRequest strings)).isSome = true) :
    ∃ sp image, buildInitialStack true (fun _ => true) (shRequest strings) = some (sp, image) := by
  simpa [isSome_iff_exists] using h

theorem initial_stack_aligned_one : ∃ sp image,
    buildInitialStack true (fun _ => true) (shRequest none) = some (sp, image) ∧ sp % 16 = 0 := by
  obtain ⟨sp, image, h⟩ := shRequest_built none (by decide +kernel)
  exact ⟨sp, image, h, (initial_stack_aligned_iff h).2 (by decide)⟩

/-- One argument and one environment string. -/
theorem initial_stack_misaligned : ∃ sp image,
    buildInitialStack true (fun _ => true) (shRequest (some ⟨[shPath], [shPath]⟩)) = some (sp, image) ∧
      sp % 16 = 8 := by
  obtain ⟨sp, image, h⟩ := shRequest_built (some ⟨[shPath], [shPath]⟩) (by decide +kernel)
  have hsp : (sp + 8 * 43) % 16 = 0 := buildInitialStack_sp h
  exact ⟨sp, image, h, by omega⟩

end Bunix.User
