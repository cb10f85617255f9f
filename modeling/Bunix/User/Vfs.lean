import Bunix.Lib.SlashPath
import Bunix.Types

/-! # What the file servers share

The path functions, file types and error codes of the virtual file system protocol, as the file
servers have them (`user/tmpfs/main.c`, `user/unionfs/main.c`, `user/include/bunix/syscall.h`).
A path is the string up to its terminating zero.
-/
namespace Bunix.User

open Bunix.Lib SlashPath List

abbrev Path := SlashPath

/-- `TMPFS_MAX_PATH` and `UNIONFS_MAX_PATH`: the size of a path buffer with the zero. -/
def maxPath : Nat := 4096

inductive VfsType where
  | regular
  | directory
  | symlink
  | fifo
  | character
deriving DecidableEq, Repr

namespace VfsType

def code : VfsType → U64
  | regular => 1
  | directory => 2
  | symlink => 3
  | fifo => 4
  | character => 5

def ofCode (code : U64) : Option VfsType :=
  [regular, directory, symlink, fifo, character].find? fun t => t.code == code

end VfsType

namespace VfsErr

def noent : U64 := 1
def access : U64 := 2
def notdir : U64 := 3
def isdir : U64 := 4
def exist : U64 := 5
def notempty : U64 := 6
def xdev : U64 := 7
def inval : U64 := 8
def busy : U64 := 9
def loop : U64 := 10
/-- `(u64)-1`. -/
def fail : U64 := -1

end VfsErr

def pathBytes (path : Path) : List UInt8 := path.map fun c => c.toNat.toUInt8

def bytesPath (bytes : List UInt8) : Path := bytes.map fun b => Char.ofNat b.toNat

/-- What `bunix_vfs_stat_write_times` writes for a file. -/
structure VfsStat where
  size : U64
  mode : U32
  type : VfsType
  uid : U32
  gid : U32
  ino : U64
  nlink : U64
  atime : U64
  mtime : U64
  ctime : U64
deriving DecidableEq, Repr

namespace VfsStat

/-- Mode and type as they are packed into one word. -/
def modeType (st : VfsStat) : U64 := st.mode.zeroExtend 64 ||| (st.type.code <<< 32)

/-- Owner and group as they are packed into one word. -/
def owner (st : VfsStat) : U64 := st.uid.zeroExtend 64 ||| (st.gid.zeroExtend 64 <<< 32)

end VfsStat

/-- A reply: its words, and what the server has written to the buffer of the request. -/
structure VfsReply where
  status : U64 := 0
  word1 : U64 := 0
  word2 : U64 := 0
  word3 : U64 := 0
  data : List UInt8 := []
  stat : Option VfsStat := none
deriving DecidableEq, Repr

def VfsReply.error (status : U64) : VfsReply := { status }

/-- The reply to a request for the metadata of a file. -/
def VfsReply.ofStat (st : VfsStat) : VfsReply where
  word1 := st.size
  word2 := st.modeType
  word3 := st.owner
  stat := some st

def pathHasPrefixChild : Path → Path → Bool
  | path, [] => path.head? == some '/'
  | [], _ :: _ => false
  | c :: path, d :: dir => c == d && pathHasPrefixChild path dir

def pathIsAtOrUnder (path dir : Path) : Bool := path == dir || pathHasPrefixChild path dir

/-- The position of the last slash from position 1 on; `last` if there is none. -/
def lastSlash (last : Nat) : Nat → Path → Nat
  | _, [] => last
  | i, c :: path => lastSlash (if c = '/' then i else last) (i + 1) path

/-- `path_parent_path`, and `relative_parent_path` of unionfs. -/
def pathParentPath (path : Path) : Option Path :=
  if path.head? ≠ some '/' then none
  else
    let last := lastSlash 0 1 path.tail
    if last = 0 then some ['/'] else some (path.take last)

/-! ## What the functions compute -/

variable {path dir : Path}

theorem pathHasPrefixChild_iff : pathHasPrefixChild path dir = true ↔ Under dir path := by
  induction dir generalizing path with
  | nil =>
    unfold pathHasPrefixChild Under
    cases path with
    | nil => simp
    | cons c path =>
      simp only [head?_cons, beq_iff_eq, Option.some.injEq, nil_append, cons.injEq,
        exists_and_left, exists_eq', and_true]
  | cons d dir ih =>
    cases path with
    | nil => simp [pathHasPrefixChild, Under]
    | cons c path =>
      simp only [pathHasPrefixChild, Bool.and_eq_true, beq_iff_eq, ih, Under,
        cons_append, cons.injEq]
      constructor
      · rintro ⟨rfl, rest, rfl⟩
        exact ⟨rest, rfl, rfl⟩
      · rintro ⟨rest, rfl, rfl⟩
        exact ⟨rfl, rest, rfl⟩

theorem pathIsAtOrUnder_iff :
    pathIsAtOrUnder path dir = true ↔ AtOrUnder dir path := by
  unfold pathIsAtOrUnder AtOrUnder
  rw [Bool.or_eq_true, beq_iff_eq, pathHasPrefixChild_iff]

theorem lastSlash_of_not_mem {last} (h : '/' ∉ path) : lastSlash last i path = last := by
  induction path generalizing i with
  | nil => rfl
  | cons c path ih =>
    rw [mem_cons, not_or] at h
    rw [lastSlash, if_neg fun hc => h.1 hc.symm]
    exact ih h.2

theorem lastSlash_child {last name} (hname : '/' ∉ name) :
    lastSlash last i (dir ++ '/' :: name) = i + dir.length := by
  induction dir generalizing i last with
  | nil =>
    exact lastSlash_of_not_mem hname
  | cons c dir ih =>
    rw [cons_append, lastSlash, ih, length_cons]
    omega

theorem pathParentPath_cons (rest : Path) : pathParentPath ('/' :: rest) =
    if lastSlash 0 1 rest = 0 then some ['/'] else some (('/' :: rest).take (lastSlash 0 1 rest)) :=
  rfl

theorem pathParentPath_eq_some : pathParentPath path = some dir ↔ Parent dir path := by
  unfold Parent
  by_cases hslash : path.head? = some '/'
  swap
  · simp [pathParentPath, hslash]
  obtain ⟨rest, rfl⟩ : ∃ rest, path = '/' :: rest := by
    cases path with
    | nil => cases hslash
    | cons c rest =>
      cases hslash
      exact ⟨rest, rfl⟩
  rw [pathParentPath_cons]
  simp only [hslash, true_and]
  by_cases hmem : '/' ∈ rest
  · obtain ⟨d, name, hname, rfl⟩ := exists_last_slash hmem
    have hchild : Child ('/' :: d) ('/' :: (d ++ '/' :: name)) := ⟨name, hname, rfl⟩
    rw [lastSlash_child hname, if_neg (by omega)]
    have htake : ('/' :: (d ++ '/' :: name)).take (1 + d.length) = '/' :: d := by
      rw [Nat.add_comm, take_succ_cons, take_left]
    rw [htake]
    constructor
    · intro he
      cases he
      exact .inl ⟨by simp, hchild⟩
    · rintro (⟨-, hc⟩ | ⟨-, hc⟩)
      · rw [hchild.unique hc]
      · exact absurd (hchild.unique hc) (by simp)
  · have hchild : Child [] ('/' :: rest) := ⟨rest, hmem, rfl⟩
    rw [lastSlash_of_not_mem hmem, if_pos rfl]
    constructor
    · intro he
      cases he
      exact .inr ⟨rfl, hchild⟩
    · rintro (⟨hne, hc⟩ | ⟨rfl, -⟩)
      · exact absurd (hc.unique hchild) hne
      · rfl

end Bunix.User
