import Bunix.User.TmpfsOpen
import Bunix.Lib.ByteFile

/-! # tmpfs: the bytes of a file

An inode has memory for its contents, and a size that may be less. A truncation that cuts leaves the
bytes in memory; one that extends clears what it uncovers. A write behind the end uncovers such bytes
too and does not clear them, so that it writes to the abstract file only if they are zero.

The memory is found by doubling. Sizes beyond `2 ^ 63` are never reached: the doubling then goes on
for ever. The end of a write is computed modulo `2 ^ 64`.
-/
namespace Bunix.User

open Bunix.Lib List Option

variable {ok : Bool}

namespace Tmpfs

variable {env : TmpfsEnv} {s s' s₁ : Tmpfs} {g : FileId} {i : InodeId} {n m : TmpfsInode}
  {handle sender owner task offset len size : U64} {payload : Option (List UInt8)} {r : VfsReply}

/-! ## Memory -/

theorem resize_data (h : s.resize n size = some (ok, m, s')) :
    ∃ k, m = { n with data := n.data ++ replicate k 0 } := by
  unfold resize at h
  split at h
  · cases h
    exact ⟨0, by simp⟩
  split at h
  · cases h
  split at h
  · cases h
    exact ⟨0, by simp⟩
  · cases h
    exact ⟨_, rfl⟩

/-- What the memory holds between the end of the file and an offset is zero. -/
def CleanGap (n : TmpfsInode) (offset : U64) : Prop :=
  ∀ b ∈ (n.data.take offset.toNat).drop n.size.toNat, b = 0

instance (n : TmpfsInode) (offset : U64) : Decidable (CleanGap n offset) :=
  inferInstanceAs (Decidable (∀ b ∈ _, _))

theorem CleanGap.getElem? (h : CleanGap n offset) (hsize : n.size.toNat ≤ k)
    (hk : k < offset.toNat) (hdata : k < n.data.length) : n.data[k]? = some 0 := by
  have hget : ((n.data.take offset.toNat).drop n.size.toNat)[k - n.size.toNat]? = n.data[k]? := by
    rw [getElem?_drop, show n.size.toNat + (k - n.size.toNat) = k by omega, getElem?_take_of_lt hk]
  rw [getElem?_eq_getElem hdata] at hget ⊢
  exact congrArg some (h _ (mem_of_getElem? hget))

theorem contents_getElem? (n : TmpfsInode) (k : Nat) :
    n.contents[k]? = if k < n.size.toNat then n.data[k]? else none := by
  unfold TmpfsInode.contents
  rw [getElem?_take]

theorem contents_overwrite {bytes} (hb : n.Bounded) (hgap : CleanGap n offset)
    (hm : m = { n with data := n.data ++ replicate k 0 }) (hlen : bytes.length = len.toNat)
    (hfit : offset.toNat + len.toNat ≤ m.data.length) (hlt : m.data.length < 2 ^ 64) :
    TmpfsInode.contents { m with data := overwrite m.data offset.toNat bytes
                                 size := maxU64 (offset + len) m.size } =
      ByteFile.write 0 n.contents offset.toNat bytes := by
  have hsum : (offset + len).toNat = offset.toNat + len.toNat := by
    rw [BitVec.toNat_add, Nat.mod_eq_of_lt (by omega)]
  have hsize : (maxU64 (offset + len) m.size).toNat = max (offset.toNat + len.toNat) n.size.toNat := by
    rw [toNat_maxU64, hsum, hm]
  refine ext_getElem? fun j => ?_
  rw [ByteFile.write_getElem?, TmpfsInode.contents, getElem?_take, hsize, hlen,
    overwrite_getElem? (by omega), length_contents hb]
  by_cases hin : offset.toNat ≤ j ∧ j < offset.toNat + len.toNat
  · rw [if_pos (by omega), if_pos (by omega), if_pos hin]
  rw [if_neg hin]
  by_cases hsz : j < n.size.toNat
  · rw [if_pos (by omega), if_neg (by omega), if_pos hsz, contents_getElem?, if_pos hsz, hm,
      getElem?_append_left (by have := hb.1; omega)]
  rw [if_neg hsz]
  by_cases hoff : j < offset.toNat
  · -- the gap
    rw [if_pos (by omega), if_neg (by omega), if_pos hoff]
    by_cases hdata : j < n.data.length
    · rw [hm, getElem?_append_left hdata]
      exact hgap.getElem? (by omega) hoff hdata
    · have hlen' : m.data.length = n.data.length + k := by rw [hm]; simp
      rw [hm, getElem?_append_right (by omega), getElem?_replicate, if_pos (by omega)]
  · rw [if_neg (by omega), if_neg hoff]

theorem setSize_contents (hb : n.Bounded) (h : s.setSize n size = some (ok, m, s')) :
    m.contents = if ok then ByteFile.truncate 0 n.contents size.toNat else n.contents := by
  unfold setSize at h
  split at h
  · cases h
  · rename_i m' s₁ hr
    cases h
    obtain ⟨k, rfl⟩ := resize_data hr
    rw [if_neg (by simp), TmpfsInode.contents, take_append_of_le_length hb.1]
    rfl
  · rename_i m' s₁ hr
    cases h
    have hres := (resize_spec hr).2
    have henough := hres.enough hb rfl
    obtain ⟨k, rfl⟩ := resize_data hr
    rw [if_pos rfl]
    refine ext_getElem? fun j => ?_
    rw [ByteFile.truncate_getElem?, TmpfsInode.contents, getElem?_take, length_contents hb,
      contents_getElem?]
    by_cases hj : j < size.toNat
    swap
    · rw [if_neg hj, if_pos (by omega)]
    rw [if_pos hj, if_neg (show ¬ size.toNat ≤ j by omega)]
    by_cases hgrow : n.size < size
    · have hgrow' : n.size.toNat < size.toNat := hgrow
      rw [if_pos hgrow, overwrite_getElem? (by rw [length_replicate]; omega), length_replicate]
      by_cases hold : j < n.size.toNat
      · rw [if_neg (by omega), if_pos hold, if_pos hold, getElem?_append_left (by have := hb.1; omega)]
      · rw [if_pos (by omega), if_neg hold, getElem?_replicate, if_pos (by omega)]
    · have hshrink : size.toNat ≤ n.size.toNat := BitVec.not_lt.mp hgrow
      rw [if_neg hgrow, if_pos (by omega), if_pos (by omega),
        getElem?_append_left (by have := hb.1; omega)]

/-! ## Runs -/

/-- The inode whose contents a request is about. -/
def fileOf (s : Tmpfs) (sender : U64) : TmpfsRequest → Option InodeId
  | .read handle .. =>
    match s.openFromMessage handle sender with
    | some ⟨_, .file g⟩ => (s.inodeOf g).map (·.1)
    | _ => none
  | request => s.writtenInode sender request

/-- A write does not uncover what is left of a longer file. -/
def WritesClean (s : Tmpfs) (i : InodeId) : TmpfsRequest → Prop
  | .write _ offset .. => ∀ n, s.inode i = some n → CleanGap n offset
  | _ => True

instance (s : Tmpfs) (i : InodeId) (request : TmpfsRequest) : Decidable (s.WritesClean i request) := by
  unfold WritesClean
  split
  · exact inferInstanceAs (Decidable (∀ n ∈ s.inode i, CleanGap n _))
  · infer_instance

/-- What a request with its reply does to the abstract file. -/
def FileEffect (c : List UInt8) (e : TmpfsCall × VfsReply) (c' : List UInt8) : Prop :=
  match e.1.request with
  | .write _ offset len _ payload =>
    if e.2.status = 0 then ∃ bytes, payload = some bytes ∧ bytes.length = len.toNat ∧ e.2.word1 = len ∧
      c' = ByteFile.write 0 c offset.toNat bytes
    else c' = c
  | .truncate _ _ size | .truncatePath _ _ size =>
    if e.2.status = 0 then c' = ByteFile.truncate 0 c size.toNat else c' = c
  | .read _ offset len =>
    c' = c ∧ (e.2.status = 0 → e.2.data = ByteFile.read c offset.toNat len.toNat ∧
      e.2.word1.toNat = e.2.data.length)
  | _ => False

def contents (s : Tmpfs) (i : InodeId) : List UInt8 := ((s.inode i).map TmpfsInode.contents).getD []

theorem onHandle_file (hi : (match s.openFromMessage handle sender with
      | some ⟨_, .file g⟩ => (s.inodeOf g).map (·.1)
      | _ => none) = some i) (hn : s.inode i = some n) : s.onHandle sender handle f = f i n := by
  split at hi
  · rename_i owner g ho
    obtain ⟨⟨j, m⟩, hof, rfl⟩ := map_eq_some_iff.mp hi
    obtain ⟨-, -, -, hm⟩ := inodeOf_eq_some hof
    simp only [onHandle, ho, hof]
    rw [hn] at hm
    cases hm
    rfl
  · cases hi

theorem write_effect (hb : n.Bounded) (hn : s.inode i = some n)
    (hi : s.writtenInode sender (.write handle offset len task payload) = some i)
    (hgap : CleanGap n offset)
    (h : handleWrite env s sender handle offset len task payload = some (r, s')) :
    ∃ n', s'.inode i = some n' ∧ n'.Bounded ∧
      FileEffect n.contents (⟨env, sender, .write handle offset len task payload⟩, r) n'.contents := by
  unfold handleWrite at h
  rw [onHandle_file hi hn] at h
  split at h
  · cases h
    exact ⟨n, hn, hb, rfl⟩
  split at h
  · cases h
  · rename_i m s₁ hr
    cases h
    exact ⟨n, (congrFun (resize_spec hr).1.inode i).trans hn, hb, rfl⟩
  rename_i m s₁ hr
  have hres := (resize_spec hr).2
  obtain ⟨k, hm⟩ := resize_data hr
  split at h
  · -- the memory may have grown, and the caller's buffer cannot be read
    cases h
    refine ⟨m, setInode_inode_self _, hres.bounded hb, ?_⟩
    show m.contents = n.contents
    rw [hm, TmpfsInode.contents, take_append_of_le_length hb.1]
    rfl
  · rename_i bytes
    split at h
    · cases h
    rename_i hcond
    simp only [not_or, ne_eq, not_not, not_lt] at hcond
    cases h
    refine ⟨_, setInode_inode_self _,
      bounded_overwrite (hres.bounded hb) hcond.1 hcond.2 (hres.enough hb rfl), ?_⟩
    exact ⟨bytes, rfl, hcond.1, rfl,
      contents_overwrite hb hgap hm hcond.1 hcond.2 (hres.bounded hb).2.lt⟩

theorem setSize_effect (hb : n.Bounded) (h : s.setSize n size = some (ok, m, s₁)) :
    ∃ n', (s₁.setInode i (some m)).inode i = some n' ∧ n'.Bounded ∧
      if (VfsReply.error (if ok then 0 else VfsErr.fail)).status = 0
        then n'.contents = ByteFile.truncate 0 n.contents size.toNat else n'.contents = n.contents := by
  refine ⟨m, setInode_inode_self _, (setSize_spec h).2.2.2 hb, ?_⟩
  have hcontents := setSize_contents hb h
  cases ok with
  | true | false => exact hcontents

theorem read_effect (hn : s.inode i = some n) (hb : n.Bounded)
    (hi : s.fileOf sender (.read handle offset len) = some i)
    (h : handleRead env s sender handle offset len = some (r, s')) :
    s' = s ∧ (r.status = 0 → r.data = ByteFile.read n.contents offset.toNat len.toNat ∧
      r.word1.toNat = r.data.length) := by
  unfold handleRead at h
  split at h
  · cases h
    exact ⟨rfl, fun hs => by cases hs⟩
  rw [onHandle_file hi hn] at h
  split at h
  · rename_i hle
    cases h
    have hdrop : n.contents.drop offset.toNat = [] := by
      rw [drop_eq_nil_iff, length_contents hb]
      exact hle
    refine ⟨rfl, fun _ => ?_⟩
    rw [ByteFile.read, hdrop, take_nil]
    exact ⟨rfl, rfl⟩
  rename_i hlt
  split at h
  · cases h
    exact ⟨rfl, fun hs => by cases hs⟩
  cases h
  have hlt := BitVec.not_le.mp hlt
  refine ⟨rfl, fun _ => ?_⟩
  rw [contentsAt_eq hlt]
  refine ⟨rfl, ?_⟩
  rw [length_take, length_drop, length_contents hb, toNat_minU64,
    BitVec.toNat_sub_of_le (BitVec.le_of_lt hlt)]
  omega

theorem truncate_effect (hb : n.Bounded) (hn : s.inode i = some n)
    (hi : s.fileOf sender (.truncate handle task size) = some i)
    (h : handleTruncate env s sender handle task size = some (r, s')) :
    ∃ n', s'.inode i = some n' ∧ n'.Bounded ∧
      FileEffect n.contents (⟨env, sender, .truncate handle task size⟩, r) n'.contents := by
  unfold handleTruncate at h
  rw [onHandle_file hi hn] at h
  split at h
  · cases h
    exact ⟨n, hn, hb, rfl⟩
  obtain ⟨⟨ok, m, s₁⟩, hsize, he⟩ := map_eq_some_iff.mp h
  cases he
  exact setSize_effect hb hsize

theorem writtenInode_path {raw} (hi : ((readPath raw).bind s.inodeFind).map (·.1) = some i) :
    ∃ n, (readPath raw).bind s.inodeFind = some (i, n) ∧ s.inode i = some n := by
  obtain ⟨⟨j, k⟩, hfind, rfl⟩ := map_eq_some_iff.mp hi
  obtain ⟨path, -, hpath⟩ := bind_eq_some_iff.mp hfind
  obtain ⟨f, -, hof⟩ := bind_eq_some_iff.mp hpath
  obtain ⟨x, -, -, hk⟩ := inodeOf_eq_some hof
  exact ⟨k, hfind, hk⟩

theorem truncatePath_effect (hb : n.Bounded) (hn : s.inode i = some n)
    (hi : s.fileOf sender (.truncatePath raw task size) = some i)
    (h : handleTruncatePath env s raw task size = some (r, s')) :
    ∃ n', s'.inode i = some n' ∧ n'.Bounded ∧
      FileEffect n.contents (⟨env, sender, .truncatePath raw task size⟩, r) n'.contents := by
  obtain ⟨k, hfind, hk⟩ := writtenInode_path hi
  rw [hn] at hk
  cases hk
  unfold handleTruncatePath at h
  rw [hfind] at h
  dsimp only at h
  split at h
  · cases h
    exact ⟨n, hn, hb, rfl⟩
  split at h
  · cases h
    exact ⟨n, hn, hb, rfl⟩
  obtain ⟨⟨ok, m, s₁⟩, hsize, he⟩ := map_eq_some_iff.mp h
  cases he
  exact setSize_effect hb hsize

theorem fileOf_handle (hi : (match s.openFromMessage handle sender with
      | some ⟨_, .file g⟩ => (s.inodeOf g).map (·.1)
      | _ => none) = some i) : ∃ n, s.inode i = some n := by
  split at hi
  · obtain ⟨⟨j, m⟩, hof, rfl⟩ := map_eq_some_iff.mp hi
    obtain ⟨-, -, -, hm⟩ := inodeOf_eq_some hof
    exact ⟨m, hm⟩
  · cases hi

theorem fileOf_inode (hi : s.fileOf sender request = some i) : ∃ n, s.inode i = some n := by
  cases request with
  | read handle offset len | write handle offset len task payload | truncate handle task size =>
    exact fileOf_handle hi
  | truncatePath raw task size =>
    obtain ⟨n, -, hn⟩ := writtenInode_path hi
    exact ⟨n, hn⟩
  | _ => cases hi

theorem refused_effect (c : List UInt8) (hi : s.fileOf sender request = some i) :
    FileEffect c (⟨env, sender, request⟩, .error VfsErr.access) c := by
  cases request with
  | read handle offset len => exact ⟨rfl, fun hs => by cases hs⟩
  | write handle offset len task payload | truncate handle task size | truncatePath raw task size =>
    exact rfl
  | _ => cases hi

theorem step_effect (hb : n.Bounded) (hn : s.inode i = some n)
    (hi : s.fileOf sender request = some i) (hclean : s.WritesClean i request)
    (h : s.step env sender request = some (r, s')) :
    ∃ n', s'.inode i = some n' ∧ n'.Bounded ∧
      FileEffect n.contents (⟨env, sender, request⟩, r) n'.contents := by
  unfold step at h
  split at h
  · cases h
    exact ⟨n, hn, hb, refused_effect _ hi⟩
  cases request with
  | read handle offset len =>
    obtain ⟨rfl, hread⟩ := read_effect hn hb hi h
    exact ⟨n, hn, hb, rfl, hread⟩
  | write handle offset len task payload => exact write_effect hb hn hi (hclean n hn) h
  | truncate handle task size => exact truncate_effect hb hn hi h
  | truncatePath raw task size => exact truncatePath_effect hb hn hi h
  | _ => cases hi

theorem Outcome.invariant {P : Tmpfs → Prop} (hP : ∀ t e t', P t → FileStep t e t' → P t')
    (ho : Outcome s sender request s') (hs : P s) : P s' := by
  cases ho with
  | harmless h =>
    obtain ⟨es, hr⟩ := h
    exact hr.invariant (fun t e t' ht hstep => hP t e t' ht hstep.2) hs
  | write _ hq hw => exact hP _ _ _ (hP _ _ _ hs (.quiet hq)) hw
  | unlink _ _ hu | rmdir _ _ _ hu => exact hP _ _ _ hs hu
  | close _ _ hc => exact hP _ _ _ hs hc
  | @rename _ _ _ _ _ _ _ s₁ _ _ _ _ _ _ hover hq hmove =>
    have hs₁ : P s₁ := by
      rcases hover with rfl | ⟨g, -, hu⟩
      · exact hs
      · exact hP _ _ _ hs hu
    have hs₂ := hP _ _ _ hs₁ (.quiet hq)
    rcases hmove with rfl | hm | hm
    · exact hs₂
    · exact hP _ _ _ hs₂ hm
    · exact hP _ _ _ hs₂ hm

/-- Every file lies in its memory. -/
structure Sized (s : Tmpfs) : Prop where
  wf : s.Wf
  bounded : ∀ i n, s.inode i = some n → n.Bounded

theorem Sized.fileStep (h : Sized s) (hs : FileStep s e s') : Sized s' := by
  refine ⟨h.wf.fileStep hs, fun i m hm => ?_⟩
  rcases hs.inode_cases h.wf hm with ⟨-, hb⟩ | ⟨n, hn, hkept⟩
  · exact hb
  · exact hkept.bounded (h.bounded i n hn)

theorem Sized.step (h : Sized s) (hs : s.step env sender request = some (r, s')) : Sized s' :=
  (step_outcome h.wf hs).invariant (fun _ _ _ ht hstep => ht.fileStep hstep) h

theorem sized_init (allocs : Nat → Bool) : Sized (init allocs) :=
  ⟨wf_init allocs, fun i n hn => by cases hn⟩

theorem sized_run {allocs calls}
    (hr : Run (fun s (call : TmpfsCall) s' => s.serve call = some s') (init allocs) calls s) :
    Sized s := by
  refine hr.invariant (P := Sized) (fun s call s' h hs => ?_) (sized_init allocs)
  obtain ⟨⟨r, t⟩, hstep, rfl⟩ := map_eq_some_iff.mp hs
  exact h.step hstep

/-- A request on a file with its reply, where a write does not uncover old bytes. -/
def CleanFileStep (i : InodeId) (s : Tmpfs) (e : TmpfsCall × VfsReply) (s' : Tmpfs) : Prop :=
  s.fileOf e.1.sender e.1.request = some i ∧ s.WritesClean i e.1.request ∧
    s.step e.1.env e.1.sender e.1.request = some (e.2, s')

/-- `/a` is made and opened. -/
def openScratch : List TmpfsCall :=
  [⟨openEnv, 1, .grantSubject 0⟩, ⟨openEnv, 1, .create (some "/a".toList) 1 0o666⟩,
    ⟨openEnv, 1, .openPath (some "/a".toList)⟩]

/-- Three bytes are written and cut off, then one byte is written behind the end. -/
def shrinkThenWrite : List (TmpfsCall × VfsReply) :=
  [(⟨openEnv, 1, .write 1 0 3 0 (some [97, 98, 99])⟩, { word1 := 3 }),
    (⟨openEnv, 1, .truncate 1 0 0⟩, {}), (⟨openEnv, 1, .write 1 2 1 0 (some [120])⟩, { word1 := 1 }),
    (⟨openEnv, 1, .read 1 0 3⟩, { word1 := 3, data := [97, 98, 120] })]

/-- The file is made longer before the byte is written. -/
def growThenWrite : List (TmpfsCall × VfsReply) :=
  [(⟨openEnv, 1, .write 1 0 3 0 (some [97, 98, 99])⟩, { word1 := 3 }),
    (⟨openEnv, 1, .truncate 1 0 0⟩, {}), (⟨openEnv, 1, .truncate 1 0 2⟩, {}),
    (⟨openEnv, 1, .write 1 2 1 0 (some [120])⟩, { word1 := 1 }),
    (⟨openEnv, 1, .read 1 0 3⟩, { word1 := 3, data := [0, 0, 120] })]

/-- A request on a file with the reply it has to get. -/
def fileStep? (i : InodeId) (s : Tmpfs) (e : TmpfsCall × VfsReply) : Option Tmpfs :=
  if s.fileOf e.1.sender e.1.request = some i then
    ((s.step e.1.env e.1.sender e.1.request).filter fun x => x.1 = e.2).map (·.2)
  else none

theorem fileStep?_eq (h : fileStep? i s e = some s') :
    s.fileOf e.1.sender e.1.request = some i ∧
      s.step e.1.env e.1.sender e.1.request = some (e.2, s') := by
  unfold fileStep? at h
  split at h
  swap
  · cases h
  rename_i hi
  obtain ⟨⟨r, t⟩, hf, rfl⟩ := map_eq_some_iff.mp h
  obtain ⟨hstep, hr⟩ := filter_eq_some_iff.mp hf
  rw [← of_decide_eq_true hr]
  exact ⟨hi, hstep⟩

end Tmpfs

end Bunix.User
