import Bunix.User.TmpfsBytes

/-! # Requests that make a file longer

`file_resize` doubles the capacity of a file until the size asked for fits. Capacities are powers of
two, so that the loop ends for sizes of up to 2^63 and for no others. A write adds its offset and its
length in 64 bits before it asks, and then writes at the offset: the sum must not wrap.
-/
namespace Bunix.User

open Bunix.Lib List

namespace Tmpfs

variable {env : TmpfsEnv} {s s' s₁ : Tmpfs} {i : InodeId} {n m : TmpfsInode}
  {handle sender offset len size task : U64} {request : TmpfsRequest} {r : VfsReply}

/-! ## The doubling loop -/

theorem growCapacity_ends {capacity fuel} (hj : j < 64) (hc : capacity.toNat = 2 ^ j)
    (hsize : size.toNat ≤ 2 ^ 63) (hfuel : 64 - j ≤ fuel) :
    ∃ grown, growCapacity size fuel capacity = some grown := by
  induction fuel generalizing capacity j with
  | zero => omega
  | succ fuel ih =>
    unfold growCapacity
    split
    · rename_i hlt
      have hlt : capacity.toNat < size.toNat := hlt
      have hne : j ≠ 63 := by
        rintro rfl
        omega
      have hdouble := toNat_double hj hc
      rw [if_neg hne] at hdouble
      exact ih (by omega) hdouble (by omega)
    · exact ⟨capacity, rfl⟩

theorem growCapacity_never {capacity fuel} (hj : j < 64) (hc : capacity.toNat = 2 ^ j)
    (hsize : 2 ^ 63 < size.toNat) : growCapacity size fuel capacity = none := by
  cases h : growCapacity size fuel capacity with
  | none => rfl
  | some grown =>
    have hle : size.toNat ≤ grown.toNat := growCapacity_spec h
    obtain ⟨k, -, hk, hgrown⟩ := growCapacity_power hj hc h
    have hpow : 2 ^ k ≤ 2 ^ 63 := Nat.pow_le_pow_right (by decide) (by omega)
    omega

theorem resize_ends (s : Tmpfs) (hb : n.Bounded) (hsize : size.toNat ≤ 2 ^ 63) :
    ∃ ok m s', s.resize n size = some (ok, m, s') := by
  obtain ⟨j, hj, hlt, hstart, -⟩ := startCapacity hb
  unfold resize
  split
  · exact ⟨_, _, _, rfl⟩
  have hends : ∃ grown, growCapacity size 65 (if capacity n = 0 then 64 else capacity n) = some grown :=
    growCapacity_ends hlt hstart hsize (by omega)
  obtain ⟨grown, hgrown⟩ := hends
  rw [hgrown]
  dsimp only
  split
  · exact ⟨_, _, _, rfl⟩
  · exact ⟨_, _, _, rfl⟩

theorem resize_never (hb : n.Bounded) (hsize : 2 ^ 63 < size.toNat) : s.resize n size = none := by
  obtain ⟨j, hj, hlt, hstart, -⟩ := startCapacity hb
  have hcap : (capacity n).toNat ≤ 2 ^ 63 := by
    rw [capacity_toNat hb]
    rcases hb.2 with hzero | ⟨k, -, hk, hlen⟩
    · omega
    · rw [hlen]
      exact Nat.pow_le_pow_right (by decide) (by omega)
  have hmore : ¬ size ≤ capacity n := by
    rw [BitVec.le_def]
    omega
  unfold resize
  rw [if_neg hmore, growCapacity_never hlt hstart hsize]

theorem resize_true {ok} (hm : s.allocs 0 = true) (h : s.resize n size = some (ok, m, s')) :
    ok = true := by
  unfold resize at h
  split at h
  · cases h
    rfl
  split at h
  · cases h
  split at h
  · rename_i halloc
    rw [alloc, hm] at halloc
    cases halloc
  · cases h
    rfl

/-! ## Requests -/

/-- The end of the file a write asks for, as a number, or the size a truncation asks for. -/
def newEnd : TmpfsRequest → Nat
  | .write _ offset len _ _ => offset.toNat + len.toNat
  | .truncate _ _ size | .truncatePath _ _ size => size.toNat
  | _ => 0

/-- The request comes to the point where it changes the size of the file. -/
def Permitted (s : Tmpfs) (env : TmpfsEnv) (sender : U64) (n : TmpfsInode) : TmpfsRequest → Prop
  | .write _ _ _ task _ =>
    s.senderIsVfsCaller sender = true ∧ taskCanAccess env task (some n) 2 = true ∧ env.buffer = true
  | .truncate _ task _ => s.senderIsVfsCaller sender = true ∧ taskCanAccess env task (some n) 2 = true
  | .truncatePath _ task _ =>
    s.senderIsVfsCaller sender = true ∧ n.type = .regular ∧ taskCanAccess env task (some n) 2 = true
  | _ => False

/-- The request as it can be when the caller's buffer is read: a write has no bytes if that fails,
and else as many as it asks for. -/
def Delivers : TmpfsRequest → TmpfsRequest → Prop
  | .write handle offset len task _, request =>
    ∃ payload : Option (List UInt8), (∀ bytes ∈ payload, bytes.length = len.toNat) ∧
      request = .write handle offset len task payload
  | request, request' => request' = request

/-- The request is answered without a byte outside of the memory of the file being touched. The new
size is within that memory, and a failure leaves size and contents as they were. -/
def ServedSafely (s : Tmpfs) (i : InodeId) (env : TmpfsEnv) (sender : U64) (request : TmpfsRequest) :
    Prop :=
  ∃ r s' n n', s.step env sender request = some (r, s') ∧ s.inode i = some n ∧ s'.inode i = some n' ∧
    n'.size.toNat ≤ n'.data.length ∧ (r.status = 0 → newEnd request ≤ n'.data.length) ∧
    (r.status ≠ 0 → n'.size = n.size ∧ n'.contents = n.contents)

theorem servedSafely_refused (hb : n.Bounded) (hn : s.inode i = some n) (hr : r.status ≠ 0)
    (h : s.step env sender request = some (r, s)) : s.ServedSafely i env sender request :=
  ⟨r, s, n, n, h, hn, hn, hb.1, fun h0 => absurd h0 hr, fun _ => ⟨rfl, rfl⟩⟩

theorem step_caller (hcaller : s.senderIsVfsCaller sender = true) :
    s.step env sender request = handleVfs env s sender request := by
  unfold step
  rw [if_neg (by rw [hcaller]; simp)]

theorem step_refused (hneeds : needsCaller request = true) (hcaller : s.senderIsVfsCaller sender = false) :
    s.step env sender request = some (.error VfsErr.access, s) := by
  unfold step
  rw [if_pos ⟨hneeds, hcaller⟩]

theorem servedSafely_write {payload} (hb : n.Bounded) (hn : s.inode i = some n)
    (hi : s.writtenInode sender (.write handle offset len task payload) = some i)
    (hlen : ∀ bytes ∈ payload, bytes.length = len.toNat)
    (hend : s.Permitted env sender n (.write handle offset len task payload) →
      offset.toNat + len.toNat ≤ 2 ^ 63) :
    s.ServedSafely i env sender (.write handle offset len task payload) := by
  cases hcaller : s.senderIsVfsCaller sender with
  | false => exact servedSafely_refused hb hn (by decide) (step_refused rfl hcaller)
  | true =>
  have hstep : s.step env sender (.write handle offset len task payload) = _ := step_caller hcaller
  simp only [handleVfs, handleWrite, onHandle_file hi hn] at hstep
  split at hstep
  · exact servedSafely_refused hb hn (by decide) hstep
  rename_i hallowed
  simp only [not_or, Bool.not_eq_false] at hallowed
  have hend := hend ⟨hcaller, hallowed⟩
  have hsum : (offset + len).toNat = offset.toNat + len.toNat := by
    rw [BitVec.toNat_add, Nat.mod_eq_of_lt (by omega)]
  rw [← hsum] at hend
  obtain ⟨ok, m, s₁, hr⟩ := resize_ends s hb hend
  obtain ⟨hq, hres⟩ := resize_spec hr
  rw [hr] at hstep
  cases ok with
  | false =>
    exact ⟨_, s₁, n, n, hstep, hn, (congrFun hq.inode i).trans hn, hb.1, fun h0 => absurd h0 (by decide),
      fun _ => ⟨rfl, rfl⟩⟩
  | true =>
    have henough : offset.toNat + len.toNat ≤ m.data.length := hsum ▸ hres.enough hb rfl
    cases payload with
    | none =>
      obtain ⟨k, hm⟩ := resize_data hr
      refine ⟨_, _, n, m, hstep, hn, setInode_inode_self _, (hres.bounded hb).1,
        fun h0 => absurd h0 (by decide), fun _ => ⟨hres.same_size, ?_⟩⟩
      rw [hm, TmpfsInode.contents, take_append_of_le_length hb.1]
      rfl
    | some bytes =>
      have hbytes : bytes.length = len.toNat := hlen bytes rfl
      have hfits : ¬(bytes.length ≠ len.toNat ∨ m.data.length < offset.toNat + len.toNat) := by omega
      dsimp only at hstep
      rw [if_neg hfits] at hstep
      have hbound := bounded_overwrite (hres.bounded hb) hbytes henough (hsum.symm ▸ henough)
      refine ⟨_, _, n, _, hstep, hn, setInode_inode_self _, hbound.1, fun _ => ?_,
        fun h0 => absurd rfl h0⟩
      rw [length_overwrite (by omega)]
      exact henough

theorem servedSafely_truncate (hb : n.Bounded) (hn : s.inode i = some n)
    (hn' : s'.inode i = some n') (hb' : n'.Bounded) (h : s.step env sender request = some (r, s'))
    (heffect : if r.status = 0 then n'.contents = ByteFile.truncate 0 n.contents (newEnd request)
      else n'.contents = n.contents) : s.ServedSafely i env sender request := by
  refine ⟨r, s', n, n', h, hn, hn', hb'.1, fun h0 => ?_, fun h0 => ?_⟩
  · rw [if_pos h0] at heffect
    have hlen := congrArg length heffect
    rw [length_contents hb', ByteFile.length_truncate] at hlen
    exact hlen ▸ hb'.1
  · rw [if_neg h0] at heffect
    have hlen := congrArg length heffect
    rw [length_contents hb', length_contents hb] at hlen
    exact ⟨BitVec.eq_of_toNat_eq hlen, heffect⟩

theorem setSize_ends (s : Tmpfs) (hb : n.Bounded) (hsize : size.toNat ≤ 2 ^ 63) :
    ∃ ok m s', s.setSize n size = some (ok, m, s') := by
  obtain ⟨ok, m, s₁, hr⟩ := resize_ends s hb hsize
  unfold setSize
  rw [hr]
  cases ok with
  | false | true => exact ⟨_, _, _, rfl⟩

theorem setSize_never (hb : n.Bounded) (hsize : 2 ^ 63 < size.toNat) : s.setSize n size = none := by
  unfold setSize
  rw [resize_never hb hsize]

/-- A request that sets the size of an inode is refused and changes nothing, or the size is set. -/
def SetsSize (s : Tmpfs) (env : TmpfsEnv) (sender : U64) (request : TmpfsRequest) (i : InodeId)
    (n : TmpfsInode) (size : U64) : Prop :=
  (¬ s.Permitted env sender n request ∧ ∃ r, r.status ≠ 0 ∧ s.step env sender request = some (r, s)) ∨
  (s.Permitted env sender n request ∧
    s.step env sender request = (s.setSize n size).map fun x =>
      (.error (if x.1 then 0 else VfsErr.fail), x.2.2.setInode i (some x.2.1)))

theorem step_truncate (hn : s.inode i = some n)
    (hi : s.writtenInode sender (.truncate handle task size) = some i) :
    s.SetsSize env sender (.truncate handle task size) i n size := by
  cases hcaller : s.senderIsVfsCaller sender with
  | false =>
    refine .inl ⟨fun hp => ?_, _, ?_, step_refused rfl hcaller⟩
    · exact Bool.false_ne_true (hcaller.symm.trans hp.1)
    · decide
  | true =>
  rw [SetsSize, step_caller hcaller]
  simp only [handleVfs, handleTruncate, onHandle_file hi hn]
  cases haccess : taskCanAccess env task (some n) 2 with
  | false =>
    refine .inl ⟨fun hp => ?_, .error VfsErr.access, ?_, rfl⟩
    · exact Bool.false_ne_true (haccess.symm.trans hp.2)
    · decide
  | true => exact .inr ⟨⟨hcaller, haccess⟩, rfl⟩

theorem step_truncatePath {raw} (hn : s.inode i = some n)
    (hi : s.writtenInode sender (.truncatePath raw task size) = some i) :
    s.SetsSize env sender (.truncatePath raw task size) i n size := by
  cases hcaller : s.senderIsVfsCaller sender with
  | false =>
    refine .inl ⟨fun hp => ?_, _, ?_, step_refused rfl hcaller⟩
    · exact Bool.false_ne_true (hcaller.symm.trans hp.1)
    · decide
  | true =>
  obtain ⟨k, hfind, hk⟩ := writtenInode_path hi
  rw [hn] at hk
  cases hk
  rw [SetsSize, step_caller hcaller]
  simp only [handleVfs, handleTruncatePath, hfind]
  by_cases htype : n.type = .regular
  swap
  · rw [if_pos htype]
    refine .inl ⟨fun hp => htype hp.2.1, .error VfsErr.noent, ?_, rfl⟩
    decide
  rw [if_neg (not_not.mpr htype)]
  cases haccess : taskCanAccess env task (some n) 2 with
  | false =>
    refine .inl ⟨fun hp => ?_, .error VfsErr.access, ?_, rfl⟩
    · exact Bool.false_ne_true (haccess.symm.trans hp.2.2)
    · decide
  | true => exact .inr ⟨⟨hcaller, htype, haccess⟩, rfl⟩

theorem servedSafely_setSize (hb : n.Bounded) (hn : s.inode i = some n)
    (hsize : newEnd request = size.toNat) (hstep : s.SetsSize env sender request i n size) :
    s.ServedSafely i env sender request ↔ (s.Permitted env sender n request → newEnd request ≤ 2 ^ 63) := by
  rcases hstep with ⟨hnot, r, hr, hstep⟩ | ⟨hpermitted, hstep⟩
  · exact iff_of_true (servedSafely_refused hb hn hr hstep) fun hp => absurd hp hnot
  constructor
  · rintro ⟨r, s', -, -, hsome, -⟩ -
    by_contra hlt
    rw [hstep, setSize_never hb (by omega)] at hsome
    cases hsome
  · intro hle
    rw [hsize] at hle
    obtain ⟨ok, m, s₁, hset⟩ := setSize_ends s hb (hle hpermitted)
    obtain ⟨n', hn', hb', heffect⟩ := setSize_effect hb hset
    rw [← hsize] at heffect
    rw [hset] at hstep
    exact servedSafely_truncate hb hn hn' hb' hstep heffect

/-- A write that ends above 2^63 is not answered safely if there is memory and the caller's buffer
can be read. -/
theorem not_servedSafely_write {bytes} (hb : n.Bounded) (hn : s.inode i = some n)
    (hi : s.writtenInode sender (.write handle offset len task (some bytes)) = some i)
    (hm : s.allocs 0 = true)
    (hpermitted : s.Permitted env sender n (.write handle offset len task (some bytes)))
    (hend : 2 ^ 63 < offset.toNat + len.toNat) :
    ¬ s.ServedSafely i env sender (.write handle offset len task (some bytes)) := by
  obtain ⟨hcaller, haccess, hbuffer⟩ := hpermitted
  rintro ⟨r, s', -, -, hstep, -⟩
  rw [step_caller hcaller] at hstep
  simp only [handleVfs, handleWrite, onHandle_file hi hn] at hstep
  rw [haccess, hbuffer, if_neg (by decide)] at hstep
  by_cases hwrap : offset.toNat + len.toNat < 2 ^ 64
  · -- the loop does not end
    have hsum : (offset + len).toNat = offset.toNat + len.toNat := by
      rw [BitVec.toNat_add, Nat.mod_eq_of_lt hwrap]
    rw [resize_never hb (by omega)] at hstep
    cases hstep
  · -- the sum has wrapped, and the bytes go outside of the memory of the file
    cases hr : s.resize n (offset + len) with
    | none =>
      rw [hr] at hstep
      cases hstep
    | some x =>
      obtain ⟨ok, m, s₁⟩ := x
      have hlt := ((resize_spec hr).2.bounded hb).2.lt
      cases resize_true hm hr
      rw [hr] at hstep
      dsimp only at hstep
      rw [if_pos (.inr (by omega))] at hstep
      cases hstep

end Tmpfs

end Bunix.User
