import Bunix.Net.TcpRun

/-! # Reads of a TCP socket that fail

`reply_tcp_read` takes bytes out of the queue as it copies them to the buffer, a segment at a time. If
a segment behind the first one does not fit, the read fails, and what was copied is lost.
-/
namespace Bunix.Net

open List Nat

/-- `buffer_write` to a shared buffer of `size` bytes: whether the bytes fit. -/
def bufferWrite (size offset len : Nat) : Bool := decide (offset + len ≤ size)

namespace TcpSocket

def returned (s : TcpSocket) : List TcpEvent → List (List UInt8)
  | [] => []
  | .packet packet alloc :: later => (s.ingress alloc packet).returned later
  | .read buffer maxLen :: later =>
    let read := s.replyTcpRead buffer maxLen
    (if read.1.ok then read.2.1 else []) :: read.2.2.returned later

/-- The unread bytes of the first segment. -/
def firstLen : List TcpSegment → Nat
  | [] => 0
  | segment :: _ => segment.len - segment.offset

/-- The buffer has room for the first segment, but not for all that is asked for and queued. -/
structure Straddled (s : TcpSocket) (size maxLen : Nat) : Prop where
  connected : s.established = true ∧ s.reset = false
  room : firstLen s.rx ≤ size
  less : size < min maxLen s.queued.length

/-- Each segment has bytes to read. None is queued without, and a read frees those it has read. -/
def Unspent (segments : List TcpSegment) : Prop := ∀ segment ∈ segments, segment.offset < segment.len

variable {s : TcpSocket} {write : Nat → Nat → Bool} {maxLen size : Nat} {ok : Bool}
  {data done out : List UInt8} {segment : TcpSegment} {segments rest : List TcpSegment}

theorem unspent_cons : Unspent (segment :: rest) ↔ segment.offset < segment.len ∧ Unspent rest :=
  forall_mem_cons

/-- The loop goes well if the buffer has room for all that is asked for and queued; else it has taken
the first segment unless its first write has failed. -/
theorem readLoop_outcome {all} (h : Unspent segments) (hmax : done.length ≤ maxLen)
    (hsize : done.length ≤ size)
    (hall : min maxLen (done.length + (segments.flatMap TcpSegment.unread).length) = all)
    (hloop : readLoop (bufferWrite size) maxLen done segments = (ok, out, rest)) :
    Unspent rest ∧ (ok = true ∧ all ≤ size ∧ out.length = all ∨ ok = false ∧ size < all ∧
          (size < done.length + firstLen segments ∧ out = done ∧ rest = segments ∨
            done.length + firstLen segments ≤ min size out.length)) := by
  induction segments generalizing done with
  | nil =>
    rw [flatMap_nil, length_nil] at hall
    cases hloop
    exact ⟨h, .inl ⟨rfl, by omega⟩⟩
  | cons segment segments ih =>
    obtain ⟨hoffset, hlater⟩ := unspent_cons.mp h
    rw [flatMap_cons, length_append, length_unread] at hall
    rw [firstLen]
    unfold readLoop at hloop
    split at hloop
    swap
    · cases hloop
      exact ⟨h, .inl ⟨rfl, by omega⟩⟩
    dsimp only at hloop
    split at hloop
    · rename_i hfull
      rw [bufferWrite, decide_eq_false_iff_not] at hfull
      cases hloop
      exact ⟨h, .inr ⟨rfl, by omega, .inl ⟨by omega, rfl, rfl⟩⟩⟩
    rename_i hfits
    rw [bufferWrite, Bool.not_eq_false, decide_eq_true_eq] at hfits
    have hlonger : (done ++ (segment.data.drop segment.offset).take
        (min (segment.len - segment.offset) (maxLen - done.length))).length =
        done.length + min (segment.len - segment.offset) (maxLen - done.length) := by
      rw [length_append, length_take, length_drop]
      exact congrArg _ (min_eq_left (min_le_left _ _))
    split at hloop
    · obtain ⟨hrest, hresult⟩ := ih hlater (by omega) (by omega) (by omega) hloop
      refine ⟨hrest, hresult.imp_right ?_⟩
      rintro ⟨hok, hless, ⟨-, rfl, -⟩ | htaken⟩
      · exact ⟨hok, hless, .inr (by omega)⟩
      · exact ⟨hok, hless, .inr (by omega)⟩
    · cases hloop
      refine ⟨unspent_cons.mpr ⟨?_, hlater⟩, .inl ⟨rfl, by omega⟩⟩
      show segment.offset + min _ _ < segment.len
      omega

theorem replyTcpRead_loop (hs : s.established = true ∧ s.reset = false) (hmax : maxLen ≠ 0)
    (hloop : readLoop write maxLen [] s.rx = (ok, out, rest)) :
    ((s.replyTcpRead (some write) maxLen).1.ok = true ↔
      ok = true ∧ (out = [] → s.peerWriteClosed = true)) ∧ (s.replyTcpRead (some write) maxLen).2 =
        (out, { s with rx := rest, rxLen := s.rxLen - out.length }) := by
  have hcond : ¬(s.established = false ∨ s.reset = true ∨ maxLen = 0) := by
    simp [hs.1, hs.2, hmax]
  simp only [replyTcpRead, if_neg hcond, hloop]
  split
  · simp_all
  split <;> simp_all

theorem returned_all (h : Unspent s.rx) (hs : s.established = true ∧ s.reset = false)
    (hmax : s.queued.length ≤ maxLen) (hpos : maxLen ≠ 0) :
    s.returned [.read (some (bufferWrite maxLen)) maxLen] = [s.queued] := by
  cases hloop : readLoop (bufferWrite maxLen) maxLen [] s.rx with
  | mk ok result =>
    obtain ⟨out, rest⟩ := result
    obtain ⟨hreply, hread⟩ := replyTcpRead_loop hs hpos hloop
    obtain ⟨hbytes, -⟩ := TcpConnection.readLoop_spec _ _ (fun t ht => (h t ht).le) hloop
    obtain ⟨rfl, -, hlen⟩ := (readLoop_outcome h (zero_le _) (zero_le _)
      ((congrArg _ (zero_add _)).trans (min_eq_right hmax)) hloop).2.resolve_right
      fun hc => absurd hc.2.1 (not_lt.mpr hmax)
    have hout : out = s.queued := (show out <+: s.queued from ⟨_, hbytes⟩).eq_of_length hlen
    rw [returned, hread, hout]
    split
    · rfl
    · rename_i hfailed
      by_contra hne
      exact hfailed (hreply.mpr ⟨rfl, fun hnil => absurd (by rw [← hout, hnil]; rfl) hne⟩)

theorem firstLen_pos (h : Unspent segments) (hne : segments ≠ []) :
    0 < firstLen segments ∧ firstLen segments ≤ (segments.flatMap TcpSegment.unread).length := by
  cases segments with
  | nil => exact absurd rfl hne
  | cons segment segments =>
    have hoffset := (unspent_cons.mp h).1
    rw [firstLen, flatMap_cons, length_append, length_unread]
    omega

/-- **A failed read consumes nothing exactly if the buffer is too small for the first segment or has
room for all** that is asked for and queued. -/
theorem failed_read_neutral_iff (h : Unspent s.rx) (buffer : Option Nat) (maxLen : Nat) :
    ((s.replyTcpRead (buffer.map bufferWrite) maxLen).1.ok = false → ∀ later,
      (s.replyTcpRead (buffer.map bufferWrite) maxLen).2.2.returned later = s.returned later) ↔
      ∀ size ∈ buffer, ¬s.Straddled size maxLen := by
  cases hread : s.replyTcpRead (buffer.map bufferWrite) maxLen with | mk reply read
  obtain ⟨bytes, s'⟩ := read
  cases buffer with
  | none =>
    cases hread
    exact ⟨fun _ => nofun, fun _ _ _ => rfl⟩
  | some size =>
    rw [Option.map_some] at hread
    simp only [Option.mem_def, Option.some.injEq, forall_eq']
    by_cases hcond : s.established = false ∨ s.reset = true ∨ maxLen = 0
    · rw [replyTcpRead, if_pos hcond] at hread
      cases hread
      refine ⟨fun _ hstraddled => ?_, fun _ _ _ => rfl⟩
      have hless := hstraddled.less
      simp [hstraddled.connected] at hcond
      omega
    simp only [not_or, Bool.not_eq_false, Bool.not_eq_true] at hcond
    obtain ⟨hest, hreset, hmax⟩ := hcond
    cases hloop : readLoop (bufferWrite size) maxLen [] s.rx with
    | mk ok result =>
      obtain ⟨out, rest⟩ := result
      obtain ⟨hok, hsocket⟩ := replyTcpRead_loop ⟨hest, hreset⟩ hmax hloop
      rw [hread] at hok hsocket
      cases hsocket
      obtain ⟨hrest, hresult⟩ := readLoop_outcome h (zero_le _) (zero_le _)
        (congrArg _ (zero_add _)) hloop
      rcases hresult with ⟨rfl, hfits, hlen⟩ | ⟨rfl, hless, ⟨hfirst, rfl, rfl⟩ | hfirst⟩
      · refine ⟨fun _ hstraddled => absurd hstraddled.less (not_lt.mpr hfits), ?_⟩
        intro _ hfailed later
        have hnil : bytes = [] := by
          by_contra hne
          rw [hok.mpr ⟨rfl, fun hc => absurd hc hne⟩] at hfailed
          cases hfailed
        have hrx : s.rx = [] := by
          by_contra hne
          have hpos := firstLen_pos h hne
          rw [hnil, length_nil] at hlen
          omega
        rw [hrx] at hloop
        cases hloop
        rw [← hrx]
        rfl
      · rw [length_nil, zero_add] at hfirst
        exact ⟨fun _ hstraddled => absurd hstraddled.room (not_le.mpr hfirst), fun _ _ _ => rfl⟩
      · -- a read of everything tells the difference
        rw [length_nil, zero_add, le_min_iff] at hfirst
        refine ⟨fun hneutral => ?_, fun hc => absurd ⟨⟨hest, hreset⟩, hfirst.1, hless⟩ hc⟩
        have hne : s.rx ≠ [] := by
          rintro hrx
          rw [hrx] at hloop
          cases hloop
        have hpos := firstLen_pos h hne
        obtain ⟨hbytes, -⟩ := TcpConnection.readLoop_spec _ _ (fun t ht => (h t ht).le) hloop
        have hlen := congrArg length hbytes
        rw [length_append, nil_append] at hlen
        have hpositive := ne_of_gt (hpos.1.trans_le hpos.2)
        have hall := returned_all h ⟨hest, hreset⟩ le_rfl hpositive
        have hleft := returned_all (s := { s with rx := rest, rxLen := s.rxLen - bytes.length }) hrest
          ⟨hest, hreset⟩ (le_of_add_left_le hlen.le) hpositive
        have hsame := hleft.symm.trans
          ((hneutral (Bool.eq_false_iff.mpr fun hc => by cases (hok.mp hc).1) _).trans hall)
        have hshort := congrArg length (cons.inj hsame).1
        change (rest.flatMap TcpSegment.unread).length = (s.rx.flatMap TcpSegment.unread).length at hshort
        omega

/-- Two segments of which the first one fits. -/
def twoSegments : TcpSocket where
  rxAck := 5
  handshakeDone := true
  rxLen := 4
  rx := [{ seq := 0, capacity := 2, data := [1, 2] }, { seq := 0, capacity := 2, data := [3, 4] }]

theorem failed_read_neutral_iff_two :
    (twoSegments.replyTcpRead (some (bufferWrite 1)) 4).1.ok = false ∧ ∀ later,
      (twoSegments.replyTcpRead (some (bufferWrite 1)) 4).2.2.returned later =
        twoSegments.returned later := by
  have hunspent : Unspent twoSegments.rx := by
    unfold Unspent
    decide
  refine ⟨by decide, (failed_read_neutral_iff hunspent (some 1) 4).mpr ?_ (by decide)⟩
  intro size hsize hstraddled
  cases hsize
  exact absurd hstraddled.room (by decide)

theorem failed_read_consumes : ∃ later,
    (twoSegments.replyTcpRead (some (bufferWrite 3)) 4).1.ok = false ∧
      (twoSegments.replyTcpRead (some (bufferWrite 3)) 4).2.2.returned later = [[3, 4]] ∧
      twoSegments.returned later = [[1, 2, 3, 4]] :=
  ⟨[.read (some (bufferWrite 4)) 4], by decide, by decide, by decide⟩

end TcpSocket

end Bunix.Net
