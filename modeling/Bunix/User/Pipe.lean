import Bunix.Lib.RingBuffer
import Bunix.Lib.Transition
import Bunix.User.LinuxFiles

/-! # Pipes of the Linux server

`struct linux_pipe` of `user/linux/main.c`, with the parts of `linux_read`, `linux_write_buffer` and
`linux_close` for the ends of a pipe. A read of an empty pipe and a write to a full one are parked in
the pipe, one of each, and answered in the course of later requests. Copies from and to the buffers
of the processes, and replies, can fail.
-/
namespace Bunix.User

open Bunix.Lib List Nat

def Errno.eagain : Int := 11
def Errno.epipe : Int := 32

/-- `LINUX_PIPE_CAPACITY`, which is also `LINUX_MAX_WRITE`, the size of `write_buffer`. -/
def pipeCapacity : Nat := 65536

/-- `PIPE_BUF` of Linux. -/
def pipeBuf : Nat := 4096

inductive PipeEnd where
  | read
  | write
deriving DecidableEq

/-- `reader_reply`, `reader_buffer` and `reader_len`, or those of the writer. -/
structure ParkedCall where
  reply : U64
  buffer : U64
  len : Nat

structure LinuxPipe where
  readRefs : Nat := 1
  writeRefs : Nat := 1
  ring : RingBuffer UInt8 := { data := fun _ => 0 }
  reader : Option ParkedCall := none
  writer : Option ParkedCall := none

/-- The answer to a read or a write of `len` bytes, with the bytes it took from the pipe or put into
it. Nothing depends on whether it is delivered: failures of `bunix_ipc_send` are ignored. -/
structure PipeReply where
  call : PipeEnd
  blocking : Bool
  len : Nat
  result : Int
  bytes : List UInt8 := []
  delivered : Bool := true
deriving DecidableEq

abbrev PipeLog := LinuxPipe × List PipeReply

/-- What the outside does in the course of a request. -/
structure PipeEnv where
  /-- `bunix_buffer_write` to the buffer of a reader succeeds. -/
  bufferWrite : U64 → Bool := fun _ => true
  /-- The bytes that `bunix_buffer_read` gets from the buffer of a writer. -/
  bufferRead : U64 → Nat → Option (Nat → UInt8)
  /-- The reply reaches its process. -/
  send : PipeReply → Bool := fun _ => true

/-- A transfer, with the replies that were sent meanwhile. -/
structure PipeTransfer where
  result : Int
  bytes : List UInt8 := []
  pipe : LinuxPipe
  replies : List PipeReply := []

def PipeTransfer.reply (t : PipeTransfer) (call : PipeEnd) (blocking : Bool) (len : Nat) : PipeReply :=
  { call, blocking, len, result := t.result, bytes := t.bytes }

namespace LinuxPipe

variable (env : PipeEnv) (p : LinuxPipe)

abbrev contents : List UInt8 := p.ring.contents pipeCapacity

/-- `linux_pipe_read_available`. The bytes leave the pipe before they are copied. -/
def readAvailable (wakeWriter : LinuxPipe → PipeLog) (len : Nat) (buffer : U64) :
    PipeTransfer :=
  if buffer = 0 then { result := -Errno.ebadf, pipe := p }
  else if p.ring.len = 0 then { result := if p.writeRefs = 0 then 0 else -Errno.eagain, pipe := p }
  else
    let nread := min len p.ring.len
    let pipe := { p with ring := p.ring.pop pipeCapacity nread }
    if env.bufferWrite buffer then
      let woken := wakeWriter pipe
      { result := nread, bytes := p.ring.front pipeCapacity nread, pipe := woken.1, replies := woken.2 }
    else { result := -Errno.efault, pipe }

def writeAvailable (len : Nat) (buffer : U64) : PipeTransfer :=
  if buffer = 0 then { result := -Errno.ebadf, pipe := p }
  else if p.readRefs = 0 then { result := -Errno.epipe, pipe := p }
  else if pipeCapacity - p.ring.len = 0 then { result := -Errno.eagain, pipe := p }
  else
    let nwritten := min (min len pipeCapacity) (pipeCapacity - p.ring.len)
    match if nwritten = 0 then some fun _ => 0 else env.bufferRead buffer nwritten with
    | none => { result := -Errno.efault, pipe := p }
    | some copied =>
      let bytes := (List.range nwritten).map copied
      { result := nwritten, bytes, pipe := { p with ring := p.ring.push pipeCapacity bytes } }

def wakeWriter (wakeReader : LinuxPipe → PipeLog) : PipeLog :=
  match p.writer with
  | none => (p, [])
  | some parked =>
    if p.readRefs ≠ 0 ∧ p.ring.len = pipeCapacity then (p, [])
    else
      let t := { p with writer := none }.writeAvailable env parked.len parked.buffer
      let woken := wakeReader t.pipe
      (woken.1, t.reply .write true parked.len :: woken.2)

/-- `linux_pipe_wake_reader`. It comes to itself again only through `linux_pipe_wake_writer`, when no
reader is parked any more: one round is enough. -/
def wakeReader : Nat → LinuxPipe → PipeLog
  | 0, p => (p, [])
  | rounds + 1, p =>
    match p.reader with
    | none => (p, [])
    | some parked =>
      if p.ring.len = 0 ∧ p.writeRefs ≠ 0 then (p, [])
      else
        let t := { p with reader := none }.readAvailable env
          (fun p => p.wakeWriter env (wakeReader rounds)) parked.len parked.buffer
        (t.pipe, t.reply .read true parked.len :: t.replies)

/-- The part of `linux_read` for a pipe. The replies are in the order in which the calls are served. -/
def read (nonblock : Bool) (len : Nat) (buffer reply : U64) : PipeLog :=
  let len := min len pipeCapacity
  let answer (result : Int) : PipeReply := { call := .read, blocking := !nonblock, len, result }
  if buffer = 0 then (p, [answer (-Errno.ebadf)])
  else if len = 0 then (p, [answer 0])
  else if p.ring.len = 0 then
    if p.writeRefs = 0 then (p, [answer 0])
    else if nonblock ∨ reply = 0 ∨ p.reader.isSome then (p, [answer (-Errno.eagain)])
    else ({ p with reader := some ⟨reply, buffer, len⟩ }, [])
  else
    let t := p.readAvailable env (fun p => p.wakeWriter env (wakeReader env 1)) len buffer
    (t.pipe, t.reply .read (!nonblock) len :: t.replies)

/-- The part of `linux_write_buffer` for a pipe. -/
def write (nonblock : Bool) (len : Nat) (buffer reply : U64) : PipeLog :=
  let answer (result : Int) : PipeReply := { call := .write, blocking := !nonblock, len, result }
  if buffer = 0 then (p, [answer (-Errno.efault)])
  else if p.readRefs = 0 then (p, [answer (-Errno.epipe)])
  else
    let t := p.writeAvailable env len buffer
    if t.result = -Errno.eagain ∧ nonblock = false then
      if reply = 0 ∨ p.writer.isSome then (t.pipe, [answer (-Errno.eagain)])
      else ({ t.pipe with writer := some ⟨reply, buffer, len⟩ }, [])
    else if t.result < 0 then (t.pipe, [answer t.result])
    else
      let woken := wakeReader env 1 t.pipe
      (woken.1, t.reply .write (!nonblock) len :: woken.2)

def refAdd : PipeEnd → LinuxPipe
  | .read => { p with readRefs := p.readRefs + 1 }
  | .write => { p with writeRefs := p.writeRefs + 1 }

def refDrop : PipeEnd → LinuxPipe
  | .read => { p with readRefs := p.readRefs - 1 }
  | .write => { p with writeRefs := p.writeRefs - 1 }

/-- The part of `linux_close` for an end of a pipe. -/
def close (side : PipeEnd) : PipeLog :=
  let reader := wakeReader env 1 (p.refDrop side)
  let writer := reader.1.wakeWriter env (wakeReader env 1)
  (writer.1, reader.2 ++ writer.2)

end LinuxPipe

inductive PipeOp where
  | read (nonblock : Bool) (len : Nat) (buffer reply : U64)
  | write (nonblock : Bool) (len : Nat) (buffer reply : U64)
  /-- `dup` and `fork` of a descriptor. -/
  | dup (side : PipeEnd)
  | close (side : PipeEnd)

def LinuxPipe.serve (env : PipeEnv) (p : LinuxPipe) : PipeOp → PipeLog
  | .read nonblock len buffer reply => p.read env nonblock len buffer reply
  | .write nonblock len buffer reply => p.write env nonblock len buffer reply
  | .dup side => (p.refAdd side, [])
  | .close side => p.close env side

/-- A request, with all replies so far. With the last descriptor `linux_pipe_destroy_if_unused` frees
the pipe, and nobody can make a request. -/
def LinuxPipe.step (s : PipeLog) (x : PipeEnv × PipeOp) :
    Option (PipeLog) :=
  if s.1.readRefs = 0 ∧ s.1.writeRefs = 0 then none
  else
    let served := s.1.serve x.1 x.2
    some (served.1, s.2 ++ served.2.map fun r => { r with delivered := x.1.send r })

/-! ## What a request does -/

def bytesOf (side : PipeEnd) (replies : List PipeReply) : List UInt8 :=
  replies.flatMap fun r => if r.call = side then r.bytes else []

theorem bytesOf_append {side} (rs rs' : List PipeReply) :
    bytesOf side (rs ++ rs') = bytesOf side rs ++ bytesOf side rs' := flatMap_append

/-- A reply that keeps to the rules: a blocking call is not told to try again, and a short write is
accepted as a whole. -/
structure PipeReply.Good (r : PipeReply) : Prop where
  waits : r.blocking = true → r.result ≠ -Errno.eagain
  whole : r.call = .write → r.len ≤ pipeBuf → 0 ≤ r.result → r.bytes.length = r.len

namespace LinuxPipe

variable {env : PipeEnv} {p p' : LinuxPipe} {n len : Nat} {buffer reply : U64} {blocking : Bool}
  {result : Int} {bytes : List UInt8}

theorem good_read (h : result ≠ -Errno.eagain) :
    PipeReply.Good { call := .read, blocking, len, result, bytes } :=
  ⟨fun _ => h, nofun⟩

theorem good_error (hneg : result < 0) (h : blocking = true → result ≠ -Errno.eagain) :
    PipeReply.Good { call := .write, blocking, len, result } :=
  ⟨h, fun _ _ hle => absurd hneg (Int.not_lt.mpr hle)⟩

theorem good_accepted (h : len ≤ pipeBuf → bytes.length = len) :
    PipeReply.Good { call := .write, blocking, len, result := bytes.length, bytes } :=
  ⟨fun _ => by simp only [Errno.eagain]; omega, fun _ hle _ => h hle⟩

/-- Nobody waits for what is there: a parked reader means an empty pipe with writers, and a parked
writer a full one with readers. -/
structure Answered (p : LinuxPipe) : Prop where
  room : p.ring.len ≤ pipeCapacity
  reader : p.reader.isSome = true → p.ring.len = 0 ∧ p.writeRefs ≠ 0
  writer : p.writer.isSome = true → p.ring.len = pipeCapacity ∧ p.readRefs ≠ 0

/-- The conditions on a request under which the rules are kept. A blocking call finds no other one
parked; a short write finds room or a full pipe, and a read makes room for a short write that is
parked. -/
def Smooth (p : LinuxPipe) : PipeOp → Prop
  | .read nonblock len _ reply => (nonblock = false → reply ≠ 0 ∧ p.reader = none) ∧
      ∀ w, p.writer = some w → w.len ≤ pipeBuf → w.len ≤ len
  | .write nonblock len _ reply => (nonblock = false → reply ≠ 0 ∧ p.writer = none) ∧
      (len ≤ pipeBuf → p.ring.len = pipeCapacity ∨ p.ring.len + len ≤ pipeCapacity)
  | .dup _ | .close _ => True

/-- What serving does, from `p` on: what goes into the pipe comes out, in order, or is still in it. -/
structure Served (p : LinuxPipe) (smooth : Prop) (s : PipeLog) : Prop where
  answered : s.1.Answered
  fifo : p.contents ++ bytesOf .write s.2 = bytesOf .read s.2 ++ s.1.contents
  good : smooth → ∀ r ∈ s.2, r.Good

section
variable {smooth : Prop}

theorem Served.empty (h : p'.Answered) (hc : p'.contents = p.contents) : Served p smooth (p', []) :=
  ⟨h, by simp [bytesOf, hc], by simp⟩

theorem Served.refused (h : p'.Answered) (hc : p'.contents = p.contents)
    (hbytes : r.bytes = []) (hgood : smooth → r.Good) : Served p smooth (p', [r]) :=
  ⟨h, by simp [bytesOf, hc, hbytes], by simpa using hgood⟩

end

theorem Answered.writer_eq_none (h : p.Answered) (hlt : p.ring.len < pipeCapacity) : p.writer = none := by
  cases hw : p.writer with
  | none => rfl
  | some w =>
    have hfull := (h.writer (by rw [hw]; rfl)).1
    omega

theorem Answered.wakeWriter (h : p.Answered) (wake : LinuxPipe → PipeLog) :
    p.wakeWriter env wake = (p, []) := by
  unfold LinuxPipe.wakeWriter
  split
  · rfl
  · rename_i w hw
    exact if_pos (h.writer (by rw [hw]; rfl)).symm

/-- A write is refused, or accepted as far as there is room. -/
inductive Written (p : LinuxPipe) (len : Nat) (t : PipeTransfer) : Prop
  | refused (error : Int) (neg : error < 0)
      (again : error = -Errno.eagain → p.readRefs ≠ 0 ∧ pipeCapacity ≤ p.ring.len)
      (eq : t = { result := error, pipe := p })
  | accepted (bytes : List UInt8) (room : p.ring.len < pipeCapacity)
      (length : bytes.length = min (min len pipeCapacity) (pipeCapacity - p.ring.len))
      (eq : t = { result := bytes.length, bytes, pipe := { p with ring := p.ring.push pipeCapacity bytes } })

theorem writeAvailable_written (env : PipeEnv) (p : LinuxPipe) (len : Nat) (buffer : U64) :
    Written p len (p.writeAvailable env len buffer) := by
  unfold writeAvailable
  split
  · exact .refused _ (by decide) (fun h => absurd h (by decide)) rfl
  split
  · exact .refused _ (by decide) (fun h => absurd h (by decide)) rfl
  split
  · rename_i hopen hfull
    exact .refused _ (by decide) (fun _ => ⟨hopen, by omega⟩) rfl
  dsimp only
  split
  · exact .refused _ (by decide) (fun h => absurd h (by decide)) rfl
  · rename_i hroom _ copied _
    exact .accepted ((range _).map copied) (by omega) (by rw [length_map, length_range]) (by simp)

theorem Written.reader (h : Written p len t) : t.pipe.reader = p.reader := by
  cases h with
  | refused error neg again eq | accepted bytes room length eq => rw [eq]

theorem wakeReader_none (h : p.reader = none) : wakeReader env n p = (p, []) := by
  cases n with
  | zero => rfl
  | succ n =>
    unfold wakeReader
    rw [h]

theorem wakeWriter_served (env : PipeEnv) (n : Nat) (hreader : p.reader = none)
    (hroom : p.ring.len ≤ pipeCapacity) :
    Served p (∀ w, p.writer = some w → w.len ≤ pipeBuf → p.ring.len < pipeCapacity →
        p.ring.len + w.len ≤ pipeCapacity)
      (p.wakeWriter env (wakeReader env n)) := by
  have hnone : p.reader.isSome = true → p.ring.len = 0 ∧ p.writeRefs ≠ 0 := by simp [hreader]
  unfold wakeWriter
  split
  · rename_i hwriter
    exact .empty ⟨hroom, hnone, by simp [hwriter]⟩ rfl
  rename_i w hwriter
  split
  · rename_i hfull
    exact .empty ⟨hroom, hnone, fun _ => hfull.symm⟩ rfl
  rename_i hfull
  dsimp only
  have hwritten := writeAvailable_written env { p with writer := none } w.len w.buffer
  rw [wakeReader_none (hwritten.reader.trans hreader)]
  cases hwritten with
  | refused error neg again eq =>
    rw [eq]
    refine .refused ⟨hroom, hnone, by simp⟩ rfl rfl fun _ => good_error neg fun _ he => ?_
    obtain ⟨hopen, hle⟩ := again he
    exact hfull ⟨hopen, le_antisymm hroom hle⟩
  | accepted bytes room length eq =>
    dsimp only at room length
    have hpush : p.ring.len + bytes.length ≤ pipeCapacity := by omega
    rw [eq]
    refine ⟨⟨RingBuffer.push_len.trans_le hpush, by simp [hreader], by simp⟩, ?_, fun hsmooth => ?_⟩
    · simpa [bytesOf, PipeTransfer.reply] using (RingBuffer.contents_push hpush).symm
    · refine forall_mem_singleton.mpr (good_accepted fun hle => ?_)
      have hfits := hsmooth w hwriter hle room
      omega

section
variable (henv : ∀ b, env.bufferWrite b = true)
include henv

theorem readAvailable_served (h : p.Answered) (hreader : p.reader = none) (n len : Nat) (buffer : U64)
    (blocking : Bool) (l : Nat) :
    let t := p.readAvailable env (fun p => p.wakeWriter env (wakeReader env n)) len buffer
    Served p ((blocking = true → p.ring.len = 0 → p.writeRefs = 0) ∧
        ∀ w, p.writer = some w → w.len ≤ pipeBuf → w.len ≤ len)
      (t.pipe, t.reply .read blocking l :: t.replies) := by
  unfold readAvailable
  split
  · exact .refused h rfl rfl fun _ => good_read (show -Errno.ebadf ≠ -Errno.eagain by decide)
  split
  · rename_i hzero
    refine .refused h rfl rfl fun hsmooth => ⟨fun hb => ?_, nofun⟩
    simp [PipeTransfer.reply, hsmooth.1 hb hzero, Errno.eagain]
  rw [if_pos (henv buffer)]
  have hpop := RingBuffer.contents_pop pipeCapacity (min_le_right len p.ring.len)
  have hwoken := wakeWriter_served env n (p := { p with ring := p.ring.pop pipeCapacity (min len p.ring.len) })
    hreader (le_trans (sub_le ..) h.room)
  refine ⟨hwoken.answered, ?_, fun hsmooth => ?_⟩
  · have hfifo := hwoken.fifo
    simpa [bytesOf, PipeTransfer.reply, hpop] using hfifo
  · refine forall_mem_cons.mpr ⟨good_read ?_, hwoken.good fun w hw hle _ => ?_⟩
    · simp only [Errno.eagain]
      omega
    · have hlen := hsmooth.2 w hw hle
      have hfull := (h.writer (Option.isSome_iff_exists.mpr ⟨w, hw⟩)).1
      simp only [RingBuffer.pop, pipeBuf, pipeCapacity] at hle hfull ⊢
      omega

theorem wakeReader_served (n : Nat) (hroom : p.ring.len ≤ pipeCapacity) (hw : p.writer = none) :
    Served p True (wakeReader env (n + 1) p) := by
  unfold wakeReader
  split
  · rename_i hreader
    exact .empty ⟨hroom, by simp [hreader], by simp [hw]⟩ rfl
  rename_i parked _
  split
  · rename_i hempty
    exact .empty ⟨hroom, fun _ => hempty, by simp [hw]⟩ rfl
  rename_i hne
  have hread := readAvailable_served (p := { p with reader := none }) henv
    ⟨hroom, by simp, by simp [hw]⟩ rfl n parked.len parked.buffer true parked.len
  refine ⟨hread.answered, hread.fifo, fun _ => hread.good ⟨fun _ hzero => ?_, by simp [hw]⟩⟩
  by_contra hrefs
  exact hne ⟨hzero, hrefs⟩

theorem read_served (h : p.Answered) (nonblock : Bool) :
    Served p (p.Smooth (.read nonblock len buffer reply)) (p.read env nonblock len buffer reply) := by
  unfold read
  dsimp only
  split
  · exact .refused h rfl rfl fun _ => good_read (by decide)
  split
  · exact .refused h rfl rfl fun _ => good_read (by decide)
  split
  · rename_i hzero
    split
    · exact .refused h rfl rfl fun _ => good_read (by decide)
    rename_i hrefs
    split
    · refine .refused h rfl rfl fun hsmooth => ⟨fun hblock => ?_, nofun⟩
      have hfree := hsmooth.1 (by simpa using hblock)
      simp_all
    · exact .empty ⟨h.room, fun _ => ⟨hzero, hrefs⟩, h.writer⟩ rfl
  · rename_i hne
    have hreader : p.reader = none := by
      by_contra hr
      exact hne (h.reader (Option.isSome_iff_ne_none.mpr hr)).1
    have hread := readAvailable_served henv h hreader 1 (min len pipeCapacity) buffer (!nonblock)
      (min len pipeCapacity)
    refine ⟨hread.answered, hread.fifo, fun hsmooth => hread.good ⟨fun _ hzero => absurd hzero hne, ?_⟩⟩
    intro w hw hle
    have hlen := hsmooth.2 w hw hle
    simp only [pipeBuf, pipeCapacity] at hle ⊢
    omega

theorem write_served (h : p.Answered) (nonblock : Bool) :
    Served p (p.Smooth (.write nonblock len buffer reply)) (p.write env nonblock len buffer reply) := by
  unfold write
  split
  · exact .refused h rfl rfl fun _ => good_error (by decide) fun _ => by decide
  split
  · exact .refused h rfl rfl fun _ => good_error (by decide) fun _ => by decide
  rename_i hopen
  cases writeAvailable_written env p len buffer with
  | refused error neg again eq =>
    rw [eq]
    by_cases hagain : error = -Errno.eagain ∧ nonblock = false
    · have hfull := le_antisymm h.room (again hagain.1).2
      rw [if_pos hagain]
      split
      · refine .refused h rfl rfl fun hsmooth => good_error (by decide) fun _ => ?_
        have hfree := hsmooth.1 hagain.2
        simp_all
      · exact .empty ⟨h.room, h.reader, fun _ => ⟨hfull, hopen⟩⟩ rfl
    rw [if_neg hagain, if_pos neg]
    exact .refused h rfl rfl fun _ => good_error neg fun hblock he => hagain ⟨he, by simpa using hblock⟩
  | accepted bytes room length eq =>
    have hpush : p.ring.len + bytes.length ≤ pipeCapacity := by omega
    have hwoken := wakeReader_served (p := { p with ring := p.ring.push pipeCapacity bytes }) henv 0
      (RingBuffer.push_len.trans_le hpush) (h.writer_eq_none room)
    have hresult : ¬((bytes.length : Int) = -Errno.eagain ∧ nonblock = false) := by
      simp only [Errno.eagain]
      omega
    rw [eq]
    rw [if_neg hresult, if_neg (by simp)]
    refine ⟨hwoken.answered, ?_, fun hsmooth => ?_⟩
    · have hfifo := hwoken.fifo
      rw [contents, RingBuffer.contents_push hpush] at hfifo
      simpa [bytesOf, PipeTransfer.reply] using hfifo
    · refine forall_mem_cons.mpr ⟨good_accepted fun hle => ?_, hwoken.good trivial⟩
      have hfits := hsmooth.2 hle
      omega

theorem close_served (h : p.Answered) (side : PipeEnd) : Served p True (p.close env side) := by
  have hring : (p.refDrop side).ring = p.ring := by cases side <;> rfl
  have hreader : (p.refDrop side).reader = p.reader := by cases side <;> rfl
  have hwriter : (p.refDrop side).writer = p.writer := by cases side <;> rfl
  have hcontents : (p.refDrop side).contents = p.contents := congrArg (RingBuffer.contents pipeCapacity) hring
  have hroom : (p.refDrop side).ring.len ≤ pipeCapacity := hring ▸ h.room
  unfold close
  dsimp only
  cases hr : p.reader with
  | none =>
    rw [wakeReader_none (hreader.trans hr)]
    have hwoken := wakeWriter_served env 1 (hreader.trans hr) hroom
    refine ⟨hwoken.answered, hcontents ▸ hwoken.fifo, fun _ => hwoken.good fun w hw _ hlt => ?_⟩
    rw [hring] at hlt
    rw [hwriter, h.writer_eq_none hlt] at hw
    cases hw
  | some parked =>
    have hzero := (h.reader (by rw [hr]; rfl)).1
    have hwoken := wakeReader_served henv 0 hroom (hwriter.trans (h.writer_eq_none (by rw [hzero]; decide)))
    rw [hwoken.answered.wakeWriter, append_nil]
    exact ⟨hwoken.answered, hcontents ▸ hwoken.fifo, hwoken.good⟩

theorem serve_served (h : p.Answered) (op : PipeOp) : Served p (p.Smooth op) (p.serve env op) := by
  cases op with
  | read nonblock len buffer reply => exact read_served henv h nonblock
  | write nonblock len buffer reply => exact write_served henv h nonblock
  | dup side =>
    cases side with
    | read => exact .empty ⟨h.room, h.reader, fun hw => ⟨(h.writer hw).1, succ_ne_zero _⟩⟩ rfl
    | write => exact .empty ⟨h.room, fun hr => ⟨(h.reader hr).1, succ_ne_zero _⟩, h.writer⟩ rfl
  | close side => exact close_served henv h side

end

/-! ## Runs -/

structure Inv (s : PipeLog) : Prop where
  answered : s.1.Answered
  fifo : bytesOf .write s.2 = bytesOf .read s.2 ++ s.1.contents

theorem inv_start : Inv ({}, []) := ⟨⟨zero_le _, by simp, by simp⟩, rfl⟩

variable {s s' : PipeLog} {x : PipeEnv × PipeOp}

theorem mem_step (hs : step s x = some s') (hr : r ∈ s'.2) :
    r ∈ s.2 ∨ ∃ r' ∈ (s.1.serve x.1 x.2).2, r = { r' with delivered := x.1.send r' } := by
  unfold step at hs
  split at hs
  · cases hs
  cases hs
  rcases mem_append.mp hr with hr | hr
  · exact .inl hr
  · obtain ⟨r', hr', rfl⟩ := mem_map.mp hr
    exact .inr ⟨r', hr', rfl⟩

theorem Inv.step (h : Inv s) (henv : ∀ b, x.1.bufferWrite b = true) (hs : step s x = some s') :
    Inv s' ∧ (s.1.Smooth x.2 → (∀ r ∈ s.2, r.Good) → ∀ r ∈ s'.2, r.Good) := by
  have hserved := serve_served henv h.answered x.2
  refine ⟨?_, fun hsmooth hold r hr => ?_⟩
  · unfold LinuxPipe.step at hs
    split at hs
    · cases hs
    cases hs
    refine ⟨hserved.answered, ?_⟩
    have hsame : ∀ side, bytesOf side ((s.1.serve x.1 x.2).2.map fun r => { r with delivered := x.1.send r }) =
        bytesOf side (s.1.serve x.1 x.2).2 := by
      intro side
      simp [bytesOf, flatMap_map]
    simp only [bytesOf_append, hsame, h.fifo, append_assoc]
    rw [hserved.fifo]
  · rcases mem_step hs hr with hr | ⟨r', hr', rfl⟩
    · exact hold r hr
    · have hgood := hserved.good hsmooth r' hr'
      exact ⟨hgood.waits, hgood.whole⟩

end LinuxPipe

def accepted (replies : List PipeReply) : List UInt8 := bytesOf .write replies

def returned (replies : List PipeReply) : List UInt8 :=
  replies.flatMap fun r => if r.call = .read ∧ r.delivered = true then r.bytes else []

/-- Bytes reach their readers: every copy and every reply to a read succeeds. -/
structure PipeEnv.Delivers (env : PipeEnv) : Prop where
  copied : ∀ buffer, env.bufferWrite buffer = true
  sent : ∀ r : PipeReply, r.call = .read → env.send r = true

abbrev LinuxPipe.Delivering (s : PipeLog) (x : PipeEnv × PipeOp)
    (s' : PipeLog) : Prop := x.1.Delivers ∧ step s x = some s'

/-- **A pipe is a stream** in every run in which the bytes that leave it reach their readers: what the
reads have returned and what is still in the pipe are together what was accepted from the writes. -/
theorem pipe_stream {ops : List (PipeEnv × PipeOp)} {s : PipeLog}
    (hr : Run LinuxPipe.Delivering ({}, []) ops s) :
    returned s.2 <+: accepted s.2 ∧ accepted s.2 = returned s.2 ++ s.1.contents := by
  have hinv : LinuxPipe.Inv s ∧ ∀ r ∈ s.2, r.call = .read → r.delivered = true := by
    refine hr.invariant (P := fun s => LinuxPipe.Inv s ∧ ∀ r ∈ s.2, r.call = .read → r.delivered = true)
      (fun s x s' h hs => ⟨(h.1.step hs.1.copied hs.2).1, fun r hr hread => ?_⟩) ⟨LinuxPipe.inv_start, by simp⟩
    rcases LinuxPipe.mem_step hs.2 hr with hr | ⟨r', -, rfl⟩
    · exact h.2 r hr hread
    · exact hs.1.sent r' hread
  have hall : returned s.2 = bytesOf .read s.2 := by
    refine flatMap_congr fun r hr => ?_
    by_cases hread : r.call = .read
    · simp [hread, hinv.2 r hr hread]
    · simp [hread]
  have hend : accepted s.2 = returned s.2 ++ s.1.contents := by
    rw [hall]
    exact hinv.1.fifo
  exact ⟨⟨_, hend.symm⟩, hend⟩

/-- A process whose buffers hold the byte `b`, all of whose copies and replies succeed. -/
def healthy (b : UInt8) : PipeEnv := { bufferRead := fun _ _ => some fun _ => b }

theorem pipe_stream_one :
    let ops := [(healthy 1, .write false 2 5 6), (healthy 0, .read false 1 7 8)]
    ∃ s, Run LinuxPipe.Delivering ({}, []) ops s ∧ returned s.2 = [1] ∧ returned s.2 <+: accepted s.2 := by
  intro ops
  have hd : ∀ b, (healthy b).Delivers := fun b => ⟨fun _ => rfl, fun _ _ => rfl⟩
  obtain ⟨s, hr, hs⟩ : ∃ s, Run LinuxPipe.Delivering ({}, []) ops s ∧ returned s.2 = [1] :=
    ⟨_, .cons ⟨hd 1, rfl⟩ (.cons ⟨hd 0, rfl⟩ (.nil _)), by decide⟩
  exact ⟨s, hr, hs, (pipe_stream hr).1⟩

/-- The first of two bytes is gone after a read whose buffer cannot be written, and also if it goes to a
reader that was killed while it was parked. -/
theorem pipe_loses_bytes :
    let broken := { healthy 0 with bufferWrite := fun _ => false }
    let killed := { healthy 1 with send := fun r => r.call != .read }
    ∃ s, Run (fun s x s' => LinuxPipe.step s x = some s') ({}, []) [(healthy 1, .write false 1 5 6),
      (healthy 2, .write false 1 5 6), (broken, .read false 1 7 8), (healthy 0, .read false 1 7 8)] s ∧
    ∃ s', Run (fun s x s' => LinuxPipe.step s x = some s') ({}, []) [(healthy 0, .read false 1 7 8),
      (killed, .write false 1 5 6), (healthy 2, .write false 1 5 6), (healthy 0, .read false 1 7 9)] s' ∧
    (accepted s.2 = [1, 2] ∧ returned s.2 = [2] ∧ s.1.contents = []) ∧
    accepted s'.2 = [1, 2] ∧ returned s'.2 = [2] ∧ s'.1.contents = [] := by
  intro broken killed
  exact ⟨_, .cons rfl (.cons rfl (.cons rfl (.cons rfl (.nil _)))), _,
    .cons rfl (.cons rfl (.cons rfl (.cons rfl (.nil _)))), by decide, by decide⟩

abbrev LinuxPipe.Smoothly (s : PipeLog) (x : PipeEnv × PipeOp) (s' : PipeLog) : Prop :=
  (∀ b, x.1.bufferWrite b = true) ∧ s.1.Smooth x.2 ∧ step s x = some s'

/-- **Blocking calls keep to the rules** in every run in which all copies to readers succeed and the
requests meet the conditions of `Smooth`: nobody waits for what is there, no blocking call is told to
try again, and short writes are accepted as a whole and not mixed with others. -/
theorem pipe_rules {ops : List (PipeEnv × PipeOp)} {s : PipeLog}
    (hr : Run LinuxPipe.Smoothly ({}, []) ops s) :
    s.1.Answered ∧ (∀ r ∈ s.2, r.Good) ∧ accepted s.2 = bytesOf .read s.2 ++ s.1.contents := by
  have hinv : LinuxPipe.Inv s ∧ ∀ r ∈ s.2, r.Good := by
    refine hr.invariant (P := fun s => LinuxPipe.Inv s ∧ ∀ r ∈ s.2, r.Good) (fun s x s' h hs => ?_)
      ⟨LinuxPipe.inv_start, by simp⟩
    obtain ⟨hnext, hgood⟩ := h.1.step hs.1 hs.2.2
    exact ⟨hnext, hgood hs.2.1 h.2⟩
  exact ⟨hinv.1.answered, hinv.2, hinv.1.fifo⟩

theorem pipe_rules_parked :
    let ops := [(healthy 0, .read false 9 7 8), (healthy 1, .write false 2 5 6)]
    ∃ s, Run LinuxPipe.Smoothly ({}, []) ops s ∧ s.2.length = 2 ∧ s.1.Answered := by
  intro ops
  have hread : LinuxPipe.Smooth {} (.read false 9 7 8) := ⟨by decide, by simp⟩
  have hwrite (p : LinuxPipe) (h : p.writer = none ∧ p.ring.len = 0) : p.Smooth (.write false 2 5 6) :=
    ⟨fun _ => ⟨by decide, h.1⟩, fun _ => .inr (by rw [h.2]; decide)⟩
  obtain ⟨s, hr, hs⟩ : ∃ s, Run LinuxPipe.Smoothly ({}, []) ops s ∧ s.2.length = 2 :=
    ⟨_, .cons ⟨fun _ => rfl, hread, rfl⟩ (.cons ⟨fun _ => rfl, hwrite _ ⟨rfl, rfl⟩, rfl⟩ (.nil _)), by decide⟩
  exact ⟨s, hr, hs, (pipe_rules hr).1⟩

theorem pipe_second_reader : ∃ s, Run (fun s x s' => LinuxPipe.step s x = some s') ({}, [])
    [(healthy 0, .read false 1 7 8), (healthy 0, .read false 1 7 9)] s ∧
    s.2 = [{ call := .read, blocking := true, len := 1, result := -Errno.eagain }] :=
  ⟨_, .cons rfl (.cons rfl (.nil _)), by decide⟩

end Bunix.User
