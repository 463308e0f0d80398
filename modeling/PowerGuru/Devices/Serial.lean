import PowerGuru.Lib.Bytes

/-!
# `Serial::Read`

The port is the sequence of what `select` reports and what `read` then returns. The
caller's buffer is explicit: the call clears it and may copy filtered bytes into it.
-/
namespace PowerGuru.Devices.Serial

open Lib.Bytes

inductive Select where
  | ready
  | timeout
  /-- A negative result with `errno == EAGAIN`. -/
  | again
  /-- Any other negative result: the code goes on to `read`. -/
  | failed
  deriving DecidableEq, Repr

inductive ReadResult where
  /-- At most `nbytes` bytes; none is a return value of 0. -/
  | bytes (bs : List Byte)
  | failed
  deriving DecidableEq, Repr

structure Attempt where
  select : Select
  read : ReadResult

/-- `isascii` and neither LF nor CR. -/
def keeps (b : Byte) : Bool := b < 128 && b != LF && b != CR

/-- `memset(buf, 0, nbytes)`. -/
def cleared (nbytes : Nat) (buf : List Byte) : List Byte :=
  List.replicate nbytes NUL ++ buf.drop nbytes

/-- `memcpy(buf, data, data.size())`. -/
def copied (data buf : List Byte) : List Byte := data ++ buf.drop data.length

/-- The retry loop; `ret` is the value of the last `read`. -/
def readLoop (nbytes : Nat) : Nat → (Nat → Attempt) → Int → List Byte → Int × List Byte
  | 0, _, ret, buf => (ret, buf)
  | retries + 1, port, _, buf =>
      match (port 0).select, (port 0).read with
      | .timeout, _ => (0, cleared nbytes buf)
      | .again, _ => (-1, cleared nbytes buf)
      | _, .failed => readLoop nbytes retries (fun i => port (i + 1)) (-1) (cleared nbytes buf)
      | _, .bytes bs =>
          let data := bs.filter keeps
          if data = [] then
            readLoop nbytes retries (fun i => port (i + 1)) bs.length (cleared nbytes buf)
          else (data.length, copied data (cleared nbytes buf))

def read (uartfd : Int) (port : Nat → Attempt) (nbytes : Nat) (buf : List Byte) : Int × List Byte :=
  if 0 < uartfd then readLoop nbytes 2 port (-1) buf else (-1, buf)

/-- The port delivers `bs` to the first `read`. -/
def delivers (bs : List Byte) (later : Nat → Attempt) : Nat → Attempt
  | 0 => ⟨.ready, .bytes bs⟩
  | i + 1 => later i

theorem read_delivers {uartfd : Int} (hfd : 0 < uartfd) {bs : List Byte} (later : Nat → Attempt)
    (nbytes : Nat) (buf : List Byte) (hk : bs.filter keeps ≠ []) :
    read uartfd (delivers bs later) nbytes buf =
      (((bs.filter keeps).length : Int), copied (bs.filter keeps) (cleared nbytes buf)) := by
  simp [read, hfd, readLoop, delivers, hk]

theorem cleared_replicate (nbytes size : Nat) :
    cleared nbytes (List.replicate size NUL) = List.replicate (nbytes + (size - nbytes)) NUL := by
  simp [cleared]

/-- Kept bytes are followed by the cleared rest of the buffer. -/
theorem cstr_copied {data : List Byte} {nbytes size : Nat} (hn : NUL ∉ data)
    (hd : data.length < nbytes) :
    cstr (copied data (cleared nbytes (List.replicate size NUL))) = data := by
  obtain ⟨rest, hrest⟩ : ∃ rest, nbytes + (size - nbytes) - data.length = rest + 1 :=
    ⟨nbytes + (size - nbytes) - data.length - 1, by omega⟩
  rw [copied, cleared_replicate, List.drop_replicate, hrest, List.replicate_succ]
  exact cstr_append_nul _ hn

end PowerGuru.Devices.Serial
