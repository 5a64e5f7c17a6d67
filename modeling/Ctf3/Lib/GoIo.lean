import Mathlib
import Ctf3.Lib.ByteOrder
import Ctf3.Lib.Printf

/-!
# Go readers and binary encoding

Go's `io.ReadFull` and `encoding/binary` on a reader that holds a byte string. A read consumes
what it reads; on a failed `io.ReadFull` the reader has handed over everything it held, and the
error is `io.EOF` if that was nothing and `io.ErrUnexpectedEOF` otherwise.
-/

namespace GoIo

open ByteOrder Printf

inductive IoError
  | eof
  | unexpectedEof
deriving DecidableEq, Repr

def IoError.message : IoError → List UInt8
  | .eof => bytes "EOF"
  | .unexpectedEof => bytes "unexpected EOF"

/-- A computation that reads from a byte stream and may fail with an I/O error. -/
abbrev Reader := ExceptT IoError (StateM (List UInt8))

/-- `io.ReadFull(r, buf)` with `len(buf) = n`. -/
def readFull (n : Nat) : Reader (List UInt8) := ExceptT.mk fun r =>
  if n ≤ r.length then (.ok (r.take n), r.drop n)
  else (.error (if r = [] then .eof else .unexpectedEof), [])

/-- `binary.Read(r, binary.BigEndian, &x)` for a `uint32`. -/
def readUInt32BE : Reader UInt32 := do
  let bs ← readFull 4
  return ofBE (bs.getD 0 0) (bs.getD 1 0) (bs.getD 2 0) (bs.getD 3 0)

/-- `binary.Read(r, binary.BigEndian, &x)` for a `uint8`. -/
def readUInt8 : Reader UInt8 := do
  let bs ← readFull 1
  return bs.getD 0 0

/-- The bytes `binary.Write(w, binary.BigEndian, x)` writes for a `uint32`. -/
def putUInt32BE (x : UInt32) : List UInt8 := [byte x 3, byte x 2, byte x 1, byte x 0]

/-- `io.CopyN(w, r, n)`: the bytes copied into `w`, the error, and the bytes left in `r`. A source
that runs dry early gives `io.EOF`, whatever it held. -/
def copyN (n : Nat) (r : List UInt8) : List UInt8 × Option IoError × List UInt8 :=
  if n ≤ r.length then (r.take n, none, r.drop n) else (r, some .eof, [])

/-- A value of a fixed-size Go type, as `encoding/binary` takes it: the type sets the width. -/
inductive Fixed
  | int32 (x : Int32)
  | uint8 (x : UInt8)
  | uint32 (x : UInt32)

/-- The bytes `binary.Write(w, binary.BigEndian, x)` writes. -/
def Fixed.putBE : Fixed → List UInt8
  | .int32 x => putUInt32BE x.toUInt32
  | .uint8 x => [x]
  | .uint32 x => putUInt32BE x

variable {α β : Type}

/-- Running a reader on the bytes `r`: its result and the bytes left. -/
def Reader.exec (x : Reader α) (r : List UInt8) : Except IoError α × List UInt8 := x.run.run r

theorem exec_bind_ok (x : Reader α) (f : α → Reader β) {r r' : List UInt8} {a : α}
    (hx : x.exec r = (.ok a, r')) : (x >>= f).exec r = (f a).exec r' := by
  simp only [Reader.exec] at hx ⊢
  simp only [ExceptT.run_bind, StateT.run_bind, hx]
  rfl

theorem exec_bind_error (x : Reader α) (f : α → Reader β) {r r' : List UInt8} {e : IoError}
    (hx : x.exec r = (.error e, r')) : (x >>= f).exec r = (.error e, r') := by
  simp only [Reader.exec] at hx ⊢
  simp only [ExceptT.run_bind, StateT.run_bind, hx]
  rfl

@[simp] theorem exec_pure (a : α) (r : List UInt8) : (pure a : Reader α).exec r = (.ok a, r) := rfl

theorem exec_readFull (n : Nat) (r : List UInt8) :
    (readFull n).exec r =
      if n ≤ r.length then (.ok (r.take n), r.drop n) else (.error (if r = [] then .eof else .unexpectedEof), []) :=
  rfl

theorem exec_readFull_append (pre rest : List UInt8) {n : Nat} (hpre : pre.length = n) :
    (readFull n).exec (pre ++ rest) = (.ok pre, rest) := by
  have hle : n ≤ (pre ++ rest).length := by simp [hpre]
  rw [exec_readFull, if_pos hle, ← hpre, List.take_left' rfl, List.drop_left' rfl]

theorem exec_readFull_short (r : List UInt8) {n : Nat} (hr : r.length < n) :
    ∃ e, (readFull n).exec r = (.error e, []) := by
  rw [exec_readFull, if_neg (by omega)]
  exact ⟨_, rfl⟩

theorem exec_readUInt32BE_put (x : UInt32) (rest : List UInt8) :
    readUInt32BE.exec (putUInt32BE x ++ rest) = (.ok x, rest) := by
  have hread := exec_readFull_append (putUInt32BE x) rest (show (putUInt32BE x).length = 4 from rfl)
  rw [readUInt32BE, exec_bind_ok _ _ hread]
  simp only [putUInt32BE, List.getD_cons_zero, List.getD_cons_succ, exec_pure]
  rw [ofBE, ofLE_byte]

theorem exec_readUInt8_cons (b : UInt8) (rest : List UInt8) :
    readUInt8.exec (b :: rest) = (.ok b, rest) := by
  have hread : (readFull 1).exec (b :: rest) = (.ok [b], rest) := exec_readFull_append [b] rest rfl
  rw [readUInt8, exec_bind_ok _ _ hread]
  rfl

theorem exec_readUInt32BE_short (r : List UInt8) (hr : r.length < 4) :
    ∃ e, readUInt32BE.exec r = (.error e, []) := by
  obtain ⟨e, he⟩ := exec_readFull_short r hr
  exact ⟨e, exec_bind_error _ _ he⟩

theorem exec_readUInt8_nil : readUInt8.exec [] = (.error .eof, []) := rfl

theorem copyN_append (data rest : List UInt8) {n : Nat} (hdata : data.length = n) :
    copyN n (data ++ rest) = (data, none, rest) := by
  have hle : n ≤ (data ++ rest).length := by simp [hdata]
  rw [copyN, if_pos hle, ← hdata, List.take_left' rfl, List.drop_left' rfl]

end GoIo
