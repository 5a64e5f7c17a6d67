import Mathlib

/-!
# The Bloom filter's hash

`hash.c` is shared by the filter builder and the spell checker: four 64-bit states run over the
lower-cased bytes of a C string, and eleven 22-bit windows of them are the bit positions of the
word in a table of 2^22 bits (`SLOTS` = 524288 bytes). Both programs set and test a position the
same way, `data[offset / 8]` against `1 << offset % 8`.
-/

namespace Ctf3.Level0

def fns : Nat := 11

/-- A `char` read as an `int`; `char` is signed on the target. -/
def signedChar (b : UInt8) : Int := if b < 128 then b.toNat else b.toNat - 256

/-- `tolower` in the C locale. -/
def tolower (c : Int) : Int := if 65 ≤ c ∧ c ≤ 90 then c + 32 else c

structure HashState where
  s0 : UInt64
  s1 : UInt64
  s2 : UInt64
  s3 : UInt64
deriving DecidableEq, Repr

def HashState.get (state : HashState) : Nat → UInt64
  | 0 => state.s0
  | 1 => state.s1
  | 2 => state.s2
  | _ => state.s3

/-- One turn of the `while` loop, on the character `c`. -/
def hashStep (state : HashState) (c : Int) : HashState :=
  let cu := UInt64.ofInt c
  ⟨((state.s0 <<< 5) + state.s0) ^^^ cu, ((state.s1 <<< 5) + state.s1) ^^^ cu,
    cu + (state.s2 <<< 6) + (state.s2 <<< 16) - state.s2, cu + (state.s3 <<< 6) + (state.s3 <<< 16) - state.s3⟩

/-- The states after the `while` loop over the C string `string`. -/
def hashState (string : List UInt8) : HashState :=
  ((string.takeWhile (· != 0)).map fun b => tolower (signedChar b)).foldl hashStep ⟨5381, 261, 0, 5381⟩

/-- `hash(string, output)`. -/
def hash (string : List UInt8) : List UInt32 :=
  let state := hashState string
  let output := (List.range fns).map fun i =>
    (0x3FFFFF &&& (state.get (i * 22 / 64) >>> UInt64.ofNat (i % 3 * 22))).toUInt32
  let output := output.modify 2 (· ||| ((0x03 : UInt64) &&& (state.s3 <<< 44)).toUInt32)
  let output := output.modify 5 (· ||| ((0x03 : UInt64) &&& (state.s3 <<< 46)).toUInt32)
  output.modify 8 (· ||| ((0x03 : UInt64) &&& (state.s3 <<< 48)).toUInt32)

/-- `data[offset / 8] |= 1 << (offset % 8)`. -/
def setBit (data : Nat → UInt8) (offset : Nat) : Nat → UInt8 :=
  Function.update data (offset / 8) (data (offset / 8) ||| (1 <<< (offset % 8).toUInt8))

/-- `bloom_data[offset / 8] & (1 << offset % 8)` is nonzero. -/
def testBit (data : Nat → UInt8) (offset : Nat) : Bool :=
  data (offset / 8) &&& (1 <<< (offset % 8).toUInt8) != 0

/-- Every position of `hash(word)` is set. -/
def member (data : Nat → UInt8) (word : List UInt8) : Bool :=
  (hash word).all fun offset => testBit data offset.toNat

/-! ### Positions fit the table -/

end Ctf3.Level0
