import Mathlib

/-!
# Bytes, words and byte order

A 32-bit word is four bytes. A little-endian host stores the least significant byte first, and a
big-endian format such as SHA-1's message schedule reads the most significant byte first.
`byte x k` is byte `k` of a word counted from the least significant, `ofLE` puts four bytes back
together, and `bswap32` reverses the order of the bytes, as the compiler builtin of that name is
documented to do. Loads and stores against a byte buffer are written with these, so every fact
about byte order below reduces to the two round trips `ofLE_byte` and `byte_ofLE`.
-/

namespace ByteOrder

/-- Byte `k` of a word, counted from the least significant. -/
def byte (x : UInt32) (k : Nat) : UInt8 := (x >>> UInt32.ofNat (8 * k)).toUInt8

/-- The word four bytes make when the first is the least significant. -/
def ofLE (b0 b1 b2 b3 : UInt8) : UInt32 :=
  b0.toUInt32 + b1.toUInt32 * 0x100 + b2.toUInt32 * 0x10000 + b3.toUInt32 * 0x1000000

/-- The word four bytes make when the first is the most significant. -/
def ofBE (b0 b1 b2 b3 : UInt8) : UInt32 := ofLE b3 b2 b1 b0

/-- `__builtin_bswap32`: the word with the order of its four bytes reversed. -/
def bswap32 (x : UInt32) : UInt32 := ofLE (byte x 3) (byte x 2) (byte x 1) (byte x 0)

theorem toNat_ofLE (b0 b1 b2 b3 : UInt8) :
    (ofLE b0 b1 b2 b3).toNat = b0.toNat + b1.toNat * 2 ^ 8 + b2.toNat * 2 ^ 16 + b3.toNat * 2 ^ 24 := by
  have h0 := b0.toNat_lt
  have h1 := b1.toNat_lt
  have h2 := b2.toNat_lt
  have h3 := b3.toNat_lt
  simp only [ofLE, UInt32.toNat_add, UInt32.toNat_mul, UInt8.toNat_toUInt32, UInt32.reduceToNat]
  simp only [Nat.reducePow] at *
  omega

theorem toNat_byte (x : UInt32) (k : Nat) (hk : k < 4) : (byte x k).toNat = x.toNat / 2 ^ (8 * k) % 2 ^ 8 := by
  have hshift : (UInt32.ofNat (8 * k)).toNat % 32 = 8 * k := by
    rw [UInt32.toNat_ofNat', Nat.mod_eq_of_lt (by omega), Nat.mod_eq_of_lt (by omega)]
  simp only [byte, UInt32.toNat_toUInt8, UInt32.toNat_shiftRight, hshift, Nat.shiftRight_eq_div_pow]

@[simp] theorem ofLE_byte (x : UInt32) : ofLE (byte x 0) (byte x 1) (byte x 2) (byte x 3) = x := by
  apply UInt32.toNat_inj.mp
  have hx := x.toNat_lt
  rw [toNat_ofLE, toNat_byte x 0 (by omega), toNat_byte x 1 (by omega), toNat_byte x 2 (by omega),
    toNat_byte x 3 (by omega)]
  simp only [Nat.reducePow, Nat.reduceMul] at *
  omega

theorem byte_ofLE (b0 b1 b2 b3 : UInt8) :
    byte (ofLE b0 b1 b2 b3) 0 = b0 ∧ byte (ofLE b0 b1 b2 b3) 1 = b1 ∧
      byte (ofLE b0 b1 b2 b3) 2 = b2 ∧ byte (ofLE b0 b1 b2 b3) 3 = b3 := by
  have h0 := b0.toNat_lt
  have h1 := b1.toNat_lt
  have h2 := b2.toNat_lt
  have h3 := b3.toNat_lt
  refine ⟨?_, ?_, ?_, ?_⟩ <;> apply UInt8.toNat_inj.mp <;>
    rw [toNat_byte _ _ (by omega), toNat_ofLE] <;> simp only [Nat.reducePow, Nat.reduceMul] at * <;> omega

@[simp] theorem byte_ofLE_zero (b0 b1 b2 b3 : UInt8) : byte (ofLE b0 b1 b2 b3) 0 = b0 := (byte_ofLE b0 b1 b2 b3).1

@[simp] theorem byte_ofLE_one (b0 b1 b2 b3 : UInt8) : byte (ofLE b0 b1 b2 b3) 1 = b1 := (byte_ofLE b0 b1 b2 b3).2.1

@[simp] theorem byte_ofLE_two (b0 b1 b2 b3 : UInt8) : byte (ofLE b0 b1 b2 b3) 2 = b2 := (byte_ofLE b0 b1 b2 b3).2.2.1

@[simp] theorem byte_ofLE_three (b0 b1 b2 b3 : UInt8) : byte (ofLE b0 b1 b2 b3) 3 = b3 :=
  (byte_ofLE b0 b1 b2 b3).2.2.2

theorem bswap32_ofLE (b0 b1 b2 b3 : UInt8) : bswap32 (ofLE b0 b1 b2 b3) = ofBE b0 b1 b2 b3 := by
  simp only [bswap32, byte_ofLE_zero, byte_ofLE_one, byte_ofLE_two, byte_ofLE_three, ofBE]

@[simp] theorem bswap32_bswap32 (x : UInt32) : bswap32 (bswap32 x) = x :=
  calc bswap32 (bswap32 x) = bswap32 (ofLE (byte x 3) (byte x 2) (byte x 1) (byte x 0)) := rfl
    _ = ofBE (byte x 3) (byte x 2) (byte x 1) (byte x 0) := bswap32_ofLE _ _ _ _
    _ = x := ofLE_byte x

/-! ### Loads and stores against a little-endian byte buffer -/

variable {n : Nat}

/-- A 32-bit load at byte offset `off` on a little-endian host. -/
def loadLE32 (mem : Vector UInt8 n) (off : Nat) : UInt32 :=
  ofLE (mem.toList.getD off 0) (mem.toList.getD (off + 1) 0) (mem.toList.getD (off + 2) 0)
    (mem.toList.getD (off + 3) 0)

/-- A 32-bit store at byte offset `off` on a little-endian host. -/
def storeLE32 (mem : Vector UInt8 n) (off : Nat) (x : UInt32) : Vector UInt8 n :=
  (((mem.setIfInBounds off (byte x 0)).setIfInBounds (off + 1) (byte x 1)).setIfInBounds (off + 2)
    (byte x 2)).setIfInBounds (off + 3) (byte x 3)

theorem getElem_storeLE32 (mem : Vector UInt8 n) (off : Nat) (x : UInt32) (j : Nat) (hj : j < n) :
    (storeLE32 mem off x)[j] =
      if off + 3 = j then byte x 3 else if off + 2 = j then byte x 2 else if off + 1 = j then byte x 1
        else if off = j then byte x 0 else mem[j] := by
  simp only [storeLE32, Vector.getElem_setIfInBounds hj]

theorem getElem_storeLE32_of_ne (mem : Vector UInt8 n) (off : Nat) (x : UInt32) (j : Nat) (hj : j < n)
    (hout : j < off ∨ off + 3 < j) : (storeLE32 mem off x)[j] = mem[j] := by
  rw [getElem_storeLE32]
  have h3 : off + 3 ≠ j := by omega
  have h2 : off + 2 ≠ j := by omega
  have h1 : off + 1 ≠ j := by omega
  have h0 : off ≠ j := by omega
  simp only [h3, h2, h1, h0, if_false]

theorem getD_toList (mem : Vector UInt8 n) {j : Nat} (hj : j < n) : mem.toList.getD j 0 = mem[j] := by
  simp [List.getD_eq_getElem?_getD, hj]

theorem loadLE32_set (mem : Vector UInt8 n) {j : Nat} (hj : j < n) (x : UInt8) (off : Nat)
    (hout : j < off ∨ off + 3 < j) : loadLE32 (mem.set j x hj) off = loadLE32 mem off := by
  have h0 : j ≠ off := by omega
  have h1 : j ≠ off + 1 := by omega
  have h2 : j ≠ off + 2 := by omega
  have h3 : j ≠ off + 3 := by omega
  simp only [loadLE32, Vector.toList_set, List.getD_eq_getElem?_getD, List.getElem?_set_ne h0,
    List.getElem?_set_ne h1, List.getElem?_set_ne h2, List.getElem?_set_ne h3]

theorem take_storeLE32 (mem : Vector UInt8 n) (off : Nat) (x : UInt32) {k : Nat} (hk : k ≤ off) :
    (storeLE32 mem off x).toList.take k = mem.toList.take k := by
  simp only [storeLE32, Vector.toList_setIfInBounds]
  rw [List.take_set_of_le (by omega), List.take_set_of_le (by omega), List.take_set_of_le (by omega),
    List.take_set_of_le hk]

theorem drop_storeLE32 (mem : Vector UInt8 n) (off : Nat) (x : UInt32) {k : Nat} (hk : off + 3 < k) :
    (storeLE32 mem off x).toList.drop k = mem.toList.drop k := by
  simp only [storeLE32, Vector.toList_setIfInBounds]
  rw [List.drop_set_of_lt hk, List.drop_set_of_lt (by omega), List.drop_set_of_lt (by omega),
    List.drop_set_of_lt (by omega)]

end ByteOrder
