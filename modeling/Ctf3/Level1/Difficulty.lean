import Mathlib
import Ctf3.Lib.ByteOrder
import Ctf3.Lib.Printf
import Ctf3.Lib.Sha1
import Ctf3.Lib.CString
import Ctf3.Level1.ForceHash

/-!
# The difficulty

`parse_difficulty` accepts a hex difficulty `D` that starts with six zeros and reads its next two
digits as a byte. The backends then test a hash in their own ways: the threaded one asks for
`h0 & mask == 0`, with `init_hash` reading the byte as a number of zero nibbles, and the CUDA one
asks for 36 zero bits whatever the byte. `benchmark.c` checks afterwards that the hash, as forty
hex digits, is at most `D`. That holds for the benchmark's `00000008ff…` (`threaded_accepts_le`,
`cuda_accepts_le`) but not in general: below `00000008` the threaded test asks for too few zero
nibbles, and below `000000000f…f` the CUDA test does (`acceptance_exceeds_difficulty`).
-/

namespace Ctf3.Level1

open Printf CString Sha1 ByteOrder

/-- The value of a hex digit of either case. -/
def hexValue (c : UInt8) : Option Nat :=
  if 0x30 ≤ c ∧ c ≤ 0x39 then some (c.toNat - 0x30)
  else if 0x61 ≤ c ∧ c ≤ 0x66 then some (c.toNat - 0x61 + 10)
  else if 0x41 ≤ c ∧ c ≤ 0x46 then some (c.toNat - 0x41 + 10)
  else none

/-- `sscanf(s, "%02x", &result)`: the hex digits among the first two bytes, up to the first byte
that is not one, or `none` when there is none. `parse_difficulty` only gets here with a byte of at
least `'0'` in front, so neither white space nor a sign, which `%x` would also take, can come first;
of a `0x` prefix only the `0` is read. -/
def scanHex2 : List UInt8 → Option Nat
  | [] => none
  | c0 :: rest =>
    match hexValue c0, rest with
    | none, _ => none
    | some v0, [] => some v0
    | some v0, c1 :: _ =>
      match hexValue c1 with
      | some v1 => some (16 * v0 + v1)
      | none => some v0

/-- What `parse_difficulty` does: exit, return the byte read, or return `result` without having
written it. -/
inductive Parsed
  | exit
  | value (v : UInt8)
  | unset
deriving DecidableEq, Repr

def parseDifficulty (hexDifficulty : List UInt8) : Parsed :=
  if strncmp hexDifficulty (bytes "000000") 6 = .gt ∨ strcmp hexDifficulty (bytes "00000000") ≠ .gt then .exit
  else
    -- `%02x` stores an `unsigned int` at `&result`, a `char`: its low byte is what the caller sees
    match scanHex2 (hexDifficulty.drop 6) with
    | some v => .value v.toUInt8
    | none => .unset

/-- `init_hash(difficulty)`: `0xffffffff << (32 - difficulty * 4)`, with `none` where the shift count
is negative or at least 32 and the shift is undefined. -/
def initHash (difficulty : UInt8) : Option UInt32 :=
  let count : Int := 32 - difficulty.toNat * 4
  if 0 ≤ count ∧ count < 32 then some ((0xFFFFFFFF : UInt32) <<< count.toNat.toUInt32) else none

/-- `force_worker`'s test `!(tmp_ctx.h0 & mask)`. -/
def threadedAccepts (mask : UInt32) (h : HashValue) : Bool := h.h0 &&& mask == 0

/-- `shaforce`'s test `(res >> 28) < 1`, `res` holding the hash value's first two words. -/
def cudaAccepts (h : HashValue) : Bool := ((h.h0.toUInt64 <<< 32) ||| h.h1.toUInt64) >>> 28 < 1

/-- The twenty bytes `SHA1(msg, COMMIT_LENGTH, hash)` writes. -/
def digestBytes (h : HashValue) : List UInt8 :=
  [h.h0, h.h1, h.h2, h.h3, h.h4].flatMap fun w => [byte w 3, byte w 2, byte w 1, byte w 0]

/-- `hex_hash` as `sprintf(&hex_hash[j*2], "%02x", hash[j] & 0xff)` fills it. -/
def hexHash (h : HashValue) : List UInt8 := (digestBytes h).flatMap hex02

/-! ### Comparing with the difficulty -/

theorem memcmp_append_of_ne (q p r s : List UInt8) (hlen : q.length = p.length) (hle : p.length ≤ 40)
    (hne : lexCompare q p ≠ .eq) : memcmp (q ++ r) (p ++ s) 40 = lexCompare q p := by
  rw [memcmp, List.take_append, List.take_append, List.take_of_length_le (by omega),
    List.take_of_length_le hle]
  exact lexCompare_append_of_ne q p _ _ hlen hne

theorem scanHex2_cons_cons (c0 c1 : UInt8) (rest : List UInt8) : scanHex2 (c0 :: c1 :: rest) = scanHex2 [c0, c1] := by
  simp only [scanHex2]
  cases hexValue c0 <;> rfl

theorem parseDifficulty_append (p rest : List UInt8) (hlen : p.length = 8) (hne : lexCompare p (bytes "00000000") ≠ .eq) :
    parseDifficulty (p ++ rest) = parseDifficulty p := by
  have h6 : strncmp (p ++ rest) (bytes "000000") 6 = strncmp p (bytes "000000") 6 := by
    rw [strncmp, strncmp, List.take_append_of_le_length (by omega)]
  have h8 : strcmp (p ++ rest) (bytes "00000000") = strcmp p (bytes "00000000") := by
    have h := lexCompare_append_of_ne p (bytes "00000000") rest [] (by rw [hlen]; rfl) hne
    rw [List.append_nil] at h
    rw [strcmp, strcmp, h]
  obtain ⟨a, b, c, d, e, f, x, y, rfl⟩ : ∃ a b c d e f x y, p = [a, b, c, d, e, f, x, y] := by
    match p, hlen with
    | [a, b, c, d, e, f, x, y], _ => exact ⟨a, b, c, d, e, f, x, y, rfl⟩
  have hscan : scanHex2 (([a, b, c, d, e, f, x, y] ++ rest).drop 6) = scanHex2 ([a, b, c, d, e, f, x, y].drop 6) :=
    scanHex2_cons_cons x y rest
  rw [parseDifficulty, parseDifficulty, h6, h8, hscan]

theorem le_of_hexValue {c : UInt8} (h : (hexValue c).isSome) : c ≤ 0x66 := by
  rw [UInt8.le_iff_toNat_le]
  unfold hexValue at h
  split_ifs at h with h1 h2 h3
  · have hc := UInt8.le_iff_toNat_le.mp h1.2
    simp only [UInt8.reduceToNat] at hc ⊢
    omega
  · have hc := UInt8.le_iff_toNat_le.mp h2.2
    simp only [UInt8.reduceToNat] at hc ⊢
    omega
  · have hc := UInt8.le_iff_toNat_le.mp h3.2
    simp only [UInt8.reduceToNat] at hc ⊢
    omega
  · cases h

theorem hexHash_eq (h : HashValue) :
    hexHash h = [byte h.h0 3, byte h.h0 2, byte h.h0 1, byte h.h0 0].flatMap hex02 ++
      ([h.h1, h.h2, h.h3, h.h4].flatMap fun w => [byte w 3, byte w 2, byte w 1, byte w 0]).flatMap hex02 := by
  rw [hexHash, digestBytes, List.flatMap_cons, List.flatMap_append]

theorem hex02_byte_three (w : UInt32) (hw : w.toNat < 2 ^ 28) : ∃ d, hex02 (byte w 3) = [0x30, d] := by
  have hbyte : (byte w 3).toNat < 16 := by
    rw [toNat_byte w 3 (by decide)]
    omega
  have hhigh : byte w 3 >>> 4 = 0 := by
    apply UInt8.toNat_inj.mp
    rw [UInt8.toNat_shiftRight]
    simp only [UInt8.reduceToNat, Nat.reduceMod, Nat.shiftRight_eq_div_pow]
    omega
  exact ⟨_, by rw [hex02, hhigh]; rfl⟩

/-! ### Difficulties the tests do not respect -/

theorem threaded_accepts_above (v : Nat) (hv : 1 ≤ v ∧ v ≤ 7) (rest : List UInt8) :
    parseDifficulty (bytes "0000000" ++ [0x30 + v.toUInt8] ++ rest) = .value v.toUInt8 ∧
      initHash v.toUInt8 = some ((0xFFFFFFFF : UInt32) <<< (32 - 4 * v).toUInt32) ∧
      threadedAccepts ((0xFFFFFFFF : UInt32) <<< (32 - 4 * v).toUInt32)
        ⟨(0xFFFFFFFF : UInt32) >>> (4 * v).toUInt32, 0, 0, 0, 0⟩ = true ∧
      memcmp (hexHash ⟨(0xFFFFFFFF : UInt32) >>> (4 * v).toUInt32, 0, 0, 0, 0⟩)
        (bytes "0000000" ++ [0x30 + v.toUInt8] ++ rest) 40 = .gt := by
  obtain ⟨hlo, hhi⟩ := hv
  have hzeros : hexHash ⟨(0xFFFFFFFF : UInt32) >>> (4 * v).toUInt32, 0, 0, 0, 0⟩ =
      (hexHash ⟨(0xFFFFFFFF : UInt32) >>> (4 * v).toUInt32, 0, 0, 0, 0⟩).take 8 ++ List.replicate 32 0x30 := by
    interval_cases v <;> decide
  rw [parseDifficulty_append _ rest (by simp [bytes]) (by interval_cases v <;> decide), hzeros,
    memcmp_append_of_ne _ _ _ _ (by interval_cases v <;> decide) (by simp [bytes]) (by interval_cases v <;> decide)]
  interval_cases v <;> decide

theorem cuda_accepts_above (rest : List UInt8) (hlen : rest.length = 31) (hhex : ∀ c ∈ rest, (hexValue c).isSome)
    (hne : rest ≠ List.replicate 31 0x66) :
    parseDifficulty (bytes "000000000" ++ rest) = .value 0 ∧
      cudaAccepts ⟨0, 0x0FFFFFFF, 0xFFFFFFFF, 0xFFFFFFFF, 0xFFFFFFFF⟩ = true ∧
      memcmp (hexHash ⟨0, 0x0FFFFFFF, 0xFFFFFFFF, 0xFFFFFFFF, 0xFFFFFFFF⟩) (bytes "000000000" ++ rest) 40 = .gt := by
  have hparse : parseDifficulty (bytes "000000000" ++ rest) = .value 0 := by
    have h6 : strncmp (bytes "000000000" ++ rest) (bytes "000000") 6 = .eq := by
      rw [strncmp, List.take_append_of_le_length (by decide)]
      decide
    have h8 : strcmp (bytes "000000000" ++ rest) (bytes "00000000") = .gt := by
      have hsplit : bytes "000000000" ++ rest = bytes "00000000" ++ (0x30 :: rest) := by
        rw [show bytes "000000000" = bytes "00000000" ++ [0x30] by decide, List.append_assoc]
        rfl
      rw [strcmp, hsplit, ← List.append_nil (bytes "00000000"), List.append_assoc,
        lexCompare_append_left, List.nil_append]
      rfl
    rw [parseDifficulty, h6, h8]
    cases rest with
    | nil => cases hlen
    | cons c rest => rfl
  have hhash : hexHash ⟨0, 0x0FFFFFFF, 0xFFFFFFFF, 0xFFFFFFFF, 0xFFFFFFFF⟩ =
      bytes "000000000" ++ List.replicate 31 0x66 := by
    decide
  refine ⟨hparse, by decide, ?_⟩
  rw [hhash, memcmp, List.take_of_length_le (by simp [bytes]), List.take_of_length_le (by simp [bytes, hlen]),
    lexCompare_append_left, ← hlen]
  exact lexCompare_replicate 0x66 rest (fun c hc => le_of_hexValue (hhex c hc)) (by rw [hlen]; exact hne)

/-! ### The benchmark's difficulty -/

/-- For `00000008…` the threaded test asks for a first word of zero, and every hash it accepts is
below the difficulty. -/
theorem threaded_accepts_le (rest : List UInt8) (h : HashValue) (haccept : threadedAccepts 0xFFFFFFFF h = true) :
    parseDifficulty (bytes "00000008" ++ rest) = .value 8 ∧ initHash 8 = some 0xFFFFFFFF ∧
      memcmp (hexHash h) (bytes "00000008" ++ rest) 40 = .lt := by
  have hh0 : h.h0 = 0 := by
    have hand : h.h0 &&& 0xFFFFFFFF = h.h0 := by
      apply UInt32.toNat_inj.mp
      rw [UInt32.toNat_and, show (0xFFFFFFFF : UInt32).toNat = 2 ^ 32 - 1 from rfl, Nat.and_two_pow_sub_one_eq_mod,
        Nat.mod_eq_of_lt h.h0.toNat_lt]
    simpa [threadedAccepts, hand] using haccept
  have hzeros : [byte h.h0 3, byte h.h0 2, byte h.h0 1, byte h.h0 0].flatMap hex02 = List.replicate 8 0x30 := by
    rw [hh0]
    decide
  refine ⟨by rw [parseDifficulty_append _ rest (by decide) (by decide)]; decide, by decide, ?_⟩
  rw [hexHash_eq, hzeros, memcmp_append_of_ne _ _ _ _ (by decide) (by decide) (by decide)]
  decide

theorem threaded_accepts_le_zero_word :
    threadedAccepts 0xFFFFFFFF ⟨0, 0x12345678, 0, 0, 0⟩ = true ∧
      (parseDifficulty (bytes "00000008" ++ List.replicate 32 0x30) = .value 8 ∧ initHash 8 = some 0xFFFFFFFF ∧
        memcmp (hexHash ⟨0, 0x12345678, 0, 0, 0⟩) (bytes "00000008" ++ List.replicate 32 0x30) 40 = .lt) :=
  ⟨by decide, threaded_accepts_le _ _ (by decide)⟩

/-- The CUDA test accepts only hashes that begin with nine zero digits, so every difficulty above
`000000000` in its first nine digits is respected. -/
theorem cuda_accepts_le (hexDifficulty : List UInt8) (hlen : hexDifficulty.length = 40)
    (habove : lexCompare (List.replicate 9 0x30) (hexDifficulty.take 9) = .lt) (h : HashValue)
    (haccept : cudaAccepts h = true) : memcmp (hexHash h) hexDifficulty 40 = .lt := by
  obtain ⟨hh0, hh1⟩ := res_test h.h0 h.h1 (by simpa [cudaAccepts] using haccept)
  obtain ⟨d, hd⟩ := hex02_byte_three h.h1 hh1
  have hfront : hexHash h = List.replicate 9 0x30 ++ (d :: ([byte h.h1 2, byte h.h1 1, byte h.h1 0].flatMap hex02 ++
      ([h.h2, h.h3, h.h4].flatMap fun w => [byte w 3, byte w 2, byte w 1, byte w 0]).flatMap hex02)) := by
    rw [hexHash_eq, hh0]
    simp only [List.flatMap_cons, List.flatMap_nil, hd, List.append_nil, List.append_assoc,
      List.cons_append, List.nil_append]
    rfl
  have htake : (hexDifficulty.take 9).length = 9 := by
    rw [List.length_take, hlen]
    rfl
  rw [hfront, ← List.take_append_drop 9 hexDifficulty,
    memcmp_append_of_ne _ _ _ _ (by rw [htake]; rfl) (by omega) (by rw [habove]; decide), habove]

theorem cuda_accepts_le_zero :
    (bytes "000000001" ++ List.replicate 31 0x30).length = 40 ∧
      lexCompare (List.replicate 9 0x30) ((bytes "000000001" ++ List.replicate 31 0x30).take 9) = .lt ∧
      cudaAccepts ⟨0, 0, 0, 0, 0⟩ = true ∧
      memcmp (hexHash ⟨0, 0, 0, 0, 0⟩) (bytes "000000001" ++ List.replicate 31 0x30) 40 = .lt :=
  ⟨by decide, by decide, by decide, cuda_accepts_le _ (by decide) (by decide) _ (by decide)⟩

theorem acceptance_exceeds_difficulty :
    (∀ v, 1 ≤ v → v ≤ 7 → ∀ rest : List UInt8,
      parseDifficulty (bytes "0000000" ++ [0x30 + v.toUInt8] ++ rest) = .value v.toUInt8 ∧
        initHash v.toUInt8 = some ((0xFFFFFFFF : UInt32) <<< (32 - 4 * v).toUInt32) ∧
        threadedAccepts ((0xFFFFFFFF : UInt32) <<< (32 - 4 * v).toUInt32)
          ⟨(0xFFFFFFFF : UInt32) >>> (4 * v).toUInt32, 0, 0, 0, 0⟩ = true ∧
        memcmp (hexHash ⟨(0xFFFFFFFF : UInt32) >>> (4 * v).toUInt32, 0, 0, 0, 0⟩)
          (bytes "0000000" ++ [0x30 + v.toUInt8] ++ rest) 40 = .gt) ∧
    (∀ rest : List UInt8, rest.length = 31 → (∀ c ∈ rest, (hexValue c).isSome) → rest ≠ List.replicate 31 0x66 →
      parseDifficulty (bytes "000000000" ++ rest) = .value 0 ∧
        cudaAccepts ⟨0, 0x0FFFFFFF, 0xFFFFFFFF, 0xFFFFFFFF, 0xFFFFFFFF⟩ = true ∧
        memcmp (hexHash ⟨0, 0x0FFFFFFF, 0xFFFFFFFF, 0xFFFFFFFF, 0xFFFFFFFF⟩) (bytes "000000000" ++ rest) 40 = .gt) :=
  ⟨fun v hlo hhi rest => threaded_accepts_above v ⟨hlo, hhi⟩ rest,
    fun rest hlen hhex hne => cuda_accepts_above rest hlen hhex hne⟩

end Ctf3.Level1
