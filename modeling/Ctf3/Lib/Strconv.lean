import Mathlib
import Ctf3.Lib.Printf

/-!
# Go's `strconv.ParseUint`

`parseUint s base bitSize` follows `ParseUint` as Go had it before digit separators (Go 1.2): base
`0` reads a `0x` prefix as hexadecimal and any other leading `0` as octal, a digit past the base is
a syntax error, and a value past `bitSize` bits is a range error, found as soon as the digits read
so far exceed it. `parseUint_decimal` says that a decimal numeral without a leading zero that fits
is read as its value.
-/

namespace Strconv

open Printf

/-- `ErrRange`, `ErrSyntax`, and the error of a base outside 2 to 36. -/
inductive NumErr
  | range
  | invalid
  | base (b : Nat)
deriving DecidableEq, Repr

def NumErr.text : NumErr → List UInt8
  | .range => bytes "value out of range"
  | .invalid => bytes "invalid syntax"
  | .base b => bytes "invalid base " ++ decimal b

/-- `NumError.Error()` for `ParseUint`. `Quote(num)` puts a number text of digits and letters
between double quotes and changes nothing else. -/
def NumErr.message (e : NumErr) (num : List UInt8) : List UInt8 :=
  bytes "strconv.ParseUint: parsing " ++ [0x22] ++ num ++ [0x22] ++ bytes ": " ++ e.text

def digitValue (d : UInt8) : Option Nat :=
  if 0x30 ≤ d ∧ d ≤ 0x39 then some (d.toNat - 0x30)
  else if 0x61 ≤ d ∧ d ≤ 0x7A then some (d.toNat - 0x61 + 10)
  else if 0x41 ≤ d ∧ d ≤ 0x5A then some (d.toNat - 0x41 + 10)
  else none

/-- `cutoff64(base)`: the least `n` with `n * base` past `2^64 - 1`. -/
def cutoff (base : Nat) : Nat := (2 ^ 64 - 1) / base + 1

/-- The digit loop of `ParseUint`, from the value `n` of the digits read so far. -/
def parseDigits (base maxVal : Nat) : Nat → List UInt8 → Except NumErr Nat
  | n, [] => .ok n
  | n, d :: s =>
    match digitValue d with
    | none => .error .invalid
    | some v =>
      if base ≤ v then .error .invalid
      else if cutoff base ≤ n then .error .range
      else if maxVal < n * base + v then .error .range
      else parseDigits base maxVal (n * base + v) s

def parseUint (s : List UInt8) (base bitSize : Nat) : Except NumErr Nat :=
  let bitSize := if bitSize = 0 then 64 else bitSize
  -- `1<<uint(bitSize) - 1` on `uint64`
  let maxVal := if 64 ≤ bitSize then 2 ^ 64 - 1 else 2 ^ bitSize - 1
  if s = [] then .error .invalid
  else if base = 0 then
    if s.head? = some 0x30 then
      if (s.drop 1).head? = some 0x78 ∨ (s.drop 1).head? = some 0x58 then
        if s.drop 2 = [] then .error .invalid else parseDigits 16 maxVal 0 (s.drop 2)
      else parseDigits 8 maxVal 0 s
    else parseDigits 10 maxVal 0 s
  else if 2 ≤ base ∧ base ≤ 36 then parseDigits base maxVal 0 s
  else .error (.base base)

def decimalValue (s : List UInt8) : Nat := s.foldl (fun n d => 10 * n + (d.toNat - 0x30)) 0

theorem le_foldl_decimal (s : List UInt8) (n : Nat) :
    n ≤ s.foldl (fun n d => 10 * n + (d.toNat - 0x30)) n := by
  induction s generalizing n with
  | nil => exact le_refl n
  | cons d s ih =>
    rw [List.foldl_cons]
    exact le_trans (by omega) (ih _)

theorem one_le_decimalValue (s : List UInt8) (hdigits : ∀ d ∈ s, 0x30 ≤ d ∧ d ≤ 0x39) (hne : s ≠ [])
    (hlead : s.head? ≠ some 0x30) : 1 ≤ decimalValue s := by
  obtain ⟨d, s, rfl⟩ := List.exists_cons_of_ne_nil hne
  have hd : 0x30 ≤ d.toNat := UInt8.le_iff_toNat_le.mp (hdigits d (List.mem_cons_self ..)).1
  have hnz : d.toNat ≠ 0x30 := by
    intro h
    apply hlead
    rw [List.head?_cons, show d = 0x30 from UInt8.toNat_inj.mp h]
  unfold decimalValue
  rw [List.foldl_cons]
  exact le_trans (by omega) (le_foldl_decimal s _)

theorem parseDigits_decimal (maxVal : Nat) (hmax : maxVal < 2 ^ 64) :
    ∀ (s : List UInt8) (n : Nat), (∀ d ∈ s, 0x30 ≤ d ∧ d ≤ 0x39) →
      s.foldl (fun n d => 10 * n + (d.toNat - 0x30)) n ≤ maxVal →
      parseDigits 10 maxVal n s = .ok (s.foldl (fun n d => 10 * n + (d.toNat - 0x30)) n)
  | [], n, _, _ => rfl
  | d :: s, n, hdigits, hle => by
    obtain ⟨hlo, hhi⟩ := hdigits d (List.mem_cons_self ..)
    have hlo' : 0x30 ≤ d.toNat := UInt8.le_iff_toNat_le.mp hlo
    have hhi' : d.toNat ≤ 0x39 := UInt8.le_iff_toNat_le.mp hhi
    rw [List.foldl_cons] at hle ⊢
    have hnext := le_foldl_decimal s (10 * n + (d.toNat - 0x30))
    have hcut : n < cutoff 10 := by
      unfold cutoff
      omega
    simp only [parseDigits, digitValue, hlo, hhi, and_self, if_true]
    rw [if_neg (by omega), if_neg (by omega), if_neg (by omega), Nat.mul_comm n 10]
    exact parseDigits_decimal maxVal hmax s _ (fun d' hd' => hdigits d' (List.mem_cons_of_mem _ hd'))
      hle

theorem parseUint_decimal (s : List UInt8) (bitSize : Nat) (hdigits : ∀ d ∈ s, 0x30 ≤ d ∧ d ≤ 0x39)
    (hne : s ≠ []) (hlead : s.head? ≠ some 0x30) (hbits : 0 < bitSize ∧ bitSize ≤ 64)
    (hfits : decimalValue s < 2 ^ bitSize) : parseUint s 0 bitSize = .ok (decimalValue s) := by
  have hmax : (if 64 ≤ bitSize then 2 ^ 64 - 1 else 2 ^ bitSize - 1) = 2 ^ bitSize - 1 := by
    split
    · rename_i h64
      rw [show bitSize = 64 by omega]
    · rfl
  have hpow : 2 ^ bitSize ≤ 2 ^ 64 := Nat.pow_le_pow_right (by norm_num) hbits.2
  have hpos : 0 < 2 ^ bitSize := Nat.two_pow_pos bitSize
  simp only [parseUint, hne, if_false, if_true, hlead, Nat.pos_iff_ne_zero.mp hbits.1, hmax]
  exact parseDigits_decimal _ (by omega) s 0 hdigits (by unfold decimalValue at hfits; omega)

end Strconv
