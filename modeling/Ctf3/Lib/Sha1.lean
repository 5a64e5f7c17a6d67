import Mathlib
import Ctf3.Lib.ByteOrder

/-!
# SHA-1

The hash function of FIPS 180-4, written as the standard writes it: the 80-word message schedule
of §6.1.2, the functions `Ch`, `Parity` and `Maj` of §4.1.1 with the constants of §4.2.1, the
compression of one 512-bit block with its feed-forward, and the padding of §5.1.1. Messages are
byte lists and a block's words are read big-endian.

The schedule is computed as a list, so the definitions evaluate; `schedule_of_lt` and
`schedule_of_le` give back the recurrence of the standard, and proofs use only those. A round can
be undone (`step_injective`), so the rounds without the feed-forward are a permutation of the
working variables (`rounds_injective`).
-/

namespace Sha1

open ByteOrder

/-- The five words `H0, ..., H4` of a SHA-1 hash value. -/
structure HashValue where
  h0 : UInt32
  h1 : UInt32
  h2 : UInt32
  h3 : UInt32
  h4 : UInt32
deriving DecidableEq, Repr

/-- The hash value as the 160-bit number its digest spells, `H0` most significant. -/
def HashValue.toNat (h : HashValue) : Nat :=
  h.h0.toNat * 2 ^ 128 + h.h1.toNat * 2 ^ 96 + h.h2.toNat * 2 ^ 64 + h.h3.toNat * 2 ^ 32 + h.h4.toNat

/-- The initial hash value of §5.3.1. -/
def initial : HashValue := ⟨0x67452301, 0xEFCDAB89, 0x98BADCFE, 0x10325476, 0xC3D2E1F0⟩

/-- `ROTL^n x`, for `0 < n < 32`. -/
def rotl (n : Nat) (x : UInt32) : UInt32 := (x <<< UInt32.ofNat n) ||| (x >>> UInt32.ofNat (32 - n))

def ch (x y z : UInt32) : UInt32 := (x &&& y) ^^^ (~~~x &&& z)

def parity (x y z : UInt32) : UInt32 := x ^^^ y ^^^ z

def maj (x y z : UInt32) : UInt32 := (x &&& y) ^^^ (x &&& z) ^^^ (y &&& z)

def f (t : Nat) (x y z : UInt32) : UInt32 :=
  if t < 20 then ch x y z else if t < 40 then parity x y z else if t < 60 then maj x y z else parity x y z

def K (t : Nat) : UInt32 :=
  if t < 20 then 0x5A827999 else if t < 40 then 0x6ED9EBA1 else if t < 60 then 0x8F1BBCDC else 0xCA62C1D6

abbrev Block := Fin 16 → UInt32

/-- The schedule words `W 0, ..., W (15 + n)`. -/
def scheduleWords (M : Block) : Nat → List UInt32
  | 0 => List.ofFn M
  | n + 1 =>
    let W := scheduleWords M n
    W ++ [rotl 1 (W.getD (13 + n) 0 ^^^ W.getD (8 + n) 0 ^^^ W.getD (2 + n) 0 ^^^ W.getD n 0)]

/-- The message schedule `W t`, `0 ≤ t < 80`. -/
def schedule (M : Block) (t : Nat) : UInt32 := (scheduleWords M 64).getD t 0

structure Working where
  a : UInt32
  b : UInt32
  c : UInt32
  d : UInt32
  e : UInt32

/-- Round `t` of step 3 of §6.1.2. -/
def step (W : Nat → UInt32) (v : Working) (t : Nat) : Working :=
  ⟨rotl 5 v.a + f t v.b v.c v.d + v.e + K t + W t, v.a, rotl 30 v.b, v.c, v.d⟩

def rounds (W : Nat → UInt32) (n : Nat) (v : Working) : Working := (List.range n).foldl (step W) v

/-- The compression of one block into the hash value, with the feed-forward of step 4. -/
def compress (H : HashValue) (M : Block) : HashValue :=
  let v := rounds (schedule M) 80 ⟨H.h0, H.h1, H.h2, H.h3, H.h4⟩
  ⟨H.h0 + v.a, H.h1 + v.b, H.h2 + v.c, H.h3 + v.d, H.h4 + v.e⟩

/-- The block of the sixteen big-endian words at byte offset `off`. -/
def blockAt (bytes : List UInt8) (off : Nat) : Block := fun j =>
  ofBE (bytes.getD (off + 4 * j) 0) (bytes.getD (off + 4 * j + 1) 0) (bytes.getD (off + 4 * j + 2) 0)
    (bytes.getD (off + 4 * j + 3) 0)

/-- The complete 64-byte blocks of a byte string. -/
def blocks (bytes : List UInt8) : List Block :=
  (List.range (bytes.length / 64)).map fun i => blockAt bytes (64 * i)

/-- The hash value after the blocks of `bytes`, from `H`. -/
def chain (H : HashValue) (bytes : List UInt8) : HashValue := (blocks bytes).foldl compress H

/-- The length of a message in bits, as the 64-bit big-endian field that ends the padding. -/
def lengthBytes (len : Nat) : List UInt8 :=
  (List.range 8).reverse.map fun k => UInt8.ofNat (8 * len / 2 ^ (8 * k))

/-- The padding of §5.1.1 after a message of `len` bytes: a one bit, zeros up to 56 mod 64 bytes,
and the length. -/
def padding (len : Nat) : List UInt8 := 0x80 :: List.replicate ((119 - len % 64) % 64) 0 ++ lengthBytes len

def pad (msg : List UInt8) : List UInt8 := msg ++ padding msg.length

def hash (msg : List UInt8) : HashValue := chain initial (pad msg)

/-! ### The schedule recurrence -/

theorem length_scheduleWords (M : Block) (n : Nat) : (scheduleWords M n).length = 16 + n := by
  induction n with
  | zero => simp [scheduleWords]
  | succ n ih =>
    simp only [scheduleWords, List.length_append, ih, List.length_singleton]
    omega

theorem getD_scheduleWords_of_le (M : Block) {n m t : Nat} (hnm : n ≤ m) (ht : t < 16 + n) :
    (scheduleWords M m).getD t 0 = (scheduleWords M n).getD t 0 := by
  induction m, hnm using Nat.le_induction with
  | base => rfl
  | succ m hnm ih =>
    have hlen : t < (scheduleWords M m).length := by rw [length_scheduleWords]; omega
    rw [scheduleWords, List.getD_eq_getElem?_getD, List.getElem?_append_left hlen, ← List.getD_eq_getElem?_getD, ih]

theorem schedule_of_lt (M : Block) (t : Fin 16) : schedule M t = M t := by
  rw [schedule, getD_scheduleWords_of_le M (Nat.zero_le 64) (by omega), scheduleWords, List.getD_eq_getElem?_getD,
    List.getElem?_ofFn, dif_pos t.isLt, Option.getD_some]

theorem schedule_of_le (M : Block) (t : Nat) (h16 : 16 ≤ t) (h80 : t < 80) :
    schedule M t =
      rotl 1 (schedule M (t - 3) ^^^ schedule M (t - 8) ^^^ schedule M (t - 14) ^^^ schedule M (t - 16)) := by
  obtain ⟨n, rfl⟩ : ∃ n, t = 16 + n := ⟨t - 16, by omega⟩
  have hword : ∀ j, j < 16 + n → (scheduleWords M n).getD j 0 = schedule M j := fun j hj =>
    (getD_scheduleWords_of_le M (by omega) hj).symm
  have hlast : (scheduleWords M 64).getD (16 + n) 0 = (scheduleWords M (n + 1)).getD (16 + n) 0 :=
    getD_scheduleWords_of_le M (by omega) (by omega)
  have hlen : (scheduleWords M n).length ≤ 16 + n := by rw [length_scheduleWords]
  have hidx : 16 + n - 3 = 13 + n ∧ 16 + n - 8 = 8 + n ∧ 16 + n - 14 = 2 + n ∧ 16 + n - 16 = n := by omega
  rw [schedule, hlast, scheduleWords, List.getD_eq_getElem?_getD, List.getElem?_append_right hlen,
    length_scheduleWords, Nat.sub_self, hidx.1, hidx.2.1, hidx.2.2.1, hidx.2.2.2]
  simp only [List.getElem?_singleton, ↓reduceIte, Option.getD_some]
  rw [hword (13 + n) (by omega), hword (8 + n) (by omega), hword (2 + n) (by omega), hword n (by omega)]

/-! ### Rounds, compression and chaining -/

theorem rounds_succ (W : Nat → UInt32) (n : Nat) (v : Working) :
    rounds W (n + 1) v = step W (rounds W n v) n := by
  simp only [rounds, List.range_succ, List.foldl_append, List.foldl_cons, List.foldl_nil]

theorem toBitVec_rotl_thirty (x : UInt32) : (rotl 30 x).toBitVec = x.toBitVec.rotateLeft 30 := by
  rw [BitVec.rotateLeft_def]
  rfl

theorem rotl_thirty_injective : Function.Injective (rotl 30) := by
  intro x y h
  have hbv : x.toBitVec.rotateLeft 30 = y.toBitVec.rotateLeft 30 := by
    rw [← toBitVec_rotl_thirty, ← toBitVec_rotl_thirty, h]
  apply UInt32.toBitVec_inj.mp
  apply BitVec.eq_of_getLsbD_eq
  intro j hj
  by_cases hj2 : j < 2
  · have hbit := congrArg (fun v => v.getLsbD (j + 30)) hbv
    simp only [BitVec.getLsbD_rotateLeft] at hbit
    simpa [show ¬(j + 30 < 30) by omega, show j + 30 < 32 by omega] using hbit
  · have hbit := congrArg (fun v => v.getLsbD (j - 2)) hbv
    simp only [BitVec.getLsbD_rotateLeft] at hbit
    simpa [show j - 2 < 30 by omega, show 32 - 30 + (j - 2) = j by omega] using hbit

theorem step_injective (W : Nat → UInt32) (t : Nat) : Function.Injective fun v => step W v t := by
  rintro ⟨a, b, c, d, e⟩ ⟨a', b', c', d', e'⟩ h
  simp only [step, Working.mk.injEq] at h
  obtain ⟨hsum, rfl, hb, rfl, rfl⟩ := h
  obtain rfl := rotl_thirty_injective hb
  obtain rfl := add_left_cancel (add_right_cancel (add_right_cancel hsum))
  rfl

theorem rounds_injective (W : Nat → UInt32) (n : Nat) : Function.Injective (rounds W n) := by
  induction n with
  | zero => exact fun v v' h => h
  | succ n ih =>
    intro v v' h
    rw [rounds_succ, rounds_succ] at h
    exact ih (step_injective W n h)

theorem ch_eq_or (x y z : UInt32) : ch x y z = (x &&& y) ||| (~~~x &&& z) := by
  apply UInt32.toBitVec_inj.mp
  simp only [ch, UInt32.toBitVec_xor, UInt32.toBitVec_or, UInt32.toBitVec_and, UInt32.toBitVec_not]
  ext i hi
  simp only [BitVec.getElem_xor, BitVec.getElem_or, BitVec.getElem_and, BitVec.getElem_not]
  cases x.toBitVec[i] <;> cases y.toBitVec[i] <;> cases z.toBitVec[i] <;> rfl

theorem maj_eq_or (x y z : UInt32) : maj x y z = (x &&& y) ||| (x &&& z) ||| (y &&& z) := by
  apply UInt32.toBitVec_inj.mp
  simp only [maj, UInt32.toBitVec_xor, UInt32.toBitVec_or, UInt32.toBitVec_and]
  ext i hi
  simp only [BitVec.getElem_xor, BitVec.getElem_or, BitVec.getElem_and]
  cases x.toBitVec[i] <;> cases y.toBitVec[i] <;> cases z.toBitVec[i] <;> rfl

theorem blockAt_drop (bytes : List UInt8) (off : Nat) : blockAt (bytes.drop off) 0 = blockAt bytes off := by
  funext j
  simp only [blockAt, List.getD_eq_getElem?_getD, List.getElem?_drop, Nat.zero_add, Nat.add_assoc]

theorem blockAt_take (bytes : List UInt8) {off k : Nat} (hk : off + 64 ≤ k) :
    blockAt (bytes.take k) off = blockAt bytes off := by
  funext j
  have hj := j.isLt
  simp only [blockAt, List.getD_eq_getElem?_getD, List.getElem?_take]
  have h0 : off + 4 * j < k := by omega
  have h1 : off + 4 * j + 1 < k := by omega
  have h2 : off + 4 * j + 2 < k := by omega
  have h3 : off + 4 * j + 3 < k := by omega
  simp only [h0, h1, h2, h3, if_true]

theorem bswap32_loadLE32 {n : Nat} (mem : Vector UInt8 n) (off : Nat) (j : Fin 16) :
    bswap32 (loadLE32 mem (off + 4 * j)) = blockAt mem.toList off j := by
  rw [loadLE32, bswap32_ofLE]
  rfl

theorem blockAt_storeLE32 {n : Nat} (mem : Vector UInt8 n) (off : Nat) (k : Fin 16) (x : UInt32)
    (hn : off + 64 ≤ n) :
    blockAt (storeLE32 mem (off + 4 * k) x).toList off = Function.update (blockAt mem.toList off) k (bswap32 x) := by
  funext j
  have hj := j.isLt
  have hk := k.isLt
  rw [Function.update_apply]
  simp only [blockAt, getD_toList _ (show off + 4 * j < n by omega), getD_toList _ (show off + 4 * j + 1 < n by omega),
    getD_toList _ (show off + 4 * j + 2 < n by omega), getD_toList _ (show off + 4 * j + 3 < n by omega)]
  split_ifs with hjk
  · subst hjk
    simp [getElem_storeLE32]
    rfl
  · have hne : (j : Nat) ≠ k := fun h => hjk (Fin.ext h)
    rw [getElem_storeLE32_of_ne _ _ _ _ _ (by omega), getElem_storeLE32_of_ne _ _ _ _ _ (by omega),
      getElem_storeLE32_of_ne _ _ _ _ _ (by omega), getElem_storeLE32_of_ne _ _ _ _ _ (by omega)]

theorem chain_of_length (H : HashValue) (bytes : List UInt8) (m : Nat) (hlen : bytes.length = 64 * (m + 1)) :
    chain H bytes = compress (chain H (bytes.take (64 * m))) (blockAt bytes (64 * m)) := by
  have hcount : bytes.length / 64 = m + 1 := by omega
  have htake : (bytes.take (64 * m)).length / 64 = m := by simp only [List.length_take]; omega
  have hfirst : blocks (bytes.take (64 * m)) = (List.range m).map fun i => blockAt bytes (64 * i) := by
    rw [blocks, htake]
    apply List.map_congr_left
    intro i hi
    exact blockAt_take bytes (by have := List.mem_range.mp hi; omega)
  rw [chain, chain, blocks, hcount, List.range_succ, List.map_append, List.foldl_append, ← hfirst]
  rfl

theorem toNat_lt_of_h0_h1 (h : HashValue) (h0 : h.h0 = 0) (h1 : h.h1.toNat < 2 ^ 28) : h.toNat < 2 ^ 124 := by
  have h2 := h.h2.toNat_lt
  have h3 := h.h3.toNat_lt
  have h4 := h.h4.toNat_lt
  simp only [HashValue.toNat, h0, UInt32.toNat_zero, Nat.reducePow] at *
  omega

example : hash [0x61, 0x62, 0x63] = ⟨0xA9993E36, 0x4706816A, 0xBA3E2571, 0x7850C26C, 0x9CD0D89D⟩ := by
  set_option maxRecDepth 8000 in decide

end Sha1
