import Mathlib
import Ctf3.Lib.CString
import Ctf3.Libgit2.Odb

/-!
# Object ids as hex in the vendored libgit2

`src/oid.c` reads an id from hex (`git_oid_fromstrn`, `git_oid__parse`), writes it
(`git_oid_nfmt`, `git_oid_tostr`, `git_oid__writebuf`) and compares ids with ids or with hex
(`git_oid__cmp`, `git_oid_ncmp`, `git_oid_strcmp`). A C string is a list of bytes, and a read
past the list reads the NUL that ends it. A call that fails gives the message `giterr_set` leaves;
`none` is a write past `out->id`.

The reader's closed form is `fromstr_eq`: the forty digits are read two at a time, and one that
is not hex fails the call. What is written reads back (`fromstr_fmt`, `parse_writebuf`),
`git_oid_ncmp` compares the first `len` digits (`ncmp_eq_zero_iff`), `git_oid_cmp` orders ids as
`strcmp` orders their hex (`cmp_compare`), and `git_oid_strcmp` against the hex of an id is
`git_oid_cmp` (`strcmp_fmt`).
-/

namespace Ctf3.Libgit2

open CString

/-! ### Hex digits -/

/-- `from_hex` in util.h: the value of each byte as a hex digit, `-1` for the others. -/
def fromHexTable : List Int32 := [
  -1, -1, -1, -1, -1, -1, -1, -1, -1, -1, -1, -1, -1, -1, -1, -1,
  -1, -1, -1, -1, -1, -1, -1, -1, -1, -1, -1, -1, -1, -1, -1, -1,
  -1, -1, -1, -1, -1, -1, -1, -1, -1, -1, -1, -1, -1, -1, -1, -1,
  0, 1, 2, 3, 4, 5, 6, 7, 8, 9, -1, -1, -1, -1, -1, -1,
  -1, 10, 11, 12, 13, 14, 15, -1, -1, -1, -1, -1, -1, -1, -1, -1,
  -1, -1, -1, -1, -1, -1, -1, -1, -1, -1, -1, -1, -1, -1, -1, -1,
  -1, 10, 11, 12, 13, 14, 15, -1, -1, -1, -1, -1, -1, -1, -1, -1,
  -1, -1, -1, -1, -1, -1, -1, -1, -1, -1, -1, -1, -1, -1, -1, -1,
  -1, -1, -1, -1, -1, -1, -1, -1, -1, -1, -1, -1, -1, -1, -1, -1,
  -1, -1, -1, -1, -1, -1, -1, -1, -1, -1, -1, -1, -1, -1, -1, -1,
  -1, -1, -1, -1, -1, -1, -1, -1, -1, -1, -1, -1, -1, -1, -1, -1,
  -1, -1, -1, -1, -1, -1, -1, -1, -1, -1, -1, -1, -1, -1, -1, -1,
  -1, -1, -1, -1, -1, -1, -1, -1, -1, -1, -1, -1, -1, -1, -1, -1,
  -1, -1, -1, -1, -1, -1, -1, -1, -1, -1, -1, -1, -1, -1, -1, -1,
  -1, -1, -1, -1, -1, -1, -1, -1, -1, -1, -1, -1, -1, -1, -1, -1,
  -1, -1, -1, -1, -1, -1, -1, -1, -1, -1, -1, -1, -1, -1, -1, -1]

/-- `git__fromhex(h)`, an `int`. -/
def fromhex (h : UInt8) : Int32 := fromHexTable.getD h.toNat (-1)

/-- `str[i]`: past the bytes of the list comes the NUL that ends the string. -/
def byteAt (str : List UInt8) (i : Nat) : UInt8 := str.getD i 0

def strlen (str : List UInt8) : Nat := (str.takeWhile (· != 0)).length

/-- `(unsigned char)v`: the low byte of an `int`. -/
def uchar (v : Int32) : UInt8 := v.toUInt32.toUInt8

/-- The message `oid_error_invalid(msg)` leaves. -/
def oidErrorInvalid (msg : String) : String := "Unable to parse OID - " ++ msg

/-! ### Reading an id -/

/-- `(git__fromhex(a) << 4) | git__fromhex(b)`. -/
def hexPair (a b : UInt8) : Int32 := fromhex a <<< 4 ||| fromhex b

/-- The loop `for (p = 0; p < length - 1; p += 2)` of `git_oid_fromstrn`, from `p`, where `bound`
is `length - 1` as a `size_t`: the id so far and the `p` the loop ends at. -/
def fromstrnLoop (str : List UInt8) (bound : Nat) (out : Vector UInt8 20) (p : Nat) :
    Option (Except String (Vector UInt8 20 × Nat)) :=
  if p < bound then
    if hexPair (byteAt str p) (byteAt str (p + 1)) < 0 then
      some (.error (oidErrorInvalid "contains invalid characters"))
    else if h : p / 2 < 20 then
      fromstrnLoop str bound (out.set (p / 2) (uchar (hexPair (byteAt str p) (byteAt str (p + 1))))) (p + 2)
    else none
  else some (.ok (out, p))
termination_by 40 - p

/-- `memset(out->id + p / 2, 0, (GIT_OID_HEXSZ - p) / 2)`, for `p` at most forty. -/
def clearFrom (out : Vector UInt8 20) (p : Nat) : Option (Except String (Vector UInt8 20)) :=
  if p ≤ 40 then some (.ok (Vector.ofFn fun j => if j.val < p / 2 then out[j] else 0)) else none

/-- `git_oid_fromstrn(out, str, length)`, from the `out` the call is given. -/
def fromstrn (out : Vector UInt8 20) (str : List UInt8) (length : Nat) : Option (Except String (Vector UInt8 20)) :=
  if length > 40 then some (.error (oidErrorInvalid "too long"))
  else
    -- `length - 1` is computed in `size_t`: `SIZE_MAX` for `length = 0`
    match fromstrnLoop str ((length + (2 ^ 64 - 1)) % 2 ^ 64) out 0 with
    | none => none
    | some (.error msg) => some (.error msg)
    | some (.ok (out, p)) =>
      if length % 2 = 1 then
        if fromhex (byteAt str p) <<< 4 < 0 then some (.error (oidErrorInvalid "contains invalid characters"))
        else if h : p / 2 < 20 then clearFrom (out.set (p / 2) (uchar (fromhex (byteAt str p) <<< 4))) (p + 2)
        else none
      else clearFrom out p

def fromstrp (out : Vector UInt8 20) (str : List UInt8) : Option (Except String (Vector UInt8 20)) :=
  fromstrn out str (strlen str)

def fromstr (out : Vector UInt8 20) (str : List UInt8) : Option (Except String (Vector UInt8 20)) :=
  fromstrn out str 40

/-! ### Writing an id -/

/-- `git_oid_nfmt(str, n, oid)`: the `n` bytes it writes, for an id or for `NULL`. -/
def nfmt (n : Nat) : Option (Vector UInt8 20) → List UInt8
  | none => List.replicate n 0
  | some oid =>
    -- past the forty digits the buffer is cleared first
    (oid.toList.take (min n 40 / 2)).flatMap fmtOne ++
      (if min n 40 % 2 = 1 then [toHex.getD (oid.toList.getD (min n 40 / 2) 0 >>> 4).toNat 0] else []) ++
      List.replicate (n - 40) 0

def fmt (oid : Vector UInt8 20) : List UInt8 := nfmt 40 (some oid)

/-- `git_oid_pathfmt(str, oid)`: the first byte's digits, a slash, and the other digits. -/
def pathfmt (oid : Vector UInt8 20) : List UInt8 :=
  fmtOne (oid.toList.getD 0 0) ++ [0x2f] ++ (oid.toList.drop 1).flatMap fmtOne

/-- `git_oid_tostr(out, n, oid)`: what it writes to `out`, nothing for `n = 0`. -/
def tostr (n : Nat) (oid : Option (Vector UInt8 20)) : List UInt8 :=
  if n = 0 then [] else nfmt (min n 41 - 1) oid ++ [0]

/-! ### Ids in object text -/

/-- `git_oid__parse(oid, &buffer, buffer_end, header)` on the bytes from `buffer` to
`buffer_end` and a header without NUL: the id and the bytes after its line, `none` for `-1`. -/
def parse (oid : Vector UInt8 20) (buffer header : List UInt8) : Option (Vector UInt8 20 × List UInt8) :=
  if buffer.length < header.length + 40 + 1 then none
  else if memcmp buffer header header.length ≠ .eq then none
  else if byteAt buffer (header.length + 40) ≠ 10 then none
  else
    match fromstr oid (buffer.drop header.length) with
    | some (.ok oid) => some (oid, buffer.drop (header.length + 40 + 1))
    | _ => none

/-- `git_oid__writebuf(buf, header, oid)`: the header, the forty digits and a newline appended. -/
def writebuf (buf header : List UInt8) (oid : Vector UInt8 20) : List UInt8 :=
  buf ++ header ++ fmt oid ++ [10]

/-! ### Comparing ids -/

/-- `git_oid__hashcmp(sha1, sha2)`: the difference of the first bytes that differ. -/
def hashcmp : List UInt8 → List UInt8 → Int
  | a :: sha1, b :: sha2 => if a ≠ b then (a.toNat : Int) - b.toNat else hashcmp sha1 sha2
  | _, _ => 0

def cmp (a b : Vector UInt8 20) : Int := hashcmp a.toList b.toList

/-- The loop of `git_oid_ncmp` over the bytes of both ids, with `len` digits to compare. -/
def ncmpLoop : List UInt8 → List UInt8 → Nat → Int
  | a :: as, b :: bs, len + 2 => if a ≠ b then 1 else ncmpLoop as bs len
  | a :: _, b :: _, 1 => if (a ^^^ b) &&& 0xf0 ≠ 0 then 1 else 0
  | _, _, _ => 0

def ncmp (a b : Vector UInt8 20) (len : Nat) : Int := ncmpLoop a.toList b.toList (min len 40)

/-- The loop of `git_oid_strcmp` from the `i`th byte of the id and the `j`th of the string. -/
def strcmpLoop (a : Vector UInt8 20) (str : List UInt8) (i j : Nat) : Int :=
  if h : byteAt str j ≠ 0 ∧ i < 20 then
    if fromhex (byteAt str j) < 0 then -1
    else
      let strval := uchar (fromhex (byteAt str j) <<< 4)
      if byteAt str (j + 1) ≠ 0 then
        if fromhex (byteAt str (j + 1)) < 0 then -1
        else
          let strval := strval ||| uchar (fromhex (byteAt str (j + 1)))
          if a[i] ≠ strval then (a[i].toNat : Int) - strval.toNat else strcmpLoop a str (i + 1) (j + 2)
      else if a[i] ≠ strval then (a[i].toNat : Int) - strval.toNat else strcmpLoop a str (i + 1) (j + 1)
  else 0
termination_by 20 - i

def strcmp (a : Vector UInt8 20) (str : List UInt8) : Int := strcmpLoop a str 0 0

def streq (a : Vector UInt8 20) (str : List UInt8) : Int := if strcmp a str = 0 then 0 else -1

def iszero (a : Vector UInt8 20) : Bool := a.toList.all (· == 0)

/-! ### The digits -/

theorem toHex_eq : toHex = [48, 49, 50, 51, 52, 53, 54, 55, 56, 57, 97, 98, 99, 100, 101, 102] := by
  decide

theorem fromhex_toHex : ∀ d : Fin 16, fromhex (toHex.getD d 0) = Int32.ofNat d := by
  rw [toHex_eq]
  decide

set_option maxRecDepth 20000 in
theorem shift_or_digits : ∀ hi lo : Fin 16, (0 : Int32) ≤ (Int32.ofNat hi <<< 4 ||| Int32.ofNat lo) ∧
    uchar (Int32.ofNat hi <<< 4 ||| Int32.ofNat lo) = UInt8.ofNat (16 * hi + lo) := by
  decide

theorem high_lt (x : UInt8) : (x >>> 4).toNat < 16 := by
  have hx := x.toNat_lt
  simp only [UInt8.toNat_shiftRight, UInt8.reduceToNat, Nat.reduceMod, Nat.shiftRight_eq_div_pow]
  omega

theorem low_lt (x : UInt8) : (x &&& 0xf).toNat < 16 := by
  rw [UInt8.toNat_and]
  exact Nat.lt_of_le_of_lt Nat.and_le_right (by decide)

theorem nibbles (x : UInt8) : 16 * (x >>> 4).toNat + (x &&& 0xf).toNat = x.toNat := by
  have hlow : (x &&& 0xf).toNat = x.toNat % 16 := by
    simpa using Nat.and_two_pow_sub_one_eq_mod x.toNat 4
  have hhigh : (x >>> 4).toNat = x.toNat / 16 := by
    simp [UInt8.toNat_shiftRight, Nat.shiftRight_eq_div_pow]
  omega

theorem hexPair_fmtOne (x : UInt8) :
    0 ≤ hexPair ((fmtOne x).getD 0 0) ((fmtOne x).getD 1 0) ∧
      uchar (hexPair ((fmtOne x).getD 0 0) ((fmtOne x).getD 1 0)) = x := by
  have hdigits := shift_or_digits ⟨_, high_lt x⟩ ⟨_, low_lt x⟩
  have hhigh := fromhex_toHex ⟨_, high_lt x⟩
  have hlow := fromhex_toHex ⟨_, low_lt x⟩
  simp only [fmtOne, List.getD_cons_zero, List.getD_cons_succ, hexPair, hhigh, hlow] at hdigits ⊢
  rw [nibbles, UInt8.ofNat_toNat] at hdigits
  exact hdigits

theorem getD_flatMap_fmtOne (l rest : List UInt8) (j : Nat) (hj : j < l.length) (i : Nat) (hi : i < 2) :
    (l.flatMap fmtOne ++ rest).getD (2 * j + i) 0 = (fmtOne l[j]).getD i 0 := by
  induction l generalizing j with
  | nil => simp at hj
  | cons x l ih =>
    rw [List.flatMap_cons, List.append_assoc]
    cases j with
    | zero =>
      have hlen : (fmtOne x).length = 2 := rfl
      rw [List.getD_append _ _ _ _ (by omega)]
      simp
    | succ j =>
      have hlen : (fmtOne x).length = 2 := rfl
      rw [List.getD_append_right _ _ _ _ (by omega), hlen, show 2 * (j + 1) + i - 2 = 2 * j + i by omega,
        ih j (by simpa using hj)]
      rfl

/-! ### Writing an id -/

theorem fmt_eq_oidFmt (oid : Vector UInt8 20) : fmt oid = oidFmt oid := by
  simp [fmt, nfmt, oidFmt, List.take_of_length_le]

theorem length_fmt (oid : Vector UInt8 20) : (fmt oid).length = 40 := by
  rw [fmt_eq_oidFmt, length_oidFmt]

/-- The `j`th digit pair of a string, as `git_oid_fromstrn` reads it. -/
def digitPair (str : List UInt8) (j : Nat) : Int32 := hexPair (byteAt str (2 * j)) (byteAt str (2 * j + 1))

theorem fromstrnLoop_hexsz (str : List UInt8) (m : Nat) (hm : m ≤ 20) (out : Vector UInt8 20) :
    fromstrnLoop str 39 out (2 * (20 - m)) =
      if ∀ j, 20 - m ≤ j → j < 20 → 0 ≤ digitPair str j then
        some (.ok (Vector.ofFn (fun j => if j.val < 20 - m then out[j] else uchar (digitPair str j)), 40))
      else some (.error (oidErrorInvalid "contains invalid characters")) := by
  induction m generalizing out with
  | zero =>
    rw [fromstrnLoop, if_neg (by omega), if_pos (fun j hj hj' => absurd hj' (by omega))]
    have hout : (Vector.ofFn fun j : Fin 20 => if j.val < 20 - 0 then out[j] else uchar (digitPair str j)) = out := by
      apply Vector.ext
      intro j hj
      simp
    rw [hout]
  | succ m ih =>
    have hp : 2 * (20 - (m + 1)) < 39 := by omega
    have hnext : 2 * (20 - (m + 1)) + 2 = 2 * (20 - m) := by omega
    rw [fromstrnLoop, if_pos hp]
    by_cases hneg : hexPair (byteAt str (2 * (20 - (m + 1)))) (byteAt str (2 * (20 - (m + 1)) + 1)) < 0
    · rw [if_pos hneg, if_neg]
      intro hall
      exact absurd (hall (20 - (m + 1)) le_rfl (by omega)) (by simpa [digitPair] using hneg)
    · have hhalf : 2 * (20 - (m + 1)) / 2 = 20 - (m + 1) := by omega
      rw [if_neg hneg, dif_pos (by omega), hnext, ih (by omega)]
      have hall : (∀ j, 20 - m ≤ j → j < 20 → 0 ≤ digitPair str j) ↔
          (∀ j, 20 - (m + 1) ≤ j → j < 20 → 0 ≤ digitPair str j) := by
        constructor
        · intro h j hj hj'
          rcases Nat.eq_or_lt_of_le hj with rfl | hlt
          · simpa [digitPair] using hneg
          · exact h j (by omega) hj'
        · intro h j hj hj'
          exact h j (by omega) hj'
      simp only [hall]
      split
      · rw [Option.some.injEq, Except.ok.injEq, Prod.mk.injEq]
        refine ⟨?_, rfl⟩
        apply Vector.ext
        intro j hj
        simp only [Vector.getElem_ofFn]
        by_cases hjm : j = 20 - (m + 1)
        · simp [hjm, digitPair]
        · by_cases hjk : j < 20 - (m + 1)
          · rw [if_pos (by omega), if_pos hjk]
            simp only [Fin.getElem_fin, hhalf]
            exact Vector.getElem_set_ne _ _ (by omega)
          · rw [if_neg (by omega), if_neg hjk]
      · rfl

theorem fromstr_eq (out : Vector UInt8 20) (str : List UInt8) :
    fromstr out str =
      some (if ∀ j : Nat, j < 20 → 0 ≤ digitPair str j then .ok (Vector.ofFn fun j => uchar (digitPair str j))
        else .error (oidErrorInvalid "contains invalid characters")) := by
  have hloop := fromstrnLoop_hexsz str 20 le_rfl out
  simp only [Nat.sub_self, Nat.mul_zero, Nat.zero_le, true_implies, Nat.not_lt_zero, if_false] at hloop
  rw [fromstr, fromstrn, if_neg (by omega), show (40 + (2 ^ 64 - 1)) % 2 ^ 64 = 39 by norm_num, hloop]
  by_cases hall : ∀ j : Nat, j < 20 → 0 ≤ digitPair str j
  · have hvec : (Vector.ofFn fun j : Fin 20 =>
        if j.val < 40 / 2 then (Vector.ofFn fun j : Fin 20 => uchar (digitPair str j))[j] else 0) =
        Vector.ofFn fun j : Fin 20 => uchar (digitPair str j) := by
      apply Vector.ext
      intro j hj
      simp
    simp only [if_pos hall, Nat.reduceMod]
    rw [if_neg (by decide)]
    simp only [clearFrom, le_refl, if_true, hvec]
  · simp only [if_neg hall]

theorem fromstr_fmt (out oid : Vector UInt8 20) (rest : List UInt8) :
    fromstr out (fmt oid ++ rest) = some (.ok oid) := by
  have hpair : ∀ j (hj : j < 20), digitPair (fmt oid ++ rest) j =
      hexPair ((fmtOne oid[j]).getD 0 0) ((fmtOne oid[j]).getD 1 0) := by
    intro j hj
    have hfmt : fmt oid = oid.toList.flatMap fmtOne := fmt_eq_oidFmt oid
    have hhigh := getD_flatMap_fmtOne oid.toList rest j (by simpa using hj) 0 (by omega)
    have hlow := getD_flatMap_fmtOne oid.toList rest j (by simpa using hj) 1 (by omega)
    rw [Nat.add_zero] at hhigh
    rw [digitPair, byteAt, byteAt, hfmt, hhigh, hlow]
    simp
  have hvec : (Vector.ofFn fun j : Fin 20 => uchar (digitPair (fmt oid ++ rest) j)) = oid := by
    apply Vector.ext
    intro j hj
    rw [Vector.getElem_ofFn, hpair j hj, (hexPair_fmtOne _).2]
  rw [fromstr_eq, if_pos (fun j hj => hpair j hj ▸ (hexPair_fmtOne _).1), hvec]

/-! ### Ids in object text -/

/-- `git_oid__parse` reads back the line `git_oid__writebuf` appends, and moves past it. -/
theorem parse_writebuf (out oid : Vector UInt8 20) (header rest : List UInt8) :
    parse out (writebuf [] header oid ++ rest) header = some (oid, rest) := by
  have hbuf : writebuf [] header oid ++ rest = header ++ (fmt oid ++ 10 :: rest) := by simp [writebuf]
  have hlen : (header ++ (fmt oid ++ 10 :: rest)).length = header.length + 40 + 1 + rest.length := by
    simp [length_fmt]
    omega
  have hheader : memcmp (header ++ (fmt oid ++ 10 :: rest)) header header.length = .eq := by
    rw [memcmp, List.take_left' rfl, List.take_length, lexCompare_self]
  have hnewline : byteAt (header ++ (fmt oid ++ 10 :: rest)) (header.length + 40) = 10 := by
    rw [byteAt, List.getD_append_right _ _ _ _ (by omega), Nat.add_sub_cancel_left,
      List.getD_append_right _ _ _ _ (by rw [length_fmt]), length_fmt]
    rfl
  have hrest : (header ++ (fmt oid ++ 10 :: rest)).drop (header.length + 40 + 1) = rest := by
    rw [show header ++ (fmt oid ++ 10 :: rest) = (header ++ fmt oid ++ [10]) ++ rest by simp]
    exact List.drop_left' (by simp [length_fmt])
  rw [parse, hbuf, if_neg (by omega), if_neg (by simp [hheader]), if_neg (by simp [hnewline]),
    List.drop_left, fromstr_fmt, hrest]

/-! ### Comparing ids -/

theorem toHex_getD_inj : ∀ i j : Fin 16, toHex.getD i 0 = toHex.getD j 0 → i = j := by
  rw [toHex_eq]
  decide

theorem toHex_getD_lt : ∀ i j : Fin 16, toHex.getD i 0 < toHex.getD j 0 ↔ i < j := by
  rw [toHex_eq]
  decide

theorem fmtOne_eq_iff (x y : UInt8) : fmtOne x = fmtOne y ↔ x = y := by
  constructor
  · intro h
    simp only [fmtOne, List.cons.injEq, and_true] at h
    have hhigh := toHex_getD_inj ⟨_, high_lt x⟩ ⟨_, high_lt y⟩ h.1
    have hlow := toHex_getD_inj ⟨_, low_lt x⟩ ⟨_, low_lt y⟩ h.2
    simp only [Fin.mk.injEq] at hhigh hlow
    rw [← UInt8.toNat_inj, ← nibbles x, ← nibbles y, hhigh, hlow]
  · rintro rfl
    rfl

set_option maxRecDepth 20000 in
theorem and_f0_eq_zero : ∀ c : Fin 256, (UInt8.ofNat c &&& 0xf0 = 0 ↔ UInt8.ofNat c >>> 4 = 0) := by
  decide

theorem xor_and_f0 (a b : UInt8) : (a ^^^ b) &&& 0xf0 = 0 ↔ a >>> 4 = b >>> 4 := by
  have h := and_f0_eq_zero ⟨(a ^^^ b).toNat, (a ^^^ b).toNat_lt⟩
  simp only [UInt8.ofNat_toNat] at h
  rw [h, UInt8.shiftRight_xor, UInt8.xor_eq_zero_iff]

theorem ncmpLoop_eq_zero_iff (as bs : List UInt8) (len : Nat) (hlen : as.length = bs.length)
    (hle : len ≤ 2 * as.length) :
    ncmpLoop as bs len = 0 ↔ (as.flatMap fmtOne).take len = (bs.flatMap fmtOne).take len := by
  induction as generalizing bs len with
  | nil =>
    have hlen0 : len = 0 := by simpa using hle
    subst hlen0
    cases bs <;> simp [ncmpLoop]
  | cons a as ih =>
    cases bs with
    | nil => simp at hlen
    | cons b bs =>
      simp only [List.length_cons, Nat.add_right_cancel_iff] at hlen
      simp only [List.flatMap_cons]
      match len with
      | 0 => simp [ncmpLoop]
      | 1 =>
        have hhigh := toHex_getD_inj ⟨_, high_lt a⟩ ⟨_, high_lt b⟩
        simp only [ncmpLoop, fmtOne, List.cons_append, List.take_succ_cons, List.take_zero, List.cons.injEq,
          and_true, ne_eq, ite_eq_right_iff, one_ne_zero, imp_false, not_not, xor_and_f0]
        constructor
        · intro h
          rw [h]
        · intro h
          have := hhigh h
          simpa [← UInt8.toNat_inj] using this
      | len + 2 =>
        have hrest := ih bs len hlen (by simp at hle; omega)
        have htake : ∀ x (r : List UInt8), (fmtOne x ++ r).take (len + 2) = fmtOne x ++ r.take len := by
          intro x r
          simp [fmtOne]
        rw [ncmpLoop, htake, htake]
        by_cases hab : a = b
        · subst hab
          simp [hrest]
        · -- the bytes differ, and so do their digits
          have hdigits : ¬(fmtOne a ++ (as.flatMap fmtOne).take len = fmtOne b ++ (bs.flatMap fmtOne).take len) :=
            fun h => hab ((fmtOne_eq_iff a b).mp (List.append_inj h rfl).1)
          simp [hab, hdigits]

/-- `git_oid_ncmp` is `0` exactly when the first `len` hex digits of the two ids agree. -/
theorem ncmp_eq_zero_iff (a b : Vector UInt8 20) (len : Nat) :
    ncmp a b len = 0 ↔ (fmt a).take len = (fmt b).take len := by
  have htake : ∀ oid : Vector UInt8 20, (fmt oid).take (min len 40) = (fmt oid).take len := by
    intro oid
    rcases Nat.le_total len 40 with h | h
    · rw [Nat.min_eq_left h]
    · rw [Nat.min_eq_right h, List.take_of_length_le (by rw [length_fmt]),
        List.take_of_length_le (by rw [length_fmt]; exact h)]
  rw [ncmp, ← htake a, ← htake b, fmt_eq_oidFmt, fmt_eq_oidFmt]
  exact ncmpLoop_eq_zero_iff _ _ _ (by simp) (by simp)

theorem lexCompare_fmtOne (x y : UInt8) :
    lexCompare (fmtOne x) (fmtOne y) = if x < y then .lt else if y < x then .gt else .eq := by
  have hhigh := toHex_getD_lt ⟨_, high_lt x⟩ ⟨_, high_lt y⟩
  have hhigh' := toHex_getD_lt ⟨_, high_lt y⟩ ⟨_, high_lt x⟩
  have hlow := toHex_getD_lt ⟨_, low_lt x⟩ ⟨_, low_lt y⟩
  have hlow' := toHex_getD_lt ⟨_, low_lt y⟩ ⟨_, low_lt x⟩
  simp only [Fin.mk_lt_mk] at hhigh hhigh' hlow hlow'
  have hx := nibbles x
  have hy := nibbles y
  have hxlow := low_lt x
  have hylow := low_lt y
  simp only [fmtOne, lexCompare, hhigh, hhigh', hlow, hlow', UInt8.lt_iff_toNat_lt]
  split_ifs <;> first | rfl | omega

theorem hashcmp_compare (as bs : List UInt8) (hlen : as.length = bs.length) :
    compare (hashcmp as bs) 0 = lexCompare (as.flatMap fmtOne) (bs.flatMap fmtOne) := by
  induction as generalizing bs with
  | nil =>
    cases bs with
    | nil => rfl
    | cons b bs => simp at hlen
  | cons a as ih =>
    cases bs with
    | nil => simp at hlen
    | cons b bs =>
      simp only [List.length_cons, Nat.add_right_cancel_iff] at hlen
      simp only [List.flatMap_cons, hashcmp]
      by_cases hab : a = b
      · subst hab
        rw [if_neg (not_not.mpr rfl), lexCompare_append_left, ih bs hlen]
      · -- the first bytes that differ decide both
        have hne : lexCompare (fmtOne a) (fmtOne b) ≠ .eq := by
          rw [lexCompare_fmtOne]
          split_ifs with hlt hgt
          · exact nofun
          · exact nofun
          · rw [UInt8.lt_iff_toNat_lt] at hlt hgt
            exact absurd (UInt8.toNat_inj.mp (by omega)) hab
        rw [if_pos hab, lexCompare_append_of_ne (fmtOne a) (fmtOne b) _ _ rfl hne, lexCompare_fmtOne]
        have hab' : a.toNat ≠ b.toNat := fun h => hab (UInt8.toNat_inj.mp h)
        split_ifs with hlt hgt
        · rw [UInt8.lt_iff_toNat_lt] at hlt
          exact compare_lt_iff_lt.mpr (by omega)
        · rw [UInt8.lt_iff_toNat_lt] at hgt
          exact compare_gt_iff_gt.mpr (by omega)
        · rw [UInt8.lt_iff_toNat_lt] at hlt hgt
          omega

/-- `git_oid_cmp` orders ids as `strcmp` orders their hex. -/
theorem cmp_compare (a b : Vector UInt8 20) : compare (cmp a b) 0 = lexCompare (fmt a) (fmt b) := by
  rw [cmp, fmt_eq_oidFmt, fmt_eq_oidFmt]
  exact hashcmp_compare _ _ (by simp)

theorem not_ofNat_digit_neg : ∀ d : Fin 16, ¬Int32.ofNat d < 0 := by
  decide

set_option maxRecDepth 20000 in
theorem uchar_shift_or_digits : ∀ hi lo : Fin 16,
    (uchar (Int32.ofNat hi <<< 4) ||| uchar (Int32.ofNat lo)) = UInt8.ofNat (16 * hi + lo) := by
  decide

theorem strcmpLoop_fmt (a b : Vector UInt8 20) (rest : List UInt8) (m : Nat) (hm : m ≤ 20) :
    strcmpLoop a (fmt b ++ rest) (20 - m) (2 * (20 - m)) =
      hashcmp (a.toList.drop (20 - m)) (b.toList.drop (20 - m)) := by
  induction m with
  | zero =>
    rw [strcmpLoop, dif_neg (by omega), List.drop_of_length_le (by simp), List.drop_of_length_le (by simp)]
    rfl
  | succ m ih =>
    have hi : 20 - (m + 1) < 20 := by omega
    have hfmt : fmt b = b.toList.flatMap fmtOne := fmt_eq_oidFmt b
    have hhigh := getD_flatMap_fmtOne b.toList rest (20 - (m + 1)) (by simpa using hi) 0 (by omega)
    have hlow := getD_flatMap_fmtOne b.toList rest (20 - (m + 1)) (by simpa using hi) 1 (by omega)
    rw [Nat.add_zero, ← hfmt, Vector.getElem_toList] at hhigh
    rw [← hfmt, Vector.getElem_toList] at hlow
    have hdigits := fmtOne_ne_zero b[20 - (m + 1)]
    have hc0 : byteAt (fmt b ++ rest) (2 * (20 - (m + 1))) ≠ 0 := by
      rw [byteAt, hhigh]
      exact hdigits _ (by simp [fmtOne])
    have hc1 : byteAt (fmt b ++ rest) (2 * (20 - (m + 1)) + 1) ≠ 0 := by
      rw [byteAt, hlow]
      exact hdigits _ (by simp [fmtOne])
    set x := b[20 - (m + 1)]
    have hhex0 : fromhex (byteAt (fmt b ++ rest) (2 * (20 - (m + 1)))) = Int32.ofNat (x >>> 4).toNat := by
      rw [byteAt, hhigh]
      exact fromhex_toHex ⟨_, high_lt x⟩
    have hhex1 : fromhex (byteAt (fmt b ++ rest) (2 * (20 - (m + 1)) + 1)) = Int32.ofNat (x &&& 0xf).toNat := by
      rw [byteAt, hlow]
      exact fromhex_toHex ⟨_, low_lt x⟩
    have hstrval : (uchar (Int32.ofNat (x >>> 4).toNat <<< 4) ||| uchar (Int32.ofNat (x &&& 0xf).toNat)) = x := by
      have h := uchar_shift_or_digits ⟨_, high_lt x⟩ ⟨_, low_lt x⟩
      rw [nibbles, UInt8.ofNat_toNat] at h
      exact h
    have hnext : 2 * (20 - (m + 1)) + 2 = 2 * (20 - m) := by omega
    have hsucc : 20 - (m + 1) + 1 = 20 - m := by omega
    have hdrop : ∀ v : Vector UInt8 20, v.toList.drop (20 - (m + 1)) =
        v[20 - (m + 1)] :: v.toList.drop (20 - m) := by
      intro v
      rw [List.drop_eq_getElem_cons (by simpa using hi), hsucc]
      simp
    rw [strcmpLoop, dif_pos ⟨hc0, hi⟩, if_neg (by rw [hhex0]; exact not_ofNat_digit_neg ⟨_, high_lt x⟩),
      if_pos hc1, if_neg (by rw [hhex1]; exact not_ofNat_digit_neg ⟨_, low_lt x⟩), hhex0, hhex1, hstrval,
      hsucc, hnext, ih (by omega), hdrop a, hdrop b, hashcmp]

/-- `git_oid_strcmp` against the hex of an id is `git_oid_cmp`, whatever follows the forty digits. -/
theorem strcmp_fmt (a b : Vector UInt8 20) (rest : List UInt8) : strcmp a (fmt b ++ rest) = cmp a b := by
  have h := strcmpLoop_fmt a b rest 20 le_rfl
  simp only [Nat.sub_self, Nat.mul_zero, List.drop_zero] at h
  rw [strcmp, h, cmp]

end Ctf3.Libgit2
