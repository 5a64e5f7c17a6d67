import Mathlib

/-!
# C formatted output

The conversions of C's `printf` family that plain ASCII formats use: `%d` and `%c` of an `int`,
`%s` of a NUL-terminated string, `%zu` of a `size_t` and `%%`. A format is read as characters and
written as bytes. An argument of the wrong kind, a missing argument or an unknown conversion is
undefined behaviour in C, and `render` returns `none` for it.
-/

namespace Printf

def bytes (s : String) : List UInt8 := s.toList.map Char.toUInt8

inductive Arg
  | int (v : Int)
  | str (s : List UInt8)
  | size (v : Nat)
deriving DecidableEq, Repr

/-- The decimal digits of `v`, with a minus sign when it is negative. -/
def decimal (v : Int) : List UInt8 :=
  ((if v < 0 then ['-'] else []) ++ Nat.toDigits 10 v.natAbs).map Char.toUInt8

def hexDigit (d : UInt8) : UInt8 := if d < 10 then 0x30 + d else 0x61 + (d - 10)

/-- The two digits `%02x` prints for a byte. -/
def hex02 (b : UInt8) : List UInt8 := [hexDigit (b >>> 4), hexDigit (b &&& 0xF)]

def render : List Char → List Arg → Option (List UInt8)
  | [], _ => some []
  | '%' :: 'd' :: fmt, .int v :: args => (decimal v ++ ·) <$> render fmt args
  | '%' :: 'c' :: fmt, .int v :: args => (UInt8.ofNat (v % 256).toNat :: ·) <$> render fmt args
  | '%' :: 's' :: fmt, .str s :: args => (s.takeWhile (· != 0) ++ ·) <$> render fmt args
  | '%' :: 'z' :: 'u' :: fmt, .size v :: args => (decimal v ++ ·) <$> render fmt args
  | '%' :: '%' :: fmt, args => ('%'.toUInt8 :: ·) <$> render fmt args
  | '%' :: _, _ => none
  | c :: fmt, args => (c.toUInt8 :: ·) <$> render fmt args

variable {n : Nat}

/-- The buffer with its first bytes replaced by `src`. -/
def overwrite (buf : Vector UInt8 n) (src : List UInt8) : Vector UInt8 n :=
  Vector.ofFn fun j => if h : j.val < src.length then src[j.val] else buf[j]

/-- `snprintf(buf, size, fmt, args...)`: at most `size - 1` bytes of the output and a NUL are
written at the start of `buf`, and the result is the length of the whole output. -/
def snprintf (buf : Vector UInt8 n) (size : Nat) (fmt : String) (args : List Arg) : Option (Nat × Vector UInt8 n) :=
  (render fmt.toList args).map fun out =>
    (out.length, if size = 0 then buf else overwrite buf (out.take (size - 1) ++ [0]))

/-! ### Rendering -/

theorem render_cons_of_ne (c : Char) (fmt : List Char) (args : List Arg) (hc : c ≠ '%') :
    render (c :: fmt) args = (c.toUInt8 :: ·) <$> render fmt args := by
  rw [render.eq_def]
  split <;> simp_all

theorem render_append_of_not_mem (lit fmt : List Char) (args : List Arg) (hlit : '%' ∉ lit) :
    render (lit ++ fmt) args = (lit.map Char.toUInt8 ++ ·) <$> render fmt args := by
  induction lit with
  | nil => simp
  | cons c lit ih =>
    have hc : c ≠ '%' := fun h => hlit (h ▸ List.mem_cons_self)
    rw [List.cons_append, render_cons_of_ne c _ args hc, ih (fun h => hlit (List.mem_cons_of_mem c h))]
    cases render fmt args <;> rfl

theorem render_d (fmt : List Char) (v : Int) (args : List Arg) :
    render ('%' :: 'd' :: fmt) (.int v :: args) = (decimal v ++ ·) <$> render fmt args := by
  rw [render]

theorem render_c (fmt : List Char) (v : Int) (args : List Arg) :
    render ('%' :: 'c' :: fmt) (.int v :: args) = (UInt8.ofNat (v % 256).toNat :: ·) <$> render fmt args := by
  rw [render]

theorem render_s (fmt : List Char) (s : List UInt8) (args : List Arg) :
    render ('%' :: 's' :: fmt) (.str s :: args) = (s.takeWhile (· != 0) ++ ·) <$> render fmt args := by
  rw [render]

theorem render_zu (fmt : List Char) (v : Nat) (args : List Arg) :
    render ('%' :: 'z' :: 'u' :: fmt) (.size v :: args) = (decimal v ++ ·) <$> render fmt args := by
  rw [render]

theorem takeWhile_ne_zero (s : List UInt8) (hs : ∀ b ∈ s, b ≠ 0) : s.takeWhile (· != 0) = s := by
  rw [List.takeWhile_eq_self_iff]
  intro b hb
  simpa using hs b hb

theorem length_toDigits_ten (v k : Nat) (hlo : 10 ^ k ≤ 10 * v) (hhi : v < 10 ^ k) :
    (Nat.toDigits 10 v).length = k := by
  have hpos := Nat.length_toDigits_pos (b := 10) (n := v)
  rcases k with _ | k
  · simp at hhi hlo
    omega
  · have hle : (Nat.toDigits 10 v).length ≤ k + 1 := (Nat.length_toDigits_le_iff (by omega) (by omega)).mpr hhi
    have hge : ¬(Nat.toDigits 10 v).length ≤ k := by
      rcases k with _ | k
      · omega
      · rw [Nat.length_toDigits_le_iff (by omega) (by omega)]
        rw [Nat.pow_succ 10 (k + 1)] at hlo
        omega
    omega

theorem length_decimal (v : Nat) (k : Nat) (hlo : 10 ^ k ≤ 10 * v) (hhi : v < 10 ^ k) :
    (decimal v).length = k := by
  have hnonneg : ¬((v : Int) < 0) := by omega
  simp only [decimal, Int.natAbs_natCast, List.length_map, List.length_append, if_neg hnonneg, List.length_nil,
    length_toDigits_ten v k hlo hhi, Nat.zero_add]

/-! ### The buffer -/

@[simp] theorem getElem_overwrite (buf : Vector UInt8 n) (src : List UInt8) (j : Nat) (hj : j < n) :
    (overwrite buf src)[j] = if h : j < src.length then src[j] else buf[j] := by
  simp [overwrite]

theorem take_overwrite (buf : Vector UInt8 n) (src : List UInt8) {k : Nat} (hk : k ≤ src.length)
    (hsrc : src.length ≤ n) : (overwrite buf src).toList.take k = src.take k := by
  apply List.ext_getElem
  · simp only [List.length_take, Vector.length_toList]
    omega
  · intro j hj _
    simp only [List.length_take, Vector.length_toList] at hj
    have hjs : j < src.length := by omega
    simp [hjs]

theorem snprintf_of_render (buf : Vector UInt8 n) (size : Nat) (fmt : String) (args : List Arg) (out : List UInt8)
    (hout : render fmt.toList args = some out) (hfits : out.length < size) :
    snprintf buf size fmt args = some (out.length, overwrite buf (out ++ [0])) := by
  have hsize : size ≠ 0 := by omega
  simp [snprintf, hout, hsize, List.take_of_length_le (show out.length ≤ size - 1 by omega)]

end Printf
