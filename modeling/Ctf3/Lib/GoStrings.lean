import Mathlib

/-!
# Go's `strings` on byte strings

`strings.TrimPrefix`, `strings.Replace` of one byte by another at every occurrence, and the first
piece of `strings.SplitN(s, sep, 2)` for a one-byte separator, on strings as lists of bytes.
-/

namespace GoStrings

/-- `strings.TrimPrefix(s, pre)`. -/
def trimPrefix (s pre : List UInt8) : List UInt8 := if pre.isPrefixOf s then s.drop pre.length else s

/-- `strings.Replace(s, old, new, -1)` for one-byte `old` and `new`. -/
def replaceByte (s : List UInt8) (old new : UInt8) : List UInt8 := s.map fun b => if b = old then new else b

/-- `strings.SplitN(s, sep, 2)[0]` for a one-byte `sep`: `s` up to its first `sep`. -/
def splitFirst (s : List UInt8) (sep : UInt8) : List UInt8 := s.takeWhile (· != sep)

theorem trimPrefix_append (pre s : List UInt8) : trimPrefix (pre ++ s) pre = s := by
  have hpre : pre.isPrefixOf (pre ++ s) = true := List.isPrefixOf_iff_prefix.mpr (List.prefix_append pre s)
  rw [trimPrefix, if_pos hpre, List.drop_left]

theorem trimPrefix_cons_of_ne (b : UInt8) (s pre : List UInt8) (c : UInt8) (hpre : pre.head? = some c)
    (hne : b ≠ c) : trimPrefix (b :: s) pre = b :: s := by
  obtain ⟨pre, rfl⟩ : ∃ rest, pre = c :: rest := by
    cases pre with
    | nil => cases hpre
    | cons c' rest => exact ⟨rest, by cases hpre; rfl⟩
  have hnot : (c :: pre).isPrefixOf (b :: s) = false := by
    simp [List.isPrefixOf, Ne.symm hne]
  rw [trimPrefix, hnot]
  rfl

theorem replaceByte_cons (b : UInt8) (s : List UInt8) (old new : UInt8) :
    replaceByte (b :: s) old new = (if b = old then new else b) :: replaceByte s old new := rfl

theorem replaceByte_replaceByte (s : List UInt8) (old new : UInt8) (hnew : new ∉ s) :
    replaceByte (replaceByte s old new) new old = s := by
  rw [replaceByte, replaceByte, List.map_map]
  refine (List.map_congr_left fun b hb => ?_).trans (List.map_id s)
  have hne : b ≠ new := fun h => hnew (h ▸ hb)
  by_cases hold : b = old
  · simp [hold]
  · simp [hold, hne]

theorem not_mem_replaceByte {s : List UInt8} {old new b : UInt8} (hb : b ∉ s) (hne : b ≠ new) :
    b ∉ replaceByte s old new := by
  simp only [replaceByte, List.mem_map, not_exists, not_and]
  intro a ha heq
  by_cases hold : a = old
  · rw [if_pos hold] at heq
    exact hne heq.symm
  · rw [if_neg hold] at heq
    exact hb (heq ▸ ha)

theorem splitFirst_of_not_mem (s : List UInt8) (sep : UInt8) (hsep : sep ∉ s) : splitFirst s sep = s := by
  rw [splitFirst, List.takeWhile_eq_self_iff]
  intro b hb
  have hne : b ≠ sep := fun h => hsep (h ▸ hb)
  simpa using hne

theorem splitFirst_append_cons (s p : List UInt8) (sep : UInt8) (hsep : sep ∉ s) :
    splitFirst (s ++ sep :: p) sep = s := by
  have hall : ∀ b ∈ s, (b != sep) = true := by
    intro b hb
    have hne : b ≠ sep := fun h => hsep (h ▸ hb)
    simpa using hne
  rw [splitFirst, List.takeWhile_append_of_pos hall, List.takeWhile_cons_of_neg (by simp), List.append_nil]

end GoStrings
