import Mathlib

/-!
# C string comparisons

`strcmp`, `strncmp` and `memcmp` compare bytes as `unsigned char` and return a sign, here an
`Ordering`. On strings without a NUL byte the three are one lexicographic order, in which a string
comes before its extensions.
-/

namespace CString

def lexCompare : List UInt8 → List UInt8 → Ordering
  | [], [] => .eq
  | [], _ :: _ => .lt
  | _ :: _, [] => .gt
  | a :: s, b :: t => if a < b then .lt else if b < a then .gt else lexCompare s t

/-- `strcmp(s, t)` on strings without NUL. -/
def strcmp (s t : List UInt8) : Ordering := lexCompare s t

/-- `strncmp(s, t, n)` on strings without NUL. -/
def strncmp (s t : List UInt8) (n : Nat) : Ordering := lexCompare (s.take n) (t.take n)

/-- `memcmp(s, t, n)` on arrays of at least `n` bytes. -/
def memcmp (s t : List UInt8) (n : Nat) : Ordering := lexCompare (s.take n) (t.take n)

theorem lexCompare_cons_self (a : UInt8) (s t : List UInt8) : lexCompare (a :: s) (a :: t) = lexCompare s t := by
  simp [lexCompare]

theorem lexCompare_cons_of_lt {a b : UInt8} (s t : List UInt8) (h : b < a) : lexCompare (a :: s) (b :: t) = .gt := by
  have hnot : ¬a < b := by
    rw [UInt8.lt_iff_toNat_lt] at h ⊢
    omega
  simp [lexCompare, hnot, h]

theorem lexCompare_cons_of_gt {a b : UInt8} (s t : List UInt8) (h : a < b) : lexCompare (a :: s) (b :: t) = .lt := by
  simp [lexCompare, h]

theorem lexCompare_append_left (p s t : List UInt8) : lexCompare (p ++ s) (p ++ t) = lexCompare s t := by
  induction p with
  | nil => rfl
  | cons a p ih => rw [List.cons_append, List.cons_append, lexCompare_cons_self, ih]

theorem lexCompare_self (s : List UInt8) : lexCompare s s = .eq := by
  have h := lexCompare_append_left s [] []
  rw [List.append_nil] at h
  rw [h]
  rfl

theorem lexCompare_append_of_ne (p q s t : List UInt8) (hlen : p.length = q.length) (hne : lexCompare p q ≠ .eq) :
    lexCompare (p ++ s) (q ++ t) = lexCompare p q := by
  induction p generalizing q with
  | nil =>
    cases q with
    | nil => exact absurd rfl hne
    | cons b q => cases hlen
  | cons a p ih =>
    cases q with
    | nil => cases hlen
    | cons b q =>
      simp only [List.length_cons, Nat.add_right_cancel_iff] at hlen
      simp only [List.cons_append, lexCompare] at hne ⊢
      split_ifs at hne ⊢ with hab hba
      · rfl
      · rfl
      · exact ih q hlen hne

theorem lexCompare_replicate (c : UInt8) (s : List UInt8) (hle : ∀ x ∈ s, x ≤ c)
    (hne : s ≠ List.replicate s.length c) : lexCompare (List.replicate s.length c) s = .gt := by
  induction s with
  | nil => exact absurd rfl hne
  | cons a s ih =>
    rw [List.length_cons, List.replicate_succ]
    by_cases hac : a = c
    · subst hac
      rw [lexCompare_cons_self]
      refine ih (fun x hx => hle x (List.mem_cons_of_mem _ hx)) ?_
      intro h
      apply hne
      rw [List.length_cons, List.replicate_succ, ← h]
    · have hlt : a < c := by
        have hle' := UInt8.le_iff_toNat_le.mp (hle a (List.mem_cons_self ..))
        have hne' : a.toNat ≠ c.toNat := fun h => hac (UInt8.toNat_inj.mp h)
        rw [UInt8.lt_iff_toNat_lt]
        omega
      exact lexCompare_cons_of_lt _ s hlt

end CString
