import Mathlib

/-!
# A window of a sequence in a ring of slots

A loop that needs only the last `n` elements of a sequence `W` keeps them in `n` slots and
overwrites slot `s % n` with `W s`. At time `t` the ring then holds the window `W t, ...,
W (t + n - 1)`, each element in the slot of its index mod `n`. Reading a slot inside the window
gives the element of that index, and writing `W (t + n)` over the slot of `W t` moves the window on
by one. These two lemmas are all a proof about such a loop needs.
-/

namespace RingWindow

variable {α : Type*} {n : Nat}

/-- Every element of the window `[t, t + n)` of `W` sits in the slot of its index mod `n`. -/
def Holds (W : Nat → α) (t : Nat) (buf : Fin n → α) : Prop :=
  ∀ s (hs : t ≤ s ∧ s < t + n), buf ⟨s % n, Nat.mod_lt _ (by omega)⟩ = W s

theorem eq_of_mod_eq (t : Nat) {s s' : Nat} (hs : t ≤ s ∧ s < t + n) (hs' : t ≤ s' ∧ s' < t + n)
    (hmod : s % n = s' % n) : s = s' := by
  rcases Nat.le_total s s' with hle | hle
  · have hdvd : n ∣ s' - s := (Nat.modEq_iff_dvd' hle).mp hmod
    have hzero := Nat.eq_zero_of_dvd_of_lt hdvd (by omega)
    omega
  · have hdvd : n ∣ s - s' := (Nat.modEq_iff_dvd' hle).mp hmod.symm
    have hzero := Nat.eq_zero_of_dvd_of_lt hdvd (by omega)
    omega

theorem Holds.read {W : Nat → α} {t : Nat} {buf : Fin n → α} (h : Holds W t buf) (k : Nat) (hk : k < n) :
    buf ⟨(t + k) % n, Nat.mod_lt _ (by omega)⟩ = W (t + k) :=
  h (t + k) ⟨by omega, by omega⟩

theorem Holds.write {W : Nat → α} {t : Nat} {buf : Fin n → α} (h : Holds W t buf) (hn : 0 < n) :
    Holds W (t + 1) (Function.update buf ⟨t % n, Nat.mod_lt _ hn⟩ (W (t + n))) := by
  intro s hs
  by_cases hslot : s % n = t % n
  · have hnew : s = t + n := by
      have hmod : s % n = (t + n) % n := by rw [hslot, Nat.add_mod_right]
      exact eq_of_mod_eq (t + 1) ⟨by omega, by omega⟩ ⟨by omega, by omega⟩ hmod
    subst hnew
    simp only [hslot, Function.update_self]
  · have hold : (⟨s % n, Nat.mod_lt _ hn⟩ : Fin n) ≠ ⟨t % n, Nat.mod_lt _ hn⟩ := by
      intro heq
      exact hslot (Fin.mk.inj heq)
    rw [Function.update_of_ne hold]
    refine h s ⟨by omega, ?_⟩
    by_contra hlast
    have hend : s = t + n := by omega
    subst hend
    exact hslot (Nat.add_mod_right t n)

end RingWindow
