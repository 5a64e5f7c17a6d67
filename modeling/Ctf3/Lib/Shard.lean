import Mathlib

/-!
# Splitting work among shards

A list split among shards by a key that always names one of them: the shards' parts, taken in
turn, are a permutation of the list (`perm_flatMap_filter_key`), and so are the answers the
shards give to a query made of each element (`perm_flatMap_shards`). Answers written as strings
and joined by a separator, the empty joins left out, are the join of all the answers
(`intercalate_filter_map`).
-/

namespace Shard

variable {α β κ : Type*} [DecidableEq κ]

theorem perm_flatMap_filter_key (key : α → κ) (l : List α) (ks : List κ) (hks : ks.Nodup) :
    (ks.flatMap fun k => l.filter fun a => key a = k).Perm (l.filter fun a => key a ∈ ks) := by
  induction ks with
  | nil => simp
  | cons k ks ih =>
    obtain ⟨hk, hks⟩ := List.nodup_cons.mp hks
    rw [List.flatMap_cons]
    have hsplit := List.filter_append_perm (fun a => decide (key a = k)) (l.filter fun a => key a ∈ k :: ks)
    have hfirst : ((l.filter fun a => key a ∈ k :: ks).filter fun a => decide (key a = k)) =
        l.filter fun a => key a = k := by
      rw [List.filter_filter]
      congr 1
      funext a
      by_cases h : key a = k <;> simp [h]
    have hrest : ((l.filter fun a => key a ∈ k :: ks).filter fun a => !decide (key a = k)) =
        l.filter fun a => key a ∈ ks := by
      rw [List.filter_filter]
      congr 1
      funext a
      by_cases h : key a = k
      · simp [h, hk]
      · simp [h]
    rw [hfirst, hrest] at hsplit
    exact (List.Perm.append_left _ (ih hks)).trans hsplit

theorem perm_flatMap_shards (key : α → κ) (g : α → List β) (l : List α) (ks : List κ) (hks : ks.Nodup)
    (hkey : ∀ a, key a ∈ ks) :
    (ks.flatMap fun k => l.flatMap fun a => if key a = k then g a else []).Perm (l.flatMap g) := by
  have hshard : ∀ k, (l.flatMap fun a => if key a = k then g a else []) =
      (l.filter fun a => key a = k).flatMap g := by
    intro k
    induction l with
    | nil => rfl
    | cons a l ih => by_cases h : key a = k <;> simp [h, ih]
  have hall : (l.filter fun a => key a ∈ ks) = l := List.filter_eq_self.mpr (fun a _ => by simp [hkey a])
  simp only [hshard]
  rw [← List.flatMap_assoc]
  have h := (perm_flatMap_filter_key key l ks hks).flatMap_right g
  rwa [hall] at h

/-! ### Joining answers -/

theorem intercalate_eq_empty_iff (sep : String) (l : List String) (hne : ∀ s ∈ l, s ≠ "") :
    sep.intercalate l = "" ↔ l = [] := by
  cases l with
  | nil => simp
  | cons t l =>
    have ht : t ≠ "" := hne t List.mem_cons_self
    simp only [reduceCtorEq, iff_false]
    intro h
    apply ht
    cases l with
    | nil => simpa using h
    | cons u l =>
      rw [String.intercalate_cons_cons, String.append_assoc] at h
      exact String.append_eq_empty_iff.mp h |>.1

theorem intercalate_filter_map (sep : String) (ls : List (List String)) (hne : ∀ l ∈ ls, ∀ s ∈ l, s ≠ "") :
    sep.intercalate ((ls.map sep.intercalate).filter (· ≠ "")) = sep.intercalate ls.flatten := by
  induction ls with
  | nil => simp
  | cons l ls ih =>
    have hl : ∀ s ∈ l, s ≠ "" := hne l List.mem_cons_self
    have hls : ∀ l' ∈ ls, ∀ s ∈ l', s ≠ "" := fun l' hl' => hne l' (List.mem_cons_of_mem l hl')
    rw [List.map_cons, List.flatten_cons]
    by_cases hnil : l = []
    · subst hnil
      rw [String.intercalate_nil, List.filter_cons_of_neg (by simp), List.nil_append]
      exact ih hls
    · have hjoin : sep.intercalate l ≠ "" := fun h => hnil ((intercalate_eq_empty_iff sep l hl).mp h)
      rw [List.filter_cons_of_pos (by simpa using hjoin)]
      have hflat : ∀ s ∈ ls.flatten, s ≠ "" := by
        intro s hs
        obtain ⟨l', hl', hs'⟩ := List.mem_flatten.mp hs
        exact hls l' hl' s hs'
      have hfilt : ∀ s ∈ (ls.map sep.intercalate).filter (· ≠ ""), s ≠ "" := by
        intro s hs
        simpa using (List.mem_filter.mp hs).2
      by_cases hrest : ls.flatten = []
      · have hempty : (ls.map sep.intercalate).filter (· ≠ "") = [] := by
          rw [← intercalate_eq_empty_iff sep _ hfilt, ih hls, hrest, String.intercalate_nil]
        rw [hempty, hrest, List.append_nil, String.intercalate_singleton]
      · have hnonempty : (ls.map sep.intercalate).filter (· ≠ "") ≠ [] := by
          intro h
          apply hrest
          rw [← intercalate_eq_empty_iff sep _ hflat, ← ih hls, h, String.intercalate_nil]
        rw [String.intercalate_cons_of_ne_nil hnonempty, ih hls,
          String.intercalate_append_of_ne_nil hnil hrest]

end Shard
