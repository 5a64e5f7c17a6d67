import Mathlib

/-!
# Leftmost-first matching of literals and greedy runs

A pattern here is a sequence of literal symbols and greedy repetitions `c{min,}` of a class of
symbols, each repetition captured as a group or not. `findSubmatch` returns what Go's
`FindSubmatch` returns for such a pattern: the match that starts first, and at that start the one a
backtracking matcher finds first, each repetition as long as the rest of the pattern allows; the
whole match comes first, then the groups.
-/

namespace Regexp

inductive Piece (α : Type)
  | lit (a : α)
  | run (cls : α → Bool) (min : Nat) (capture : Bool)

variable {α : Type} [DecidableEq α]

def lits (s : List α) : List (Piece α) := s.map Piece.lit

/-- The groups of `re` matched at the start of `s`, and the rest of `s`. -/
def matchHere : List (Piece α) → List α → Option (List (List α) × List α)
  | [], s => some ([], s)
  | .lit a :: re, b :: s => if a = b then matchHere re s else none
  | .lit _ :: _, [] => none
  | .run cls min capture :: re, s =>
    let longest := (s.takeWhile cls).length
    (List.range (longest + 1 - min)).findSome? fun k =>
      (matchHere re (s.drop (longest - k))).map fun (groups, rest) =>
        (if capture then s.take (longest - k) :: groups else groups, rest)

def findSubmatch (re : List (Piece α)) (s : List α) : Option (List (List α)) :=
  (List.range (s.length + 1)).findSome? fun start =>
    (matchHere re (s.drop start)).map fun (groups, rest) =>
      (s.drop start).take ((s.drop start).length - rest.length) :: groups

/-- The class and least length of each captured repetition, in order. -/
def groupsOf : List (Piece α) → List ((α → Bool) × Nat)
  | [] => []
  | .lit _ :: re => groupsOf re
  | .run cls min capture :: re => if capture then (cls, min) :: groupsOf re else groupsOf re

/-- A text a group may capture: at least its least length of symbols of its class. -/
def Fits (g : (α → Bool) × Nat) (text : List α) : Prop := g.2 ≤ text.length ∧ ∀ a ∈ text, g.1 a = true

omit [DecidableEq α] in
@[simp] theorem groupsOf_lits_append (s : List α) (re : List (Piece α)) :
    groupsOf (lits s ++ re) = groupsOf re := by
  induction s with
  | nil => rfl
  | cons a s ih => exact ih

omit [DecidableEq α] in
theorem fits_take_takeWhile (cls : α → Bool) (min : Nat) (s : List α) {len : Nat}
    (hmin : min ≤ len) (hlen : len ≤ (s.takeWhile cls).length) : Fits (cls, min) (s.take len) := by
  have hrun := List.takeWhile_prefix cls (l := s)
  have htake : s.take len <+: s.takeWhile cls := by
    rw [List.prefix_iff_eq_take.mp hrun]
    exact List.take_prefix_take_left hlen
  refine ⟨?_, fun a ha => List.mem_takeWhile_imp (htake.subset ha)⟩
  have : len ≤ s.length := hlen.trans hrun.length_le
  simp only [List.length_take]
  omega

theorem matchHere_groups : ∀ (re : List (Piece α)) (s : List α) {groups : List (List α)} {rest : List α},
    matchHere re s = some (groups, rest) → List.Forall₂ Fits (groupsOf re) groups
  | [], s, groups, rest, h => by
    cases h
    exact .nil
  | .lit a :: re, b :: s, groups, rest, h => by
    simp only [matchHere] at h
    split at h
    · exact matchHere_groups re s h
    · cases h
  | .lit _ :: _, [], _, _, h => by cases h
  | .run cls min capture :: re, s, groups, rest, h => by
    simp only [matchHere] at h
    obtain ⟨k, hk, hmatch⟩ := List.exists_of_findSome?_eq_some h
    obtain ⟨⟨groups', rest'⟩, hhere, heq⟩ := Option.map_eq_some_iff.mp hmatch
    simp only [List.mem_range] at hk
    have hrest := matchHere_groups re _ hhere
    cases capture with
    | false =>
      cases heq
      exact hrest
    | true =>
      cases heq
      exact .cons (fits_take_takeWhile cls min s (by omega) (by omega)) hrest

theorem findSubmatch_groups {re : List (Piece α)} {s : List α} {m : List (List α)}
    (h : findSubmatch re s = some m) : ∃ whole groups, m = whole :: groups ∧ List.Forall₂ Fits (groupsOf re) groups := by
  obtain ⟨start, -, hmatch⟩ := List.exists_of_findSome?_eq_some h
  obtain ⟨⟨groups, rest⟩, hhere, heq⟩ := Option.map_eq_some_iff.mp hmatch
  exact ⟨_, groups, heq.symm, matchHere_groups re _ hhere⟩

/-! ### Go's classes on bytes

Go matches runes; on patterns whose literals and classes are ASCII, matching the bytes of the text
finds the same matches, since no byte of a multi-byte rune is ASCII. -/

def digit (b : UInt8) : Bool := 0x30 ≤ b && b ≤ 0x39

def word (b : UInt8) : Bool := digit b || (0x41 ≤ b && b ≤ 0x5A) || (0x61 ≤ b && b ≤ 0x7A) || b = 0x5F

def notNewline (b : UInt8) : Bool := b ≠ 0x0A

end Regexp
