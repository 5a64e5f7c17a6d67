import Mathlib

/-!
# JavaScript values in arithmetic

What a property read gives and what the arithmetic operators make of it: a read of a property the
object does not have gives `undefined`, `ToNumber(undefined)` is `NaN`, an arithmetic operator with a
`NaN` operand gives `NaN`, and a relational comparison with `NaN` is `false`. The numbers are the
integers a millisecond clock and integer constants need.
-/

namespace Js

inductive Value
  | undefined
  | number (x : Int)
  | nan
deriving DecidableEq, Repr

/-- `ToNumber`, with `none` for `NaN`. -/
def Value.toNumber : Value → Option Int
  | .number x => some x
  | _ => none

/-- A binary arithmetic operator on the numbers of its operands. -/
def arith (op : Int → Int → Int) (a b : Value) : Value :=
  match a.toNumber, b.toNumber with
  | some x, some y => .number (op x y)
  | _, _ => .nan

def add : Value → Value → Value := arith (· + ·)

def sub : Value → Value → Value := arith (· - ·)

def gt (a b : Value) : Bool :=
  match a.toNumber, b.toNumber with
  | some x, some y => decide (y < x)
  | _, _ => false

/-- `object[name]` for an object with the given properties. -/
def get (properties : List (String × Value)) (name : String) : Value :=
  (properties.lookup name).getD .undefined

theorem get_of_not_mem {properties : List (String × Value)} {name : String}
    (h : name ∉ properties.map Prod.fst) : get properties name = .undefined := by
  induction properties with
  | nil => rfl
  | cons p properties ih =>
    rcases p with ⟨key, value⟩
    simp only [List.map_cons, List.mem_cons, not_or] at h
    have hne : (name == key) = false := beq_false_of_ne h.1
    simp only [get, List.lookup_cons, hne] at ih ⊢
    exact ih h.2

@[simp] theorem arith_nan_right (op : Int → Int → Int) (a : Value) : arith op a .nan = .nan := by
  cases a <;> rfl

@[simp] theorem arith_undefined_right (op : Int → Int → Int) (a : Value) : arith op a .undefined = .nan := by
  cases a <;> rfl

@[simp] theorem gt_nan_left (b : Value) : gt .nan b = false := rfl

end Js
