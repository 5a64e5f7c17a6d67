import Mathlib
import Ctf3.Libgit2.Oid

/-!
# The id shortener of the vendored libgit2

`git_oid_shorten_add` keeps the hex ids it is given in a trie whose nodes sit in one array: a
node is the union of sixteen `short` child indexes and a pointer to the rest of an id, a
negative child index leads to a leaf, and a leaf is turned into a node when a later id reaches
it. It returns the shortest length at which all the ids added so far are unique.

The union is modelled as it lies in memory on LP64: the pointer covers the first four children,
so a read or a write of those while a node holds a pointer, or a read of the pointer of a node
that holds none, is memory the code does not own, and the model gives `none` there. So does an
index outside the array.
-/

namespace Ctf3.Libgit2

/-! ### The trie -/

/-- A `trie_node`: the `tail` pointer, `none` for `NULL`, and the sixteen children. -/
structure Node where
  tail : Option (List UInt8)
  children : Fin 16 → Int

/-- A node as `memset` leaves it. -/
def Node.empty : Node := ⟨none, fun _ => 0⟩

/-- How many children the `tail` pointer covers: eight bytes of `short`s. -/
def tailShorts : Nat := 4

def Node.child (node : Node) (c : Int) : Option Int :=
  if h : 0 ≤ c ∧ c < 16 then
    if node.tail.isSome ∧ c.toNat < tailShorts then none else some (node.children ⟨c.toNat, by omega⟩)
  else none

def Node.setChild (node : Node) (c : Int) (v : Int) : Option Node :=
  if h : 0 ≤ c ∧ c < 16 then
    if node.tail.isSome ∧ c.toNat < tailShorts then none
    else some { node with children := Function.update node.children ⟨c.toNat, by omega⟩ v }
  else none

/-- `node->tail = NULL`: the pointer's bytes, and so the children it covers, become zero. -/
def Node.clearTail (node : Node) : Node :=
  ⟨none, fun c => if c.val < tailShorts then 0 else node.children c⟩

def Node.setTail (node : Node) (oid : List UInt8) : Node := { node with tail := some oid }

/-- `struct git_oid_shorten`: the array of `size` nodes, the count in use, the length to return,
and whether the set is full. -/
structure Shorten where
  nodes : Nat → Node
  nodeCount : Nat
  size : Nat
  minLength : Nat
  full : Bool

/-- `os->nodes[idx]`, within the array. -/
def Shorten.nodeAt (os : Shorten) (idx : Int) : Option Node :=
  if 0 ≤ idx ∧ idx < os.size then some (os.nodes idx.toNat) else none

def Shorten.setNode (os : Shorten) (idx : Int) (node : Node) : Shorten :=
  { os with nodes := Function.update os.nodes idx.toNat node }

/-- `resize_trie(self, new_size)`: the new nodes are cleared. -/
def Shorten.resize (os : Shorten) (newSize : Nat) : Shorten :=
  { os with
    nodes := fun k => if os.size ≤ k ∧ k < newSize then Node.empty else os.nodes k
    size := newSize }

/-- `SHRT_MAX`, the node count at which the set is full. -/
def shrtMax : Nat := 32767

/-- `git_oid_shorten_new(min_length)`: sixteen cleared nodes, the root in use. -/
def shortenNew (minLength : Nat) : Shorten := ⟨fun _ => Node.empty, 1, 16, minLength, false⟩

@[simp] theorem nodes_shortenNew (minLength : Nat) : (shortenNew minLength).nodes = fun _ => Node.empty := rfl

@[simp] theorem nodeCount_shortenNew (minLength : Nat) : (shortenNew minLength).nodeCount = 1 := rfl

@[simp] theorem size_shortenNew (minLength : Nat) : (shortenNew minLength).size = 16 := rfl

@[simp] theorem minLength_shortenNew (minLength : Nat) : (shortenNew minLength).minLength = minLength := rfl

@[simp] theorem full_shortenNew (minLength : Nat) : (shortenNew minLength).full = false := rfl

/-- `push_leaf(os, idx, push_at, oid)`: the trie after it, and whether it returned a node rather
than `NULL`. -/
def pushLeaf (os : Shorten) (idx : Int) (pushAt : Int) (oid : List UInt8) : Option (Shorten × Bool) :=
  let os := if os.size ≤ os.nodeCount then os.resize (os.size * 2) else os
  let idxLeaf := os.nodeCount
  let os := { os with nodeCount := os.nodeCount + 1 }
  if os.nodeCount = shrtMax then some ({ os with full := true }, false)
  else do
    let node ← os.nodeAt idx
    let node ← node.setChild pushAt (-(idxLeaf : Int))
    let os := os.setNode idx node
    let leaf ← os.nodeAt idxLeaf
    some (os.setNode idxLeaf (leaf.setTail oid), true)

def fullMessage : String := "Unable to shorten OID - OID set full"

def invalidHexMessage : String := "Unable to shorten OID - invalid hex value"

/-- `if (++i > os->min_length) os->min_length = i; return os->min_length;` -/
def finish (os : Shorten) (i : Nat) : Except String Nat × Shorten :=
  if i + 1 > os.minLength then (.ok (i + 1), { os with minLength := i + 1 }) else (.ok os.minLength, os)

/-- The `is_leaf` branch: the leaf `idx` gives up its tail, whose first digit becomes a new leaf. -/
def convertLeaf (os : Shorten) (idx : Int) : Option (Shorten × Bool) := do
  let node ← os.nodeAt idx
  let tail ← node.tail
  pushLeaf (os.setNode idx node.clearTail) idx (fromhex (byteAt tail 0)).toInt (tail.drop 1)

/-- The loop `for (i = 0; i < GIT_OID_HEXSZ; ++i)` of `git_oid_shorten_add` with `left` turns to
go, from the `i`th digit, at node `idx`, which still holds a tail when `isLeaf`. `push_leaf`
returns `NULL` only when it sets `full`: allocation is not modelled. -/
def addLoop (text : List UInt8) : Nat → Shorten → Nat → Int → Bool → Option (Except String Nat × Shorten)
  | 0, os, i, _, _ => some (finish os i)
  | left + 1, os, i, idx, isLeaf =>
    if fromhex (byteAt text i) = -1 then some (.error invalidHexMessage, os)
    else do
      let (os, pushed) ← if isLeaf then convertLeaf os idx else some (os, true)
      if !pushed then some (.error fullMessage, os)
      else do
        let node ← os.nodeAt idx
        let child ← node.child (fromhex (byteAt text i)).toInt
        if child = 0 then
          let (os, pushed) ← pushLeaf os idx (fromhex (byteAt text i)).toInt (text.drop (i + 1))
          if !pushed then some (.error fullMessage, os) else some (finish os i)
        else if child < 0 then
          let node ← node.setChild (fromhex (byteAt text i)).toInt (-child)
          addLoop text left (os.setNode idx node) (i + 1) (-child) true
        else addLoop text left os (i + 1) child false

/-- `git_oid_shorten_add(os, text_oid)`. -/
def add (os : Shorten) (textOid : Option (List UInt8)) : Option (Except String Nat × Shorten) :=
  if os.full then some (.error fullMessage, os)
  else
    match textOid with
    | none => some (.ok os.minLength, os)
    | some text => addLoop text 40 os 0 0 false

/-! ### The operations on nodes -/

def leafNode (tail : List UInt8) : Node := ⟨some tail, fun _ => 0⟩

@[simp] theorem tail_leafNode (tail : List UInt8) : (leafNode tail).tail = some tail := rfl

theorem Node.child_of_tail_none (children : Fin 16 → Int) {c : Nat} (hc : c < 16) :
    Node.child ⟨none, children⟩ c = some (children ⟨c, hc⟩) := by
  simp [Node.child, hc]

theorem Node.setChild_of_tail_none (children : Fin 16 → Int) {c : Nat} (hc : c < 16) (v : Int) :
    Node.setChild ⟨none, children⟩ c v = some ⟨none, Function.update children ⟨c, hc⟩ v⟩ := by
  simp [Node.setChild, hc]

theorem clearTail_leafNode (tail : List UInt8) : (leafNode tail).clearTail = Node.empty := by
  simp only [Node.clearTail, leafNode, Node.empty, ite_self]

theorem Node.setChild_of_neg (node : Node) {c : Int} (hc : c < 0) (v : Int) : node.setChild c v = none := by
  simp [Node.setChild, show ¬(0 ≤ c) by omega]

theorem Shorten.nodeAt_of_lt (os : Shorten) {idx : Nat} (h : idx < os.size) : os.nodeAt idx = some (os.nodes idx) := by
  simp [Shorten.nodeAt, h]

@[simp] theorem Shorten.nodes_setNode (os : Shorten) (idx : Nat) (node : Node) :
    (os.setNode idx node).nodes = Function.update os.nodes idx node := rfl

@[simp] theorem Shorten.nodeCount_setNode (os : Shorten) (idx : Int) (node : Node) :
    (os.setNode idx node).nodeCount = os.nodeCount := rfl

theorem pushLeaf_eq (os : Shorten) {idx c : Nat} (children : Fin 16 → Int) (oid : List UInt8) (hc : c < 16)
    (hidx : idx < os.nodeCount) (hcount : os.nodeCount ≤ os.size) (hpos : 0 < os.nodeCount)
    (hroom : os.nodeCount + 1 < shrtMax) (hnode : os.nodes idx = ⟨none, children⟩)
    (hfresh : ∀ k, os.nodeCount ≤ k → os.nodes k = Node.empty) :
    ∃ os', pushLeaf os idx c oid = some (os', true) ∧
      os'.nodes = Function.update (Function.update os.nodes idx
        ⟨none, Function.update children ⟨c, hc⟩ (-(os.nodeCount : Int))⟩) os.nodeCount (leafNode oid) ∧
      os'.nodeCount = os.nodeCount + 1 ∧ os'.nodeCount ≤ os'.size ∧ os'.minLength = os.minLength ∧
      os'.full = os.full := by
  let next (size : Nat) : Shorten := ⟨Function.update (Function.update os.nodes idx
    ⟨none, Function.update children ⟨c, hc⟩ (-(os.nodeCount : Int))⟩) os.nodeCount (leafNode oid),
    os.nodeCount + 1, size, os.minLength, os.full⟩
  suffices h : ∃ size, os.nodeCount < size ∧ pushLeaf os idx c oid = some (next size, true) by
    obtain ⟨size, hsize, h⟩ := h
    exact ⟨next size, h, rfl, rfl, hsize, rfl, rfl⟩
  have hresize : os.resize (os.size * 2) = { os with size := os.size * 2 } := by
    simp only [Shorten.resize, Shorten.mk.injEq, and_true]
    funext k
    split
    · exact (hfresh k (by omega)).symm
    · rfl
  have hleaf : idx ≠ os.nodeCount := by omega
  have hne : os.nodeCount + 1 ≠ shrtMax := by omega
  by_cases hfull : os.size ≤ os.nodeCount
  · refine ⟨os.size * 2, by omega, ?_⟩
    have hidx' : (idx : Int) < os.size * 2 := by omega
    have hlt : (os.nodeCount : Int) < os.size * 2 := by omega
    simp only [pushLeaf, hfull, if_true, hresize, hne, if_false]
    simp [Shorten.nodeAt, hidx', hlt, hnode, Node.setChild_of_tail_none _ hc, Shorten.setNode,
      Function.update_of_ne (Ne.symm hleaf), hfresh, Node.setTail, Node.empty]
    rfl
  · refine ⟨os.size, by omega, ?_⟩
    have hidx' : (idx : Int) < os.size := by omega
    have hlt : (os.nodeCount : Int) < os.size := by omega
    simp only [pushLeaf, hfull, if_false, hne]
    simp [Shorten.nodeAt, hidx', hlt, hnode, Node.setChild_of_tail_none _ hc, Shorten.setNode,
      Function.update_of_ne (Ne.symm hleaf), hfresh, Node.setTail, Node.empty]
    rfl

theorem pushLeaf_of_neg (os : Shorten) {idx c : Int} (hc : c < 0) (oid : List UInt8) (h0 : 0 ≤ idx)
    (hidx : idx < os.size) (hroom : os.nodeCount + 1 ≠ shrtMax) : pushLeaf os idx c oid = none := by
  have hidx₂ : idx < os.size * 2 := by omega
  unfold pushLeaf
  by_cases hfull : os.size ≤ os.nodeCount
  · simp [hfull, hroom, Shorten.nodeAt, Shorten.resize, h0, hidx₂, Node.setChild_of_neg _ hc]
  · simp [hfull, hroom, Shorten.nodeAt, h0, hidx, Node.setChild_of_neg _ hc]

theorem finish_eq (os : Shorten) (i : Nat) :
    finish os i = (.ok (max os.minLength (i + 1)), { os with minLength := max os.minLength (i + 1) }) := by
  unfold finish
  split
  · rw [max_eq_right (by omega)]
  · rw [max_eq_left (by omega)]

/-! ### What the trie holds -/

/-- The `i`th digit of an id's text, as `git__fromhex` reads it. -/
def digitOf (text : List UInt8) (i : Nat) : Nat := (fromhex (byteAt text i)).toInt.toNat

def digitsOf (text : List UInt8) (n : Nat) : List Nat := (List.range n).map (digitOf text)

/-- An id whose forty digits are hex. -/
def HexId (text : List UInt8) : Prop := ∀ i < 40, fromhex (byteAt text i) ≠ -1

instance (text : List UInt8) : Decidable (HexId text) :=
  inferInstanceAs (Decidable (∀ i < 40, fromhex (byteAt text i) ≠ -1))

/-- How many of the ids begin with the digits `p`. -/
def countPrefix (ids : List (List UInt8)) (p : List Nat) : Nat := ids.countP fun s => digitsOf s p.length = p

/-- The length of the longest prefix that `text` shares with one of `ids`: `0` when there are none. -/
def sharedLength (ids : List (List UInt8)) (text : List UInt8) : Nat :=
  Nat.findGreatest (fun j => 0 < countPrefix ids (digitsOf text j)) 40

@[simp] theorem length_digitsOf (text : List UInt8) (n : Nat) : (digitsOf text n).length = n := by
  simp [digitsOf]

theorem digitsOf_succ (text : List UInt8) (n : Nat) : digitsOf text (n + 1) = digitsOf text n ++ [digitOf text n] := by
  simp [digitsOf, List.range_succ]

theorem digitsOf_zero (text : List UInt8) : digitsOf text 0 = [] := rfl

theorem digitsOf_eq_of_succ {s t : List UInt8} {n : Nat} (h : digitsOf s (n + 1) = digitsOf t (n + 1)) :
    digitsOf s n = digitsOf t n ∧ digitOf s n = digitOf t n := by
  rw [digitsOf_succ, digitsOf_succ] at h
  simpa using h

theorem digitsOf_succ_eq_iff {s : List UInt8} {p : List Nat} {c n : Nat} (hp : p.length = n) :
    digitsOf s (n + 1) = p ++ [c] ↔ digitsOf s n = p ∧ digitOf s n = c := by
  rw [digitsOf_succ]
  constructor
  · intro h
    obtain ⟨h1, h2⟩ := List.append_inj h (by simp [hp])
    exact ⟨h1, by simpa using h2⟩
  · rintro ⟨rfl, rfl⟩
    rfl

theorem digitsOf_eq_of_le {s t : List UInt8} {m n : Nat} (hmn : m ≤ n) (h : digitsOf s n = digitsOf t n) :
    digitsOf s m = digitsOf t m := by
  induction n with
  | zero =>
    rwa [Nat.le_zero.mp hmn]
  | succ n ih =>
    rcases Nat.lt_or_ge m (n + 1) with hlt | hge
    · exact ih (by omega) (digitsOf_eq_of_succ h).1
    · rwa [Nat.le_antisymm hmn hge]

set_option maxRecDepth 20000 in
theorem fromhex_range : ∀ c : Fin 256, fromhex (UInt8.ofNat c) = -1 ∨
    (0 ≤ (fromhex (UInt8.ofNat c)).toInt ∧ (fromhex (UInt8.ofNat c)).toInt < 16) := by
  decide

theorem fromhex_toInt_of_ne {b : UInt8} (h : fromhex b ≠ -1) : 0 ≤ (fromhex b).toInt ∧ (fromhex b).toInt < 16 := by
  have hb := fromhex_range ⟨b.toNat, b.toNat_lt⟩
  simp only [UInt8.ofNat_toNat] at hb
  exact hb.resolve_left h

theorem digitOf_lt_of_ne {text : List UInt8} {i : Nat} (h : fromhex (byteAt text i) ≠ -1) : digitOf text i < 16 := by
  have h := fromhex_toInt_of_ne h
  unfold digitOf
  omega

theorem digitOf_cast_of_ne {text : List UInt8} {i : Nat} (h : fromhex (byteAt text i) ≠ -1) :
    (fromhex (byteAt text i)).toInt = (digitOf text i : Int) := by
  have h := fromhex_toInt_of_ne h
  unfold digitOf
  omega

theorem digitOf_lt {text : List UInt8} (ht : HexId text) {i : Nat} (hi : i < 40) : digitOf text i < 16 :=
  digitOf_lt_of_ne (ht i hi)

theorem digitOf_cast {text : List UInt8} (ht : HexId text) {i : Nat} (hi : i < 40) :
    (fromhex (byteAt text i)).toInt = (digitOf text i : Int) :=
  digitOf_cast_of_ne (ht i hi)

theorem countPrefix_cons (text : List UInt8) (ids : List (List UInt8)) (p : List Nat) :
    countPrefix (text :: ids) p = countPrefix ids p + if digitsOf text p.length = p then 1 else 0 := by
  simp [countPrefix, List.countP_cons]

theorem countPrefix_append_le (ids : List (List UInt8)) (p : List Nat) (c : Nat) :
    countPrefix ids (p ++ [c]) ≤ countPrefix ids p := by
  unfold countPrefix
  apply List.countP_mono_left
  intro s _ hs
  have h := (digitsOf_succ_eq_iff (s := s) (c := c) (rfl : p.length = p.length)).mp (by simpa using hs)
  simpa using h.1

theorem countPrefix_digitsOf_antitone (ids : List (List UInt8)) (text : List UInt8) {m n : Nat} (hmn : m ≤ n) :
    countPrefix ids (digitsOf text n) ≤ countPrefix ids (digitsOf text m) := by
  induction n with
  | zero => rw [Nat.le_zero.mp hmn]
  | succ n ih =>
    rcases Nat.lt_or_ge m (n + 1) with hlt | hge
    · rw [digitsOf_succ]
      exact (countPrefix_append_le _ _ _).trans (ih (by omega))
    · rw [Nat.le_antisymm hmn hge]

theorem sharedLength_eq {ids : List (List UInt8)} {text : List UInt8} {j : Nat} (hj : j < 40)
    (hshare : j = 0 ∨ 0 < countPrefix ids (digitsOf text j)) (hnext : countPrefix ids (digitsOf text (j + 1)) = 0) :
    sharedLength ids text = j := by
  unfold sharedLength
  rw [Nat.findGreatest_eq_iff]
  refine ⟨hj.le, fun hne => hshare.resolve_left hne, ?_⟩
  intro k hjk _ hk
  have hle := countPrefix_digitsOf_antitone ids text (show j + 1 ≤ k by omega)
  omega

theorem le_sharedLength {ids : List (List UInt8)} {text : List UInt8} {j : Nat} (hj : j ≤ 40)
    (h : 0 < countPrefix ids (digitsOf text j)) : j ≤ sharedLength ids text :=
  Nat.le_findGreatest hj h

theorem sharedLength_forty {ids : List (List UInt8)} {text : List UInt8} (h : 0 < countPrefix ids (digitsOf text 40)) :
    sharedLength ids text = 40 := by
  unfold sharedLength
  rw [Nat.findGreatest_eq_iff]
  exact ⟨le_rfl, fun _ => h, fun k hk hk' => absurd hk' (by omega)⟩

theorem digitsOf_prefix (text : List UInt8) {m n : Nat} (hmn : m ≤ n) : digitsOf text m <+: digitsOf text n := by
  induction n with
  | zero => rw [Nat.le_zero.mp hmn]
  | succ n ih =>
    rcases Nat.lt_or_ge m (n + 1) with hlt | hge
    · rw [digitsOf_succ]
      exact (ih (by omega)).trans (List.prefix_append _ _)
    · rw [Nat.le_antisymm hmn hge]

def OnPath (text : List UInt8) (q : List Nat) : Prop := digitsOf text q.length = q

theorem onPath_digitsOf (text : List UInt8) (n : Nat) : OnPath text (digitsOf text n) := by
  simp [OnPath]

theorem OnPath.of_append {text : List UInt8} {q : List Nat} {c : Nat} (h : OnPath text (q ++ [c])) :
    OnPath text q := by
  unfold OnPath at h ⊢
  simp only [List.length_append, List.length_singleton] at h
  exact ((digitsOf_succ_eq_iff rfl).mp h).1

theorem OnPath.prefix_iff {text : List UInt8} {q : List Nat} (hq : OnPath text q) (n : Nat) :
    digitsOf text n <+: q ↔ n ≤ q.length := by
  constructor
  · intro h
    simpa using h.length_le
  · intro h
    rw [← hq]
    exact digitsOf_prefix text h

theorem countPrefix_cons_of_onPath {text : List UInt8} (ids : List (List UInt8)) {q : List Nat}
    (h : OnPath text q) : countPrefix (text :: ids) q = countPrefix ids q + 1 := by
  have h' : digitsOf text q.length = q := h
  rw [countPrefix_cons, if_pos h']

theorem countPrefix_cons_of_not_onPath {text : List UInt8} (ids : List (List UInt8)) {q : List Nat}
    (h : ¬OnPath text q) : countPrefix (text :: ids) q = countPrefix ids q := by
  have h' : ¬digitsOf text q.length = q := h
  rw [countPrefix_cons, if_neg h', Nat.add_zero]

theorem countPrefix_le_of_prefix (ids : List (List UInt8)) {p q : List Nat} (h : p <+: q) :
    countPrefix ids q ≤ countPrefix ids p := by
  obtain ⟨r, rfl⟩ := h
  induction r using List.reverseRecOn with
  | nil => simp
  | append_singleton r c ih =>
    rw [← List.append_assoc]
    exact (countPrefix_append_le ids _ c).trans ih

theorem countPrefix_le_of_onPath (ids : List (List UInt8)) {text : List UInt8} {q : List Nat} (hq : OnPath text q)
    {n : Nat} (hn : q.length ≤ n) : countPrefix ids (digitsOf text n) ≤ countPrefix ids q :=
  countPrefix_le_of_prefix ids (by rw [← hq]; exact (onPath_digitsOf text n).prefix_iff _ |>.mpr (by simpa using hn))

theorem countPrefix_pos_of_mem {ids : List (List UInt8)} {s : List UInt8} (hs : s ∈ ids) {q : List Nat}
    (hq : OnPath s q) : 0 < countPrefix ids q :=
  List.countP_pos_iff.mpr ⟨s, hs, by simpa [OnPath] using hq⟩

theorem eq_of_countPrefix_eq_one {ids : List (List UInt8)} {q : List Nat} (h : countPrefix ids q = 1)
    {s s' : List UInt8} (hs : s ∈ ids) (hs' : s' ∈ ids) (hq : OnPath s q) (hq' : OnPath s' q) : s = s' := by
  unfold countPrefix at h
  rw [List.countP_eq_length_filter, List.length_eq_one_iff] at h
  obtain ⟨x, hx⟩ := h
  have hmem : ∀ y ∈ ids, OnPath y q → y = x := by
    intro y hy hyq
    have : y ∈ ids.filter fun s => digitsOf s q.length = q := List.mem_filter.mpr ⟨hy, by simpa [OnPath] using hyq⟩
    rw [hx] at this
    simpa using this
  rw [hmem s hs hq, hmem s' hs' hq']

/-! ### The invariant

The ids in the trie decide what each prefix's node holds: the root, and a prefix that at least two
ids begin with, is an inner node whose child for a digit is `0` when no id goes on with that digit,
the negated index of a leaf when one does, and the index of a node when more do; a prefix with one
id under it is that id's leaf. While an id is being added, the leaf its walk has reached and is
about to split is `pend`: the prefixes below it have no nodes yet. -/

def Below (pend : Option (List Nat × List UInt8)) (q : List Nat) : Prop :=
  ∃ P s, pend = some (P, s) ∧ P <+: q ∧ P.length < q.length

/-- The root, or a prefix that at least two ids begin with. -/
def Inner (ids : List (List UInt8)) (p : List Nat) : Prop := p = [] ∨ 2 ≤ countPrefix ids p

instance (ids : List (List UInt8)) (p : List Nat) : Decidable (Inner ids p) :=
  inferInstanceAs (Decidable (p = [] ∨ 2 ≤ countPrefix ids p))

/-- A prefix that owns a node: a digit below an inner prefix of fewer than forty digits, with an
id under it. -/
def Owned (ids : List (List UInt8)) (q : List Nat) : Prop :=
  ∃ p c, q = p ++ [c] ∧ Inner ids p ∧ p.length < 40 ∧ 0 < countPrefix ids q

def HasNode (ids : List (List UInt8)) (pend : Option (List Nat × List UInt8)) (q : List Nat) : Prop :=
  (q = [] ∨ Owned ids q) ∧ ¬Below pend q

/-- The child index an inner node keeps for the prefix `q`. -/
def childIndex (ids : List (List UInt8)) (addr : List Nat → Nat) (q : List Nat) : Int :=
  if countPrefix ids q = 0 then 0 else if countPrefix ids q = 1 then -(addr q : Int) else (addr q : Int)

def innerNode (ids : List (List UInt8)) (addr : List Nat → Nat) (p : List Nat) : Node :=
  ⟨none, fun c => childIndex ids addr (p ++ [c.val])⟩

/-- The first id that begins with `q`. -/
def leafOf (ids : List (List UInt8)) (q : List Nat) : Option (List UInt8) :=
  ids.find? fun s => digitsOf s q.length = q

/-- What the node of a prefix holds once every id is in; the forty-digit node of ids added twice
is not read, and is left open. -/
def settled (ids : List (List UInt8)) (addr : List Nat → Nat) (q : List Nat) : Option Node :=
  if Inner ids q then (if q.length < 40 then some (innerNode ids addr q) else none)
  else (leafOf ids q).map fun s => leafNode (s.drop q.length)

/-- What the node of a prefix holds, the pending leaf apart. -/
def content (ids : List (List UInt8)) (addr : List Nat → Nat) :
    Option (List Nat × List UInt8) → List Nat → Option Node
  | some (P, s), q => if q = P then some (leafNode (s.drop P.length)) else settled ids addr q
  | none, q => settled ids addr q

/-- The trie `os` holds the ids `ids`, the node of each prefix at `addr`. -/
structure ShortenInv (os : Shorten) (ids : List (List UInt8)) (addr : List Nat → Nat)
    (pend : Option (List Nat × List UInt8)) : Prop where
  hex : ∀ s ∈ ids, HexId s
  notFull : os.full = false
  rootCount : 1 ≤ os.nodeCount
  countLe : os.nodeCount ≤ os.size
  fresh : ∀ k, os.nodeCount ≤ k → os.nodes k = Node.empty
  rootAddr : addr [] = 0
  alloc : ∀ q, Owned ids q → ¬Below pend q → 1 ≤ addr q ∧ addr q < os.nodeCount
  inj : ∀ q r, HasNode ids pend q → HasNode ids pend r → addr q = addr r → q = r
  nodes : ∀ q, HasNode ids pend q → ∀ n, content ids addr pend q = some n → os.nodes (addr q) = n
  pending : ∀ P s, pend = some (P, s) → Owned ids P ∧ s ∈ ids ∧ OnPath s P

/-! #### Prefixes -/

theorem below_some_iff {P q : List Nat} {s : List UInt8} : Below (some (P, s)) q ↔ P <+: q ∧ P.length < q.length := by
  simp [Below]

theorem not_below_none (q : List Nat) : ¬Below none q := by
  simp [Below]

theorem hexId_cons {ids : List (List UInt8)} {text : List UInt8} (ht : HexId text) (hids : ∀ s ∈ ids, HexId s) :
    ∀ s ∈ text :: ids, HexId s := by
  intro s hs
  rcases List.mem_cons.mp hs with rfl | hs
  exacts [ht, hids s hs]

theorem Inner.cons {ids : List (List UInt8)} {p : List Nat} (text : List UInt8) (h : Inner ids p) :
    Inner (text :: ids) p := by
  rcases h with h | h
  · exact Or.inl h
  · right
    rw [countPrefix_cons]
    omega

theorem inner_cons_iff {ids : List (List UInt8)} {text : List UInt8} {p : List Nat} (h : ¬OnPath text p) :
    Inner (text :: ids) p ↔ Inner ids p := by
  simp only [Inner, countPrefix_cons_of_not_onPath ids h]

theorem Owned.cons {ids : List (List UInt8)} {q : List Nat} (text : List UInt8) (h : Owned ids q) :
    Owned (text :: ids) q := by
  obtain ⟨p, c, rfl, hp, hlen, hpos⟩ := h
  refine ⟨p, c, rfl, hp.cons text, hlen, ?_⟩
  rw [countPrefix_cons]
  omega

theorem Owned.ne_nil {ids : List (List UInt8)} {q : List Nat} (h : Owned ids q) : q ≠ [] := by
  obtain ⟨p, c, rfl, -⟩ := h
  simp

theorem Owned.length_le {ids : List (List UInt8)} {q : List Nat} (h : Owned ids q) : q.length ≤ 40 := by
  obtain ⟨p, c, rfl, -, hlen, -⟩ := h
  simp
  omega

theorem owned_of_two_le {ids : List (List UInt8)} {p : List Nat} {c : Nat} (hlen : p.length < 40)
    (h : 2 ≤ countPrefix ids (p ++ [c])) : Owned ids (p ++ [c]) :=
  ⟨p, c, rfl, Or.inr (le_trans h (countPrefix_append_le ids p c)), hlen, by omega⟩

theorem leafOf_eq_of_countPrefix_eq_one {ids : List (List UInt8)} {q : List Nat} (h : countPrefix ids q = 1)
    {s : List UInt8} (hs : s ∈ ids) (hq : OnPath s q) : leafOf ids q = some s := by
  unfold leafOf
  have hsome : (ids.find? fun s => decide (digitsOf s q.length = q)).isSome :=
    List.find?_isSome.mpr ⟨s, hs, by simpa [OnPath] using hq⟩
  obtain ⟨x, hx⟩ := Option.isSome_iff_exists.mp hsome
  have hxq : OnPath x q := by simpa [OnPath] using List.find?_some hx
  rw [hx, eq_of_countPrefix_eq_one h (List.mem_of_find?_eq_some hx) hs hxq hq]

theorem leafOf_cons_of_onPath (ids : List (List UInt8)) {text : List UInt8} {q : List Nat} (h : OnPath text q) :
    leafOf (text :: ids) q = some text := by
  have h' : digitsOf text q.length = q := h
  simp [leafOf, h']

theorem leafOf_cons_of_not_onPath (ids : List (List UInt8)) {text : List UInt8} {q : List Nat}
    (h : ¬OnPath text q) : leafOf (text :: ids) q = leafOf ids q := by
  have h' : ¬digitsOf text q.length = q := h
  simp [leafOf, h']

/-! #### Adding an id to the ids

Along the walk of a new id `text` every prefix down to `digitsOf text i` is inner already; the
prefixes off that walk keep their counts. -/

section Walk

variable {ids : List (List UInt8)} {text : List UInt8} {i : Nat}

theorem two_le_of_onPath (hinner : Inner ids (digitsOf text i)) {q : List Nat} (hq : OnPath text q)
    (hne : q ≠ []) (hlen : q.length ≤ i) : 2 ≤ countPrefix ids q := by
  rcases hinner with h | h
  · have : i = 0 := by simpa using congrArg List.length h
    exact absurd (List.eq_nil_of_length_eq_zero (by omega)) hne
  · exact h.trans (countPrefix_le_of_onPath ids hq hlen)

theorem owned_of_owned_cons (hinner : Inner ids (digitsOf text i)) {q : List Nat} (hq : Owned (text :: ids) q)
    (hbelow : ¬digitsOf text (i + 1) <+: q) : Owned ids q := by
  obtain ⟨p, c, rfl, hp, hlen, hpos⟩ := hq
  have hpi : ¬OnPath text p ∨ p.length ≤ i := by
    by_cases hpath : OnPath text p
    · right
      by_contra hgt
      exact hbelow ((hpath.prefix_iff _).mpr (by omega) |>.trans (List.prefix_append _ _))
    · exact Or.inl hpath
  have hp' : Inner ids p := by
    rcases hpi with hpath | hle
    · exact (inner_cons_iff hpath).mp hp
    · by_cases hpath : OnPath text p
      · rcases eq_or_ne p [] with hnil | hnil
        · exact Or.inl hnil
        · exact Or.inr (two_le_of_onPath hinner hpath hnil hle)
      · exact (inner_cons_iff hpath).mp hp
  refine ⟨p, c, rfl, hp', hlen, ?_⟩
  by_cases hpath : OnPath text (p ++ [c])
  · have hle : (p ++ [c]).length ≤ i := by
      by_contra hgt
      exact hbelow ((hpath.prefix_iff _).mpr (by omega))
    have := two_le_of_onPath hinner hpath (by simp) hle
    omega
  · rwa [countPrefix_cons_of_not_onPath ids hpath] at hpos

theorem childIndex_cons_eq {addr addr' : List Nat → Nat} {q : List Nat}
    (hq : ¬OnPath text q ∨ 2 ≤ countPrefix ids q) (haddr : addr' q = addr q) :
    childIndex (text :: ids) addr' q = childIndex ids addr q := by
  rcases hq with hpath | htwo
  · rw [childIndex, childIndex, countPrefix_cons_of_not_onPath ids hpath, haddr]
  · have hcons : 2 ≤ countPrefix (text :: ids) q := by
      rw [countPrefix_cons]
      omega
    rw [childIndex, childIndex, if_neg (by omega), if_neg (by omega), if_neg (by omega), if_neg (by omega), haddr]

theorem settled_cons_eq {addr addr' : List Nat → Nat} (hinner : Inner ids (digitsOf text i))
    {q : List Nat} (hq : ¬OnPath text q ∨ q.length < i) (haddr : ∀ c, addr' (q ++ [c]) = addr (q ++ [c])) :
    settled (text :: ids) addr' q = settled ids addr q := by
  have hchild : ∀ c, childIndex (text :: ids) addr' (q ++ [c]) = childIndex ids addr (q ++ [c]) := by
    intro c
    refine childIndex_cons_eq ?_ (haddr c)
    by_cases hpath : OnPath text (q ++ [c])
    · right
      have hlt := hq.resolve_left (not_not.mpr hpath.of_append)
      exact two_le_of_onPath hinner hpath (by simp) (by simp; omega)
    · exact Or.inl hpath
  have hnode : innerNode (text :: ids) addr' q = innerNode ids addr q := by
    simp only [innerNode, hchild]
  by_cases hpath : OnPath text q
  · -- On the walk, above `digitsOf text i`: inner before and after.
    have hlt := hq.resolve_left (not_not.mpr hpath)
    have hin : Inner ids q := by
      rcases eq_or_ne q [] with hnil | hnil
      · exact Or.inl hnil
      · exact Or.inr (two_le_of_onPath hinner hpath hnil hlt.le)
    rw [settled, settled, if_pos (hin.cons text), if_pos hin, hnode]
  · simp only [settled, inner_cons_iff hpath, leafOf_cons_of_not_onPath ids hpath, hnode]

theorem offWalk_or_above {r : List Nat} (hr : r ≠ digitsOf text i) (hq : ¬digitsOf text (i + 1) <+: r) :
    ¬OnPath text r ∨ r.length < i := by
  by_cases hpath : OnPath text r
  · right
    rcases Nat.lt_trichotomy r.length i with hlt | heq | hgt
    · exact hlt
    · exact absurd (by rw [← heq]; exact hpath.symm) hr
    · exact absurd ((hpath.prefix_iff _).mpr hgt) hq
  · exact Or.inl hpath

theorem not_onPath_of_ne {c : Nat} (hc : c ≠ digitOf text i) : ¬OnPath text (digitsOf text i ++ [c]) := by
  intro h
  unfold OnPath at h
  simp only [List.length_append, length_digitsOf, List.length_singleton] at h
  exact hc ((digitsOf_succ_eq_iff (length_digitsOf text i)).mp h).2.symm

theorem digitsOf_succ_ne (text : List UInt8) (i : Nat) : digitsOf text (i + 1) ≠ digitsOf text i := by
  intro h
  simpa using congrArg List.length h

theorem digitsOf_succ_ne_nil (text : List UInt8) (i : Nat) : digitsOf text (i + 1) ≠ [] := by
  intro h
  simpa using congrArg List.length h

theorem innerNode_cons_update {addr addr' : List Nat → Nat} (hd : digitOf text i < 16)
    (haddr : ∀ c, c ≠ digitOf text i → addr' (digitsOf text i ++ [c]) = addr (digitsOf text i ++ [c])) {v : Int}
    (hv : childIndex (text :: ids) addr' (digitsOf text (i + 1)) = v) :
    (⟨none, Function.update (innerNode ids addr (digitsOf text i)).children ⟨digitOf text i, hd⟩ v⟩ : Node) =
      innerNode (text :: ids) addr' (digitsOf text i) := by
  rw [innerNode, innerNode, Node.mk.injEq]
  refine ⟨rfl, funext fun c => ?_⟩
  by_cases hc : c = ⟨digitOf text i, hd⟩
  · subst hc
    rw [Function.update_self, ← hv, digitsOf_succ]
  · have hcd : c.val ≠ digitOf text i := fun h => hc (Fin.ext h)
    rw [Function.update_of_ne hc, childIndex_cons_eq (Or.inl (not_onPath_of_ne hcd)) (haddr c hcd)]

end Walk

/-! #### Splitting the pending leaf

Below the pending leaf `digitsOf text i` lie only two ids, `text` and the leaf's `s`. -/

section Split

variable {ids : List (List UInt8)} {text s : List UInt8} {i : Nat}

theorem onPath_append_iff {x : List UInt8} {P : List Nat} {c : Nat} :
    OnPath x (P ++ [c]) ↔ OnPath x P ∧ digitOf x P.length = c := by
  unfold OnPath
  simp only [List.length_append, List.length_singleton]
  exact digitsOf_succ_eq_iff rfl

theorem countPrefix_child_of_one {P : List Nat} (hone : countPrefix ids P = 1) (hs : s ∈ ids) (hsP : OnPath s P)
    (c : Nat) : countPrefix ids (P ++ [c]) = if digitOf s P.length = c then 1 else 0 := by
  split
  · have h1 := countPrefix_le_of_prefix ids (List.prefix_append P [c])
    have h2 := countPrefix_pos_of_mem hs (onPath_append_iff.mpr ⟨hsP, ‹_›⟩)
    omega
  · rename_i hc
    unfold countPrefix
    rw [List.countP_eq_zero]
    intro x hx hxc
    obtain ⟨hxP, hxd⟩ := onPath_append_iff.mp (show OnPath x (P ++ [c]) by simpa [OnPath] using hxc)
    rw [← eq_of_countPrefix_eq_one hone hs hx hsP hxP] at hxd
    exact hc hxd

theorem countPrefix_cons_child (hone : countPrefix ids (digitsOf text i) = 1) (hs : s ∈ ids)
    (hsP : OnPath s (digitsOf text i)) (c : Nat) :
    countPrefix (text :: ids) (digitsOf text i ++ [c]) =
      (if digitOf s i = c then 1 else 0) + if digitOf text i = c then 1 else 0 := by
  have hpath : OnPath text (digitsOf text i ++ [c]) ↔ digitOf text i = c := by
    rw [onPath_append_iff, length_digitsOf]
    exact and_iff_right (onPath_digitsOf text i)
  rw [countPrefix_cons, countPrefix_child_of_one hone hs hsP, length_digitsOf]
  have h' : (digitsOf text (digitsOf text i ++ [c]).length = digitsOf text i ++ [c]) ↔ digitOf text i = c := hpath
  simp only [h']

theorem both_of_two_le {p q : Prop} [Decidable p] [Decidable q]
    (h : 2 ≤ (if p then 1 else 0) + if q then 1 else 0) : p ∧ q := by
  by_cases hp : p <;> by_cases hq : q <;> simp [hp, hq] at h ⊢

theorem exists_child_prefix {P p : List Nat} (h : P <+: p) (hlt : P.length < p.length) : ∃ c, P ++ [c] <+: p := by
  obtain ⟨t, rfl⟩ := h
  cases t with
  | nil => simp at hlt
  | cons c t => exact ⟨c, by simp⟩

theorem owned_below_pending (hone : countPrefix ids (digitsOf text i) = 1) (hs : s ∈ ids)
    (hsP : OnPath s (digitsOf text i)) {r : List Nat} (hr : Owned (text :: ids) r) (hPr : digitsOf text i <+: r)
    (hlen : i < r.length) :
    r.length = i + 1 ∨ (digitOf s i = digitOf text i ∧ digitsOf text (i + 1) <+: r ∧ i + 1 < r.length) := by
  obtain ⟨p, c, rfl, hp, -, -⟩ := hr
  simp only [List.length_append, List.length_singleton] at hlen ⊢
  rcases Nat.lt_or_ge i p.length with hgt | hle
  · -- The parent is inner and below the leaf: both ids are under it, so they share the next digit.
    right
    have hPp : digitsOf text i <+: p := by
      rcases List.prefix_concat_iff.mp hPr with h | h
      · exact absurd (congrArg List.length h) (by simp; omega)
      · exact h
    obtain ⟨c', hc'⟩ := exists_child_prefix hPp (by simpa using hgt)
    have htwo : 2 ≤ countPrefix (text :: ids) p := hp.resolve_left (by rintro rfl; simp at hgt)
    have hle' := countPrefix_le_of_prefix (text :: ids) hc'
    rw [countPrefix_cons_child hone hs hsP] at hle'
    obtain ⟨hs', ht'⟩ := both_of_two_le (htwo.trans hle')
    refine ⟨hs'.trans ht'.symm, ?_, by omega⟩
    rw [digitsOf_succ, ht']
    exact hc'.trans (List.prefix_append _ _)
  · left
    have := hPr.length_le
    simp at this
    omega

end Split

theorem Owned.eq_of_prefix {ids : List (List UInt8)} {q r : List Nat} (hr : Owned ids r) (hq : q ≠ [])
    (hcount : countPrefix ids q ≤ 1) (hqr : q <+: r) : r = q := by
  obtain ⟨p, c, rfl, hp, -, -⟩ := hr
  rcases List.prefix_concat_iff.mp hqr with h | h
  · exact h.symm
  · rcases hp with rfl | hp
    · exact absurd (List.prefix_nil.mp h) hq
    · have := countPrefix_le_of_prefix ids h
      omega

theorem inner_hasNode {ids : List (List UInt8)} {p : List Nat} (hp : Inner ids p) (hlen : p.length ≤ 40) :
    HasNode ids none p := by
  refine ⟨?_, not_below_none p⟩
  by_cases hne : p = []
  · exact Or.inl hne
  · right
    have htwo := hp.resolve_left hne
    rw [← List.dropLast_append_getLast hne] at htwo ⊢
    exact owned_of_two_le (by simp; omega) htwo

@[simp] theorem content_none (ids : List (List UInt8)) (addr : List Nat → Nat) (q : List Nat) :
    content ids addr none q = settled ids addr q := rfl

theorem content_some_of_ne (ids : List (List UInt8)) (addr : List Nat → Nat) {P q : List Nat} (s : List UInt8)
    (h : q ≠ P) : content ids addr (some (P, s)) q = settled ids addr q := by
  simp [content, h]

theorem innerNode_child (ids : List (List UInt8)) (addr : List Nat → Nat) (p : List Nat) {c : Nat} (hc : c < 16) :
    (innerNode ids addr p).child c = some (childIndex ids addr (p ++ [c])) :=
  Node.child_of_tail_none _ hc

theorem innerNode_setChild (ids : List (List UInt8)) (addr : List Nat → Nat) (p : List Nat) {c : Nat} (hc : c < 16)
    (v : Int) : (innerNode ids addr p).setChild c v =
      some ⟨none, Function.update (innerNode ids addr p).children ⟨c, hc⟩ v⟩ :=
  Node.setChild_of_tail_none _ hc v

theorem shortenInv_shortenNew (minLength : Nat) : ShortenInv (shortenNew minLength) [] (fun _ => 0) none := by
  have hnone : ∀ q, ¬Owned [] q := by
    rintro q ⟨p, c, -, -, -, hpos⟩
    simp [countPrefix] at hpos
  refine ⟨by simp, rfl, le_rfl, by simp [shortenNew], fun _ _ => rfl, rfl, fun q hq => absurd hq (hnone q), ?_, ?_,
    fun P s h => by cases h⟩
  · rintro q r ⟨hq | hq, -⟩ ⟨hr | hr, -⟩ -
    · rw [hq, hr]
    all_goals exact absurd ‹Owned [] _› (hnone _)
  · rintro q ⟨hq | hq, -⟩ n hn
    · subst hq
      simp only [content_none, settled, Inner, true_or, if_true, List.length_nil, Nat.ofNat_pos, Option.some.injEq]
        at hn
      rw [← hn]
      simp [shortenNew, Node.empty, innerNode, childIndex, countPrefix]
    · exact absurd hq (hnone q)

namespace ShortenInv

variable {os : Shorten} {ids : List (List UInt8)} {addr : List Nat → Nat} {pend : Option (List Nat × List UInt8)}

theorem addr_lt (hinv : ShortenInv os ids addr pend) {q : List Nat} (hq : HasNode ids pend q) :
    addr q < os.nodeCount := by
  rcases hq with ⟨rfl | hq, hb⟩
  · rw [hinv.rootAddr]
    exact hinv.rootCount
  · exact (hinv.alloc q hq hb).2

theorem addr_ne (hinv : ShortenInv os ids addr pend) {q r : List Nat} (hq : HasNode ids pend q)
    (hr : HasNode ids pend r) (hne : q ≠ r) : addr q ≠ addr r :=
  fun h => hne (hinv.inj q r hq hr h)

theorem nodeAt_eq (hinv : ShortenInv os ids addr pend) {q : List Nat} (hq : HasNode ids pend q) :
    os.nodeAt (addr q) = some (os.nodes (addr q)) :=
  os.nodeAt_of_lt ((hinv.addr_lt hq).trans_le hinv.countLe)

theorem cons_forty (hinv : ShortenInv os ids addr none) {text : List UInt8} (ht : HexId text)
    (hinner : Inner ids (digitsOf text 40)) : ShortenInv os (text :: ids) addr none := by
  have howned : ∀ q, Owned (text :: ids) q → Owned ids q := fun q hq =>
    owned_of_owned_cons hinner hq fun h => by
      have h1 := h.length_le
      have h2 := hq.length_le
      simp at h1
      omega
  have hhas : ∀ q, HasNode (text :: ids) none q → HasNode ids none q :=
    fun q hq => ⟨hq.1.imp_right (howned q), hq.2⟩
  refine { hinv with hex := ?_, alloc := ?_, inj := ?_, nodes := ?_, pending := fun P s h => by cases h }
  · exact hexId_cons ht hinv.hex
  · exact fun q hq hb => hinv.alloc q (howned q hq) hb
  · exact fun q r hq hr => hinv.inj q r (hhas q hq) (hhas r hr)
  · intro q hq n hn
    rw [content_none] at hn
    by_cases hpath : OnPath text q ∧ 40 ≤ q.length
    · -- The forty-digit node of the id is not read.
      have hlen : q.length = 40 := by
        rcases hq.1 with rfl | hq
        · simp at hpath
        · have := hq.length_le
          omega
      have hq40 : q = digitsOf text 40 := by rw [← hpath.1, hlen]
      rw [settled, if_pos ((hq40 ▸ hinner).cons text), if_neg (by omega)] at hn
      cases hn
    · have hq' : ¬OnPath text q ∨ q.length < 40 := by
        by_cases h : OnPath text q
        · exact Or.inr (Nat.lt_of_not_le fun h' => hpath ⟨h, h'⟩)
        · exact Or.inl h
      rw [settled_cons_eq hinner hq' fun _ => rfl] at hn
      exact hinv.nodes q (hhas q hq) n hn

/-- Where the walk of `text` finds no id going on with its next digit, `push_leaf` makes that digit
a leaf of the inner node `digitsOf text i`. -/
theorem pushLeaf_walk (hinv : ShortenInv os ids addr none) {text : List UInt8} (ht : HexId text) {i : Nat}
    (hi : i < 40) (hinner : Inner ids (digitsOf text i)) (hnext : countPrefix ids (digitsOf text (i + 1)) = 0)
    (hroom : os.nodeCount + 1 < shrtMax) :
    ∃ os', pushLeaf os (addr (digitsOf text i)) (digitOf text i) (text.drop (i + 1)) = some (os', true) ∧
      ShortenInv os' (text :: ids) (Function.update addr (digitsOf text (i + 1)) os.nodeCount) none ∧
      os'.minLength = os.minLength ∧ os'.nodeCount = os.nodeCount + 1 := by
  set P := digitsOf text i with hP
  set q := digitsOf text (i + 1) with hq
  have hd := digitOf_lt ht hi
  have hPhas : HasNode ids none P := inner_hasNode hinner (by simp [P]; omega)
  have hnode : os.nodes (addr P) = innerNode ids addr P :=
    hinv.nodes P hPhas _ (by rw [content_none, settled, if_pos hinner, if_pos (by simp [P]; omega)])
  obtain ⟨os', hpush, hnodes, hcnt, hsize, hmin, hfull⟩ := pushLeaf_eq os (innerNode ids addr P).children
    (text.drop (i + 1)) hd (hinv.addr_lt hPhas) hinv.countLe hinv.rootCount hroom hnode hinv.fresh
  refine ⟨os', hpush, ?_, hmin, hcnt⟩
  have hqP : q = P ++ [digitOf text i] := digitsOf_succ text i
  have hcount : countPrefix (text :: ids) q = 1 := by
    rw [countPrefix_cons_of_onPath ids (onPath_digitsOf text _), hnext]
  have hhas : ∀ r, HasNode (text :: ids) none r → r = q ∨ HasNode ids none r := by
    rintro r ⟨hr | hr, -⟩
    · exact Or.inr ⟨Or.inl hr, not_below_none r⟩
    · by_cases hqr : q <+: r
      · exact Or.inl (hr.eq_of_prefix (digitsOf_succ_ne_nil text i) (by omega) hqr)
      · exact Or.inr ⟨Or.inr (owned_of_owned_cons hinner hr hqr), not_below_none r⟩
  have hnotq : ∀ r, HasNode ids none r → ¬q <+: r := by
    rintro r ⟨rfl | ⟨p, c, rfl, -, -, hpos⟩, -⟩ hqr
    · exact digitsOf_succ_ne_nil text i (List.prefix_nil.mp hqr)
    · have := countPrefix_le_of_prefix ids hqr
      omega
  have hne : ∀ r, HasNode ids none r → r ≠ q := fun r hr h => hnotq r hr (h ▸ List.prefix_refl r)
  have hlt : ∀ r, HasNode ids none r → addr r < os.nodeCount := fun r hr => hinv.addr_lt hr
  have hPq : P ≠ q := fun h => digitsOf_succ_ne text i h.symm
  constructor
  · exact hexId_cons ht hinv.hex
  · rw [hfull]
    exact hinv.notFull
  · omega
  · exact hsize
  · intro k hk
    rw [hnodes, Function.update_of_ne (by omega), Function.update_of_ne (by have := hlt P hPhas; omega)]
    exact hinv.fresh k (by omega)
  · rw [Function.update_of_ne (hne [] ⟨Or.inl rfl, not_below_none _⟩)]
    exact hinv.rootAddr
  · intro r hr hb
    rcases hhas r ⟨Or.inr hr, hb⟩ with rfl | hr'
    · simp only [Function.update_self]
      have := hinv.rootCount
      omega
    · rw [Function.update_of_ne (hne r hr')]
      have := hinv.alloc r (hr'.1.resolve_left hr.ne_nil) hr'.2
      omega
  · intro r r' hr hr' heq
    rcases hhas r hr with rfl | hr <;> rcases hhas r' hr' with rfl | hr'
    · rfl
    · rw [Function.update_self, Function.update_of_ne (hne r' hr')] at heq
      exact absurd heq (by have := hlt r' hr'; omega)
    · rw [Function.update_self, Function.update_of_ne (hne r hr)] at heq
      exact absurd heq (by have := hlt r hr; omega)
    · rw [Function.update_of_ne (hne r hr), Function.update_of_ne (hne r' hr')] at heq
      exact hinv.inj r r' hr hr' heq
  · intro r hr nd hnd
    rw [content_none] at hnd
    rw [hnodes]
    rcases hhas r hr with rfl | hr'
    · -- The new leaf holds the rest of `text`.
      have hnotInner : ¬Inner (text :: ids) q := by
        rintro (h | h)
        · exact digitsOf_succ_ne_nil text i h
        · omega
      rw [settled, if_neg hnotInner, leafOf_cons_of_onPath ids (onPath_digitsOf text _)] at hnd
      simp only [Function.update_self]
      rw [← Option.some_inj.mp hnd]
      simp [q]
    · rw [Function.update_of_ne (hne r hr')]
      by_cases hrP : r = P
      · -- The inner node gains the new leaf as the child of `text`'s digit.
        subst hrP
        rw [settled, if_pos (hinner.cons text), if_pos (by simp [P]; omega)] at hnd
        have hv : childIndex (text :: ids) (Function.update addr q os.nodeCount) q = -(os.nodeCount : Int) := by
          rw [childIndex, hcount, if_neg (by omega), if_pos rfl, Function.update_self]
        rw [← Option.some_inj.mp hnd, Function.update_of_ne (by have := hlt _ hPhas; omega), Function.update_self,
          innerNode_cons_update hd (fun c hc => Function.update_of_ne (fun h => hc ?_) _ _) hv]
        rw [hqP] at h
        simpa using (List.append_inj' h rfl).2
      · -- Every other node is as it was.
        have hr'' := offWalk_or_above hrP (hnotq r hr')
        have haddr : ∀ c, Function.update addr q os.nodeCount (r ++ [c]) = addr (r ++ [c]) := by
          intro c
          refine Function.update_of_ne (fun h => ?_) _ _
          rw [hqP] at h
          exact hrP (List.append_inj_left' h rfl)
        rw [settled_cons_eq hinner hr'' haddr] at hnd
        rw [Function.update_of_ne (by have := hlt r hr'; omega),
          Function.update_of_ne (hinv.addr_ne hr' hPhas hrP)]
        exact hinv.nodes r hr' nd hnd
  · intro P s h
    cases h

/-- Where one id goes on with the next digit of `text`, the walk makes that leaf's child index
positive and moves to the leaf, which is then pending. -/
theorem flip_walk (hinv : ShortenInv os ids addr none) {text : List UInt8} (ht : HexId text) {i : Nat}
    (hi : i < 40) (hinner : Inner ids (digitsOf text i)) (hnext : countPrefix ids (digitsOf text (i + 1)) = 1)
    {s : List UInt8} (hs : s ∈ ids) (hsq : OnPath s (digitsOf text (i + 1))) :
    ShortenInv (os.setNode (addr (digitsOf text i)) ⟨none, Function.update (innerNode ids addr (digitsOf text i)).children
      ⟨digitOf text i, digitOf_lt ht hi⟩ (addr (digitsOf text (i + 1)))⟩) (text :: ids) addr
      (some (digitsOf text (i + 1), s)) := by
  set P := digitsOf text i with hP
  set q := digitsOf text (i + 1) with hq
  have hPhas : HasNode ids none P := inner_hasNode hinner (by simp [P]; omega)
  have hqP : q = P ++ [digitOf text i] := digitsOf_succ text i
  have hqOwned : Owned ids q := ⟨P, digitOf text i, hqP, hinner, by simp [P]; omega, by omega⟩
  have hqhas : HasNode ids none q := ⟨Or.inr hqOwned, not_below_none q⟩
  have hPq : P ≠ q := fun h => digitsOf_succ_ne text i h.symm
  have hcount : countPrefix (text :: ids) q = 2 := by
    rw [countPrefix_cons_of_onPath ids (onPath_digitsOf text _), hnext]
  have hhas : ∀ r, HasNode (text :: ids) (some (q, s)) r → HasNode ids none r := by
    rintro r ⟨hr | hr, hb⟩
    · exact ⟨Or.inl hr, not_below_none r⟩
    · by_cases hqr : q <+: r
      · have hlen : r.length ≤ q.length := by
          by_contra h
          exact hb (below_some_iff.mpr ⟨hqr, by omega⟩)
        rw [(hqr.eq_of_length (Nat.le_antisymm hqr.length_le hlen)).symm]
        exact hqhas
      · exact ⟨Or.inr (owned_of_owned_cons hinner hr hqr), not_below_none r⟩
  have hnode : ∀ r, HasNode ids none r → r ≠ P →
      (os.setNode (addr P) ⟨none, Function.update (innerNode ids addr P).children
        ⟨digitOf text i, digitOf_lt ht hi⟩ (addr q)⟩).nodes (addr r) = os.nodes (addr r) := fun r hr hrP => by
    rw [Shorten.nodes_setNode, Function.update_of_ne (hinv.addr_ne hr hPhas hrP)]
  constructor
  · exact hexId_cons ht hinv.hex
  · exact hinv.notFull
  · exact hinv.rootCount
  · exact hinv.countLe
  · intro k hk
    rw [Shorten.nodeCount_setNode] at hk
    rw [Shorten.nodes_setNode, Function.update_of_ne (by have := hinv.addr_lt hPhas; omega)]
    exact hinv.fresh k hk
  · exact hinv.rootAddr
  · intro r hr hb
    have hr' := hhas r ⟨Or.inr hr, hb⟩
    exact hinv.alloc r (hr'.1.resolve_left hr.ne_nil) hr'.2
  · exact fun r r' hr hr' => hinv.inj r r' (hhas r hr) (hhas r' hr')
  · intro r hr nd hnd
    by_cases hrq : r = q
    · -- The pending leaf is still the leaf of `s`.
      subst hrq
      simp only [content] at hnd
      rw [hnode q hqhas hPq.symm, ← Option.some_inj.mp hnd]
      have hnotInner : ¬Inner ids q := by
        rintro (h | h)
        · exact digitsOf_succ_ne_nil text i h
        · omega
      refine hinv.nodes q hqhas _ ?_
      rw [content_none, settled, if_neg hnotInner, leafOf_eq_of_countPrefix_eq_one hnext hs hsq, Option.map_some]
    · rw [content_some_of_ne _ _ s hrq] at hnd
      by_cases hrP : r = P
      · -- The child of `text`'s digit now leads to a node.
        subst hrP
        rw [settled, if_pos (hinner.cons text), if_pos (by simp [P]; omega)] at hnd
        have hv : childIndex (text :: ids) addr q = (addr q : Int) := by
          rw [childIndex, hcount, if_neg (by omega), if_neg (by omega)]
        rw [← Option.some_inj.mp hnd, Shorten.nodes_setNode, Function.update_self,
          innerNode_cons_update (digitOf_lt ht hi) (fun _ _ => rfl) hv]
      · have hr' := hhas r hr
        have hqr : ¬q <+: r := by
          intro h
          rcases hr'.1 with h' | h'
          · exact digitsOf_succ_ne_nil text i (List.prefix_nil.mp (h' ▸ h))
          · exact hrq (h'.eq_of_prefix (digitsOf_succ_ne_nil text i) (by omega) h)
        rw [settled_cons_eq hinner (offWalk_or_above hrP hqr) fun _ => rfl] at hnd
        rw [hnode r hr' hrP]
        exact hinv.nodes r hr' nd hnd
  · intro P' s' h
    cases h
    exact ⟨hqOwned.cons text, List.mem_cons_of_mem text hs, hsq⟩

theorem forget_forty {text s : List UInt8} (hinv : ShortenInv os (text :: ids) addr (some (digitsOf text 40, s)))
    (hs : s ∈ ids) : ShortenInv os (text :: ids) addr none := by
  have hsP := (hinv.pending _ s rfl).2.2
  have hnot : ∀ r, HasNode (text :: ids) none r → ¬Below (some (digitsOf text 40, s)) r := by
    rintro r ⟨hr | hr, -⟩ hb
    · subst hr
      simp [below_some_iff] at hb
    · have := (below_some_iff.mp hb).2
      have := hr.length_le
      simp at *
      omega
  refine { hinv with alloc := ?_, inj := ?_, nodes := ?_, pending := fun P s h => by cases h }
  · exact fun r hr _ => hinv.alloc r hr (hnot r ⟨Or.inr hr, not_below_none r⟩)
  · exact fun r r' hr hr' => hinv.inj r r' ⟨hr.1, hnot r hr⟩ ⟨hr'.1, hnot r' hr'⟩
  · intro r hr nd hnd
    rw [content_none] at hnd
    by_cases hrP : r = digitsOf text 40
    · -- The node of two equal ids is left open.
      subst hrP
      have htwo : 2 ≤ countPrefix (text :: ids) (digitsOf text 40) := by
        rw [countPrefix_cons_of_onPath ids (onPath_digitsOf text 40)]
        have := countPrefix_pos_of_mem hs hsP
        omega
      rw [settled, if_pos (show Inner (text :: ids) _ from Or.inr htwo), if_neg (by simp)] at hnd
      cases hnd
    · exact hinv.nodes r ⟨hr.1, hnot r hr⟩ nd (by rwa [content_some_of_ne _ _ s hrP])

theorem settled_congr_addr {ids : List (List UInt8)} {addr addr' : List Nat → Nat} {r : List Nat}
    (haddr : ∀ c, addr' (r ++ [c]) = addr (r ++ [c])) : settled ids addr' r = settled ids addr r := by
  simp only [settled, innerNode, childIndex, haddr]

theorem descend_pending {text s : List UInt8} {i : Nat}
    (hinv : ShortenInv os (text :: ids) addr (some (digitsOf text i, s))) (hi : i < 40)
    (hone : countPrefix ids (digitsOf text i) = 1) (hs : s ∈ ids) (hsame : digitOf s i = digitOf text i)
    (hd : digitOf text i < 16) (os' : Shorten)
    (hnodeP : os'.nodes (addr (digitsOf text i)) =
      ⟨none, Function.update (fun _ => 0) ⟨digitOf text i, hd⟩ (os.nodeCount : Int)⟩)
    (hleaf : os'.nodes os.nodeCount = leafNode (s.drop (i + 1)))
    (hother : ∀ k, k ≠ addr (digitsOf text i) → k ≠ os.nodeCount → os'.nodes k = os.nodes k)
    (hcount : os'.nodeCount = os.nodeCount + 1) (hsize : os'.nodeCount ≤ os'.size) (hfull : os'.full = os.full) :
    ShortenInv os' (text :: ids) (Function.update addr (digitsOf text (i + 1)) os.nodeCount)
      (some (digitsOf text (i + 1), s)) := by
  set P := digitsOf text i with hP
  set q := digitsOf text (i + 1) with hq
  obtain ⟨hPowned, -, hsP⟩ := hinv.pending P s rfl
  have hPhas : HasNode (text :: ids) (some (P, s)) P := ⟨Or.inr hPowned, by simp [below_some_iff]⟩
  have hqP : q = P ++ [digitOf text i] := digitsOf_succ text i
  have hsq : OnPath s q := by
    rw [hqP, onPath_append_iff, hP, length_digitsOf]
    exact ⟨hsP, hsame⟩
  have hchild : ∀ c, countPrefix (text :: ids) (P ++ [c]) = if digitOf text i = c then 2 else 0 := by
    intro c
    rw [countPrefix_cons_child hone hs hsP, hsame]
    split <;> rfl
  have hqcount : countPrefix (text :: ids) q = 2 := by rw [hqP, hchild, if_pos rfl]
  have hPinner : Inner (text :: ids) P := by
    right
    rw [countPrefix_cons_of_onPath ids (onPath_digitsOf text i), hone]
  have hqOwned : Owned (text :: ids) q := ⟨P, _, hqP, hPinner, by simp [P]; omega, by omega⟩
  have hPq : P ≠ q := fun h => digitsOf_succ_ne text i h.symm
  have hlt : ∀ r, HasNode (text :: ids) (some (P, s)) r → addr r < os.nodeCount := fun r hr => hinv.addr_lt hr
  have hhas : ∀ r, HasNode (text :: ids) (some (q, s)) r → r = q ∨ HasNode (text :: ids) (some (P, s)) r := by
    rintro r ⟨hr, hb⟩
    by_cases hPr : P <+: r ∧ P.length < r.length
    · have hrOwned : Owned (text :: ids) r := hr.resolve_left (by rintro rfl; simp at hPr)
      rcases owned_below_pending hone hs hsP hrOwned hPr.1 (by simpa [P] using hPr.2) with hlen | ⟨-, hqr, hlen⟩
      · left
        obtain ⟨c, hc⟩ := exists_child_prefix hPr.1 hPr.2
        have hrc : r = P ++ [c] := (hc.eq_of_length (by simp [P, hlen])).symm
        obtain ⟨-, -, -, -, -, hpos⟩ := hrOwned
        rw [hrc, hchild] at hpos
        rw [hrc, hqP, show digitOf text i = c by by_contra h; simp [h] at hpos]
      · exact absurd (below_some_iff.mpr ⟨hqr, by simp; omega⟩) hb
    · exact Or.inr ⟨hr, fun h => hPr (below_some_iff.mp h)⟩
  have hnotP : ∀ r, HasNode (text :: ids) (some (P, s)) r → r ≠ P → ¬P <+: r := fun r hr hrP hPr =>
    hr.2 (below_some_iff.mpr ⟨hPr, lt_of_le_of_ne hPr.length_le fun h => hrP (hPr.eq_of_length h).symm⟩)
  have hne : ∀ r, HasNode (text :: ids) (some (P, s)) r → r ≠ q := by
    intro r hr hrq
    subst hrq
    exact hnotP _ hr hPq.symm (hqP ▸ List.prefix_append P _)
  constructor
  · exact hinv.hex
  · rw [hfull]
    exact hinv.notFull
  · omega
  · exact hsize
  · intro k hk
    rw [hother k (by have := hlt P hPhas; omega) (by omega)]
    exact hinv.fresh k (by omega)
  · rw [Function.update_of_ne (by rintro h; exact digitsOf_succ_ne_nil text i h.symm)]
    exact hinv.rootAddr
  · intro r hr hb
    rcases hhas r ⟨Or.inr hr, hb⟩ with rfl | hr'
    · rw [Function.update_self]
      have := hinv.rootCount
      omega
    · rw [Function.update_of_ne (hne r hr')]
      have := hinv.alloc r hr hr'.2
      omega
  · intro r r' hr hr' heq
    rcases hhas r hr with rfl | hr <;> rcases hhas r' hr' with rfl | hr'
    · rfl
    · rw [Function.update_self, Function.update_of_ne (hne r' hr')] at heq
      exact absurd heq (by have := hlt r' hr'; omega)
    · rw [Function.update_self, Function.update_of_ne (hne r hr)] at heq
      exact absurd heq (by have := hlt r hr; omega)
    · rw [Function.update_of_ne (hne r hr), Function.update_of_ne (hne r' hr')] at heq
      exact hinv.inj r r' hr hr' heq
  · intro r hr nd hnd
    rcases hhas r hr with rfl | hr'
    · -- The new leaf of `s` is pending.
      simp only [content] at hnd
      rw [Function.update_self, hleaf, ← Option.some_inj.mp hnd, length_digitsOf]
    · rw [content_some_of_ne _ _ s (hne r hr')] at hnd
      rw [Function.update_of_ne (hne r hr')]
      by_cases hrP : r = P
      · -- The leaf is now an inner node whose one child is the digit both ids share.
        subst hrP
        rw [settled, if_pos hPinner, if_pos (by simp [P]; omega)] at hnd
        rw [hnodeP, ← Option.some_inj.mp hnd, innerNode, Node.mk.injEq]
        refine ⟨rfl, funext fun c => ?_⟩
        by_cases hc : c = ⟨digitOf text i, hd⟩
        · subst hc
          rw [Function.update_self, ← hqP, childIndex, hqcount, if_neg (by omega), if_neg (by omega),
            Function.update_self]
        · have hcd : digitOf text i ≠ c.val := fun h => hc (Fin.ext h.symm)
          rw [Function.update_of_ne hc, childIndex, hchild, if_neg hcd, if_pos rfl]
      · have hPr := hnotP r hr' hrP
        have haddr : ∀ c, Function.update addr q os.nodeCount (r ++ [c]) = addr (r ++ [c]) := by
          intro c
          refine Function.update_of_ne (fun h => hPr ?_) _ _
          rw [hqP] at h
          rw [List.append_inj_left' h rfl]
        rw [settled_congr_addr haddr] at hnd
        rw [hother _ (hinv.addr_ne hr' hPhas hrP) (by have := hlt r hr'; omega)]
        exact hinv.nodes r hr' nd (by rwa [content_some_of_ne _ _ s hrP])
  · intro P' s' h
    cases h
    exact ⟨hqOwned, List.mem_cons_of_mem text hs, hsq⟩

theorem split_pending {text s : List UInt8} {i : Nat}
    (hinv : ShortenInv os (text :: ids) addr (some (digitsOf text i, s))) (hi : i < 40)
    (hone : countPrefix ids (digitsOf text i) = 1) (hs : s ∈ ids) (hdiff : digitOf s i ≠ digitOf text i)
    (ha : digitOf s i < 16) (hd : digitOf text i < 16) (os' : Shorten)
    (hnodeP : os'.nodes (addr (digitsOf text i)) = ⟨none, Function.update (Function.update (fun _ => 0)
      ⟨digitOf s i, ha⟩ (-(os.nodeCount : Int))) ⟨digitOf text i, hd⟩ (-((os.nodeCount + 1 : Nat) : Int))⟩)
    (hleafS : os'.nodes os.nodeCount = leafNode (s.drop (i + 1)))
    (hleafT : os'.nodes (os.nodeCount + 1) = leafNode (text.drop (i + 1)))
    (hother : ∀ k, k ≠ addr (digitsOf text i) → k ≠ os.nodeCount → k ≠ os.nodeCount + 1 → os'.nodes k = os.nodes k)
    (hcount : os'.nodeCount = os.nodeCount + 2) (hsize : os'.nodeCount ≤ os'.size) (hfull : os'.full = os.full) :
    ShortenInv os' (text :: ids) (Function.update (Function.update addr (digitsOf s (i + 1)) os.nodeCount)
      (digitsOf text (i + 1)) (os.nodeCount + 1)) none := by
  set P := digitsOf text i with hP
  set n := os.nodeCount with hn
  obtain ⟨hPowned, -, hsP⟩ := hinv.pending P s rfl
  have hPhas : HasNode (text :: ids) (some (P, s)) P := ⟨Or.inr hPowned, by simp [below_some_iff]⟩
  set qs := digitsOf s (i + 1) with hqs
  set qt := digitsOf text (i + 1) with hqt
  have hqsP : qs = P ++ [digitOf s i] := by rw [hqs, digitsOf_succ, show digitsOf s i = P by simpa [OnPath, P] using hsP]
  have hqtP : qt = P ++ [digitOf text i] := digitsOf_succ text i
  have hchild : ∀ c, countPrefix (text :: ids) (P ++ [c]) =
      (if digitOf s i = c then 1 else 0) + if digitOf text i = c then 1 else 0 :=
    countPrefix_cons_child hone hs hsP
  have hqscount : countPrefix (text :: ids) qs = 1 := by rw [hqsP, hchild, if_pos rfl, if_neg hdiff.symm]
  have hqtcount : countPrefix (text :: ids) qt = 1 := by rw [hqtP, hchild, if_neg hdiff, if_pos rfl]
  have hPinner : Inner (text :: ids) P := by
    right
    rw [countPrefix_cons_of_onPath ids (onPath_digitsOf text i), hone]
  have hst : qs ≠ qt := fun h => hdiff (by rw [hqsP, hqtP] at h; simpa using h)
  have hlt : ∀ r, HasNode (text :: ids) (some (P, s)) r → addr r < n := fun r hr => hinv.addr_lt hr
  have hhas : ∀ r, HasNode (text :: ids) none r → r = qs ∨ r = qt ∨ HasNode (text :: ids) (some (P, s)) r := by
    rintro r ⟨hr, -⟩
    by_cases hPr : P <+: r ∧ P.length < r.length
    · have hrOwned : Owned (text :: ids) r := hr.resolve_left (by rintro rfl; simp at hPr)
      rcases owned_below_pending hone hs hsP hrOwned hPr.1 (by simpa [P] using hPr.2) with hlen | ⟨hsame, -⟩
      · obtain ⟨c, hc⟩ := exists_child_prefix hPr.1 hPr.2
        have hrc : r = P ++ [c] := (hc.eq_of_length (by simp [P, hlen])).symm
        obtain ⟨-, -, -, -, -, hpos⟩ := hrOwned
        rw [hrc, hchild] at hpos
        by_cases hsc : digitOf s i = c
        · exact Or.inl (by rw [hrc, hqsP, hsc])
        · by_cases htc : digitOf text i = c
          · exact Or.inr (Or.inl (by rw [hrc, hqtP, htc]))
          · simp [hsc, htc] at hpos
      · exact absurd hsame hdiff
    · exact Or.inr (Or.inr ⟨hr, fun h => hPr (below_some_iff.mp h)⟩)
  have hnotP : ∀ r, HasNode (text :: ids) (some (P, s)) r → r ≠ P → ¬P <+: r := fun r hr hrP hPr =>
    hr.2 (below_some_iff.mpr ⟨hPr, lt_of_le_of_ne hPr.length_le fun h => hrP (hPr.eq_of_length h).symm⟩)
  have hne : ∀ r, HasNode (text :: ids) (some (P, s)) r → r ≠ qs ∧ r ≠ qt := by
    intro r hr
    have hPq : P ≠ qs ∧ P ≠ qt := ⟨fun h => by simpa using congrArg List.length (h.trans hqsP),
      fun h => by simpa using congrArg List.length (h.trans hqtP)⟩
    constructor <;> rintro rfl
    · exact hnotP _ hr hPq.1.symm (hqsP ▸ List.prefix_append P _)
    · exact hnotP _ hr hPq.2.symm (hqtP ▸ List.prefix_append P _)
  have haddr : ∀ r, HasNode (text :: ids) (some (P, s)) r →
      Function.update (Function.update addr qs n) qt (n + 1) r = addr r := fun r hr => by
    rw [Function.update_of_ne (hne r hr).2, Function.update_of_ne (hne r hr).1]
  have haddrS : Function.update (Function.update addr qs n) qt (n + 1) qs = n := by
    rw [Function.update_of_ne hst, Function.update_self]
  constructor
  · exact hinv.hex
  · rw [hfull]
    exact hinv.notFull
  · omega
  · exact hsize
  · intro k hk
    rw [hother k (by have := hlt P hPhas; omega) (by omega) (by omega)]
    exact hinv.fresh k (by omega)
  · rw [haddr [] ⟨Or.inl rfl, by simp [below_some_iff]⟩]
    exact hinv.rootAddr
  · intro r hr hb
    have := hinv.rootCount
    rcases hhas r ⟨Or.inr hr, hb⟩ with rfl | rfl | hr'
    · rw [haddrS]
      omega
    · rw [Function.update_self]
      omega
    · rw [haddr r hr']
      have := hinv.alloc r hr hr'.2
      omega
  · intro r r' hr hr' heq
    have hval : ∀ r, HasNode (text :: ids) none r →
        Function.update (Function.update addr qs n) qt (n + 1) r = n ∧ r = qs ∨
        Function.update (Function.update addr qs n) qt (n + 1) r = n + 1 ∧ r = qt ∨
        Function.update (Function.update addr qs n) qt (n + 1) r = addr r ∧ HasNode (text :: ids) (some (P, s)) r := by
      intro r hr
      rcases hhas r hr with rfl | rfl | hr'
      · exact Or.inl ⟨haddrS, rfl⟩
      · exact Or.inr (Or.inl ⟨Function.update_self _ _ _, rfl⟩)
      · exact Or.inr (Or.inr ⟨haddr r hr', hr'⟩)
    rcases hval r hr with ⟨h, rfl⟩ | ⟨h, rfl⟩ | ⟨h, hr⟩ <;>
      rcases hval r' hr' with ⟨h', rfl⟩ | ⟨h', rfl⟩ | ⟨h', hr'⟩ <;> simp only [h, h'] at heq
    all_goals first
      | rfl
      | omega
      | exact absurd heq (by have := hlt _ hr; omega)
      | exact absurd heq (by have := hlt _ hr'; omega)
      | exact hinv.inj _ _ hr hr' heq
  · intro r hr nd hnd
    rw [content_none] at hnd
    rcases hhas r hr with rfl | rfl | hr'
    · -- The leaf of `s`, one digit down.
      have hnotInner : ¬Inner (text :: ids) qs := by
        rintro (h | h)
        · exact digitsOf_succ_ne_nil s i h
        · omega
      have hoff : ¬OnPath text qs := by
        rw [hqsP]
        exact not_onPath_of_ne hdiff
      have hone' : countPrefix ids qs = 1 := by
        rw [hqsP, countPrefix_child_of_one hone hs hsP, if_pos (by simp [P])]
      rw [settled, if_neg hnotInner, leafOf_cons_of_not_onPath ids hoff,
        leafOf_eq_of_countPrefix_eq_one hone' hs (onPath_digitsOf s _)] at hnd
      rw [haddrS, hleafS, ← Option.some_inj.mp hnd]
      simp [qs]
    · -- The leaf of `text`.
      have hnotInner : ¬Inner (text :: ids) qt := by
        rintro (h | h)
        · exact digitsOf_succ_ne_nil text i h
        · omega
      rw [settled, if_neg hnotInner, leafOf_cons_of_onPath ids (onPath_digitsOf text _)] at hnd
      rw [Function.update_self, hleafT, ← Option.some_inj.mp hnd]
      simp [qt]
    · rw [haddr r hr']
      by_cases hrP : r = P
      · -- The leaf is now an inner node with the two leaves as children.
        subst hrP
        rw [settled, if_pos hPinner, if_pos (by simp [P]; omega)] at hnd
        rw [hnodeP, ← Option.some_inj.mp hnd, innerNode, Node.mk.injEq]
        refine ⟨rfl, funext fun c => ?_⟩
        by_cases hct : c = ⟨digitOf text i, hd⟩
        · subst hct
          rw [Function.update_self, ← hqtP, childIndex, hqtcount, if_neg (by omega), if_pos rfl, Function.update_self]
        · by_cases hcs : c = ⟨digitOf s i, ha⟩
          · subst hcs
            rw [Function.update_of_ne hct, Function.update_self, ← hqsP, childIndex, hqscount, if_neg (by omega),
              if_pos rfl, haddrS]
          · have hcs' : digitOf s i ≠ c.val := fun h => hcs (Fin.ext h.symm)
            have hct' : digitOf text i ≠ c.val := fun h => hct (Fin.ext h.symm)
            rw [Function.update_of_ne hct, Function.update_of_ne hcs, childIndex, hchild, if_neg hcs', if_neg hct',
              if_pos rfl]
      · have hPr := hnotP r hr' hrP
        have haddr' : ∀ c, Function.update (Function.update addr qs n) qt (n + 1) (r ++ [c]) = addr (r ++ [c]) := by
          intro c
          have hs' : r ++ [c] ≠ qs := fun h => hPr (by rw [hqsP] at h; rw [List.append_inj_left' h rfl])
          have ht' : r ++ [c] ≠ qt := fun h => hPr (by rw [hqtP] at h; rw [List.append_inj_left' h rfl])
          rw [Function.update_of_ne ht', Function.update_of_ne hs']
        rw [settled_congr_addr haddr'] at hnd
        rw [hother _ (hinv.addr_ne hr' hPhas hrP) (by have := hlt r hr'; omega) (by have := hlt r hr'; omega)]
        exact hinv.nodes r hr' nd (by rwa [content_some_of_ne _ _ s hrP])
  · intro P' s' h
    cases h

theorem convertLeaf_pending {P : List Nat} {s : List UInt8} (hinv : ShortenInv os ids addr (some (P, s)))
    (hsx : HexId s) (hP : P.length < 40) (hroom : os.nodeCount + 1 < shrtMax) :
    ∃ os', convertLeaf os (addr P) = some (os', true) ∧
      os'.nodes = Function.update (Function.update os.nodes (addr P) ⟨none, Function.update (fun _ => 0)
        ⟨digitOf s P.length, digitOf_lt hsx hP⟩ (-(os.nodeCount : Int))⟩) os.nodeCount (leafNode (s.drop (P.length + 1))) ∧
      os'.nodeCount = os.nodeCount + 1 ∧ os'.nodeCount ≤ os'.size ∧ os'.minLength = os.minLength ∧
      os'.full = os.full := by
  obtain ⟨hPowned, -, -⟩ := hinv.pending P s rfl
  have hPhas : HasNode ids (some (P, s)) P := ⟨Or.inr hPowned, by simp [below_some_iff]⟩
  have hleaf : os.nodes (addr P) = leafNode (s.drop P.length) :=
    hinv.nodes P hPhas _ (by simp [content])
  have hlt := hinv.addr_lt hPhas
  have hbyte : (fromhex (byteAt (s.drop P.length) 0)).toInt = (digitOf s P.length : Int) := by
    rw [← digitOf_cast hsx hP]
    simp [byteAt, List.getD_eq_getElem?_getD]
  obtain ⟨os', hpush, hnodes, hcount, hsize, hmin, hfull⟩ := pushLeaf_eq
    (os.setNode (addr P) (leafNode (s.drop P.length)).clearTail)
    (fun _ => 0) ((s.drop P.length).drop 1) (digitOf_lt hsx hP) hlt hinv.countLe hinv.rootCount hroom
    (by rw [Shorten.nodes_setNode, Function.update_self, clearTail_leafNode]; rfl)
    (fun k hk => by rw [Shorten.nodes_setNode, Function.update_of_ne (by simp at hk; omega)]; exact hinv.fresh k hk)
  refine ⟨os', ?_, ?_, hcount, hsize, hmin, hfull⟩
  · simp only [convertLeaf, hinv.nodeAt_eq hPhas, hleaf, tail_leafNode, Option.bind_eq_bind, Option.bind_some]
    rw [hbyte, hpush]
  · rw [hnodes, Shorten.nodes_setNode, Function.update_idem, List.drop_drop, Nat.add_comm]
    rfl

theorem withMinLength (hinv : ShortenInv os ids addr pend) (m : Nat) :
    ShortenInv { os with minLength := m } ids addr pend :=
  ⟨hinv.hex, hinv.notFull, hinv.rootCount, hinv.countLe, hinv.fresh, hinv.rootAddr, hinv.alloc, hinv.inj, hinv.nodes,
    hinv.pending⟩

end ShortenInv

/-! ### The loop -/

theorem addLoop_pending {text : List UInt8} (ht : HexId text) {ids : List (List UInt8)} {s : List UInt8}
    (hs : s ∈ ids) (left : Nat) : ∀ {os : Shorten} {addr : List Nat → Nat} {i : Nat},
      ShortenInv os (text :: ids) addr (some (digitsOf text i, s)) → i + left = 40 →
      countPrefix ids (digitsOf text i) = 1 → os.nodeCount + (sharedLength ids text + 2 - i) < shrtMax →
      ∃ os' addr', addLoop text left os i (addr (digitsOf text i)) true = some (finish os' (sharedLength ids text)) ∧
        ShortenInv os' (text :: ids) addr' none ∧ os'.minLength = os.minLength ∧
        os'.nodeCount ≤ os.nodeCount + (sharedLength ids text + 2 - i) := by
  induction left with
  | zero =>
    intro os addr i hinv hi hone _
    obtain rfl : i = 40 := by omega
    refine ⟨os, addr, ?_, hinv.forget_forty hs, rfl, by omega⟩
    rw [sharedLength_forty (by omega)]
    rfl
  | succ left ih =>
    intro os addr i hinv hi hone hroom
    have hi' : i < 40 := by omega
    have hS : i ≤ sharedLength ids text := le_sharedLength (by omega) (by omega)
    have hsx : HexId s := hinv.hex s (List.mem_cons_of_mem text hs)
    have hsP : OnPath s (digitsOf text i) := (hinv.pending _ s rfl).2.2
    have ha := digitOf_lt hsx hi'
    have hd := digitOf_lt ht hi'
    have hPhas : HasNode (text :: ids) (some (digitsOf text i, s)) (digitsOf text i) :=
      ⟨Or.inr (hinv.pending _ s rfl).1, by simp [below_some_iff]⟩
    have hlt := hinv.addr_lt hPhas
    obtain ⟨os₂, hconv, hnodes₂, hcount₂, hsize₂, hmin₂, hfull₂⟩ :=
      hinv.convertLeaf_pending hsx (by simpa using hi') (by omega)
    simp only [length_digitsOf] at hnodes₂
    have hnode₂ : os₂.nodes (addr (digitsOf text i)) =
        ⟨none, Function.update (fun _ => 0) ⟨digitOf s i, ha⟩ (-(os.nodeCount : Int))⟩ := by
      rw [hnodes₂, Function.update_of_ne (by omega), Function.update_self]
    have hat : os₂.nodeAt (addr (digitsOf text i)) = some (os₂.nodes (addr (digitsOf text i))) :=
      os₂.nodeAt_of_lt (by omega)
    rw [addLoop, if_neg (ht i hi')]
    simp only [if_true, hconv, Option.bind_eq_bind, Option.bind_some, Bool.not_true, Bool.false_eq_true, if_false,
      hat, hnode₂, digitOf_cast ht hi', Node.child_of_tail_none _ hd]
    by_cases hsame : digitOf s i = digitOf text i
    · -- Both ids go on with the same digit: the leaf of `s` moves one digit down, still pending.
      have hfin : (⟨digitOf text i, hd⟩ : Fin 16) = ⟨digitOf s i, ha⟩ := Fin.ext hsame.symm
      have hn0 : 0 < os.nodeCount := hinv.rootCount
      have hread : Function.update (fun _ : Fin 16 => (0 : Int)) ⟨digitOf s i, ha⟩ (-(os.nodeCount : Int))
          ⟨digitOf text i, hd⟩ = -(os.nodeCount : Int) := by
        rw [hfin, Function.update_self]
      simp only [hread, neg_eq_zero, Nat.cast_eq_zero, Nat.pos_iff_ne_zero.mp hn0, if_false, Left.neg_neg_iff,
        Nat.cast_pos.mpr hn0, if_true, Node.setChild_of_tail_none _ hd, Option.bind_some, neg_neg]
      have hinv₃ := hinv.descend_pending hi' hone hs hsame hd (os₂.setNode (addr (digitsOf text i))
          ⟨none, Function.update (Function.update (fun _ => 0) ⟨digitOf s i, ha⟩ (-(os.nodeCount : Int)))
            ⟨digitOf text i, hd⟩ (os.nodeCount : Int)⟩)
        (by rw [Shorten.nodes_setNode, Function.update_self, ← hfin, Function.update_idem])
        (by rw [Shorten.nodes_setNode, Function.update_of_ne (by omega), hnodes₂, Function.update_self])
        (fun k h1 h2 => by rw [Shorten.nodes_setNode, Function.update_of_ne h1, hnodes₂, Function.update_of_ne h2,
          Function.update_of_ne h1])
        hcount₂ hsize₂ hfull₂
      have hone' : countPrefix ids (digitsOf text (i + 1)) = 1 := by
        rw [digitsOf_succ, countPrefix_child_of_one hone hs hsP, length_digitsOf, if_pos hsame]
      obtain ⟨os', addr', hrun, hinv', hmin, hcount⟩ := ih hinv₃ (by omega) hone' (by simp; omega)
      refine ⟨os', addr', ?_, hinv', hmin.trans hmin₂, by simp at hcount; omega⟩
      rw [← hrun, Function.update_self]
    · -- The ids part here: the leaf becomes an inner node with a leaf for each.
      have hfin : (⟨digitOf text i, hd⟩ : Fin 16) ≠ ⟨digitOf s i, ha⟩ := fun h => hsame (Fin.ext_iff.mp h).symm
      obtain ⟨os₃, hpush, hnodes₃, hcount₃, hsize₃, hmin₃, hfull₃⟩ := pushLeaf_eq os₂
        (Function.update (fun _ => 0) ⟨digitOf s i, ha⟩ (-(os.nodeCount : Int))) (text.drop (i + 1)) hd
        (by omega) hsize₂ (by omega) (by omega) hnode₂ (fun k hk => by
          rw [hnodes₂, Function.update_of_ne (by omega), Function.update_of_ne (by omega)]
          exact hinv.fresh k (by omega))
      simp only [Function.update_of_ne hfin, if_true, hpush, Option.bind_some, Bool.not_true, Bool.false_eq_true,
        if_false]
      have hinv₃ := hinv.split_pending hi' hone hs hsame ha hd os₃
        (by rw [hnodes₃, Function.update_of_ne (by omega), Function.update_self, hcount₂])
        (by rw [hnodes₃, Function.update_of_ne (by omega), Function.update_of_ne (by omega), hnodes₂,
          Function.update_self])
        (by rw [hnodes₃, hcount₂, Function.update_self])
        (fun k h1 h2 h3 => by
          rw [hnodes₃, Function.update_of_ne (by omega), Function.update_of_ne h1, hnodes₂, Function.update_of_ne h2,
            Function.update_of_ne h1])
        (by omega) hsize₃ (hfull₃.trans hfull₂)
      have hnext : countPrefix ids (digitsOf text (i + 1)) = 0 := by
        rw [digitsOf_succ, countPrefix_child_of_one hone hs hsP, length_digitsOf, if_neg hsame]
      refine ⟨os₃, _, ?_, hinv₃, hmin₃.trans hmin₂, by omega⟩
      rw [sharedLength_eq hi' (Or.inr (by omega)) hnext]
/-- Along inner nodes from `digitsOf text i`, the loop goes down to where no id or one id goes on
with `text`'s digit, adds `text` there, and returns the length `text` shares with the ids, plus one. -/
theorem addLoop_walk {text : List UInt8} (ht : HexId text) (left : Nat) :
    ∀ {ids : List (List UInt8)} {os : Shorten} {addr : List Nat → Nat} {i : Nat},
      ShortenInv os ids addr none → i + left = 40 → Inner ids (digitsOf text i) →
      os.nodeCount + (sharedLength ids text + 1 - i) < shrtMax →
      ∃ os' addr', addLoop text left os i (addr (digitsOf text i)) false = some (finish os' (sharedLength ids text)) ∧
        ShortenInv os' (text :: ids) addr' none ∧ os'.minLength = os.minLength ∧
        os'.nodeCount ≤ os.nodeCount + (sharedLength ids text + 1 - i) := by
  induction left with
  | zero =>
    intro ids os addr i hinv hi hinner _
    obtain rfl : i = 40 := by omega
    refine ⟨os, addr, ?_, hinv.cons_forty ht hinner, rfl, by omega⟩
    have htwo := hinner.resolve_left (by simpa using digitsOf_succ_ne_nil text 39)
    rw [sharedLength_forty (by omega)]
    rfl
  | succ left ih =>
    intro ids os addr i hinv hi hinner hroom
    have hi' : i < 40 := by omega
    have hd := digitOf_lt ht hi'
    have hPhas : HasNode ids none (digitsOf text i) := inner_hasNode hinner (by simp; omega)
    have hnode : os.nodes (addr (digitsOf text i)) = innerNode ids addr (digitsOf text i) :=
      hinv.nodes _ hPhas _ (by rw [content_none, settled, if_pos hinner, if_pos (by simp; omega)])
    rw [addLoop, if_neg (ht i hi')]
    simp only [Bool.false_eq_true, if_false, Option.bind_eq_bind, Option.bind_some, Bool.not_true, hinv.nodeAt_eq hPhas,
      hnode, digitOf_cast ht hi', innerNode_child _ _ _ hd, ← digitsOf_succ]
    have hshare : i = 0 ∨ 0 < countPrefix ids (digitsOf text i) := by
      rcases hinner with h | h
      · exact Or.inl (by simpa using congrArg List.length h)
      · exact Or.inr (by omega)
    rcases Nat.lt_trichotomy (countPrefix ids (digitsOf text (i + 1))) 1 with hzero | hone | htwo
    · -- No id goes on with this digit: `text` becomes its leaf.
      have hnext : countPrefix ids (digitsOf text (i + 1)) = 0 := by omega
      have hS := sharedLength_eq hi' hshare hnext
      obtain ⟨os', hpush, hinv', hmin, hcount⟩ := hinv.pushLeaf_walk ht hi' hinner hnext (by omega)
      simp only [childIndex, hnext, if_true, hpush, Option.bind_some, Bool.not_true, Bool.false_eq_true, if_false]
      exact ⟨os', _, by rw [hS], hinv', hmin, by omega⟩
    · -- One id goes on with it: its leaf is reached, and pending.
      obtain ⟨s, hs, hsq⟩ := List.countP_pos_iff.mp (show 0 < countPrefix ids (digitsOf text (i + 1)) by omega)
      have hsq' : OnPath s (digitsOf text (i + 1)) := by simpa [OnPath] using hsq
      have hq : Owned ids (digitsOf text (i + 1)) :=
        ⟨_, _, digitsOf_succ text i, hinner, by simp; omega, by omega⟩
      have hpos := (hinv.alloc _ hq (not_below_none _)).1
      have hinv₁ := hinv.flip_walk ht hi' hinner hone hs hsq'
      simp only [childIndex, hone, Nat.one_ne_zero, if_false, if_true, neg_eq_zero, Nat.cast_eq_zero,
        Nat.pos_iff_ne_zero.mp hpos, Left.neg_neg_iff, Nat.cast_pos.mpr hpos, neg_neg, innerNode_setChild _ _ _ hd,
        Option.bind_some]
      obtain ⟨os', addr', hrun, hinv', hmin, hcount⟩ := addLoop_pending ht hs left hinv₁ (by omega) hone (by simpa using
        (show os.nodeCount + (sharedLength ids text + 2 - (i + 1)) < shrtMax by omega))
      exact ⟨os', addr', hrun, hinv', hmin, by simp at hcount; omega⟩
    · -- More ids go on with it: walk down to its node.
      have hq : Owned ids (digitsOf text (i + 1)) := by
        have h := htwo
        rw [digitsOf_succ] at h ⊢
        exact owned_of_two_le (by simp; omega) h
      have hpos := (hinv.alloc _ hq (not_below_none _)).1
      simp only [childIndex, show countPrefix ids (digitsOf text (i + 1)) ≠ 0 by omega,
        show countPrefix ids (digitsOf text (i + 1)) ≠ 1 by omega, if_false, Nat.cast_eq_zero,
        Nat.pos_iff_ne_zero.mp hpos, Nat.cast_nonneg, not_lt.mpr]
      obtain ⟨os', addr', hrun, hinv', hmin, hcount⟩ := ih hinv (by omega) (Or.inr htwo) (by omega)
      exact ⟨os', addr', hrun, hinv', hmin, by omega⟩

/-- `git_oid_shorten_add` of a hex id, with room for its nodes, returns one more than the length
the id shares with one added before, or the minimum length when that is longer, and the trie then
holds the id too. -/
theorem add_hexId {os : Shorten} {ids : List (List UInt8)} {addr : List Nat → Nat}
    (hinv : ShortenInv os ids addr none) {text : List UInt8} (ht : HexId text)
    (hroom : os.nodeCount + (sharedLength ids text + 1) < shrtMax) :
    ∃ os' addr', add os (some text) = some (.ok (max os.minLength (sharedLength ids text + 1)), os') ∧
      ShortenInv os' (text :: ids) addr' none ∧ os'.minLength = max os.minLength (sharedLength ids text + 1) ∧
      os'.nodeCount ≤ os.nodeCount + (sharedLength ids text + 1) := by
  obtain ⟨os', addr', hrun, hinv', hmin, hcount⟩ := addLoop_walk ht 40 hinv rfl (Or.inl rfl) (by simpa using hroom)
  refine ⟨_, addr', ?_, hinv'.withMinLength _, rfl, hcount⟩
  rw [digitsOf_zero, hinv.rootAddr, Nat.cast_zero] at hrun
  rw [add, if_neg (by simp [hinv.notFull]), hrun, finish_eq, hmin]

/-! ### Runs

A caller adds ids one after another and reads the length after each, as the tests of the
shortener do. -/

/-- `git_oid_shorten_add` on each id in turn, with the results in order. -/
def addEach : Shorten → List (List UInt8) → Option (List (Except String Nat) × Shorten)
  | os, [] => some ([], os)
  | os, t :: ts => do
    let (r, os) ← add os (some t)
    let (rs, os) ← addEach os ts
    some (r :: rs, os)

/-- The length the shortener should return after each id, from the ids `seen` before: at least the
last one, and one more than the longest prefix the id shares with one of them. -/
def uniqueLengths (minLength : Nat) (seen : List (List UInt8)) : List (List UInt8) → List Nat
  | [] => []
  | t :: ts => max minLength (sharedLength seen t + 1) ::
      uniqueLengths (max minLength (sharedLength seen t + 1)) (t :: seen) ts

/-- The nodes that adding the ids takes at most: one more than the length each shares with an id
before it. -/
def nodeRoom (seen : List (List UInt8)) : List (List UInt8) → Nat
  | [] => 0
  | t :: ts => sharedLength seen t + 1 + nodeRoom (t :: seen) ts

def shortestUnique (minLength : Nat) (seen : List (List UInt8)) : List (List UInt8) → Nat
  | [] => minLength
  | t :: ts => shortestUnique (max minLength (sharedLength seen t + 1)) (t :: seen) ts

/-- From a trie that holds `ids`, adding hex ids with room for their nodes returns the lengths
`uniqueLengths` gives, and leaves the last one as the minimum length. -/
theorem addEach_hexIds (ts : List (List UInt8)) : ∀ {os : Shorten} {ids : List (List UInt8)}
    {addr : List Nat → Nat}, ShortenInv os ids addr none → (∀ t ∈ ts, HexId t) →
    os.nodeCount + nodeRoom ids ts < shrtMax →
    ∃ os', addEach os ts = some ((uniqueLengths os.minLength ids ts).map .ok, os') ∧
      os'.minLength = shortestUnique os.minLength ids ts := by
  induction ts with
  | nil =>
    intro os ids addr _ _ _
    exact ⟨os, rfl, rfl⟩
  | cons t ts ih =>
    intro os ids addr hinv hex hroom
    simp only [nodeRoom] at hroom
    obtain ⟨os₁, addr₁, hadd, hinv₁, hmin₁, hcount₁⟩ :=
      add_hexId hinv (hex t List.mem_cons_self) (by omega)
    obtain ⟨os', hrun, hmin⟩ := ih hinv₁ (fun t' ht' => hex t' (List.mem_cons_of_mem t ht')) (by omega)
    refine ⟨os', ?_, by rw [hmin, hmin₁]; rfl⟩
    rw [addEach, hadd, Option.bind_eq_bind, Option.bind_some]
    simp only [hrun, Option.bind_eq_bind, Option.bind_some, hmin₁, uniqueLengths, List.map_cons]

theorem sharedLength_lt_iff {ids : List (List UInt8)} {text : List UInt8} {L : Nat} (h1 : 1 ≤ L) (h40 : L ≤ 40) :
    sharedLength ids text < L ↔ ∀ x ∈ ids, digitsOf x L ≠ digitsOf text L := by
  constructor
  · intro hlt x hx heq
    have hpos : 0 < countPrefix ids (digitsOf text L) :=
      countPrefix_pos_of_mem hx (by rw [OnPath, length_digitsOf, heq])
    have := @Nat.le_findGreatest L (fun j => 0 < countPrefix ids (digitsOf text j)) _ 40 h40 hpos
    unfold sharedLength at hlt
    omega
  · intro hall
    by_contra hge
    have hj : 0 < countPrefix ids (digitsOf text (sharedLength ids text)) :=
      @Nat.findGreatest_of_ne_zero (sharedLength ids text) (fun j => 0 < countPrefix ids (digitsOf text j)) _ 40 rfl
        (by omega)
    have hL := countPrefix_digitsOf_antitone ids text (show L ≤ sharedLength ids text by omega)
    obtain ⟨x, hx, hxL⟩ := List.countP_pos_iff.mp (show 0 < countPrefix ids (digitsOf text L) by omega)
    exact hall x hx (by simpa using hxL)

theorem sharedLength_le (ids : List (List UInt8)) (text : List UInt8) : sharedLength ids text ≤ 40 :=
  Nat.findGreatest_le 40

theorem shortestUnique_le (minLength : Nat) (seen ts : List (List UInt8)) :
    shortestUnique minLength seen ts ≤ max minLength 41 := by
  induction ts generalizing minLength seen with
  | nil => exact le_max_left _ _
  | cons t ts ih =>
    have h := ih (max minLength (sharedLength seen t + 1)) (t :: seen)
    have := sharedLength_le seen t
    simp only [shortestUnique]
    omega

theorem shortestUnique_le_iff {m₀ L : Nat} (h1 : 1 ≤ L) (h40 : L ≤ 40) (ts : List (List UInt8)) :
    ∀ (seen : List (List UInt8)) (m : Nat),
      (m ≤ L ↔ m₀ ≤ L ∧ seen.Pairwise fun x y => digitsOf x L ≠ digitsOf y L) →
      (shortestUnique m seen ts ≤ L ↔ m₀ ≤ L ∧ (ts.reverse ++ seen).Pairwise fun x y => digitsOf x L ≠ digitsOf y L) := by
  induction ts with
  | nil =>
    intro seen m hm
    simpa [shortestUnique] using hm
  | cons t ts ih =>
    intro seen m hm
    rw [shortestUnique, List.reverse_cons, List.append_assoc, List.singleton_append]
    refine ih (t :: seen) _ ?_
    rw [max_le_iff, Nat.add_one_le_iff, sharedLength_lt_iff h1 h40, hm, List.pairwise_cons]
    constructor
    · rintro ⟨⟨hm₀, hseen⟩, hnew⟩
      exact ⟨hm₀, fun x hx h => hnew x hx h.symm, hseen⟩
    · rintro ⟨hm₀, hnew, hseen⟩
      exact ⟨⟨hm₀, hseen⟩, fun x hx h => hnew x hx h.symm⟩

/-- Adding hex ids to a new shortener returns after each id the length `uniqueLengths` gives. The
last, kept as the minimum length, is at most forty-one, and within forty digits it is the least
length, at least `minLength`, at which every two of the ids differ. -/
theorem addEach_shortenNew (minLength : Nat) (ts : List (List UInt8)) (hex : ∀ t ∈ ts, HexId t)
    (hroom : 1 + nodeRoom [] ts < shrtMax) :
    ∃ os', addEach (shortenNew minLength) ts = some ((uniqueLengths minLength [] ts).map .ok, os') ∧
      os'.minLength ≤ max minLength 41 ∧ ∀ L, 1 ≤ L → L ≤ 40 →
        (os'.minLength ≤ L ↔ minLength ≤ L ∧ ts.Pairwise fun x y => digitsOf x L ≠ digitsOf y L) := by
  obtain ⟨os', hrun, hmin⟩ := addEach_hexIds ts (shortenInv_shortenNew minLength) hex hroom
  rw [show (shortenNew minLength).minLength = minLength from rfl] at hrun hmin
  refine ⟨os', hrun, hmin ▸ shortestUnique_le _ _ _, fun L h1 h40 => ?_⟩
  rw [hmin, @shortestUnique_le_iff minLength L h1 h40 ts [] minLength (by simp), List.append_nil,
    List.pairwise_reverse]
  constructor <;> rintro ⟨hm, hp⟩ <;> exact ⟨hm, hp.imp fun h h' => h h'.symm⟩

/-- The ids of the test `oid_shortener_no_duplicates`: the second comes again last. -/
def noDuplicatesIds : List (List UInt8) :=
  [Printf.bytes "22596363b3de40b06f981fb85d82312e8c0ed511", Printf.bytes "ce08fe4884650f067bd5703b6a59a8b3b3c99a09",
    Printf.bytes "16a0123456789abcdef4b775213c23a8bd74f5e0", Printf.bytes "ce08fe4884650f067bd5703b6a59a8b3b3c99a09"]

example : uniqueLengths 0 [] noDuplicatesIds = [1, 1, 1, 41] := by decide

theorem addEach_noDuplicates : ∃ os', addEach (shortenNew 0) noDuplicatesIds =
      some ((uniqueLengths 0 [] noDuplicatesIds).map .ok, os') ∧ os'.minLength ≤ max 0 41 ∧ ∀ L, 1 ≤ L → L ≤ 40 →
        (os'.minLength ≤ L ↔ 0 ≤ L ∧ noDuplicatesIds.Pairwise fun x y => digitsOf x L ≠ digitsOf y L) :=
  addEach_shortenNew 0 noDuplicatesIds (by decide) (by decide)

/-! ### Ids that are not hex -/

/-- `git_oid_shorten_add` checks only the digits it walks. An id that becomes a leaf at its first
digit is kept whole, bad digits and all; a later id that reaches the leaf turns it into a node and
takes the leaf's next byte, `-1` from `git__fromhex`, as a child index, outside the node. -/
theorem add_invalid_tail (minLength : Nat) (t u : List UInt8) (ht0 : fromhex (byteAt t 0) ≠ -1)
    (ht1 : fromhex (byteAt t 1) = -1) (hu : HexId u) (hsame : digitOf u 0 = digitOf t 0) :
    ∃ os, add (shortenNew minLength) (some t) = some (.ok (max minLength 1), os) ∧ add os (some u) = none := by
  have hd := digitOf_lt_of_ne ht0
  have hu0 : digitOf u 0 < 16 := digitOf_lt hu (show 0 < 40 by decide)
  obtain ⟨os₁, hpush, hnodes, hcount, hsize, hmin, hfull⟩ := pushLeaf_eq (shortenNew minLength) (fun _ => 0)
    (t.drop 1) hd (show 0 < (shortenNew minLength).nodeCount by simp) (by simp) (by simp) (by simp [shrtMax]) rfl
    (fun _ _ => rfl)
  simp only [nodes_shortenNew, nodeCount_shortenNew, minLength_shortenNew, full_shortenNew] at hnodes hcount hmin hfull
  have hfirst : add (shortenNew minLength) (some t) = some (finish os₁ 0) := by
    rw [add, if_neg (by simp), addLoop, if_neg ht0]
    simp only [Bool.false_eq_true, if_false, Option.bind_eq_bind, Option.bind_some, Bool.not_true,
      show (shortenNew minLength).nodeAt 0 = some ⟨none, fun _ => 0⟩ from rfl, digitOf_cast_of_ne ht0,
      Node.child_of_tail_none _ hd]
    rw [Nat.cast_zero] at hpush
    simp only [if_true, Nat.zero_add, hpush, Option.bind_some, Bool.not_true, Bool.false_eq_true, if_false]
  rw [finish_eq, hmin, Nat.zero_add] at hfirst
  set os₂ : Shorten := { os₁ with minLength := max minLength 1 }
  refine ⟨os₂, hfirst, ?_⟩
  have hroot : os₂.nodes 0 = ⟨none, Function.update (fun _ => 0) ⟨digitOf t 0, hd⟩ (-1)⟩ := by
    simp only [os₂, hnodes, Function.update_of_ne (show (0 : Nat) ≠ 1 by decide), Function.update_self,
      Nat.cast_one]
  have hleaf : os₂.nodes 1 = leafNode (t.drop 1) := by
    simp only [os₂, hnodes, Function.update_self]
  have hfin : (⟨digitOf u 0, hu0⟩ : Fin 16) = ⟨digitOf t 0, hd⟩ := Fin.ext hsame
  have hat0 : os₂.nodeAt 0 = some (os₂.nodes 0) := by
    simpa using os₂.nodeAt_of_lt (show (0 : Nat) < os₂.size by simp [os₂]; omega)
  rw [add, if_neg (by simp [os₂, hfull]), addLoop, if_neg (hu 0 (by decide))]
  simp only [Bool.false_eq_true, if_false, Option.bind_eq_bind, Option.bind_some, Bool.not_true, hat0, hroot,
    digitOf_cast hu (show 0 < 40 by decide), Node.child_of_tail_none _ hu0, hfin, Function.update_self]
  simp only [show (-1 : Int) ≠ 0 by decide, if_false, show (-1 : Int) < 0 by decide, if_true,
    Node.setChild_of_tail_none _ hu0, Option.bind_some, neg_neg]
  rw [addLoop, if_neg (hu 1 (by decide))]
  simp only [if_true, convertLeaf, Option.bind_eq_bind]
  have hat : (os₂.setNode 0 ⟨none, Function.update (Function.update (fun _ => 0) ⟨digitOf t 0, hd⟩ (-1))
      ⟨digitOf u 0, hu0⟩ 1⟩).nodeAt 1 = some (leafNode (t.drop 1)) := by
    rw [Shorten.nodeAt, if_pos (by simp [os₂, Shorten.setNode]; omega)]
    simpa [Shorten.setNode] using hleaf
  have hbyte : (fromhex (byteAt (t.drop 1) 0)).toInt = -1 := by
    have : byteAt (t.drop 1) 0 = byteAt t 1 := by simp [byteAt, List.getD_eq_getElem?_getD]
    rw [this, ht1]
    rfl
  simp only [hat, Option.bind_some, tail_leafNode, hbyte]
  rw [pushLeaf_of_neg _ (by decide) _ (by decide) (by simp [os₂, Shorten.setNode]; omega)
    (by simp [os₂, Shorten.setNode, hcount, shrtMax])]
  rfl

theorem add_invalid_tail_aZZZ : ∃ os, add (shortenNew 0) (some (Printf.bytes "aZZZ")) = some (.ok (max 0 1), os) ∧
    add os (some (Printf.bytes "aa00000000000000000000000000000000000000")) = none :=
  add_invalid_tail 0 _ _ (by decide) (by decide) (by decide) (by decide)

/-- An add whose first digit leads from the root to a leaf, and whose next byte is no hex digit,
fails after the walk has made the root's child index for the leaf positive. The leaf still holds
its tail, and no placement of the ids matches the trie any more. -/
theorem add_error_keeps_tail {os : Shorten} {ids : List (List UInt8)} {addr : List Nat → Nat}
    (hinv : ShortenInv os ids addr none) {text : List UInt8} (h0 : fromhex (byteAt text 0) ≠ -1)
    (h1 : fromhex (byteAt text 1) = -1) (hone : countPrefix ids (digitsOf text 1) = 1) :
    ∃ os', add os (some text) = some (.error invalidHexMessage, os') ∧
      (os'.nodes (addr (digitsOf text 1))).tail = (leafOf ids (digitsOf text 1)).map (List.drop 1) ∧
      ∀ addr', ¬ShortenInv os' ids addr' none := by
  have hd := digitOf_lt_of_ne h0
  have hroot : digitsOf text 0 = [] := rfl
  have hinner : Inner ids (digitsOf text 0) := Or.inl hroot
  have hPhas : HasNode ids none (digitsOf text 0) := inner_hasNode hinner (by simp)
  have hnode : os.nodes (addr (digitsOf text 0)) = innerNode ids addr (digitsOf text 0) :=
    hinv.nodes _ hPhas _ (by rw [content_none, settled, if_pos hinner, if_pos (by simp)])
  have hq : Owned ids (digitsOf text 1) := ⟨_, _, digitsOf_succ text 0, hinner, by simp, by omega⟩
  have hqhas : HasNode ids none (digitsOf text 1) := ⟨Or.inr hq, not_below_none _⟩
  have hpos := (hinv.alloc _ hq (not_below_none _)).1
  have hat : os.nodeAt 0 = some (innerNode ids addr (digitsOf text 0)) := by
    rw [← hnode, ← hinv.nodeAt_eq hPhas, hroot, hinv.rootAddr, Nat.cast_zero]
  set os' := os.setNode 0 ⟨none, Function.update (innerNode ids addr (digitsOf text 0)).children
    ⟨digitOf text 0, hd⟩ (addr (digitsOf text 1))⟩
  have hadd : add os (some text) = some (.error invalidHexMessage, os') := by
    rw [add, if_neg (by simp [hinv.notFull]), addLoop, if_neg h0]
    simp only [Bool.false_eq_true, if_false, Option.bind_eq_bind, Option.bind_some, Bool.not_true, hat,
      digitOf_cast_of_ne h0, innerNode_child _ _ _ hd, ← digitsOf_succ, childIndex, hone, Nat.one_ne_zero,
      if_true, neg_eq_zero, Nat.cast_eq_zero, Nat.pos_iff_ne_zero.mp hpos, Left.neg_neg_iff, Nat.cast_pos.mpr hpos,
      neg_neg, innerNode_setChild _ _ _ hd]
    rw [addLoop, if_pos h1]
  refine ⟨os', hadd, ?_, ?_⟩
  · -- the leaf's node is not the root's, and is the leaf of the one id under it
    have hne : addr (digitsOf text 1) ≠ 0 := by omega
    have hnotInner : ¬Inner ids (digitsOf text 1) := by
      rintro (h | h)
      · exact digitsOf_succ_ne_nil text 0 h
      · omega
    obtain ⟨s, hs, hsq⟩ := List.countP_pos_iff.mp (show 0 < countPrefix ids (digitsOf text 1) by omega)
    have hleaf := hinv.nodes _ hqhas _ (by
      rw [content_none, settled, if_neg hnotInner, leafOf_eq_of_countPrefix_eq_one hone hs (by simpa [OnPath] using hsq)]
      rfl)
    rw [leafOf_eq_of_countPrefix_eq_one hone hs (by simpa [OnPath] using hsq)]
    simp [os', Shorten.setNode, Function.update_of_ne hne, hleaf]
  · -- the root would keep the negated index of the leaf, and reads a positive one
    intro addr' hinv'
    have hroot' := hinv'.nodes [] ⟨Or.inl rfl, not_below_none _⟩ _
      (by rw [content_none, settled, if_pos (show Inner ids [] from Or.inl rfl), if_pos (by simp)])
    rw [hinv'.rootAddr] at hroot'
    have hnew : (os'.nodes 0).children ⟨digitOf text 0, hd⟩ = addr (digitsOf text 1) := by
      simp [os', Shorten.setNode]
    have hq1 : [] ++ [digitOf text 0] = digitsOf text 1 := by rw [digitsOf_succ, hroot]
    have hold : (innerNode ids addr' []).children ⟨digitOf text 0, hd⟩ = -(addr' (digitsOf text 1) : Int) := by
      show childIndex ids addr' ([] ++ [digitOf text 0]) = _
      rw [hq1, childIndex, hone, if_neg Nat.one_ne_zero, if_pos rfl]
    rw [hroot', hold] at hnew
    omega

theorem add_error_keeps_tail_abX :
    (addEach (shortenNew 0) [Printf.bytes "ab00000000000000000000000000000000000000", Printf.bytes "aX",
      Printf.bytes "ac00000000000000000000000000000000000000",
      Printf.bytes "ab00000000000000000000000000000000000000"]).map Prod.fst =
      some [.ok 1, .error invalidHexMessage, .ok 2, .ok 2] ∧
    uniqueLengths 0 [] [Printf.bytes "ab00000000000000000000000000000000000000",
      Printf.bytes "ac00000000000000000000000000000000000000", Printf.bytes "ab00000000000000000000000000000000000000"] =
      [1, 2, 41] ∧
    ∃ os₁ addr₁, add (shortenNew 0) (some (Printf.bytes "ab00000000000000000000000000000000000000")) =
        some (.ok (max 0 (sharedLength [] (Printf.bytes "ab00000000000000000000000000000000000000") + 1)), os₁) ∧
      ShortenInv os₁ [Printf.bytes "ab00000000000000000000000000000000000000"] addr₁ none ∧
      ∃ os₂, add os₁ (some (Printf.bytes "aX")) = some (.error invalidHexMessage, os₂) ∧
        (os₂.nodes (addr₁ (digitsOf (Printf.bytes "aX") 1))).tail =
          (leafOf [Printf.bytes "ab00000000000000000000000000000000000000"] (digitsOf (Printf.bytes "aX") 1)).map
            (List.drop 1) ∧
        ∀ addr', ¬ShortenInv os₂ [Printf.bytes "ab00000000000000000000000000000000000000"] addr' none := by
  refine ⟨by decide +kernel, by decide, ?_⟩
  obtain ⟨os₁, addr₁, hadd, hinv₁, -, -⟩ :=
    add_hexId (shortenInv_shortenNew 0) (show HexId (Printf.bytes "ab00000000000000000000000000000000000000") by decide)
      (by decide)
  exact ⟨os₁, addr₁, hadd, hinv₁, add_error_keeps_tail hinv₁ (by decide) (by decide) (by decide)⟩

end Ctf3.Libgit2
