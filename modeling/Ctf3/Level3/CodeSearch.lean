import Mathlib
import Ctf3.Lib.Shard

/-!
# Sharded code search

Three `SearchServer`s index one tree, each keeping the files whose path hashes to its id
(`Math.abs(path.hashCode() % 3)`), and the master joins their answers into one JSON document.
The indexer means to drop files with a NUL byte, but `Arrays.asList(bytes)` on a `byte[]` is a
list with the array as its one element, so `indexOf(0)` is always `-1` and nothing is dropped:
`masterQuery_keeps_nul_file` is a file `"x\0"` found for the needle `x`.

Apart from that filter, sharding loses and repeats nothing: `Math.abs(h % 3)` names one of the
three nodes for every path, and the master's reply lists, each once, the matches of one
unsharded search with the indexer's own filter (`masterQuery_perm`).
-/

namespace Ctf3.Level3

/-! ### Java values -/

def utf16Units (c : Char) : List Nat :=
  if c.val.toNat < 0x10000 then [c.val.toNat]
  else [0xD800 + (c.val.toNat - 0x10000) / 0x400, 0xDC00 + (c.val.toNat - 0x10000) % 0x400]

/-- `String.hashCode()`: `s[0]*31^(n-1) + ... + s[n-1]` over the UTF-16 units, in `int`. -/
def javaHashCode (s : String) : Int32 :=
  (s.toList.flatMap utf16Units).foldl (fun h u => h * 31 + Int32.ofNat u) 0

/-- The objects `Arrays.asList` and `indexOf` compare. -/
inductive JavaObject
  | byteArray (bytes : List UInt8)
  | integer (v : Int)
deriving DecidableEq

/-- `Arrays.asList(bytes)` for a `byte[]`: the parameter `T... a` receives the array itself. -/
def arraysAsList (bytes : List UInt8) : List JavaObject := [.byteArray bytes]

/-- `list.indexOf(o)`: the first index of an element equal to `o`, or `-1`. -/
def indexOf (list : List JavaObject) (o : JavaObject) : Int :=
  match list.idxOf? o with
  | some i => i
  | none => -1

/-- A decoder with `CodingErrorAction.REPORT`: the text, or `none` on malformed input. -/
def decodeUtf8 (bytes : List UInt8) : Option (List Char) :=
  (String.fromUTF8? ⟨bytes.toArray⟩).map String.toList

def contains (text needle : List Char) : Bool := decide (needle <:+: text)

/-- `text.split("\n")`: the pieces between newlines with the trailing empty ones removed, or the
text itself when it holds no newline. -/
def splitLines (text : List Char) : List (List Char) :=
  if '\n' ∈ text then ((text.splitOn '\n').reverse.dropWhile (· = [])).reverse else [text]

/-- A regular file of the tree: the names on its path below the root, and its bytes. -/
structure RegularFile where
  path : List String
  bytes : List UInt8

def RegularFile.relPath (f : RegularFile) : String := "/".intercalate f.path

/-- `Files.isHidden` on the file or on a directory above it, below the root. -/
def RegularFile.hidden (f : RegularFile) : Bool := f.path.any (·.startsWith ".")

/-- The text `Indexer(indexId).index(root)` stores for a file, if it keeps it. -/
def indexFile (root : String) (indexId : Nat) (f : RegularFile) : Option (List Char) :=
  if f.hidden then none
  else if f.bytes.length > 2 ^ 20 then none
  else if (Int32.abs (javaHashCode (root ++ "/" ++ f.relPath) % 3)).toInt ≠ (indexId : Int) - 1 then none
  else if indexOf (arraysAsList f.bytes) (.integer 0) > 0 then none
  else decodeUtf8 f.bytes

/-- The index of node `indexId`: each kept file's path below the root and its text. -/
def index (root : String) (indexId : Nat) (tree : List RegularFile) : List (String × List Char) :=
  tree.filterMap fun f => (indexFile root indexId f).map fun text => (f.relPath, text)

/-- `tryPath(path, needle, text)`: the matches in one file, by 1-based line number. -/
def tryPath (path : String) (needle text : List Char) : List (String × Nat) :=
  if contains text needle then
    (((splitLines text).zipIdx).filter fun (l, _) => contains l needle).map fun (_, n) => (path, n + 1)
  else []

/-- The body of a node's reply: the matches as it received them from the broker, last first,
each as `"path:line"`, joined by `",\n"`. -/
def querySuccessResponse (results : List (String × Nat)) : String :=
  ",\n".intercalate (results.map fun (path, line) => "\"" ++ path ++ ":" ++ toString line ++ "\"")

def nodeQuery (root : String) (indexId : Nat) (tree : List RegularFile) (needle : List Char) : String :=
  querySuccessResponse ((index root indexId tree).flatMap fun (path, text) => tryPath path needle text).reverse

/-- `SearchMasterServer.query(q)`: the three nodes' bodies, the empty ones left out. -/
def masterQuery (root : String) (tree : List RegularFile) (needle : List Char) : String :=
  "\x7b\"success\": true,\n \"results\": [" ++
    ",\n".intercalate (([1, 2, 3].map fun indexId => nodeQuery root indexId tree needle).filter (· ≠ "")) ++ "]\x7d"

/-! ### What the search is meant to do -/

/-- The files the indexer is meant to keep: not hidden, at most 2^20 bytes, free of NUL bytes and
valid UTF-8. -/
def meantToKeep (f : RegularFile) : Bool :=
  !f.hidden && f.bytes.length ≤ 2 ^ 20 && !f.bytes.contains 0 && (decodeUtf8 f.bytes).isSome

/-- The pairs `(p, n)` an unsharded search should report. -/
def expectedMatches (tree : List RegularFile) (needle : List Char) : List (String × Nat) :=
  tree.flatMap fun f =>
    if meantToKeep f then
      match decodeUtf8 f.bytes with
      | some text => tryPath f.relPath needle text
      | none => []
    else []

/-- The tree of one file `a` holding `x` and a NUL byte, indexed from `.`: the master reports
`a:1`, though the file is not one to keep. -/
theorem masterQuery_keeps_nul_file :
    masterQuery "." [⟨["a"], [0x78, 0x00]⟩] ['x'] = "\x7b\"success\": true,\n \"results\": [\"a:1\"]\x7d" ∧
      expectedMatches [⟨["a"], [0x78, 0x00]⟩] ['x'] = [] := by
  decide +kernel

/-! ### Sharding -/

/-- The node a file goes to, less one: `Math.abs(file.toString().hashCode() % 3)`. -/
def shardOf (root : String) (f : RegularFile) : Int :=
  (Int32.abs (javaHashCode (root ++ "/" ++ f.relPath) % 3)).toInt

def unshardedFile (f : RegularFile) : Option (List Char) :=
  if f.hidden then none
  else if f.bytes.length > 2 ^ 20 then none
  else if indexOf (arraysAsList f.bytes) (.integer 0) > 0 then none
  else decodeUtf8 f.bytes

def unshardedMatches (tree : List RegularFile) (needle : List Char) : List (String × Nat) :=
  tree.flatMap fun f =>
    match unshardedFile f with
    | some text => tryPath f.relPath needle text
    | none => []

theorem shard_mem (h : Int32) : (Int32.abs (h % 3)).toInt ∈ [0, 1, 2] := by
  have hlt : (h % 3).toInt.natAbs < 3 := by
    rw [Int32.toInt_mod, Int.natAbs_tmod]
    exact Nat.mod_lt _ (by decide)
  have hne : (h % 3).toBitVec ≠ BitVec.intMin 32 := by
    intro heq
    have hmin : (h % 3).toInt = -2 ^ 31 := by
      rw [Int32.toInt, heq, BitVec.toInt_intMin]
      decide
    omega
  have habs : (Int32.abs (h % 3)).toInt = (h % 3).toInt.natAbs := by
    rw [Int32.toInt, Int32.toBitVec_abs, BitVec.toInt_abs_eq_natAbs_of_ne_intMin hne]
    rfl
  rw [habs]
  simp only [List.mem_cons, List.not_mem_nil, or_false]
  omega

theorem indexFile_eq (root : String) (indexId : Nat) (f : RegularFile) :
    indexFile root indexId f = if shardOf root f = (indexId : Int) - 1 then unshardedFile f else none := by
  unfold indexFile unshardedFile shardOf
  by_cases hshard : (Int32.abs (javaHashCode (root ++ "/" ++ f.relPath) % 3)).toInt = (indexId : Int) - 1 <;>
    simp [hshard]

theorem index_flatMap_tryPath (root : String) (indexId : Nat) (tree : List RegularFile) (needle : List Char) :
    ((index root indexId tree).flatMap fun (path, text) => tryPath path needle text) =
      tree.flatMap fun f => if shardOf root f = (indexId : Int) - 1 then
        (match unshardedFile f with
          | some text => tryPath f.relPath needle text
          | none => []) else [] := by
  induction tree with
  | nil => rfl
  | cons f tree ih =>
    rw [index, List.filterMap_cons, List.flatMap_cons, ← ih, indexFile_eq]
    by_cases hshard : shardOf root f = (indexId : Int) - 1
    · cases unshardedFile f <;> simp [hshard, index]
    · simp [hshard, index]

theorem match_text_ne_empty (m : String × Nat) : "\"" ++ m.1 ++ ":" ++ toString m.2 ++ "\"" ≠ "" := by
  intro h
  have hlen := congrArg String.length h
  simp at hlen

/-- The master's reply lists, each once and in some order, the matches of one unsharded search
over the tree with the indexer's filter: the three nodes split the files among them. -/
theorem masterQuery_perm (root : String) (tree : List RegularFile) (needle : List Char) :
    ∃ results, results.Perm (unshardedMatches tree needle) ∧
      masterQuery root tree needle =
        "\x7b\"success\": true,\n \"results\": [" ++ querySuccessResponse results ++ "]\x7d" := by
  let g : RegularFile → List (String × Nat) := fun f =>
    match unshardedFile f with
    | some text => tryPath f.relPath needle text
    | none => []
  let node : Nat → List (String × Nat) := fun indexId =>
    ((index root indexId tree).flatMap fun (path, text) => tryPath path needle text).reverse
  refine ⟨[1, 2, 3].flatMap node, ?_, ?_⟩
  · -- each node's matches, reversed, are those of its files; the files split among the three
    have hnode : ∀ indexId, (node indexId).Perm (tree.flatMap fun f =>
        if shardOf root f = (indexId : Int) - 1 then g f else []) := by
      intro indexId
      dsimp only [node]
      rw [index_flatMap_tryPath]
      exact List.reverse_perm _
    have hsplit := Shard.perm_flatMap_shards (shardOf root) g tree [0, 1, 2] (by decide)
      (fun f => shard_mem _)
    refine (List.Perm.trans ?_ hsplit)
    simp only [List.flatMap_cons, List.flatMap_nil, List.append_nil]
    refine ((hnode 1).append ((hnode 2).append (hnode 3))).trans ?_
    norm_num
  · have hitems : ∀ l ∈ [1, 2, 3].map fun indexId =>
        (node indexId).map fun (path, line) => "\"" ++ path ++ ":" ++ toString line ++ "\"", ∀ s ∈ l, s ≠ "" := by
      intro l hl s hs
      obtain ⟨indexId, -, hl⟩ := List.mem_map.mp hl
      rw [← hl] at hs
      obtain ⟨m, -, hm⟩ := List.mem_map.mp hs
      rw [← hm]
      exact match_text_ne_empty m
    have hjoin := Shard.intercalate_filter_map ",\n" _ hitems
    have hbodies : ([1, 2, 3].map fun indexId => nodeQuery root indexId tree needle) =
        ([1, 2, 3].map fun indexId =>
          (node indexId).map fun (path, line) => "\"" ++ path ++ ":" ++ toString line ++ "\"").map
          (",\n".intercalate) := by
      rw [List.map_map]
      rfl
    have hresults : ([1, 2, 3].map fun indexId =>
        (node indexId).map fun (path, line) => "\"" ++ path ++ ":" ++ toString line ++ "\"").flatten =
        ([1, 2, 3].flatMap node).map fun (path, line) => "\"" ++ path ++ ":" ++ toString line ++ "\"" := by
      rw [List.map_flatMap, List.flatMap_def]
    unfold masterQuery querySuccessResponse
    rw [hbodies, hjoin, hresults]

end Ctf3.Level3
