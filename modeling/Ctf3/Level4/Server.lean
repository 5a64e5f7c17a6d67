import Mathlib
import Ctf3.Lib.Regexp
import Ctf3.Lib.Strconv
import Ctf3.Level4.Db

/-!
# The SQL front end

`sqlHandler` reads a body with `updateMatcher` or `insertMatcher`, and `updateHandler` commits one
action for it and replies with the rows `GetWhenReady` returns. An UPDATE's `N` goes through
`strconv.ParseUint(N, 0, 8)` into the `uint8` increment, and an INSERT becomes the action
`(gdb, 0, "")`, told apart from an UPDATE only by its zero increment. Below it, what SQLite does
with the same statements, and the lemmas that line the two up one statement at a time.
-/

namespace Ctf3.Level4

open Printf Regexp Strconv

def updateMatcher : List (Piece UInt8) :=
  lits (bytes "UPDATE ctf3 SET friendCount=friendCount+") ++ [.run digit 1 true] ++
    lits (bytes ", requestCount=requestCount+1, favoriteWord=\"") ++ [.run word 1 true] ++
    lits (bytes "\" WHERE name=\"") ++ [.run word 1 true] ++ lits (bytes "\"; SELECT * FROM ctf3;")

def insertMatcher : List (Piece UInt8) :=
  lits (bytes "INSERT INTO ctf3 (name) VALUES (\"") ++ [.run notNewline 0 true] ++ lits (bytes "\");")

structure Response where
  status : Nat
  body : List UInt8
deriving DecidableEq, Repr

/-- `http.Error(w, error, code)`. -/
def httpError (error : List UInt8) (code : Nat) : Response := ⟨code, error ++ bytes "\n"⟩

/-- `updateHandler(w, name, inc, word)` up to `s.do(action)`: the action, or the reply when `name`
is not a row. -/
def updateAction (name : List UInt8) (inc : UInt8) (word : List UInt8) : Except Response Action :=
  -- the loop over `RowNames()` finds the first index holding `name`
  if name ∈ rowNames then .ok ⟨(rowNames.idxOf name).toUInt32, inc, word⟩
  else .error (httpError (bytes "Could not find name " ++ name ++ bytes ".  I only know about " ++
    (bytes ", ").intercalate rowNames ++ bytes ".") 400)

/-- `sqlHandler(w, req)` up to `s.do(action)`: the action for the body, or the reply when there is
none. -/
def sqlAction (body : List UInt8) : Except Response Action :=
  match findSubmatch updateMatcher body with
  | some submatches =>
    match parseUint (submatches.getD 1 []) 0 8 with
    | .error e => .error (httpError (e.message (submatches.getD 1 [])) 400)
    | .ok inc => updateAction (submatches.getD 3 []) inc.toUInt8 (submatches.getD 2 [])
  | none =>
    match findSubmatch insertMatcher body with
    | some _ => updateAction (bytes "gdb") 0 []
    | none => .error (httpError (bytes "Body did not match any query formats.  Body was:\n" ++ body) 400)

/-- The rest of `updateHandler` once `s.do` has returned `index` and `GetWhenReady(index)` the rows. -/
def updateResponse (inc : UInt8) (index : Int) (rows : List Row) : Response :=
  let responseLines := rows.map Row.format
  if inc > 0 then
    ⟨200, bytes "SequenceNumber: " ++ decimal (index - 1) ++ bytes "\n" ++
      (bytes "\n").intercalate responseLines ++ bytes "\n"⟩
  else ⟨200, bytes "SequenceNumber: " ++ decimal (index - 1) ++ bytes "\n"⟩

/-! ### What SQLite returns -/

inductive Statement
  | update (numeral word name : List UInt8)
  | insert
deriving DecidableEq, Repr

/-- The statement of a body, found by the patterns of `sqlHandler`. -/
def Statement.ofBody (body : List UInt8) : Option Statement :=
  match findSubmatch updateMatcher body with
  | some submatches => some (.update (submatches.getD 1 []) (submatches.getD 2 []) (submatches.getD 3 []))
  | none => (findSubmatch insertMatcher body).map fun _ => .insert

/-- The decimal value of `N` and the word of an UPDATE of the row `name`. -/
def Statement.updateOf (name : List UInt8) : Statement → Option (Nat × List UInt8)
  | .update numeral word name' => if name' = name then some (decimalValue numeral, word) else none
  | .insert => none

def updatesOf (name : List UInt8) (stmts : List Statement) : List (Nat × List UInt8) :=
  stmts.filterMap (Statement.updateOf name)

structure SqlRow where
  name : List UInt8
  friendCount : Nat
  requestCount : Nat
  favoriteWord : List UInt8
deriving DecidableEq, Repr

/-- The row `name` after the statements: the sum of the values of its UPDATEs, their number, and
the word of the last one. -/
def sqlRow (stmts : List Statement) (name : List UInt8) : SqlRow :=
  let updates := updatesOf name stmts
  ⟨name, (updates.map Prod.fst).sum, updates.length, (updates.getLast?.map Prod.snd).getD []⟩

def sqlTable (stmts : List Statement) : List SqlRow := rowNames.map (sqlRow stmts)

def SqlRow.format (r : SqlRow) : List UInt8 :=
  r.name ++ bytes "|" ++ decimal r.friendCount ++ bytes "|" ++ decimal r.requestCount ++ bytes "|" ++
    r.favoriteWord

def SqlRow.wrap (r : SqlRow) : SqlRow :=
  { r with friendCount := r.friendCount % 2 ^ 32, requestCount := r.requestCount % 2 ^ 32 }

/-- The reply to the statement committed after `index` others, from the rows after it. -/
def sqlResponse (index : Nat) (stmt : Statement) (rows : List SqlRow) : Response :=
  match stmt with
  | .update .. => ⟨200, bytes "SequenceNumber: " ++ decimal index ++ bytes "\n" ++
      (bytes "\n").intercalate (rows.map SqlRow.format) ++ bytes "\n"⟩
  | .insert => ⟨200, bytes "SequenceNumber: " ++ decimal index ++ bytes "\n"⟩

/-! ### The statements a body holds -/

theorem groupsOf_updateMatcher : groupsOf updateMatcher = [(digit, 1), (word, 1), (word, 1)] := rfl

theorem ofBody_update {body numeral word name : List UInt8}
    (h : Statement.ofBody body = some (.update numeral word name)) :
    ∃ whole, findSubmatch updateMatcher body = some [whole, numeral, word, name] ∧ numeral ≠ [] ∧
      ∀ d ∈ numeral, 0x30 ≤ d ∧ d ≤ 0x39 := by
  unfold Statement.ofBody at h
  split at h
  · rename_i submatches hmatch
    obtain ⟨whole, groups, rfl, hgroups⟩ := findSubmatch_groups hmatch
    rw [groupsOf_updateMatcher] at hgroups
    rcases hgroups with _ | ⟨⟨hlen, hdigits⟩, _ | ⟨-, _ | ⟨-, _ | _⟩⟩⟩
    simp only [List.getD_cons_succ, List.getD_cons_zero, Option.some.injEq, Statement.update.injEq] at h
    obtain ⟨rfl, rfl, rfl⟩ := h
    refine ⟨whole, hmatch, List.ne_nil_of_length_pos hlen, fun d hd => ?_⟩
    simpa [digit] using hdigits d hd
  · cases (Option.map_eq_some_iff.mp h).choose_spec.2

theorem ofBody_insert {body : List UInt8} (h : Statement.ofBody body = some .insert) :
    findSubmatch updateMatcher body = none ∧ (findSubmatch insertMatcher body).isSome := by
  unfold Statement.ofBody at h
  split at h
  · cases h
  · rename_i hnone
    obtain ⟨m, hm, -⟩ := Option.map_eq_some_iff.mp h
    exact ⟨hnone, by rw [hm]; rfl⟩

/-- The action `sqlHandler` commits for a statement it accepts. -/
def Statement.action : Statement → Action
  | .update numeral word name => ⟨(rowNames.idxOf name).toUInt32, (decimalValue numeral).toUInt8, word⟩
  | .insert => ⟨1, 0, []⟩

theorem sqlAction_update {body numeral word name : List UInt8}
    (h : Statement.ofBody body = some (.update numeral word name)) (hname : name ∈ rowNames)
    (hlead : numeral.head? ≠ some 0x30) (hle : decimalValue numeral ≤ 255) :
    sqlAction body = .ok (Statement.update numeral word name).action := by
  obtain ⟨whole, hmatch, hne, hdigits⟩ := ofBody_update h
  have hparse : parseUint numeral 0 8 = .ok (decimalValue numeral) :=
    parseUint_decimal numeral 8 hdigits hne hlead (by norm_num) (by norm_num; omega)
  simp only [sqlAction, hmatch, List.getD_cons_succ, List.getD_cons_zero, hparse, updateAction, hname,
    if_true]
  rfl

theorem sqlAction_insert {body : List UInt8} (h : Statement.ofBody body = some .insert) :
    sqlAction body = .ok Statement.insert.action := by
  obtain ⟨hnone, hsome⟩ := ofBody_insert h
  obtain ⟨m, hm⟩ := Option.isSome_iff_exists.mp hsome
  simp only [sqlAction, hnone, hm, updateAction]
  rw [if_pos (by decide)]
  rfl

/-! ### The rows `Get` folds, against the table -/

def SqlRow.toRow (r : SqlRow) : Row := ⟨r.name, r.friendCount.toUInt32, r.requestCount.toUInt32, r.favoriteWord⟩

/-- What `sqlHandler` commits as SQL means it: an UPDATE of a row by 1 to 255, or an INSERT. -/
def Statement.Committable : Statement → Prop
  | .update numeral _ name => name ∈ rowNames ∧ 1 ≤ decimalValue numeral ∧ decimalValue numeral ≤ 255
  | .insert => True

/-- No INSERT comes after an UPDATE of gdb. -/
def InsertsFirst (stmts : List Statement) : Prop :=
  ∀ before after, stmts = before ++ .insert :: after → updatesOf (bytes "gdb") before = []

def SqlRow.update (r : SqlRow) (v : Nat) (word : List UInt8) : SqlRow :=
  ⟨r.name, r.friendCount + v, r.requestCount + 1, word⟩

theorem sqlRow_append_update (stmts : List Statement) (numeral word name n : List UInt8) :
    sqlRow (stmts ++ [.update numeral word name]) n =
      if name = n then (sqlRow stmts n).update (decimalValue numeral) word else sqlRow stmts n := by
  by_cases hname : name = n
  · simp [sqlRow, SqlRow.update, updatesOf, List.filterMap_append, Statement.updateOf, hname]
  · simp [sqlRow, updatesOf, List.filterMap_append, Statement.updateOf, hname]

theorem sqlRow_append_insert (stmts : List Statement) (n : List UInt8) :
    sqlRow (stmts ++ [.insert]) n = sqlRow stmts n := by
  simp [sqlRow, updatesOf, List.filterMap_append, List.filterMap_cons, Statement.updateOf]

theorem toRow_update (r : SqlRow) (v : Nat) (word : List UInt8) (hpos : 1 ≤ v) (hle : v ≤ 255) :
    (r.update v word).toRow = ⟨r.toRow.name, r.toRow.friendCount + v.toUInt8.toUInt32,
      if v.toUInt8 > 0 then r.toRow.requestCount + 1 else r.toRow.requestCount, word⟩ := by
  have hinc : v.toUInt8 > 0 := by
    simp [UInt8.lt_iff_toNat_lt]
    omega
  simp only [SqlRow.update, SqlRow.toRow, hinc, if_true, Row.mk.injEq, true_and, and_true]
  constructor
  · apply UInt32.toNat_inj.mp
    simp
    omega
  · apply UInt32.toNat_inj.mp
    simp

theorem set_idxOf_map {α β : Type} [BEq α] [LawfulBEq α] (l : List α) (hl : l.Nodup) (f : α → β) (a : α)
    (b : β) : (l.map f).set (l.idxOf a) b = l.map fun x => if x == a then b else f x := by
  induction l with
  | nil => rfl
  | cons x xs ih =>
    obtain ⟨hx, hxs⟩ := List.nodup_cons.mp hl
    by_cases hxa : x = a
    · subst hxa
      have hrest : xs.map f = xs.map fun y => if y == x then b else f y :=
        List.map_congr_left fun y hy => by
          rw [if_neg (fun h : (y == x) = true => hx (beq_iff_eq.mp h ▸ hy))]
      simp [List.idxOf_cons_self, hrest]
    · rw [List.idxOf_cons_ne _ (by simpa using hxa), List.map_cons, List.set_cons_succ, ih hxs,
        List.map_cons, if_neg (by simpa using hxa)]

theorem get_init : rowNames.map (fun name => (⟨name, 0, 0, []⟩ : Row)) = (sqlTable []).map SqlRow.toRow := rfl

theorem applyAction_statement (stmts : List Statement) (s : Statement) (hs : s.Committable)
    (hinsert : s = .insert → updatesOf (bytes "gdb") stmts = []) :
    applyAction ((sqlTable stmts).map SqlRow.toRow) s.action = .ok ((sqlTable (stmts ++ [s])).map SqlRow.toRow) := by
  have hnodup : rowNames.Nodup := by decide
  cases s with
  | update numeral word name =>
    obtain ⟨hname, hpos, hle⟩ := hs
    have hi : rowNames.idxOf name < rowNames.length := List.idxOf_lt_length_of_mem hname
    have hlen : rowNames.length = 5 := rfl
    have hid : (rowNames.idxOf name).toUInt32.toNat = rowNames.idxOf name := by
      simp only [Nat.toUInt32_eq]
      exact Nat.mod_eq_of_lt (by omega)
    have hbound : rowNames.idxOf name < ((sqlTable stmts).map SqlRow.toRow).length := by
      simpa [sqlTable] using hi
    have hrow : ((sqlTable stmts).map SqlRow.toRow)[rowNames.idxOf name] = (sqlRow stmts name).toRow := by
      simp [sqlTable, List.getElem_idxOf]
    have hset : ((sqlTable stmts).map SqlRow.toRow).set (rowNames.idxOf name)
        ((sqlRow stmts name).update (decimalValue numeral) word).toRow =
        (sqlTable (stmts ++ [.update numeral word name])).map SqlRow.toRow := by
      rw [sqlTable, List.map_map, set_idxOf_map rowNames hnodup, sqlTable, List.map_map]
      apply List.map_congr_left
      intro n _
      by_cases hn : n = name
      · subst hn
        simp [sqlRow_append_update]
      · simp [sqlRow_append_update, hn, Ne.symm hn]
    rw [applyAction_of_lt _ _ hid hbound, hrow, ← hset, toRow_update _ _ _ hpos hle]
    rfl
  | insert =>
    have hgdb : updatesOf (bytes "gdb") stmts = [] := hinsert rfl
    have hbound : 1 < ((sqlTable stmts).map SqlRow.toRow).length := by simp [sqlTable, rowNames]
    have hsame : sqlTable (stmts ++ [.insert]) = sqlTable stmts := by
      simp [sqlTable, sqlRow_append_insert]
    rw [applyAction_of_lt _ Statement.insert.action rfl hbound, hsame]
    conv_rhs => rw [← List.set_getElem_self hbound]
    congr 2
    simp [sqlTable, sqlRow, hgdb, Statement.action, SqlRow.toRow, rowNames]

theorem InsertsFirst.of_append {l l' : List Statement} (h : InsertsFirst (l ++ l')) : InsertsFirst l := by
  intro before after hl
  exact h before (after ++ l') (by rw [hl, List.append_assoc, List.cons_append])

theorem foldlM_applyAction_statements (stmts : List Statement) (hs : ∀ s ∈ stmts, s.Committable)
    (hinserts : InsertsFirst stmts) :
    (stmts.map Statement.action).foldlM applyAction ((sqlTable []).map SqlRow.toRow) =
      .ok ((sqlTable stmts).map SqlRow.toRow) := by
  induction stmts using List.reverseRecOn with
  | nil => rfl
  | append_singleton stmts s ih =>
    rw [List.map_append, List.foldlM_append,
      ih (fun s' hs' => hs s' (List.mem_append_left _ hs')) hinserts.of_append]
    change [s.action].foldlM applyAction ((sqlTable stmts).map SqlRow.toRow) = _
    rw [List.foldlM_cons, applyAction_statement stmts s (hs s (by simp))
      (fun hins => hinserts stmts [] (by rw [hins]))]
    rfl

theorem get_statements (stmts : List Statement) (hs : ∀ s ∈ stmts, s.Committable) (hinserts : InsertsFirst stmts) :
    get (stmts.map Statement.action) (stmts.map Statement.action).length = .ok ((sqlTable stmts).map SqlRow.toRow) := by
  rw [get_of_le _ _ (by omega) (le_refl _), Int.toNat_natCast, List.take_length, get_init]
  exact foldlM_applyAction_statements stmts hs hinserts

theorem format_toRow (r : SqlRow) : r.toRow.format = r.wrap.format := by
  simp [SqlRow.toRow, Row.format, SqlRow.format, SqlRow.wrap]

theorem updateResponse_statement (s : Statement) (hs : s.Committable) (index : Nat) (table : List SqlRow) :
    updateResponse s.action.inc (index + 1 : Nat) (table.map SqlRow.toRow) = sqlResponse index s (table.map SqlRow.wrap) := by
  have hindex : ((index + 1 : Nat) : Int) - 1 = index := by omega
  cases s with
  | update numeral word name =>
    obtain ⟨-, hpos, hle⟩ := hs
    have hinc : (decimalValue numeral).toUInt8 > 0 := by
      simp [UInt8.lt_iff_toNat_lt]
      omega
    simp only [updateResponse, Statement.action, hinc, if_true, hindex, sqlResponse, List.map_map,
      Function.comp_def, format_toRow]
  | insert =>
    simp only [updateResponse, Statement.action, hindex, sqlResponse]
    rfl

/-! ### Committed statements -/

theorem committable_of_ofBody {body : List UInt8} {stmt : Statement} (h : Statement.ofBody body = some stmt)
    (hupdate : ∀ numeral word name, stmt = .update numeral word name →
      name ∈ rowNames ∧ numeral.head? ≠ some 0x30 ∧ decimalValue numeral ≤ 255) :
    stmt.Committable ∧ sqlAction body = .ok stmt.action := by
  cases stmt with
  | update numeral word name =>
    obtain ⟨hname, hlead, hle⟩ := hupdate numeral word name rfl
    obtain ⟨-, -, hne, hdigits⟩ := ofBody_update h
    exact ⟨⟨hname, one_le_decimalValue numeral hdigits hne hlead, hle⟩, sqlAction_update h hname hlead hle⟩
  | insert => exact ⟨trivial, sqlAction_insert h⟩

end Ctf3.Level4
