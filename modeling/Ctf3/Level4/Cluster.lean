import Mathlib
import Ctf3.Lib.Printf
import Ctf3.Lib.GoIo
import Ctf3.Level4.Action
import Ctf3.Level4.Db
import Ctf3.Level4.Server

/-!
# Requests into the replicated log

Actions reach raft's log from two handlers. `sqlHandler` builds one from a body, with the row id
found in `rowNames`; on a follower, `Cluster.Do` encodes it and posts it to the leader's
`/do/action`. `doHandler` decodes whatever body it is sent, and nothing checks the row id of what
it decodes. Raft is a parameter: the entry it commits for a proposal is what `Decode` reads back
from the proposal's encoding (`RaftDecodes`), and every replica applies the same entries in order.

`get_after_doAction` says that one request to `/do/action` with a row id past the table makes every
later `Get` panic; `serve_sqlResponses` says when the replies to `/sql` bodies, taken at the leader
or at a follower, are what SQLite returns.
-/

namespace Ctf3.Level4

open Printf GoIo Strconv

inductive Request
  | sql (body : List UInt8)
  | doCommand (command body : List UInt8)

/-- `doHandler(w, req)` up to `c.raftServer.Do(cmd)`: the decoded action, or the reply. -/
def doAction (command body : List UInt8) : Except Response Action :=
  if command ≠ bytes "action" then
    .error (httpError (bytes "Currently only support forwarding actions, got: " ++ command) 500)
  else
    match (Action.mk 0 0 []).decode body with
    | (cmd, _, none) => .ok cmd
    | (_, _, some e) => .error (httpError e.message 500)

/-- A request, and whether the node it reaches leads the cluster. -/
structure Delivery where
  request : Request
  atLeader : Bool

/-- The action the leader proposes to raft for a delivery. A follower forwards the action of a
`/sql` body to the leader's `/do/action`, and its own raft refuses `/do/{command}`. -/
def proposed (d : Delivery) : Option Action :=
  match d.request with
  | .sql body =>
    match sqlAction body with
    | .ok cmd => if d.atLeader then some cmd else (doAction (bytes "action") cmd.encode).toOption
    | .error _ => none
  | .doCommand command body => if d.atLeader then (doAction command body).toOption else none

/-- The actions the leader hands raft, in order. -/
def clusterLog (ds : List Delivery) : List Action := ds.filterMap proposed

/-- `c.Do(action)` as `updateHandler` calls it: the action the leader hands raft, or the reply. A
follower posts the encoded action to the leader, and a reply other than 200 comes back as a
`RequestError`, which `updateHandler` answers with a 500. -/
def clusterDo (atLeader : Bool) (action : Action) : Except Response Action :=
  if atLeader then .ok action
  else (doAction (bytes "action") action.encode).mapError fun r =>
    httpError (bytes "Status code " ++ decimal r.status ++ bytes ": " ++ r.body) 500

/-- The entry goraft commits for a proposal holds the bytes `Encode` writes, and every replica, the
leader too, applies the action `Decode` reads from them into a new zero `db.Action`. -/
def decodeEntry (proposal : Action) : Action := ((Action.mk 0 0 []).decode proposal.encode).1

/-- What is assumed of raft: the action applied for a committed proposal is its decoded encoding. -/
def RaftDecodes (raft : Action → Action) : Prop := ∀ proposal, raft proposal = decodeEntry proposal

/-- The log every replica applies: raft's entries for the leader's proposals, in order. -/
def committedLog (raft : Action → Action) (ds : List Delivery) : List Action := (clusterLog ds).map raft

/-! ### Row ids of the actions `sqlHandler` builds -/

theorem updateAction_rowId {name word : List UInt8} {inc : UInt8} {a : Action}
    (h : updateAction name inc word = .ok a) : a.rowId.toNat < rowCount := by
  unfold updateAction at h
  split at h
  · rename_i hname
    cases h
    have hidx : rowNames.idxOf name < rowCount := List.idxOf_lt_length_of_mem hname
    have hsmall : rowNames.idxOf name < 2 ^ 32 := by
      have : rowCount = 5 := rfl
      omega
    change (rowNames.idxOf name).toUInt32.toNat < rowCount
    rw [Nat.toUInt32_eq, UInt32.toNat_ofNat', Nat.mod_eq_of_lt hsmall]
    exact hidx
  · cases h

theorem sqlAction_rowId {body : List UInt8} {a : Action} (h : sqlAction body = .ok a) :
    a.rowId.toNat < rowCount := by
  unfold sqlAction at h
  split at h
  · split at h
    · cases h
    · exact updateAction_rowId h
  · split at h
    · exact updateAction_rowId h
    · cases h

theorem exec_decodeFields_encode_take (a : Action) (rest : List UInt8) :
    decodeFields.exec (a.encode ++ rest) =
      (.ok ⟨a.rowId, a.inc, a.favoriteWord.take a.favoriteWord.length.toUInt8.toNat⟩,
        a.favoriteWord.drop a.favoriteWord.length.toUInt8.toNat ++ rest) := by
  have hbytes : a.encode ++ rest =
      putUInt32BE a.rowId ++ (a.inc :: a.favoriteWord.length.toUInt8 :: (a.favoriteWord ++ rest)) := by
    simp [Action.encode]
  have hle : a.favoriteWord.length.toUInt8.toNat ≤ a.favoriteWord.length := by
    rw [Nat.toUInt8_eq, UInt8.toNat_ofNat']
    exact Nat.mod_le _ _
  have hword : (readFull a.favoriteWord.length.toUInt8.toNat).exec (a.favoriteWord ++ rest) =
      (.ok (a.favoriteWord.take a.favoriteWord.length.toUInt8.toNat),
        a.favoriteWord.drop a.favoriteWord.length.toUInt8.toNat ++ rest) := by
    rw [exec_readFull, if_pos (by rw [List.length_append]; omega), List.take_append_of_le_length hle,
      List.drop_append_of_le_length hle]
  rw [hbytes, decodeFields, exec_bind_ok _ _ (exec_readUInt32BE_put _ _), exec_bind_ok _ _ (exec_readUInt8_cons _ _),
    exec_bind_ok _ _ (exec_readUInt8_cons _ _), exec_bind_ok _ _ hword]
  rfl

theorem doAction_encode (cmd : Action) :
    doAction (bytes "action") cmd.encode =
      .ok ⟨cmd.rowId, cmd.inc, cmd.favoriteWord.take cmd.favoriteWord.length.toUInt8.toNat⟩ := by
  have hdecode := decode_of_exec_ok (Action.mk 0 0 []) _ (exec_decodeFields_encode_take cmd [])
  rw [List.append_nil] at hdecode
  rw [doAction, if_neg (fun h => h rfl), hdecode]

theorem doAction_encode_of_short (a : Action) (hword : a.favoriteWord.length < 256) :
    doAction (bytes "action") a.encode = .ok a := by
  rw [doAction_encode, toNat_strLen hword, List.take_length]

theorem clusterDo_of_short (atLeader : Bool) (a : Action) (hword : a.favoriteWord.length < 256) :
    clusterDo atLeader a = .ok a := by
  cases atLeader with
  | true => rfl
  | false => simp only [clusterDo, Bool.false_eq_true, if_false, doAction_encode_of_short a hword, Except.mapError]

theorem proposed_sql (body : List UInt8) (atLeader : Bool) :
    proposed ⟨.sql body, atLeader⟩ = (sqlAction body >>= clusterDo atLeader).toOption := by
  simp only [proposed]
  cases sqlAction body with
  | error response => rfl
  | ok cmd =>
    cases atLeader with
    | true => rfl
    | false =>
      show (doAction (bytes "action") cmd.encode).toOption = (clusterDo false cmd).toOption
      simp only [clusterDo, Bool.false_eq_true, if_false, doAction_encode]
      rfl

theorem proposed_sql_rowId {body : List UInt8} {atLeader : Bool} {a : Action}
    (h : proposed ⟨.sql body, atLeader⟩ = some a) : a.rowId.toNat < rowCount := by
  simp only [proposed] at h
  split at h
  · rename_i cmd hcmd
    cases atLeader with
    | true =>
      cases h
      exact sqlAction_rowId hcmd
    | false =>
      rw [if_neg (by decide), doAction_encode] at h
      cases h
      have hrow := sqlAction_rowId hcmd
      exact hrow
  · cases h

/-! ### What raft commits -/

theorem decodeEntry_rowId (proposal : Action) : (decodeEntry proposal).rowId = proposal.rowId := by
  have hdecode := decode_of_exec_ok (Action.mk 0 0 []) _ (exec_decodeFields_encode_take proposal [])
  rw [List.append_nil] at hdecode
  rw [decodeEntry, hdecode]

theorem decodeEntry_of_short (proposal : Action) (hword : proposal.favoriteWord.length < 256) :
    decodeEntry proposal = proposal := by
  have hdecode := decode_encode (Action.mk 0 0 []) proposal [] hword
  rw [List.append_nil] at hdecode
  rw [decodeEntry, hdecode]

/-! ### `Get` on a log -/

theorem length_of_applyAction {rows rows' : List Row} {action : Action}
    (h : applyAction rows action = .ok rows') : rows'.length = rows.length := by
  unfold applyAction at h
  split at h
  · cases h
    exact List.length_set ..
  · cases h

theorem foldlM_applyAction_of_mem (actions : List Action) :
    ∀ rows : List Row, (∃ a ∈ actions, rows.length ≤ a.rowId.toNat) →
      actions.foldlM applyAction rows = .error .indexOutOfRange := by
  induction actions with
  | nil =>
    rintro rows ⟨a, ha, -⟩
    cases ha
  | cons action actions ih =>
    rintro rows ⟨a, ha, hbad⟩
    rw [List.foldlM_cons]
    by_cases hid : action.rowId.toNat < rows.length
    · obtain ⟨rows', happly⟩ : ∃ rows', applyAction rows action = .ok rows' :=
        ⟨_, applyAction_of_lt rows action rfl hid⟩
      have hlen := length_of_applyAction happly
      rcases List.mem_cons.mp ha with rfl | ha
      · omega
      · rw [happly]
        exact ih rows' ⟨a, ha, by omega⟩
    · have happly : applyAction rows action = .error .indexOutOfRange := by
        unfold applyAction
        rw [dif_neg hid]
      rw [happly]
      rfl

theorem foldlM_applyAction_ok (actions : List Action) :
    ∀ rows : List Row, (∀ a ∈ actions, a.rowId.toNat < rows.length) →
      ∃ rows', actions.foldlM applyAction rows = .ok rows' := by
  induction actions with
  | nil =>
    intro rows _
    exact ⟨rows, rfl⟩
  | cons action actions ih =>
    intro rows hall
    obtain ⟨rows', happly⟩ : ∃ rows', applyAction rows action = .ok rows' :=
      ⟨_, applyAction_of_lt rows action rfl (hall action (List.mem_cons_self ..))⟩
    have hlen := length_of_applyAction happly
    rw [List.foldlM_cons, happly]
    exact ih rows' fun a ha => hlen ▸ hall a (List.mem_cons_of_mem _ ha)

theorem length_initialRows : (rowNames.map fun name => (⟨name, 0, 0, []⟩ : Row)).length = rowCount := rfl

theorem get_ok_of_rowId_lt (log : List Action) (hlog : ∀ a ∈ log, a.rowId.toNat < rowCount) (index : Int)
    (h0 : 0 ≤ index) (hle : index ≤ log.length) : ∃ rows, get log index = .ok rows := by
  rw [get_of_le log index h0 hle]
  exact foldlM_applyAction_ok _ _ fun a ha => length_initialRows ▸ hlog a (List.mem_of_mem_take ha)

theorem get_of_rowId_ge (log : List Action) (i : Nat) (hi : i < log.length) (hbad : rowCount ≤ log[i].rowId.toNat)
    (index : Int) (hlo : i < index) (hle : index ≤ log.length) : get log index = .error .indexOutOfRange := by
  rw [get_of_le log index (by omega) hle]
  refine foldlM_applyAction_of_mem _ _ ⟨log[i], ?_, length_initialRows ▸ hbad⟩
  exact List.mem_iff_getElem.mpr ⟨i, by simp only [List.length_take]; omega, by simp⟩

/-! ### The cluster -/

/-- A log built from `/sql` bodies alone never makes `Get` panic on an index in the log. -/
theorem get_committedLog_sql (raft : Action → Action) (hraft : RaftDecodes raft) (ds : List Delivery)
    (hsql : ∀ d ∈ ds, ∃ body, d.request = .sql body) (index : Int) (h0 : 0 ≤ index)
    (hle : index ≤ (committedLog raft ds).length) : ∃ rows, get (committedLog raft ds) index = .ok rows := by
  refine get_ok_of_rowId_lt _ ?_ index h0 hle
  intro a ha
  obtain ⟨proposal, hproposal, rfl⟩ := List.mem_map.mp ha
  obtain ⟨d, hd, hprop⟩ := List.mem_filterMap.mp hproposal
  obtain ⟨body, hbody⟩ := hsql d hd
  obtain ⟨request, atLeader⟩ := d
  cases hbody
  rw [hraft, decodeEntry_rowId]
  exact proposed_sql_rowId hprop

theorem get_committedLog_sql_update :
    ∃ rows, get (committedLog decodeEntry [⟨.sql (bytes "UPDATE ctf3 SET friendCount=friendCount+5, requestCount=requestCount+1, favoriteWord=\"ab\" WHERE name=\"gdb\"; SELECT * FROM ctf3;"), false⟩]) 1 = .ok rows :=
  get_committedLog_sql decodeEntry (fun _ => rfl) _ (by simp) 1 (by decide)
    (by set_option maxRecDepth 8000 in decide)

def badDelivery : Delivery := ⟨.doCommand (bytes "action") [0x00, 0x00, 0x00, 0x05, 0x01, 0x00], true⟩

theorem proposed_badDelivery : proposed badDelivery = some ⟨5, 1, []⟩ := by
  decide

/-- Whatever was committed before and after it, once the leader has taken `badDelivery` every `Get`
of a later index panics on every replica. -/
theorem get_after_doAction (before after : List Delivery) (index : Int)
    (hlo : (clusterLog before).length < index) (hle : index ≤ (clusterLog (before ++ badDelivery :: after)).length) :
    get (clusterLog (before ++ badDelivery :: after)) index = .error .indexOutOfRange := by
  have hlog : clusterLog (before ++ badDelivery :: after) = clusterLog before ++ ⟨5, 1, []⟩ :: clusterLog after := by
    rw [clusterLog, List.filterMap_append, List.filterMap_cons, proposed_badDelivery]
    rfl
  rw [hlog] at hle ⊢
  refine get_of_rowId_ge _ (clusterLog before).length (by simp) ?_ index hlo hle
  rw [List.getElem_append_right (le_refl _)]
  simp only [Nat.sub_self, List.getElem_cons_zero]
  decide

theorem get_after_doAction_fresh :
    (clusterLog []).length < (1 : Int) ∧ (1 : Int) ≤ (clusterLog ([] ++ badDelivery :: [])).length ∧
      get (clusterLog ([] ++ badDelivery :: [])) 1 = .error .indexOutOfRange :=
  ⟨by decide, by decide, get_after_doAction [] [] 1 (by decide) (by decide)⟩

/-! ### Replies to `/sql` bodies -/

/-- The replies to `/sql` requests, each a body and whether the node that takes it leads, in the
order their actions are committed. `c.Do` hands raft a proposal, raft commits its entry as the next
of `log`, and `GetWhenReady(index)` returns `Get(index)` on the first `index` entries, the same on
every replica. A panic of `Get` stops the server. -/
def serve (raft : Action → Action) : List Action → List (List UInt8 × Bool) → Except Panic (List Response)
  | _, [] => .ok []
  | log, (body, atLeader) :: requests =>
    match sqlAction body with
    | .error response => (serve raft log requests).map (response :: ·)
    | .ok action =>
      match clusterDo atLeader action with
      | .error response => (serve raft log requests).map (response :: ·)
      | .ok proposal => do
        let log := log ++ [raft proposal]
        let rows ← get log log.length
        let responses ← serve raft log requests
        pure (updateResponse action.inc log.length rows :: responses)

/-- The conditions on an UPDATE under which its reply is SQLite's: a row name, a numeral without a
leading zero of at most 255, and a word that fits the length byte. -/
def Statement.Servable : Statement → Prop
  | .update numeral word name =>
    name ∈ rowNames ∧ numeral.head? ≠ some 0x30 ∧ decimalValue numeral ≤ 255 ∧ word.length < 256
  | .insert => True

theorem length_word_action {stmt : Statement} (h : stmt.Servable) : stmt.action.favoriteWord.length < 256 := by
  cases stmt with
  | update numeral word name => exact h.2.2.2
  | insert => decide

theorem committable_of_servable {body : List UInt8} {stmt : Statement} (hbody : Statement.ofBody body = some stmt)
    (hstmt : stmt.Servable) : stmt.Committable ∧ sqlAction body = .ok stmt.action :=
  committable_of_ofBody hbody fun numeral word name h => by
    subst h
    exact ⟨hstmt.1, hstmt.2.1, hstmt.2.2.1⟩

theorem serve_cons {raft : Action → Action} (hraft : RaftDecodes raft) (log : List Action) {body : List UInt8}
    {stmt : Statement} (atLeader : Bool) (requests : List (List UInt8 × Bool)) (hbody : Statement.ofBody body = some stmt)
    (hstmt : stmt.Servable) :
    serve raft log ((body, atLeader) :: requests) = (do
      let rows ← get (log ++ [stmt.action]) (log.length + 1 : Nat)
      let responses ← serve raft (log ++ [stmt.action]) requests
      pure (updateResponse stmt.action.inc (log.length + 1 : Nat) rows :: responses)) := by
  have hword := length_word_action hstmt
  have haction := (committable_of_servable hbody hstmt).2
  have hentry : raft stmt.action = stmt.action := (hraft _).trans (decodeEntry_of_short _ hword)
  simp only [serve, haction, clusterDo_of_short atLeader _ hword, hentry, List.length_append,
    List.length_singleton]

/-- `serve` after the statements `pre`, by induction on the requests that follow. -/
theorem serve_statements {raft : Action → Action} (hraft : RaftDecodes raft) (pre : List Statement)
    {requests : List (List UInt8 × Bool)} {stmts : List Statement}
    (hparse : List.Forall₂ (fun request stmt => Statement.ofBody request.1 = some stmt) requests stmts)
    (hservable : ∀ stmt ∈ stmts, stmt.Servable)
    (hpre : ∀ s ∈ pre, s.Committable) (hinserts : InsertsFirst (pre ++ stmts)) :
    serve raft (pre.map Statement.action) requests = .ok (stmts.mapIdx fun i stmt =>
      sqlResponse (pre.length + i) stmt ((sqlTable (pre ++ stmts.take (i + 1))).map SqlRow.wrap)) := by
  induction hparse generalizing pre with
  | nil => rfl
  | @cons request stmt requests stmts hbody _ ih =>
    obtain ⟨body, atLeader⟩ := request
    have hstmt := hservable stmt (List.mem_cons_self ..)
    have hc := (committable_of_servable hbody hstmt).1
    have hpre' : ∀ s ∈ pre ++ [stmt], s.Committable := by
      intro s hs
      rcases List.mem_append.mp hs with hs | hs
      · exact hpre s hs
      · rw [List.mem_singleton.mp hs]
        exact hc
    have hinserts' : InsertsFirst ((pre ++ [stmt]) ++ stmts) := by simpa using hinserts
    have hrest := ih (pre ++ [stmt]) (fun s hs => hservable s (List.mem_cons_of_mem _ hs)) hpre' hinserts'
    have hget := get_statements (pre ++ [stmt]) hpre' hinserts'.of_append
    rw [List.map_append, List.map_singleton] at hget hrest
    have hlen : (pre.map Statement.action ++ [stmt.action]).length = pre.length + 1 := by simp
    rw [hlen] at hget
    rw [serve_cons hraft _ atLeader requests hbody hstmt, List.length_map, hget, hrest]
    change Except.ok (updateResponse stmt.action.inc ((pre.length + 1 : Nat) : Int)
      ((sqlTable (pre ++ [stmt])).map SqlRow.toRow) :: _) = _
    rw [updateResponse_statement stmt hc, List.mapIdx_cons]
    simp [List.take_succ_cons, Nat.add_assoc, Nat.add_comm 1]

/-- Take `/sql` bodies in the order their actions are committed, each an UPDATE of one of the five
rows or an INSERT, and each taken at the leader or at a follower. When every UPDATE's `N` is written
without a leading zero and is at most 255, every word is shorter than 256 bytes, and no INSERT comes
after an UPDATE of gdb, every body is committed, the reply to each UPDATE is `SequenceNumber: s` and
the five rows SQLite holds after it, their counts modulo `2^32`, and the reply to each INSERT is
`SequenceNumber: s`. -/
theorem serve_sqlResponses (raft : Action → Action) (hraft : RaftDecodes raft)
    (requests : List (List UInt8 × Bool)) (stmts : List Statement)
    (hparse : List.Forall₂ (fun request stmt => Statement.ofBody request.1 = some stmt) requests stmts)
    (hupdates : ∀ numeral word name, Statement.update numeral word name ∈ stmts →
      name ∈ rowNames ∧ numeral.head? ≠ some 0x30 ∧ decimalValue numeral ≤ 255 ∧ word.length < 256)
    (hinserts : InsertsFirst stmts) :
    serve raft [] requests = .ok (stmts.mapIdx fun i stmt =>
      sqlResponse i stmt ((sqlTable (stmts.take (i + 1))).map SqlRow.wrap)) := by
  have hservable : ∀ stmt ∈ stmts, stmt.Servable := by
    intro stmt hstmt
    cases stmt with
    | update numeral word name => exact hupdates numeral word name hstmt
    | insert => trivial
  have h := serve_statements hraft [] hparse hservable (by simp) (by simpa using hinserts)
  simpa using h

theorem serve_sqlResponses_insert_update :
    serve decodeEntry [] [(bytes "INSERT INTO ctf3 (name) VALUES (\"siddarth\"), (\"gdb\");", true),
      (bytes "UPDATE ctf3 SET friendCount=friendCount+5, requestCount=requestCount+1, favoriteWord=\"ab\" WHERE name=\"gdb\"; SELECT * FROM ctf3;", false)] =
      .ok ([Statement.insert, .update (bytes "5") (bytes "ab") (bytes "gdb")].mapIdx fun i stmt =>
        sqlResponse i stmt ((sqlTable ([Statement.insert, .update (bytes "5") (bytes "ab") (bytes "gdb")].take
          (i + 1))).map SqlRow.wrap)) := by
  apply serve_sqlResponses decodeEntry (fun _ => rfl)
  · set_option maxRecDepth 8000 in decide
  · intro numeral word name h
    simp only [List.mem_cons, reduceCtorEq, Statement.update.injEq, List.not_mem_nil, or_false, false_or] at h
    obtain ⟨rfl, rfl, rfl⟩ := h
    decide
  · -- the INSERT is the first statement
    intro before after h
    cases before with
    | nil => rfl
    | cons s before =>
      cases before with
      | nil => cases h
      | cons s' before =>
        have := congrArg List.length h
        simp at this

/-- An UPDATE with `N = 0`: `ParseUint` gives the increment 0, which `updateHandler` takes for an
INSERT, so the reply has no rows, while SQLite's has the five rows, siddarth's request count at 1. -/
theorem serve_update_zero :
    Statement.ofBody (bytes "UPDATE ctf3 SET friendCount=friendCount+0, requestCount=requestCount+1, favoriteWord=\"a\" WHERE name=\"siddarth\"; SELECT * FROM ctf3;") =
        some (.update (bytes "0") (bytes "a") (bytes "siddarth")) ∧
      serve decodeEntry [] [(bytes "UPDATE ctf3 SET friendCount=friendCount+0, requestCount=requestCount+1, favoriteWord=\"a\" WHERE name=\"siddarth\"; SELECT * FROM ctf3;", true)] =
        .ok [⟨200, bytes "SequenceNumber: 0\n"⟩] ∧
      sqlResponse 0 (.update (bytes "0") (bytes "a") (bytes "siddarth"))
        (sqlTable [.update (bytes "0") (bytes "a") (bytes "siddarth")]) =
        ⟨200, bytes "SequenceNumber: 0\nsiddarth|0|1|a\ngdb|0|0|\nchristian|0|0|\nandy|0|0|\ncarl|0|0|\n"⟩ := by
  set_option maxRecDepth 8000 in decide

end Ctf3.Level4
