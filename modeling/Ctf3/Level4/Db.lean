import Mathlib
import Ctf3.Lib.Printf
import Ctf3.Lib.Trace
import Ctf3.Level4.Action

/-!
# The action log and its readers

`DB` keeps the log of applied actions. `Put` appends under `db.mutex` and wakes the waiters of
`onAppend`; `GetWhenReady(k)` starts a goroutine that checks `len(db.actions) >= k` under the lock,
waits on `onAppend` otherwise, releases the lock, and then calls `Get(k)`, which takes the read lock
and folds the first `k` actions into the five rows. The check and the `Get` are two critical
sections, so the reply is right only because no step shrinks or rewrites the log. The system below
interleaves the steps of any number of goroutines; `db_log_safety` is the main result, about
every run.
-/

namespace Ctf3.Level4

open Printf

def rowCount : Nat := 5

structure Row where
  name : List UInt8
  friendCount : UInt32
  requestCount : UInt32
  favoriteWord : List UInt8
deriving DecidableEq, Repr

/-- `r.Format()`: `fmt.Sprintf("%s|%d|%d|%s", ...)`. -/
def Row.format (r : Row) : List UInt8 :=
  r.name ++ bytes "|" ++ decimal r.friendCount.toNat ++ bytes "|" ++ decimal r.requestCount.toNat ++
    bytes "|" ++ r.favoriteWord

def rowNames : List (List UInt8) :=
  [bytes "siddarth", bytes "gdb", bytes "christian", bytes "andy", bytes "carl"]

/-- Where `Get` panics: the slice `db.actions[:index]` past the log, or a row id past the rows. -/
inductive Panic
  | sliceBounds
  | indexOutOfRange
deriving DecidableEq, Repr

/-- One iteration of `Get`'s loop over the actions. -/
def applyAction (rows : List Row) (action : Action) : Except Panic (List Row) :=
  if h : action.rowId.toNat < rows.length then
    let row := rows[action.rowId.toNat]
    let row := { row with friendCount := row.friendCount + action.inc.toUInt32 }
    let row := if action.inc > 0 then { row with requestCount := row.requestCount + 1 } else row
    .ok (rows.set action.rowId.toNat { row with favoriteWord := action.favoriteWord })
  else .error .indexOutOfRange

/-- `db.Get(index)` on the log `actions`. An index past the log is a panic: Go either fails the
slice bounds check or reads the nil entries of the backing array. -/
def get (actions : List Action) (index : Int) : Except Panic (List Row) := do
  let actions ← if 0 ≤ index then
      (if index.toNat ≤ actions.length then pure (actions.take index.toNat) else throw .sliceBounds)
    else pure actions
  actions.foldlM applyAction (rowNames.map fun name => ⟨name, 0, 0, []⟩)

/-! ### Goroutines -/

/-- Where a goroutine is: a `Put` call, or a `GetWhenReady(index)` goroutine at one of its steps. -/
inductive GState
  | idle
  | put (action : Action)
  | putDone (action : Action) (index : Nat)
  | getLock (index : Int)
  | getCheck (index : Int)
  | getWait (index : Int)
  | getWoken (index : Int)
  | getUnlocked (index : Int)
  | getDone (index : Int) (response : Except Panic (List Row))

/-- The log, the goroutine that holds `db.mutex` for writing, and every goroutine's state. -/
structure Sys where
  actions : List Action
  holder : Option Nat
  goroutines : Nat → GState

inductive Event
  | spawnPut (action : Action)
  | spawnGet (index : Int)
  | run

def Sys.init : Sys := ⟨[], none, fun _ => .idle⟩

/-- `onAppend.Broadcast()`: every waiter is woken and will reacquire the lock. -/
def wake : GState → GState
  | .getWait index => .getWoken index
  | st => st

/-- `db.Put(action)` by goroutine `g`, one atomic step under the lock. -/
def Sys.put (s : Sys) (g : Nat) (action : Action) : Sys :=
  { s with
    actions := s.actions ++ [action]
    goroutines := fun g' => if g' = g then .putDone action (s.actions.length + 1) else wake (s.goroutines g') }

def Sys.setGoroutine (s : Sys) (g : Nat) (st : GState) : Sys :=
  { s with goroutines := Function.update s.goroutines g st }

def Sys.run (s : Sys) (g : Nat) : Option Sys :=
  match s.goroutines g with
  | .put action => if s.holder = none then some (s.put g action) else none
  | .getLock index =>
    if s.holder = none then some { s.setGoroutine g (.getCheck index) with holder := some g } else none
  | .getCheck index =>
    if s.holder = some g then
      -- db.mutex.Unlock() after a passing check; onAppend.Wait() unlocks too
      if index ≤ s.actions.length then some { s.setGoroutine g (.getUnlocked index) with holder := none }
      else some { s.setGoroutine g (.getWait index) with holder := none }
    else none
  | .getWoken index =>
    if s.holder = none then some { s.setGoroutine g (.getCheck index) with holder := some g } else none
  | .getUnlocked index =>
    -- Get(index) under the read lock, which no writer holds
    if s.holder = none then some (s.setGoroutine g (.getDone index (get s.actions index))) else none
  | _ => none

def Sys.step (s : Sys) : Nat × Event → Option Sys
  | (g, .spawnPut action) =>
    match s.goroutines g with
    | .idle => some (s.setGoroutine g (.put action))
    | _ => none
  | (g, .spawnGet index) =>
    match s.goroutines g with
    | .idle => some (s.setGoroutine g (.getLock index))
    | _ => none
  | (g, .run) => s.run g

/-! ### What `Get` returns -/

theorem applyAction_of_lt (rows : List Row) (action : Action) {i : Nat} (hid : action.rowId.toNat = i)
    (h : i < rows.length) :
    applyAction rows action = .ok (rows.set i ⟨rows[i].name, rows[i].friendCount + action.inc.toUInt32,
      if action.inc > 0 then rows[i].requestCount + 1 else rows[i].requestCount, action.favoriteWord⟩) := by
  subst hid
  unfold applyAction
  rw [dif_pos h]
  split <;> rfl

theorem applyAction_ne_sliceBounds (rows : List Row) (action : Action) :
    applyAction rows action ≠ .error .sliceBounds := by
  unfold applyAction
  split <;> simp

theorem foldlM_applyAction_ne_sliceBounds (actions : List Action) :
    ∀ rows : List Row, actions.foldlM applyAction rows ≠ .error .sliceBounds := by
  induction actions with
  | nil =>
    intro rows h
    cases h
  | cons action actions ih =>
    intro rows
    rw [List.foldlM_cons]
    cases happly : applyAction rows action with
    | error e =>
      change Except.error e ≠ Except.error Panic.sliceBounds
      rintro ⟨⟩
      exact applyAction_ne_sliceBounds rows action happly
    | ok rows' => exact ih rows'

theorem get_of_le (actions : List Action) (index : Int) (h0 : 0 ≤ index) (hle : index ≤ actions.length) :
    get actions index = (actions.take index.toNat).foldlM applyAction (rowNames.map fun name => ⟨name, 0, 0, []⟩) := by
  have hle' : index.toNat ≤ actions.length := by omega
  simp only [get, h0, hle', if_true]
  rfl

theorem get_ne_sliceBounds (actions : List Action) (index : Int) (h0 : 0 ≤ index) (hle : index ≤ actions.length) :
    get actions index ≠ .error .sliceBounds := by
  rw [get_of_le actions index h0 hle]
  exact foldlM_applyAction_ne_sliceBounds _ _

theorem get_eq_of_take_eq (l l' : List Action) (index : Int) (h0 : 0 ≤ index) (hle : index ≤ l.length)
    (hle' : index ≤ l'.length) (htake : l.take index.toNat = l'.take index.toNat) : get l index = get l' index := by
  rw [get_of_le l index h0 hle, get_of_le l' index h0 hle', htake]

/-! ### Steps -/

theorem eq_of_wake_eq {st st' : GState} (h : wake st = st') (hst' : ∀ index, st' ≠ .getWoken index) : st = st' := by
  cases st with
  | getWait index => exact absurd h.symm (hst' index)
  | _ => exact h

/-- The states a step other than `Put` may leave goroutine `g` in, from its state `old`. -/
def Sys.Allowed (s : Sys) (old : GState) : GState → Prop
  | .putDone _ _ => False
  | .getUnlocked index => index ≤ s.actions.length
  | .getDone index response => old = .getUnlocked index ∧ response = get s.actions index
  | _ => True

theorem step_cases {s s' : Sys} {g : Nat} {ev : Event} (h : s.step (g, ev) = some s') :
    (∃ action, s.goroutines g = .put action ∧ s' = s.put g action) ∨
    (s'.actions = s.actions ∧ ∃ st, s'.goroutines = Function.update s.goroutines g st ∧
      s.Allowed (s.goroutines g) st) := by
  cases ev with
  | spawnPut action =>
    simp only [Sys.step] at h
    split at h
    · cases h
      exact .inr ⟨rfl, .put action, rfl, trivial⟩
    · cases h
  | spawnGet index =>
    simp only [Sys.step] at h
    split at h
    · cases h
      exact .inr ⟨rfl, .getLock index, rfl, trivial⟩
    · cases h
  | run =>
    simp only [Sys.step, Sys.run] at h
    split at h
    · rename_i action hg
      split at h
      · cases h
        exact .inl ⟨action, hg, rfl⟩
      · cases h
    · split at h
      · cases h
        exact .inr ⟨rfl, _, rfl, trivial⟩
      · cases h
    · split at h
      · split at h
        · rename_i hle
          cases h
          exact .inr ⟨rfl, _, rfl, hle⟩
        · cases h
          exact .inr ⟨rfl, _, rfl, trivial⟩
      · cases h
    · split at h
      · cases h
        exact .inr ⟨rfl, _, rfl, trivial⟩
      · cases h
    · rename_i index hg
      split at h
      · cases h
        exact .inr ⟨rfl, _, rfl, hg, rfl⟩
      · cases h
    · cases h

theorem step_isPrefix {s s' : Sys} {e : Nat × Event} (h : s.step e = some s') : s.actions <+: s'.actions := by
  obtain ⟨g, ev⟩ := e
  rcases step_cases h with ⟨action, -, rfl⟩ | ⟨hactions, -⟩
  · exact List.prefix_append _ _
  · rw [hactions]

/-! ### The invariant -/

/-- What every reachable state satisfies: each finished `Put` returned the position of its own
action, no two finished `Put`s share one, and each `GetWhenReady` past its check reads inside
the log. -/
def Sys.Inv (s : Sys) : Prop :=
  (∀ g action index, s.goroutines g = .putDone action index → 1 ≤ index ∧ s.actions[index - 1]? = some action) ∧
  (∀ g g' action action' index, s.goroutines g = .putDone action index →
    s.goroutines g' = .putDone action' index → g = g') ∧
  (∀ g index, s.goroutines g = .getUnlocked index → index ≤ s.actions.length) ∧
  (∀ g index response, s.goroutines g = .getDone index response →
    index ≤ s.actions.length ∧ (0 ≤ index → response = get s.actions index))

theorem inv_init : Sys.init.Inv := by
  refine ⟨?_, ?_, ?_, ?_⟩ <;> intros <;> simp_all [Sys.init]

theorem put_inv {s : Sys} {g : Nat} {action : Action} (hinv : s.Inv) (hg : s.goroutines g = .put action) :
    (s.put g action).Inv := by
  obtain ⟨hdone, hdistinct, hunlocked, hgot⟩ := hinv
  have hlen : (s.put g action).actions.length = s.actions.length + 1 := by simp [Sys.put]
  have hother : ∀ g' st, g' ≠ g → (s.put g action).goroutines g' = st → (∀ index, st ≠ .getWoken index) →
      s.goroutines g' = st := by
    intro g' st hne hst hwoken
    simp only [Sys.put, hne, if_false] at hst
    exact eq_of_wake_eq hst hwoken
  have hself : (s.put g action).goroutines g = .putDone action (s.actions.length + 1) := by simp [Sys.put]
  have hne_of : ∀ g' st, (s.put g action).goroutines g' = st → st ≠ .putDone action (s.actions.length + 1) →
      g' ≠ g := by
    rintro g' st h hst rfl
    exact hst (h ▸ hself)
  have hold_lt : ∀ g' action' index, s.goroutines g' = .putDone action' index → index - 1 < s.actions.length :=
    fun g' action' index h => (List.getElem?_eq_some_iff.mp (hdone g' action' index h).2).1
  refine ⟨?_, ?_, ?_, ?_⟩
  · intro g' action' index h
    by_cases hne : g' = g
    · subst hne
      rw [hself, GState.putDone.injEq] at h
      obtain ⟨rfl, rfl⟩ := h
      simp [Sys.put]
    · have hprev := hother g' _ hne h (by simp)
      refine ⟨(hdone g' action' index hprev).1, ?_⟩
      simp only [Sys.put, List.getElem?_append_left (hold_lt g' action' index hprev), (hdone g' action' index hprev).2]
  · intro g1 g2 action1 action2 index h1 h2
    by_cases hg1 : g1 = g <;> by_cases hg2 : g2 = g
    · rw [hg1, hg2]
    · -- the new index is past every earlier one
      rw [hg1, hself, GState.putDone.injEq] at h1
      have hlt := hold_lt g2 action2 index (hother g2 _ hg2 h2 (by simp))
      omega
    · rw [hg2, hself, GState.putDone.injEq] at h2
      have hlt := hold_lt g1 action1 index (hother g1 _ hg1 h1 (by simp))
      omega
    · exact hdistinct g1 g2 action1 action2 index (hother g1 _ hg1 h1 (by simp)) (hother g2 _ hg2 h2 (by simp))
  · intro g' index h
    have hne := hne_of g' _ h (by simp)
    have := hunlocked g' index (hother g' _ hne h (by simp))
    rw [hlen]
    omega
  · intro g' index response h
    have hne := hne_of g' _ h (by simp)
    obtain ⟨hle, hresp⟩ := hgot g' index response (hother g' _ hne h (by simp))
    refine ⟨by rw [hlen]; omega, fun h0 => ?_⟩
    rw [hresp h0]
    exact get_eq_of_take_eq _ _ index h0 hle (by rw [hlen]; omega)
      (by simp [Sys.put, List.take_append_of_le_length (show index.toNat ≤ s.actions.length by omega)])

theorem move_inv {s : Sys} {g : Nat} {st : GState} (hinv : s.Inv) (hallowed : s.Allowed (s.goroutines g) st) :
    (s.setGoroutine g st).Inv := by
  obtain ⟨hdone, hdistinct, hunlocked, hgot⟩ := hinv
  have hcases : ∀ g' st', (s.setGoroutine g st).goroutines g' = st' →
      (g' = g ∧ st' = st) ∨ (g' ≠ g ∧ s.goroutines g' = st') := by
    intro g' st' h
    by_cases hne : g' = g
    · subst hne
      exact .inl ⟨rfl, by simpa [Sys.setGoroutine] using h.symm⟩
    · exact .inr ⟨hne, by simpa [Sys.setGoroutine, hne] using h⟩
  refine ⟨?_, ?_, ?_, ?_⟩
  · intro g' action index h
    rcases hcases g' _ h with ⟨-, rfl⟩ | ⟨-, h⟩
    · exact hallowed.elim
    · exact hdone g' action index h
  · intro g1 g2 action1 action2 index h1 h2
    rcases hcases g1 _ h1 with ⟨-, rfl⟩ | ⟨-, h1⟩
    · exact hallowed.elim
    rcases hcases g2 _ h2 with ⟨-, rfl⟩ | ⟨-, h2⟩
    · exact hallowed.elim
    exact hdistinct g1 g2 action1 action2 index h1 h2
  · intro g' index h
    rcases hcases g' _ h with ⟨-, rfl⟩ | ⟨-, h⟩
    · exact hallowed
    · exact hunlocked g' index h
  · intro g' index response h
    rcases hcases g' _ h with ⟨rfl, rfl⟩ | ⟨-, h⟩
    · obtain ⟨hold, hresp⟩ := hallowed
      exact ⟨hunlocked g' index hold, fun _ => hresp⟩
    · exact hgot g' index response h

theorem step_inv {s s' : Sys} {e : Nat × Event} (hinv : s.Inv) (h : s.step e = some s') : s'.Inv := by
  obtain ⟨g, ev⟩ := e
  rcases step_cases h with ⟨action, hg, rfl⟩ | ⟨hactions, st, hgoroutines, hallowed⟩
  · exact put_inv hinv hg
  · have hs' : s' = { s.setGoroutine g st with holder := s'.holder } := by
      cases s'
      simp_all [Sys.setGoroutine]
    rw [hs']
    exact move_inv hinv hallowed

/-! ### Every run -/

theorem db_log_safety (trace trace' : List (Nat × Event)) (s s' : Sys)
    (hs : Trace.exec Sys.step Sys.init trace = some s) (hs' : Trace.exec Sys.step s trace' = some s') :
    s.actions <+: s'.actions ∧
      (∀ g action index, s'.goroutines g = .putDone action index →
        1 ≤ index ∧ s'.actions[index - 1]? = some action) ∧
      (∀ g g' action action' index index', s'.goroutines g = .putDone action index →
        s'.goroutines g' = .putDone action' index' → g ≠ g' → index ≠ index') ∧
      (∀ g index response, s.goroutines g = .getDone index response → 0 ≤ index →
        response = get (s'.actions.take index.toNat) index ∧ response ≠ .error .sliceBounds) := by
  have hgrows : s.actions <+: s'.actions :=
    Trace.exec_rel Sys.step (fun a b => a.actions <+: b.actions) (fun _ => List.prefix_refl _)
      (fun _ _ _ h1 h2 => h1.trans h2) (fun _ _ _ h => step_isPrefix h) trace' s s' hs'
  have hinv : s.Inv := Trace.exec_invariant Sys.step Sys.Inv (fun _ _ _ hi h => step_inv hi h) trace _ s inv_init hs
  have hinv' : s'.Inv := Trace.exec_invariant Sys.step Sys.Inv (fun _ _ _ hi h => step_inv hi h) trace' s s' hinv hs'
  obtain ⟨hdone', hdistinct', -, -⟩ := hinv'
  obtain ⟨-, -, -, hgot⟩ := hinv
  refine ⟨hgrows, hdone', ?_, ?_⟩
  · intro g g' action action' index index' h h' hne hindex
    subst hindex
    exact hne (hdistinct' g g' action action' index h h')
  · intro g index response h h0
    obtain ⟨hle, hresp⟩ := hgot g index response h
    have hlen := hgrows.length_le
    refine ⟨?_, ?_⟩
    · rw [hresp h0]
      obtain ⟨rest, hrest⟩ := hgrows
      apply get_eq_of_take_eq _ _ index h0 hle (by simp; omega)
      rw [← hrest, List.take_take, Nat.min_self, List.take_append_of_le_length (by omega)]
    · rw [hresp h0]
      exact get_ne_sliceBounds _ index h0 hle

theorem db_log_safety_wait :
    ∃ s s', Trace.exec Sys.step Sys.init [(0, .spawnGet 1), (1, .spawnPut ⟨0, 1, bytes "a"⟩), (0, .run),
        (0, .run), (1, .run), (0, .run), (0, .run), (0, .run)] = some s ∧
      Trace.exec Sys.step s [(2, .spawnPut ⟨1, 2, bytes "b"⟩), (2, .run)] = some s' ∧
      s.goroutines 0 = .getDone 1 (get [⟨0, 1, bytes "a"⟩] 1) ∧
      (s.actions <+: s'.actions ∧
      (∀ g action index, s'.goroutines g = .putDone action index →
        1 ≤ index ∧ s'.actions[index - 1]? = some action) ∧
      (∀ g g' action action' index index', s'.goroutines g = .putDone action index →
        s'.goroutines g' = .putDone action' index' → g ≠ g' → index ≠ index') ∧
      (∀ g index response, s.goroutines g = .getDone index response → 0 ≤ index →
        response = get (s'.actions.take index.toNat) index ∧ response ≠ .error .sliceBounds)) :=
  ⟨_, _, rfl, rfl, rfl, db_log_safety [(0, .spawnGet 1), (1, .spawnPut ⟨0, 1, bytes "a"⟩), (0, .run), (0, .run),
    (1, .run), (0, .run), (0, .run), (0, .run)] [(2, .spawnPut ⟨1, 2, bytes "b"⟩), (2, .run)] _ _ rfl rfl⟩

end Ctf3.Level4
