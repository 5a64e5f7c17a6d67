import Mathlib
import Ctf3.Lib.Printf
import Ctf3.Lib.Trace
import Ctf3.Libgit2.Oid

/-!
# The miner's loop and its update thread

`main` in `level1.c` runs a loop that resets the work tree when `updated` is set, brute-forces a
coin, and commits it; `check_updates_worker` runs beside it and pushes the commit `push_commit`
points at. They share `stop`, `updated`, `push_commit` and `curr_commit`, under `commit_mutex`
and `update_mutex`, and `int_handler` sets `stop` and `updated` on `SIGINT`. Each statement of
the two threads is one step; a `pthread_mutex_lock` step waits for the mutex to be free.

Every run keeps the log of what the miner does to the repository in the order an automaton
allows (`accepts_effects`): a commit is made only when no other waits for its push, and the next
push names it, unless a reset drops it. Without `SIGINT` the update thread never runs
`check_updates` and never pushes `NULL` (`quiet_no_null_push`). With it, a signal between the
thread's test of `push_commit` and its lock lets `main` clear `push_commit`, and the thread runs
`git push origin :master` (`signal_pushes_null`).
-/

namespace Ctf3.Level1.Miner

open Printf Libgit2

/-- Where `main` is in its `while(!stop)` loop. -/
inductive MainPc
  | loop
  | lockCommit
  | lockUpdate
  | checkUpdated
  | resetHard
  | clearUpdated
  | clearPush
  | unlockUpdate
  | unlockCommit
  | hash
  | checkFound
  | waitPush
  | recheck
  | lockCommit2
  | commit
  | setPush
  | unlockCommit2
  | joinWorker
  | done
deriving DecidableEq, Repr

/-- Where `check_updates_worker` is in its `while(!stop)` loop. -/
inductive WorkerPc
  | loop
  | check
  | recheck
  | lock
  | push
  | lockUpdate
  | fetch
  | setUpdated
  | unlockUpdate
  | clear
  | unlock
  | checkUpdates
  | lockUpdate2
  | setUpdated2
  | unlockUpdate2
  | done
deriving DecidableEq, Repr

inductive Thread
  | main
  | worker
deriving DecidableEq, Repr

/-- What the miner does to the repository: `reset_hard()`, `commit_result` writing a coin,
`push_result_shell` with `push_commit` (`none` for `NULL`) and its outcome, `fetch_updates()`. -/
inductive Effect
  | reset
  | commit (oid : Vector UInt8 20)
  | push (commit : Option (Vector UInt8 20)) (ok : Bool)
  | fetch
deriving DecidableEq, Repr

/-- The shared variables, the two mutexes by holder, and the log of effects. `pushCommit` says
whether `push_commit` is `&curr_commit` or `NULL`, its only two values. -/
structure State where
  main : MainPc
  worker : WorkerPc
  stop : Bool
  updated : Bool
  pushCommit : Bool
  currCommit : Vector UInt8 20
  found : Bool
  commitMutex : Option Thread
  updateMutex : Option Thread
  effects : List Effect

/-- A scheduling step of one thread, with what its call returned: `force_hash` (whether the thread
was created, and `args.found`), the oid `commit_result` wrote, the status of the push, whether
`check_updates` saw an update; or `SIGINT`. -/
inductive Event
  | main
  | hashed (created found : Bool)
  | committed (oid : Vector UInt8 20)
  | worker
  | pushed (ok : Bool)
  | checked (detected : Bool)
  | signal
deriving DecidableEq, Repr

/-- Both threads at the top of their loops, `curr_commit` uninitialised. -/
def init (curr : Vector UInt8 20) : State := ⟨.loop, .loop, false, false, false, curr, false, none, none, []⟩

/-- A step of `main` that takes no input. -/
def State.mainStep (s : State) : Option State :=
  match s.main with
  | .loop => some (if s.stop then { s with main := .joinWorker } else { s with main := .lockCommit, found := false })
  | .lockCommit =>
    if s.commitMutex = none then some { s with main := .lockUpdate, commitMutex := some .main } else none
  | .lockUpdate =>
    if s.updateMutex = none then some { s with main := .checkUpdated, updateMutex := some .main } else none
  | .checkUpdated => some { s with main := if s.updated then .resetHard else .unlockUpdate }
  | .resetHard => some { s with main := .clearUpdated, effects := s.effects ++ [.reset] }
  | .clearUpdated => some { s with main := .clearPush, updated := false }
  | .clearPush => some { s with main := .unlockUpdate, pushCommit := false }
  | .unlockUpdate => some { s with main := .unlockCommit, updateMutex := none }
  | .unlockCommit => some { s with main := .hash, commitMutex := none }
  | .checkFound => some { s with main := if !s.stop && !s.updated && s.found then .waitPush else .loop }
  | .waitPush => some { s with main := if s.pushCommit then .waitPush else .recheck }
  | .recheck => some { s with main := if !s.stop && !s.updated then .lockCommit2 else .loop }
  | .lockCommit2 =>
    if s.commitMutex = none then some { s with main := .commit, commitMutex := some .main } else none
  | .setPush => some { s with main := .unlockCommit2, pushCommit := true }
  | .unlockCommit2 => some { s with main := .loop, commitMutex := none }
  | .joinWorker => if s.worker = .done then some { s with main := .done } else none
  | .hash | .commit | .done => none

/-- A step of the update thread that takes no input. -/
def State.workerStep (s : State) : Option State :=
  match s.worker with
  | .loop => some { s with worker := if s.stop then .done else .check }
  | .check => some { s with worker := if !s.updated && s.pushCommit then .recheck else .loop }
  | .recheck => some { s with worker := if s.pushCommit then .lock else .checkUpdates }
  | .lock => if s.commitMutex = none then some { s with worker := .push, commitMutex := some .worker } else none
  | .lockUpdate =>
    if s.updateMutex = none then some { s with worker := .fetch, updateMutex := some .worker } else none
  | .fetch => some { s with worker := .setUpdated, effects := s.effects ++ [.fetch] }
  | .setUpdated => some { s with worker := .unlockUpdate, updated := true }
  | .unlockUpdate => some { s with worker := .clear, updateMutex := none }
  | .clear => some { s with worker := .unlock, pushCommit := false }
  | .unlock => some { s with worker := .loop, commitMutex := none }
  | .lockUpdate2 =>
    if s.updateMutex = none then some { s with worker := .setUpdated2, updateMutex := some .worker } else none
  | .setUpdated2 => some { s with worker := .unlockUpdate2, updated := true }
  | .unlockUpdate2 => some { s with worker := .loop, updateMutex := none }
  | .push | .checkUpdates | .done => none

def State.step (s : State) : Event → Option State
  | .main => s.mainStep
  | .hashed created found =>
    -- `pthread_create` failing sets `stop`; else `force_hash` ran and left `args.found`
    if s.main = .hash then
      some (if created then { s with main := .checkFound, found := found }
        else { s with main := .checkFound, stop := true })
    else none
  | .committed oid =>
    if s.main = .commit then
      some { s with main := .setPush, currCommit := oid, effects := s.effects ++ [.commit oid] }
    else none
  | .worker => s.workerStep
  | .pushed ok =>
    if s.worker = .push then
      some { s with
        worker := if ok then .clear else .lockUpdate
        effects := s.effects ++ [.push (if s.pushCommit then some s.currCommit else none) ok] }
    else none
  | .checked detected =>
    -- `check_updates()` fetches, and compares `origin/master` before and after
    if s.worker = .checkUpdates then
      some { s with
        worker := if detected then .lockUpdate2 else .loop
        effects := s.effects ++ [.fetch] }
    else none
  | .signal => some { s with stop := true, updated := true }

/-- The command `push_result_shell` runs: `git_oid_tostr` writes forty zero bytes for `NULL`. -/
def pushCommand (commit : Option (Vector UInt8 20)) : Option (List UInt8) :=
  render "git push origin %s:master".toList [.str (tostr 41 commit)]

theorem pushCommand_none : pushCommand none = some (bytes "git push origin :master") := by
  decide

def MainPc.holdsCommit : MainPc → Bool
  | .lockUpdate | .checkUpdated | .resetHard | .clearUpdated | .clearPush | .unlockUpdate | .unlockCommit
  | .commit | .setPush | .unlockCommit2 => true
  | _ => false

def MainPc.holdsUpdate : MainPc → Bool
  | .checkUpdated | .resetHard | .clearUpdated | .clearPush | .unlockUpdate => true
  | _ => false

def WorkerPc.holdsCommit : WorkerPc → Bool
  | .push | .lockUpdate | .fetch | .setUpdated | .unlockUpdate | .clear | .unlock => true
  | _ => false

def WorkerPc.holdsUpdate : WorkerPc → Bool
  | .fetch | .setUpdated | .unlockUpdate | .setUpdated2 | .unlockUpdate2 => true
  | _ => false

def holder (main worker : Bool) : Option Thread :=
  if main then some .main else if worker then some .worker else none

/-- After `push_result_shell`, before `push_commit = NULL`. -/
def WorkerPc.pushed : WorkerPc → Bool
  | .lockUpdate | .fetch | .setUpdated | .unlockUpdate | .clear => true
  | _ => false

/-- The automaton a log should follow, with the commit that awaits its push: a commit only when
none awaits, a push of a commit only of the one that awaits, a push of `NULL` only when none
awaits; a reset, or a push whatever its outcome, leaves none awaiting. -/
def Effect.next : Option (Vector UInt8 20) → Effect → Option (Option (Vector UInt8 20))
  | _, .reset => some none
  | none, .commit oid => some (some oid)
  | some waiting, .push (some oid) _ => if oid = waiting then some none else none
  | none, .push none _ => some none
  | waiting, .fetch => some waiting
  | _, _ => none

def accepts (log : List Effect) : Option (Option (Vector UInt8 20)) := log.foldlM Effect.next none

/-- The commit that awaits its push: `curr_commit`, from `commit_result` until the update thread
has pushed it or `main` has reset the tree. -/
def State.waiting (s : State) : Option (Vector UInt8 20) :=
  if s.main = .setPush then some s.currCommit
  else if s.main = .clearUpdated ∨ s.main = .clearPush then none
  else if s.pushCommit && !s.worker.pushed then some s.currCommit
  else none

theorem accepts_append (log : List Effect) (e : Effect) :
    accepts (log ++ [e]) = (accepts log).bind fun waiting => Effect.next waiting e := by
  simp [accepts, List.foldlM_append]

/-- What every reachable state satisfies. -/
structure State.Inv (s : State) : Prop where
  commitMutex_eq : s.commitMutex = holder s.main.holdsCommit s.worker.holdsCommit
  commit_excl : (s.main.holdsCommit && s.worker.holdsCommit) = false
  updateMutex_eq : s.updateMutex = holder s.main.holdsUpdate s.worker.holdsUpdate
  update_excl : (s.main.holdsUpdate && s.worker.holdsUpdate) = false
  fresh : s.main = .recheck ∨ s.main = .lockCommit2 ∨ s.main = .commit → s.pushCommit = false
  log : accepts s.effects = some s.waiting

theorem inv_init (curr : Vector UInt8 20) : (init curr).Inv :=
  ⟨rfl, rfl, rfl, rfl, by simp [init], rfl⟩

theorem WorkerPc.pushed_eq_false {w : WorkerPc} (h : w.holdsCommit = false) : w.pushed = false := by
  cases w <;> simp_all [holdsCommit, pushed]

theorem MainPc.ne_of_holdsCommit {m : MainPc} (hm : m.holdsCommit = false) :
    m ≠ .setPush ∧ m ≠ .clearUpdated ∧ m ≠ .clearPush := by
  cases m <;> simp_all [holdsCommit]

theorem State.waiting_of_holdsCommit {s : State} (hm : s.main.holdsCommit = false) :
    s.waiting = if s.pushCommit && !s.worker.pushed then some s.currCommit else none := by
  obtain ⟨hset, hcu, hcp⟩ := MainPc.ne_of_holdsCommit hm
  simp [State.waiting, hset, hcu, hcp]

/-! #### The mutexes -/

/-- How a step of thread `t` moves a mutex and `t`'s hold on it: it leaves both as they were,
takes the free mutex, or lets go of the one it holds. -/
def LockMove (t : Thread) (c c' : Option Thread) (held held' : Bool) : Prop :=
  (c' = c ∧ held' = held) ∨ (c = none ∧ c' = some t ∧ held' = true) ∨ (c' = none ∧ held = true ∧ held' = false)

theorem holder_of_lockMove_main {c c' : Option Thread} {m m' w : Bool} (hc : c = holder m w)
    (hex : (m && w) = false) (hmove : LockMove .main c c' m m') : c' = holder m' w ∧ (m' && w) = false := by
  rcases hmove with ⟨rfl, rfl⟩ | ⟨hfree, rfl, rfl⟩ | ⟨rfl, rfl, rfl⟩
  · exact ⟨hc, hex⟩
  · -- the mutex was free, so the update thread did not hold it
    cases m <;> cases w <;> simp_all [holder]
  · -- `main` held it, so the update thread did not
    cases w <;> simp_all [holder]

theorem holder_of_lockMove_worker {c c' : Option Thread} {m w w' : Bool} (hc : c = holder m w)
    (hex : (m && w) = false) (hmove : LockMove .worker c c' w w') : c' = holder m w' ∧ (m && w') = false := by
  rcases hmove with ⟨rfl, rfl⟩ | ⟨hfree, rfl, rfl⟩ | ⟨rfl, rfl, rfl⟩
  · exact ⟨hc, hex⟩
  · cases m <;> cases w <;> simp_all [holder]
  · cases m <;> simp_all [holder]

theorem State.Inv.of_mainMove {s s' : State} (hi : s.Inv) (hworker : s'.worker = s.worker)
    (hcommit : LockMove .main s.commitMutex s'.commitMutex s.main.holdsCommit s'.main.holdsCommit)
    (hupdate : LockMove .main s.updateMutex s'.updateMutex s.main.holdsUpdate s'.main.holdsUpdate)
    (hfresh : s'.main = .recheck ∨ s'.main = .lockCommit2 ∨ s'.main = .commit → s'.pushCommit = false)
    (hlog : accepts s'.effects = some s'.waiting) : s'.Inv := by
  obtain ⟨hc, hce⟩ := holder_of_lockMove_main hi.commitMutex_eq hi.commit_excl hcommit
  obtain ⟨hu, hue⟩ := holder_of_lockMove_main hi.updateMutex_eq hi.update_excl hupdate
  rw [← hworker] at hc hce hu hue
  exact ⟨hc, hce, hu, hue, hfresh, hlog⟩

theorem State.Inv.of_workerMove {s s' : State} (hi : s.Inv) (hmain : s'.main = s.main)
    (hcommit : LockMove .worker s.commitMutex s'.commitMutex s.worker.holdsCommit s'.worker.holdsCommit)
    (hupdate : LockMove .worker s.updateMutex s'.updateMutex s.worker.holdsUpdate s'.worker.holdsUpdate)
    (hfresh : s'.main = .recheck ∨ s'.main = .lockCommit2 ∨ s'.main = .commit → s'.pushCommit = false)
    (hlog : accepts s'.effects = some s'.waiting) : s'.Inv := by
  obtain ⟨hc, hce⟩ := holder_of_lockMove_worker hi.commitMutex_eq hi.commit_excl hcommit
  obtain ⟨hu, hue⟩ := holder_of_lockMove_worker hi.updateMutex_eq hi.update_excl hupdate
  rw [← hmain] at hc hce hu hue
  exact ⟨hc, hce, hu, hue, hfresh, hlog⟩

/-! #### The steps -/

/-- Each statement of `main` leaves the update thread where it is, logs at most a reset, and locks a
free mutex, unlocks one it holds, or leaves both. -/
theorem mainStep_frame {s s' : State} (h : s.mainStep = some s') :
    s'.worker = s.worker ∧ (s'.effects = s.effects ∨ s'.effects = s.effects ++ [.reset]) ∧
      LockMove .main s.commitMutex s'.commitMutex s.main.holdsCommit s'.main.holdsCommit ∧
      LockMove .main s.updateMutex s'.updateMutex s.main.holdsUpdate s'.main.holdsUpdate := by
  cases hm : s.main <;> simp only [State.mainStep, hm] at h <;> (try split at h) <;>
    simp only [Option.some.injEq, reduceCtorEq] at h <;> subst h <;>
    simp_all [LockMove, MainPc.holdsCommit, MainPc.holdsUpdate]

theorem mainStep_waiting {s s' : State} (hi : s.Inv) (h : s.mainStep = some s') :
    (s'.main = .recheck ∨ s'.main = .lockCommit2 ∨ s'.main = .commit → s'.pushCommit = false) ∧
      accepts s'.effects = some s'.waiting := by
  obtain ⟨-, hce, -, -, hfresh, hlog⟩ := hi
  cases hm : s.main <;> simp only [State.mainStep, hm] at h <;> (try split at h) <;>
    simp only [Option.some.injEq, reduceCtorEq] at h <;> subst h <;>
    simp_all [State.waiting]
  case resetHard =>
    rw [accepts_append, hlog]
    rfl
  case setPush => exact WorkerPc.pushed_eq_false (by simpa [MainPc.holdsCommit] using hce)

theorem mainStep_inv {s s' : State} (hi : s.Inv) (h : s.mainStep = some s') : s'.Inv := by
  obtain ⟨hworker, -, hcommit, hupdate⟩ := mainStep_frame h
  obtain ⟨hfresh, hlog⟩ := mainStep_waiting hi h
  exact hi.of_mainMove hworker hcommit hupdate hfresh hlog

/-- Each statement of the update thread leaves `main` where it is, logs at most a fetch, and locks a
free mutex, unlocks one it holds, or leaves both. -/
theorem workerStep_frame {s s' : State} (h : s.workerStep = some s') :
    s'.main = s.main ∧ (s'.effects = s.effects ∨ s'.effects = s.effects ++ [.fetch]) ∧
      LockMove .worker s.commitMutex s'.commitMutex s.worker.holdsCommit s'.worker.holdsCommit ∧
      LockMove .worker s.updateMutex s'.updateMutex s.worker.holdsUpdate s'.worker.holdsUpdate := by
  cases hw : s.worker <;> simp only [State.workerStep, hw] at h <;> (try split at h) <;>
    simp only [Option.some.injEq, reduceCtorEq] at h <;> subst h <;>
    simp_all [LockMove, WorkerPc.holdsCommit, WorkerPc.holdsUpdate]

theorem workerStep_waiting {s s' : State} (hi : s.Inv) (h : s.workerStep = some s') :
    (s'.main = .recheck ∨ s'.main = .lockCommit2 ∨ s'.main = .commit → s'.pushCommit = false) ∧
      accepts s'.effects = some s'.waiting := by
  obtain ⟨-, hce, -, -, hfresh, hlog⟩ := hi
  cases hw : s.worker <;> simp only [State.workerStep, hw] at h <;> (try split at h) <;>
    simp only [Option.some.injEq, reduceCtorEq] at h <;> subst h <;>
    simp_all [WorkerPc.holdsCommit, WorkerPc.pushed, State.waiting]
  case fetch =>
    rw [accepts_append, hlog]
    rfl

theorem workerStep_inv {s s' : State} (hi : s.Inv) (h : s.workerStep = some s') : s'.Inv := by
  obtain ⟨hmain, -, hcommit, hupdate⟩ := workerStep_frame h
  obtain ⟨hfresh, hlog⟩ := workerStep_waiting hi h
  exact hi.of_workerMove hmain hcommit hupdate hfresh hlog

theorem step_inv {s s' : State} {e : Event} (hi : s.Inv) (h : s.step e = some s') : s'.Inv := by
  cases e with
  | main => exact mainStep_inv hi h
  | worker => exact workerStep_inv hi h
  | hashed created found =>
    simp only [State.step, Option.ite_none_right_eq_some, Option.some.injEq] at h
    obtain ⟨hm, rfl⟩ := h
    have hcommit : s.main.holdsCommit = false := by rw [hm]; rfl
    have hupdate : s.main.holdsUpdate = false := by rw [hm]; rfl
    split
    all_goals
      refine hi.of_mainMove rfl (.inl ⟨rfl, hcommit.symm⟩) (.inl ⟨rfl, hupdate.symm⟩) (by simp) ?_
      rw [hi.log, State.waiting_of_holdsCommit hcommit]
      simp [State.waiting]
  | committed oid =>
    simp only [State.step, Option.ite_none_right_eq_some, Option.some.injEq] at h
    obtain ⟨hm, rfl⟩ := h
    have hnone : s.waiting = none := by simp [State.waiting, hm, hi.fresh (.inr (.inr hm))]
    refine hi.of_mainMove rfl (.inl ⟨rfl, by rw [hm]; rfl⟩) (.inl ⟨rfl, by rw [hm]; rfl⟩) (by simp) ?_
    rw [accepts_append, hi.log, hnone]
    simp [State.waiting, Effect.next]
  | pushed ok =>
    simp only [State.step, Option.ite_none_right_eq_some, Option.some.injEq] at h
    obtain ⟨hw, rfl⟩ := h
    have hmain : s.main.holdsCommit = false := by simpa [hw, WorkerPc.holdsCommit] using hi.commit_excl
    have hwaiting : s.waiting = if s.pushCommit then some s.currCommit else none := by
      simp [State.waiting_of_holdsCommit hmain, hw, WorkerPc.pushed]
    refine hi.of_workerMove rfl (.inl ⟨rfl, by rw [hw]; split <;> rfl⟩) (.inl ⟨rfl, by rw [hw]; split <;> rfl⟩)
      hi.fresh ?_
    obtain ⟨hset, hcu, hcp⟩ := MainPc.ne_of_holdsCommit hmain
    rw [accepts_append, hi.log, hwaiting]
    cases s.pushCommit <;> cases ok <;> simp [Effect.next, State.waiting, WorkerPc.pushed, hset, hcu, hcp]
  | checked detected =>
    simp only [State.step, Option.ite_none_right_eq_some, Option.some.injEq] at h
    obtain ⟨hw, rfl⟩ := h
    refine hi.of_workerMove rfl (.inl ⟨rfl, by rw [hw]; split <;> rfl⟩) (.inl ⟨rfl, by rw [hw]; split <;> rfl⟩)
      hi.fresh ?_
    rw [accepts_append, hi.log]
    cases detected <;> simp [Effect.next, State.waiting, WorkerPc.pushed, hw]
  | signal =>
    simp only [State.step, Option.some.injEq] at h
    subst h
    exact ⟨hi.commitMutex_eq, hi.commit_excl, hi.updateMutex_eq, hi.update_excl, hi.fresh, hi.log⟩

theorem inv_of_exec (curr : Vector UInt8 20) (events : List Event) {s : State}
    (h : Trace.exec State.step (init curr) events = some s) : s.Inv :=
  Trace.exec_invariant State.step State.Inv (fun _ _ _ hi h => step_inv hi h) events _ _ (inv_init curr) h

/-- Whatever the threads' interleaving and `SIGINT`, the miner's log is a run of the automaton:
a commit only when no other awaits its push, and each push of a commit names the one that
awaits. -/
theorem accepts_effects (curr : Vector UInt8 20) (events : List Event) (s : State)
    (h : Trace.exec State.step (init curr) events = some s) : accepts s.effects = some s.waiting :=
  (inv_of_exec curr events h).log

/-! ### Runs without `SIGINT` -/

/-- What a run without `SIGINT` adds to `State.Inv`: the update thread tests and pushes only
while `push_commit` is set, `main` resets only after that thread has pushed, and `updated` is
set only by a failed push, which clears `push_commit` before it lets go of `commit_mutex`. -/
structure State.Quiet (s : State) : Prop where
  armed : s.worker ∈ [.recheck, .lock, .push, .lockUpdate, .fetch, .setUpdated, .unlockUpdate, .clear] →
    s.pushCommit = true
  reset : s.main ∈ [.resetHard, .clearUpdated, .clearPush] → s.pushCommit = false
  updated : s.updated = true → s.pushCommit = false ∨ s.worker ∈ [.unlockUpdate, .clear]
  commit : s.main ∈ [.lockCommit2, .commit, .setPush] → s.updated = false
  checks : s.worker ∉ [.checkUpdates, .lockUpdate2, .setUpdated2, .unlockUpdate2]
  pushes : ∀ ok, Effect.push none ok ∉ s.effects

theorem quiet_init (curr : Vector UInt8 20) : (init curr).Quiet :=
  ⟨by simp [init], by simp [init], by simp [init], by simp [init], by simp [init], by simp [init]⟩

theorem pushes_of_append {effects effects' : List Effect} (hpushes : ∀ ok, Effect.push none ok ∉ effects)
    (e : Effect) (he : ∀ ok, e ≠ .push none ok) (h : effects' = effects ∨ effects' = effects ++ [e]) :
    ∀ ok, Effect.push none ok ∉ effects' := by
  intro ok hmem
  rcases h with rfl | rfl
  · exact hpushes ok hmem
  · rcases List.mem_append.mp hmem with hmem | hmem
    · exact hpushes ok hmem
    · exact he ok (List.mem_singleton.mp hmem).symm

theorem mainStep_quiet {s s' : State} (hi : s.Inv) (hq : s.Quiet) (h : s.mainStep = some s') : s'.Quiet := by
  obtain ⟨hworker, heffects, -, -⟩ := mainStep_frame h
  have hchecks : s'.worker ∉ [.checkUpdates, .lockUpdate2, .setUpdated2, .unlockUpdate2] := hworker ▸ hq.checks
  have hpushes := pushes_of_append hq.pushes .reset (fun _ => nofun) heffects
  have hce := hi.commit_excl
  obtain ⟨harmed, hreset, hupd, hcommit, -, -⟩ := hq
  cases hm : s.main <;> simp only [State.mainStep, hm] at h <;> (try split at h) <;>
    simp only [Option.some.injEq, reduceCtorEq] at h <;> subst h <;>
    refine ⟨?_, ?_, ?_, ?_, hchecks, hpushes⟩ <;>
    simp_all [MainPc.holdsCommit]
  case checkUpdated.isTrue.refine_2 =>
    rcases hupd with hp | hw | hw <;> simp_all [WorkerPc.holdsCommit]

theorem workerStep_quiet {s s' : State} (hi : s.Inv) (hq : s.Quiet) (h : s.workerStep = some s') : s'.Quiet := by
  obtain ⟨hmain, heffects, -, -⟩ := workerStep_frame h
  have hpushes := pushes_of_append hq.pushes .fetch (fun _ => nofun) heffects
  have hce := hi.commit_excl
  have hfresh := hi.fresh
  obtain ⟨harmed, hreset, hupd, hcommit, hchecks, -⟩ := hq
  cases hw : s.worker <;> simp only [State.workerStep, hw] at h <;> (try split at h) <;>
    simp only [Option.some.injEq, reduceCtorEq] at h <;> subst h <;>
    refine ⟨?_, ?_, ?_, ?_, ?_, hpushes⟩ <;>
    simp_all [WorkerPc.holdsCommit]
  case setUpdated.refine_4 =>
    intro hm
    simp [hm, MainPc.holdsCommit] at hce

theorem step_quiet {s s' : State} {e : Event} (hi : s.Inv) (hq : s.Quiet) (he : e ≠ .signal)
    (h : s.step e = some s') : s'.Quiet := by
  cases e with
  | main => exact mainStep_quiet hi hq h
  | worker => exact workerStep_quiet hi hq h
  | signal => exact absurd rfl he
  | hashed created found =>
    simp only [State.step, Option.ite_none_right_eq_some, Option.some.injEq] at h
    obtain ⟨hm, rfl⟩ := h
    split
    all_goals exact ⟨hq.armed, by simp, hq.updated, by simp, hq.checks, hq.pushes⟩
  | committed oid =>
    simp only [State.step, Option.ite_none_right_eq_some, Option.some.injEq] at h
    obtain ⟨hm, rfl⟩ := h
    have hupdated : s.updated = false := hq.commit (by simp [hm])
    exact ⟨hq.armed, by simp, hq.updated, fun _ => hupdated, hq.checks,
      pushes_of_append hq.pushes (.commit oid) (fun _ => nofun) (.inr rfl)⟩
  | pushed ok =>
    simp only [State.step, Option.ite_none_right_eq_some, Option.some.injEq] at h
    obtain ⟨hw, rfl⟩ := h
    have hset : s.pushCommit = true := hq.armed (by simp [hw])
    have hupdated : s.updated = false := by
      cases hu : s.updated
      · rfl
      · rcases hq.updated hu with hp | hw'
        · rw [hset] at hp
          cases hp
        · simp [hw] at hw'
    refine ⟨fun _ => hset, hq.reset, fun hu => absurd hu (by simp [hupdated]), hq.commit, ?_, ?_⟩
    · split <;> simp
    · intro ok' hmem
      rcases List.mem_append.mp hmem with hmem | hmem
      · exact hq.pushes ok' hmem
      · simp [hset] at hmem
  | checked detected =>
    simp only [State.step, Option.ite_none_right_eq_some, Option.some.injEq] at h
    exact absurd h.1 (fun hw => hq.checks (by simp [hw]))

/-- Without `SIGINT`, whatever the interleaving, the update thread never takes the branch that
calls `check_updates`, and never pushes `NULL`. -/
theorem quiet_no_null_push (curr : Vector UInt8 20) (events : List Event) (s : State)
    (hquiet : ∀ e ∈ events, e ≠ .signal) (h : Trace.exec State.step (init curr) events = some s) :
    s.worker ≠ .checkUpdates ∧ ∀ ok, Effect.push none ok ∉ s.effects := by
  have hboth : s.Inv ∧ s.Quiet :=
    Trace.exec_invariant_of_forall State.step (· ≠ .signal) (fun s => s.Inv ∧ s.Quiet)
      (fun _ _ _ he hs hstep => ⟨step_inv hs.1 hstep, step_quiet hs.1 hs.2 he hstep⟩)
      events _ _ hquiet ⟨inv_init curr, quiet_init curr⟩ h
  exact ⟨fun hw => hboth.2.checks (by simp [hw]), hboth.2.pushes⟩

/-- `main` from the top of its loop to the next test of `stop`, with a coin found and
committed as `oid`. -/
def mineCoin (oid : Vector UInt8 20) : List Event :=
  [.main, .main, .main, .main, .main, .main, .hashed true true, .main, .main, .main, .main,
    .committed oid, .main, .main]

def pushCycle (oid : Vector UInt8 20) : List Event :=
  mineCoin oid ++ [.worker, .worker, .worker, .worker, .pushed true]

theorem quiet_no_null_push_cycle :
    ∃ s, Trace.exec State.step (init (Vector.replicate 20 0)) (pushCycle (Vector.replicate 20 7)) = some s ∧
      s.effects = [.commit (Vector.replicate 20 7), .push (some (Vector.replicate 20 7)) true] ∧
      (s.worker ≠ .checkUpdates ∧ ∀ ok, Effect.push none ok ∉ s.effects) :=
  ⟨_, rfl, rfl, quiet_no_null_push (Vector.replicate 20 0) (pushCycle (Vector.replicate 20 7)) _ (by decide) rfl⟩

/-! ### `SIGINT` between the thread's test and its push -/

/-- After a coin is committed, `main` passes its test of `stop` and the update thread its two
tests of `push_commit`; `SIGINT` then sets `updated`, `main` resets and clears `push_commit`,
and the thread, once it has `commit_mutex`, pushes. -/
def signalRace (oid : Vector UInt8 20) (ok : Bool) : List Event :=
  mineCoin oid ++ [.main, .worker, .worker, .worker, .signal,
    .main, .main, .main, .main, .main, .main, .main, .main, .worker, .pushed ok]

/-- `SIGINT` at the wrong time makes the update thread push `NULL`: it runs
`git push origin :master`, which deletes the remote `master`. -/
theorem signal_pushes_null (curr oid : Vector UInt8 20) (ok : Bool) :
    ∃ s, Trace.exec State.step (init curr) (signalRace oid ok) = some s ∧
      s.effects = [.commit oid, .reset, .push none ok] ∧
      pushCommand none = some (bytes "git push origin :master") :=
  ⟨_, rfl, rfl, pushCommand_none⟩

theorem accepts_effects_signalRace :
    ∃ s, Trace.exec State.step (init (Vector.replicate 20 0)) (signalRace (Vector.replicate 20 7) true) = some s ∧
      accepts s.effects = some s.waiting :=
  ⟨_, rfl, accepts_effects (Vector.replicate 20 0) (signalRace (Vector.replicate 20 7) true) _ rfl⟩

end Ctf3.Level1.Miner
