import Mathlib
import Ctf3.Lib.ByteOrder
import Ctf3.Lib.Sha1
import Ctf3.Lib.Trace
import Ctf3.Level1.Common
import Ctf3.Level1.Difficulty
import Ctf3.Level1.ForceHash

/-!
# The threaded miner

`naive.c` hashes with eight threads. `force_hash` starts them, then waits on the condition `solved`
until a worker signals it or `*args->stop` is set, sets `worker_stop` and joins them. A worker
copies the last block of the buffer (`solution`), writes its id into byte 50, and counts the
32-bit `modifier` at bytes 51 to 54 up until `SHA1_Transform` of the block passes the mask; it then
takes `solution_mutex` with `pthread_mutex_trylock`, copies its block back over `solution`, signals
and unlocks. Each statement that touches shared memory is one step, a `memcpy` one step per byte.
The mutex and the condition behave as glibc's default ones do: `pthread_mutex_unlock` and the
release inside `pthread_cond_timedwait` free the mutex whoever holds it, and `force_hash` calls the
wait without ever having locked it. The hash test is a parameter `accept`; `tries` is the one
`force_worker` makes, and `tries_hash_commit` reads it as the test on the digest of the commit.

Whatever the interleaving, the buffer keeps every byte but the five the workers vary, and each of
those is the byte of a block some worker's test accepted (`exec_solution`). That is all that
holds of the block `force_hash` leaves: a worker that meets `worker_stop` in its `trylock` loop
copies its block without the mutex, two such copies interleave, and `force_hash` can return with
`found` set and a block no test accepted (`forceHash_torn`). A signal sent while `force_hash` is
not waiting is lost: once every worker has left while `force_hash` is at its loop test, `found`
stays clear in every run from there that has no spurious wake-up (`forceHash_lost_wakeup`).
-/

namespace Ctf3.Level1.Naive

open ByteOrder Sha1 Trace

def threadCount : Nat := 8

/-- The byte `force_worker` sets to its thread id, `block[BLOCK_LENGTH-PADDING_LENGTH-5]`. -/
def idOffset : Nat := blockLength - paddingLength - 5

/-- Where `modifier` points, `&block[BLOCK_LENGTH-PADDING_LENGTH-4]`. -/
def modifierOffset : Nat := blockLength - paddingLength - 4

theorem blockPtr_add_lt {j : Nat} (hj : j < blockLength) : blockPtr + j < bufferLength := by
  unfold blockPtr bufferLength blockLength at *
  omega

theorem idOffset_lt : idOffset < blockLength := by decide

/-- The block `solution` points at, `&args->msg[BUFFER_LENGTH-BLOCK_LENGTH]`. -/
def lastBlock (msg : Vector UInt8 bufferLength) : Vector UInt8 blockLength :=
  Vector.ofFn fun j => have := blockPtr_add_lt j.isLt; msg[blockPtr + j.val]

/-- `(*modifier)++`: the little-endian word at `modifier` plus one. -/
def bump (block : Vector UInt8 blockLength) : Vector UInt8 blockLength :=
  storeLE32 block modifierOffset (loadLE32 block modifierOffset + 1)

/-- The test `!(tmp_ctx.h0 & mask)` after `SHA1_Transform(&tmp_ctx, block)` from `msg_ctx`. -/
def tries (msgCtx : HashValue) (mask : UInt32) (block : Vector UInt8 blockLength) : Bool :=
  threadedAccepts mask (compress msgCtx (blockAt block.toList 0))

/-- Where a worker is in `force_worker`: `load j` in `memcpy(block, solution, BLOCK_LENGTH)` with
byte `j` next (the id byte after `load 64`), `loop` at `while(!worker_stop)`, `trylock` and `sleep`
in the `trylock` loop, `store j` in the copy back (the signal after `store 64`), `unlock`, and
`exit` after `pthread_exit`; `unborn` before `pthread_create`. -/
inductive WorkerPc
  | unborn
  | load (j : Nat)
  | loop
  | trylock
  | sleep
  | store (j : Nat)
  | unlock
  | exit
deriving DecidableEq, Repr

/-- The worker has left its search loop with a block that passed. -/
def WorkerPc.passed : WorkerPc → Bool
  | .trylock | .sleep | .store _ | .unlock => true
  | _ => false

/-- Where `force_hash` is: `create i` in the `pthread_create` loop, `test` at `while(!(*args->stop))`,
`waiting` in `pthread_cond_timedwait` with the mutex released, `woken` on its way out of the wait,
`stopWorkers` at `worker_stop = 1`, and `join i` in the `pthread_join` loop. -/
inductive MainPc
  | create (i : Nat)
  | test
  | waiting
  | woken (timedOut : Bool)
  | stopWorkers
  | join (i : Nat)
  | done
deriving DecidableEq, Repr

inductive Thread
  | main
  | worker (i : Fin threadCount)
deriving DecidableEq, Repr

/-- A worker's place and its local `block`. -/
structure Worker where
  pc : WorkerPc
  block : Vector UInt8 blockLength
deriving DecidableEq

/-- The threads, the buffer `args->msg`, the flags, and the holder of `solution_mutex`. -/
structure State where
  main : MainPc
  workers : Fin threadCount → Worker
  msg : Vector UInt8 bufferLength
  workerStop : Bool
  stop : Bool
  found : Bool
  mutex : Option Thread

/-- `force_hash` after its set-up, before the first `pthread_create`. A worker's `block` has no
value before its first copy writes it; it is given the solution's bytes here, which no statement
reads. -/
def init (msg : Vector UInt8 bufferLength) : State :=
  ⟨.create 0, fun _ => ⟨.unborn, lastBlock msg⟩, msg, false, false, false, none⟩

def State.setWorker (s : State) (i : Fin threadCount) (w : Worker) : State :=
  { s with workers := Function.update s.workers i w }

variable (accept : Vector UInt8 blockLength → Bool)

/-- The next statement of `force_worker` in thread `i`; `accept` is its hash test. -/
def State.forceWorker (s : State) (i : Fin threadCount) : Option State :=
  let w := s.workers i
  match w.pc with
  | .unborn => none
  | .load j =>
    if h : j < blockLength then
      have := blockPtr_add_lt h
      some (s.setWorker i ⟨.load (j + 1), w.block.set j s.msg[blockPtr + j]⟩)
    else
      have := idOffset_lt
      some (s.setWorker i ⟨.loop, w.block.set idOffset i.val.toUInt8⟩)
  | .loop =>
    if s.workerStop then some (s.setWorker i ⟨.exit, w.block⟩)
    else some (s.setWorker i ⟨if accept (bump w.block) then .trylock else .loop, bump w.block⟩)
  | .trylock =>
    match s.mutex with
    | none => some { s.setWorker i ⟨.store 0, w.block⟩ with mutex := some (.worker i) }
    | some _ => some (s.setWorker i ⟨.sleep, w.block⟩)
  -- `break` out of the `trylock` loop leads to the copy, with the mutex or without it
  | .sleep => some (s.setWorker i ⟨if s.workerStop then .store 0 else .trylock, w.block⟩)
  | .store j =>
    if h : j < blockLength then
      have := blockPtr_add_lt h
      some { s.setWorker i ⟨.store (j + 1), w.block⟩ with msg := s.msg.set (blockPtr + j) w.block[j] }
    else
      -- the signal wakes `force_hash` if it waits, and is lost otherwise
      some { s.setWorker i ⟨.unlock, w.block⟩ with main := if s.main = .waiting then .woken false else s.main }
  | .unlock => some { s.setWorker i ⟨.exit, w.block⟩ with mutex := none }
  | .exit => none

/-- The next statement of `force_hash`. -/
def State.forceHash (s : State) : Option State :=
  match s.main with
  | .create i =>
    if h : i < threadCount then
      some { s.setWorker ⟨i, h⟩ ⟨.load 0, (s.workers ⟨i, h⟩).block⟩ with main := .create (i + 1) }
    else some { s with main := .test }
  | .test =>
    if s.stop then some { s with main := .stopWorkers }
    else some { s with main := .waiting, mutex := none }
  | .waiting => none
  | .woken timedOut =>
    if s.mutex = none then
      if timedOut then some { s with main := .test, mutex := some .main }
      else some { s with main := .stopWorkers, mutex := some .main, found := true }
    else none
  | .stopWorkers => some { s with main := .join 0, workerStop := true }
  | .join i =>
    if h : i < threadCount then
      if (s.workers ⟨i, h⟩).pc = .exit then some { s with main := .join (i + 1) } else none
    else some { s with main := .done }
  | .done => none

/-- A step of one thread, the end of the wait by its time-out or spuriously (as POSIX allows), or
the update thread setting `*args->stop`. -/
inductive Event
  | main
  | worker (i : Fin threadCount)
  | timeout
  | spurious
  | update
deriving DecidableEq, Repr

def State.step (s : State) : Event → Option State
  | .main => s.forceHash
  | .worker i => s.forceWorker accept i
  | .timeout => if s.main = .waiting then some { s with main := .woken true } else none
  | .spurious => if s.main = .waiting then some { s with main := .woken false } else none
  | .update => some { s with stop := true }

/-! ### What one statement does -/

namespace State

variable {accept} (s : State) (i : Fin threadCount) (w : Worker)

@[simp] theorem setWorker_main : (s.setWorker i w).main = s.main := rfl
@[simp] theorem setWorker_msg : (s.setWorker i w).msg = s.msg := rfl
@[simp] theorem setWorker_workerStop : (s.setWorker i w).workerStop = s.workerStop := rfl
@[simp] theorem setWorker_stop : (s.setWorker i w).stop = s.stop := rfl
@[simp] theorem setWorker_found : (s.setWorker i w).found = s.found := rfl
@[simp] theorem setWorker_mutex : (s.setWorker i w).mutex = s.mutex := rfl

@[simp] theorem workers_setWorker_self : (s.setWorker i w).workers i = w := by simp [setWorker]

@[simp] theorem workers_setWorker_of_ne {i j : Fin threadCount} (h : j ≠ i) :
    (s.setWorker i w).workers j = s.workers j := by
  simp [setWorker, h]

@[simp] theorem setWorker_setWorker (w' : Worker) : (s.setWorker i w).setWorker i w' = s.setWorker i w' := by
  simp [setWorker]

theorem setWorker_self {i : Fin threadCount} {w : Worker} (h : s.workers i = w) : s.setWorker i w = s := by
  simp [setWorker, ← h]

variable {s i} {b : Vector UInt8 blockLength}

theorem forceWorker_load {j : Nat} (hw : s.workers i = ⟨.load j, b⟩) (hj : j < blockLength) :
    have := blockPtr_add_lt hj
    s.forceWorker accept i = some (s.setWorker i ⟨.load (j + 1), b.set j s.msg[blockPtr + j]⟩) := by
  simp [forceWorker, hw, hj]

theorem forceWorker_load_done {j : Nat} (hw : s.workers i = ⟨.load j, b⟩) (hj : blockLength ≤ j) :
    s.forceWorker accept i = some (s.setWorker i ⟨.loop, b.set idOffset i.val.toUInt8 idOffset_lt⟩) := by
  simp [forceWorker, hw, Nat.not_lt.mpr hj]

theorem forceWorker_loop_stop (hw : s.workers i = ⟨.loop, b⟩) (hstop : s.workerStop = true) :
    s.forceWorker accept i = some (s.setWorker i ⟨.exit, b⟩) := by
  simp [forceWorker, hw, hstop]

theorem forceWorker_loop (hw : s.workers i = ⟨.loop, b⟩) (hstop : s.workerStop = false) :
    s.forceWorker accept i =
      some (s.setWorker i ⟨if accept (bump b) then .trylock else .loop, bump b⟩) := by
  simp [forceWorker, hw, hstop]

theorem forceWorker_trylock_free (hw : s.workers i = ⟨.trylock, b⟩) (hfree : s.mutex = none) :
    s.forceWorker accept i = some { s.setWorker i ⟨.store 0, b⟩ with mutex := some (.worker i) } := by
  simp [forceWorker, hw, hfree]

theorem forceWorker_trylock_held {t : Thread} (hw : s.workers i = ⟨.trylock, b⟩) (hheld : s.mutex = some t) :
    s.forceWorker accept i = some (s.setWorker i ⟨.sleep, b⟩) := by
  simp [forceWorker, hw, hheld]

theorem forceWorker_sleep (hw : s.workers i = ⟨.sleep, b⟩) :
    s.forceWorker accept i = some (s.setWorker i ⟨if s.workerStop then .store 0 else .trylock, b⟩) := by
  simp [forceWorker, hw]

theorem forceWorker_store {j : Nat} (hw : s.workers i = ⟨.store j, b⟩) (hj : j < blockLength) :
    have := blockPtr_add_lt hj
    s.forceWorker accept i = some { s.setWorker i ⟨.store (j + 1), b⟩ with msg := s.msg.set (blockPtr + j) b[j] } := by
  simp [forceWorker, hw, hj]

theorem forceWorker_signal {j : Nat} (hw : s.workers i = ⟨.store j, b⟩) (hj : blockLength ≤ j) :
    s.forceWorker accept i =
      some { s.setWorker i ⟨.unlock, b⟩ with main := if s.main = .waiting then .woken false else s.main } := by
  simp [forceWorker, hw, Nat.not_lt.mpr hj]

theorem forceWorker_unlock (hw : s.workers i = ⟨.unlock, b⟩) :
    s.forceWorker accept i = some { s.setWorker i ⟨.exit, b⟩ with mutex := none } := by
  simp [forceWorker, hw]

theorem forceWorker_exit (hw : (s.workers i).pc = .exit) : s.forceWorker accept i = none := by
  simp [forceWorker, hw]

end State

/-! ### The bytes the workers may change -/

@[simp] theorem getElem_lastBlock (msg : Vector UInt8 bufferLength) (j : Nat) (hj : j < blockLength) :
    have := blockPtr_add_lt hj
    (lastBlock msg)[j] = msg[blockPtr + j] := by
  simp [lastBlock]

/-- Byte `j` of a block is neither the id nor a byte of `modifier`. -/
def Outside (j : Nat) : Prop := j < idOffset ∨ modifierOffset + 4 ≤ j

/-- `b` agrees with the last block of `msg₀` outside the id and the modifier. -/
def Agrees (msg₀ : Vector UInt8 bufferLength) (b : Vector UInt8 blockLength) : Prop :=
  ∀ j (hj : j < blockLength), Outside j → b[j] = (lastBlock msg₀)[j]

theorem getElem_bump (b : Vector UInt8 blockLength) {j : Nat} (hj : j < blockLength) (hout : Outside j) :
    (bump b)[j] = b[j] := by
  unfold Outside idOffset modifierOffset at hout
  exact getElem_storeLE32_of_ne _ _ _ _ hj (by unfold modifierOffset; omega)

theorem Agrees.bump {msg₀ : Vector UInt8 bufferLength} {b : Vector UInt8 blockLength} (h : Agrees msg₀ b) :
    Agrees msg₀ (bump b) := fun j hj hout => (getElem_bump b hj hout).trans (h j hj hout)

theorem Agrees.set_id {msg₀ : Vector UInt8 bufferLength} {b : Vector UInt8 blockLength} (h : Agrees msg₀ b)
    (x : UInt8) : Agrees msg₀ (b.set idOffset x idOffset_lt) := by
  intro j hj hout
  have hne : idOffset ≠ j := by unfold Outside at hout; unfold modifierOffset idOffset at *; omega
  rw [Vector.getElem_set_ne _ _ hne]
  exact h j hj hout

/-! ### The block the workers search from -/

theorem bump_set_id (b : Vector UInt8 blockLength) (x : UInt8) :
    bump (b.set idOffset x idOffset_lt) = (bump b).set idOffset x idOffset_lt := by
  have hload : loadLE32 (b.set idOffset x idOffset_lt) modifierOffset = loadLE32 b modifierOffset :=
    loadLE32_set b idOffset_lt x modifierOffset (.inl (by decide))
  apply Vector.ext
  intro k hk
  rw [bump, bump, hload]
  by_cases hkid : k = idOffset
  · subst hkid
    rw [getElem_storeLE32_of_ne _ _ _ _ hk (.inl (by decide))]
    simp
  · rw [Vector.getElem_set_ne _ _ (Ne.symm hkid), getElem_storeLE32, getElem_storeLE32,
      Vector.getElem_set_ne _ _ (Ne.symm hkid)]

theorem iterate_bump_set_id (b : Vector UInt8 blockLength) (x : UInt8) (k : Nat) :
    bump^[k] (b.set idOffset x idOffset_lt) = (bump^[k] b).set idOffset x idOffset_lt := by
  induction k with
  | zero => rfl
  | succ k ih => rw [Function.iterate_succ_apply', Function.iterate_succ_apply', ih, bump_set_id]

theorem getElem_iterate_bump (b : Vector UInt8 blockLength) (k : Nat) {j : Nat} (hj : j < blockLength)
    (hout : Outside j) : (bump^[k] b)[j] = b[j] := by
  induction k with
  | zero => rfl
  | succ k ih => rw [Function.iterate_succ_apply', getElem_bump _ hj hout, ih]

/-- The block worker `i` tries on its `k`-th pass, when it copied the last block of `msg` before
any worker wrote to it. -/
def tryBlock (msg : Vector UInt8 bufferLength) (i : Fin threadCount) (k : Nat) : Vector UInt8 blockLength :=
  bump^[k] ((lastBlock msg).set idOffset i.val.toUInt8 idOffset_lt)

/-- The `k`-th pass of worker `i` is the first that the test accepts. -/
def FirstPass (msg : Vector UInt8 bufferLength) (i : Fin threadCount) (k : Nat) : Prop :=
  1 ≤ k ∧ accept (tryBlock msg i k) = true ∧ ∀ m < k, 1 ≤ m → accept (tryBlock msg i m) = false

instance (msg : Vector UInt8 bufferLength) (i : Fin threadCount) (k : Nat) : Decidable (FirstPass accept msg i k) :=
  inferInstanceAs (Decidable (1 ≤ k ∧ _ ∧ ∀ m < k, 1 ≤ m → _))

theorem getElem_tryBlock (msg : Vector UInt8 bufferLength) (i : Fin threadCount) (k j : Nat) (hj : j < blockLength) :
    (tryBlock msg i k)[j] = if idOffset = j then i.val.toUInt8 else (bump^[k] (lastBlock msg))[j] := by
  rw [tryBlock, iterate_bump_set_id, Vector.getElem_set]

/-! ### Runs of one thread -/

section Runs

/-- `memcpy(solution + j, block + j, n)`, one byte after the other. -/
def storeFrom (b : Vector UInt8 blockLength) : Vector UInt8 bufferLength → Nat → Nat → Vector UInt8 bufferLength
  | msg, _, 0 => msg
  | msg, j, n + 1 =>
    if h : j < blockLength then
      have := blockPtr_add_lt h
      storeFrom b (msg.set (blockPtr + j) b[j]) (j + 1) n
    else msg

theorem getElem_lastBlock_storeFrom (b : Vector UInt8 blockLength) :
    ∀ (n j : Nat) (msg : Vector UInt8 bufferLength), j + n ≤ blockLength → ∀ k (hk : k < blockLength),
      (lastBlock (storeFrom b msg j n))[k] = if j ≤ k ∧ k < j + n then b[k] else (lastBlock msg)[k]
  | 0, j, msg, _, k, hk => by simp [storeFrom]
  | n + 1, j, msg, hjn, k, hk => by
    have hj : j < blockLength := by omega
    rw [storeFrom, dif_pos hj, getElem_lastBlock_storeFrom b n (j + 1) _ (by omega) k hk]
    by_cases hkj : k = j
    · subst hkj
      simp
    · have hne : blockPtr + j ≠ blockPtr + k := by omega
      simp only [getElem_lastBlock, Vector.getElem_set_ne _ _ hne]
      split_ifs <;> first | rfl | (exfalso; omega)

variable {i : Fin threadCount}

theorem exec_load : ∀ (n j : Nat) (s : State) (b : Vector UInt8 blockLength), j + n = blockLength →
    s.workers i = ⟨.load j, b⟩ → (∀ k (hk : k < blockLength), k < j → b[k] = (lastBlock s.msg)[k]) →
    exec (State.step accept) s (List.replicate n (.worker i)) =
      some (s.setWorker i ⟨.load blockLength, lastBlock s.msg⟩)
  | 0, j, s, b, hjn, hw, hb => by
    obtain rfl : j = blockLength := by omega
    have hbl : b = lastBlock s.msg := Vector.ext fun k hk => hb k hk hk
    rw [List.replicate_zero, exec_nil, State.setWorker_self s (by rw [hw, hbl])]
  | n + 1, j, s, b, hjn, hw, hb => by
    have hj : j < blockLength := by omega
    rw [List.replicate_succ, exec_cons, State.step, State.forceWorker_load hw hj, Option.bind_some,
      exec_load n (j + 1) _ _ (by omega) (State.workers_setWorker_self _ _ _), State.setWorker_setWorker,
      State.setWorker_msg]
    intro k hk hkj
    by_cases hkj' : k = j
    · subst hkj'
      simp
    · rw [Vector.getElem_set_ne _ _ (Ne.symm hkj')]
      exact hb k hk (by omega)

theorem exec_copy (s : State) (b : Vector UInt8 blockLength) (hw : s.workers i = ⟨.load 0, b⟩) :
    exec (State.step accept) s (List.replicate (blockLength + 1) (.worker i)) =
      some (s.setWorker i ⟨.loop, (lastBlock s.msg).set idOffset i.val.toUInt8 idOffset_lt⟩) := by
  rw [List.replicate_succ', exec_append, exec_load accept blockLength 0 s b (by omega) hw (by simp),
    Option.bind_some, exec_cons, State.step,
    State.forceWorker_load_done (State.workers_setWorker_self _ _ _) le_rfl, Option.bind_some, exec_nil,
    State.setWorker_setWorker]

theorem exec_search_fail (s : State) (b : Vector UInt8 blockLength) (hw : s.workers i = ⟨.loop, b⟩)
    (hstop : s.workerStop = false) :
    ∀ m, (∀ m' ≤ m, 1 ≤ m' → accept (bump^[m'] b) = false) →
      exec (State.step accept) s (List.replicate m (.worker i)) = some (s.setWorker i ⟨.loop, bump^[m] b⟩)
  | 0, _ => by rw [List.replicate_zero, exec_nil, Function.iterate_zero_apply, State.setWorker_self s hw]
  | m + 1, hfail => by
    have hfail' : accept (bump (bump^[m] b)) = false := by
      rw [← Function.iterate_succ_apply' bump m b]
      exact hfail (m + 1) le_rfl (by omega)
    rw [List.replicate_succ', exec_append,
      exec_search_fail s b hw hstop m fun m' hm' => hfail m' (by omega), Option.bind_some, exec_cons,
      State.step, State.forceWorker_loop (State.workers_setWorker_self _ _ _) hstop, hfail', Option.bind_some,
      exec_nil, State.setWorker_setWorker, Function.iterate_succ_apply']
    rfl

theorem exec_search (s : State) (b : Vector UInt8 blockLength) (hw : s.workers i = ⟨.loop, b⟩)
    (hstop : s.workerStop = false) (k : Nat) (hk : 1 ≤ k) (hpass : accept (bump^[k] b) = true)
    (hfail : ∀ m < k, 1 ≤ m → accept (bump^[m] b) = false) :
    exec (State.step accept) s (List.replicate k (.worker i)) = some (s.setWorker i ⟨.trylock, bump^[k] b⟩) := by
  obtain ⟨m, rfl⟩ : ∃ m, k = m + 1 := ⟨k - 1, by omega⟩
  have hpass' : accept (bump (bump^[m] b)) = true := by rwa [← Function.iterate_succ_apply' bump m b]
  rw [List.replicate_succ', exec_append,
    exec_search_fail accept s b hw hstop m fun m' hm' => hfail m' (by omega), Option.bind_some, exec_cons,
    State.step, State.forceWorker_loop (State.workers_setWorker_self _ _ _) hstop, hpass', Option.bind_some,
    exec_nil, State.setWorker_setWorker, Function.iterate_succ_apply']
  rfl

theorem exec_store : ∀ (n j : Nat) (s : State) (b : Vector UInt8 blockLength), j + n ≤ blockLength →
    s.workers i = ⟨.store j, b⟩ →
    exec (State.step accept) s (List.replicate n (.worker i)) =
      some { s.setWorker i ⟨.store (j + n), b⟩ with msg := storeFrom b s.msg j n }
  | 0, j, s, b, _, hw => by rw [List.replicate_zero, exec_nil, Nat.add_zero, State.setWorker_self s hw]; rfl
  | n + 1, j, s, b, hjn, hw => by
    have hj : j < blockLength := by omega
    rw [List.replicate_succ, exec_cons, State.step, State.forceWorker_store hw hj, Option.bind_some]
    refine (exec_store n (j + 1) _ b (by omega) (by simp)).trans ?_
    simp [State.setWorker, storeFrom, hj, show j + 1 + n = j + (n + 1) by omega]

theorem exec_copyBack (s : State) (b : Vector UInt8 blockLength) (j n : Nat) (hw : s.workers i = ⟨.store j, b⟩)
    (hjn : j + n = blockLength) :
    exec (State.step accept) s (List.replicate n (.worker i) ++ [.worker i, .worker i]) =
      some { s.setWorker i ⟨.exit, b⟩ with
        msg := storeFrom b s.msg j n
        main := if s.main = .waiting then .woken false else s.main
        mutex := none } := by
  rw [exec_append, exec_store accept n j _ b hjn.le hw, Option.bind_some]
  simp [exec_cons, State.step, State.forceWorker, State.setWorker, hjn]

theorem exec_quit (s : State) (b : Vector UInt8 blockLength) (hw : s.workers i = ⟨.load 0, b⟩)
    (hstop : s.workerStop = true) :
    exec (State.step accept) s (List.replicate (blockLength + 2) (.worker i)) =
      some (s.setWorker i ⟨.exit, (lastBlock s.msg).set idOffset i.val.toUInt8 idOffset_lt⟩) := by
  rw [List.replicate_succ', exec_append, exec_copy accept s b hw, Option.bind_some, exec_cons, State.step,
    State.forceWorker_loop_stop (State.workers_setWorker_self _ _ _) hstop, Option.bind_some, exec_nil,
    State.setWorker_setWorker]

variable (msg₀ : Vector UInt8 bufferLength)

def started : State := ⟨.test, fun _ => ⟨.load 0, lastBlock msg₀⟩, msg₀, false, false, false, none⟩

theorem exec_create : exec (State.step accept) (init msg₀) (List.replicate (threadCount + 1) .main) =
    some (started msg₀) := by
  have hcreate : ∀ i ≤ threadCount, exec (State.step accept) (init msg₀) (List.replicate i .main) =
      some { init msg₀ with
        main := .create i
        workers := fun j => ⟨if j.val < i then .load 0 else .unborn, lastBlock msg₀⟩ } := by
    intro i hi
    induction i with
    | zero => simp [init]
    | succ i ih =>
      have hlt : i < threadCount := by omega
      rw [List.replicate_succ', exec_append, ih (by omega), Option.bind_some, exec_cons, State.step,
        State.forceHash]
      simp only [hlt, dite_true, Option.bind_some, exec_nil, State.setWorker, Option.some.injEq]
      congr
      funext j
      by_cases hj : j = ⟨i, hlt⟩
      · subst hj
        simp
      · have hji : j.val ≠ i := fun h => hj (Fin.ext h)
        simp only [Function.update_of_ne hj]
        congr 2
        simp only [Nat.lt_succ_iff_lt_or_eq, hji, or_false]
  rw [List.replicate_succ', exec_append, hcreate threadCount le_rfl, Option.bind_some, exec_cons, State.step,
    State.forceHash]
  simp [started, init]

theorem exec_join (s : State) (hmain : s.main = .join 0) (hexit : ∀ j, (s.workers j).pc = .exit) :
    exec (State.step accept) s (List.replicate (threadCount + 1) .main) = some { s with main := .done } := by
  have hjoin : ∀ i ≤ threadCount, exec (State.step accept) s (List.replicate i .main) =
      some { s with main := .join i } := by
    intro i hi
    induction i with
    | zero => rw [List.replicate_zero, exec_nil, ← hmain]
    | succ i ih =>
      have hlt : i < threadCount := by omega
      rw [List.replicate_succ', exec_append, ih (by omega), Option.bind_some, exec_cons, State.step,
        State.forceHash]
      simp [hlt, hexit]
  rw [List.replicate_succ', exec_append, hjoin threadCount le_rfl, Option.bind_some, exec_cons, State.step,
    State.forceHash]
  simp

theorem exec_wait (s : State) (hmain : s.main = .test) (hstop : s.stop = false) :
    exec (State.step accept) s [.main] = some { s with main := .waiting, mutex := none } := by
  simp [exec_cons, State.step, State.forceHash, hmain, hstop]

theorem exec_wake (s : State) (hmain : s.main = .woken false) (hfree : s.mutex = none) :
    exec (State.step accept) s [.main] =
      some { s with main := .stopWorkers, mutex := some .main, found := true } := by
  simp [exec_cons, State.step, State.forceHash, hmain, hfree]

theorem exec_stopWorkers (s : State) (hmain : s.main = .stopWorkers) :
    exec (State.step accept) s [.main] = some { s with main := .join 0, workerStop := true } := by
  simp [exec_cons, State.step, State.forceHash, hmain]

theorem exec_trylock_held (s : State) (b : Vector UInt8 blockLength) (hw : s.workers i = ⟨.trylock, b⟩)
    (t : Thread) (hheld : s.mutex = some t) :
    exec (State.step accept) s [.worker i] = some (s.setWorker i ⟨.sleep, b⟩) := by
  rw [exec_cons, State.step, State.forceWorker_trylock_held hw hheld, Option.bind_some, exec_nil]

theorem exec_break (s : State) (b : Vector UInt8 blockLength) (hw : s.workers i = ⟨.sleep, b⟩)
    (hstop : s.workerStop = true) :
    exec (State.step accept) s [.worker i] = some (s.setWorker i ⟨.store 0, b⟩) := by
  rw [exec_cons, State.step, State.forceWorker_sleep hw, hstop, if_pos rfl, Option.bind_some, exec_nil]

theorem exec_trylock_free (s : State) (b : Vector UInt8 blockLength) (hw : s.workers i = ⟨.trylock, b⟩)
    (hfree : s.mutex = none) :
    exec (State.step accept) s [.worker i] = some { s.setWorker i ⟨.store 0, b⟩ with mutex := some (.worker i) } := by
  rw [exec_cons, State.step, State.forceWorker_trylock_free hw hfree, Option.bind_some, exec_nil]

def quitAll (s : State) (js : List (Fin threadCount)) : State :=
  js.foldl (fun s j => s.setWorker j ⟨.exit, (lastBlock s.msg).set idOffset j.val.toUInt8 idOffset_lt⟩) s

@[simp] theorem main_quitAll (s : State) (js : List (Fin threadCount)) : (quitAll s js).main = s.main := by
  induction js generalizing s with
  | nil => rfl
  | cons j js ih => exact ih _

@[simp] theorem msg_quitAll (s : State) (js : List (Fin threadCount)) : (quitAll s js).msg = s.msg := by
  induction js generalizing s with
  | nil => rfl
  | cons j js ih => exact ih _

@[simp] theorem found_quitAll (s : State) (js : List (Fin threadCount)) : (quitAll s js).found = s.found := by
  induction js generalizing s with
  | nil => rfl
  | cons j js ih => exact ih _

theorem pc_quitAll (k : Fin threadCount) (js : List (Fin threadCount)) : ∀ s : State,
    ((quitAll s js).workers k).pc = if k ∈ js then .exit else (s.workers k).pc := by
  induction js with
  | nil => intro s; simp [quitAll]
  | cons j js ih =>
    intro s
    rw [quitAll, List.foldl_cons, ← quitAll, ih]
    by_cases hkj : k = j
    · subst hkj
      simp
    · simp [hkj]

theorem exec_quitAll (js : List (Fin threadCount)) : ∀ s : State, js.Nodup →
    (∀ j ∈ js, (s.workers j).pc = .load 0) → s.workerStop = true →
    exec (State.step accept) s (js.flatMap fun j => List.replicate (blockLength + 2) (.worker j)) =
      some (quitAll s js) := by
  induction js with
  | nil => intro s _ _ _; rfl
  | cons j js ih =>
    intro s hnodup hload hstop
    have hw : s.workers j = ⟨.load 0, (s.workers j).block⟩ := by
      rw [← hload j List.mem_cons_self]
    rw [List.flatMap_cons, exec_append, exec_quit accept s _ hw hstop, Option.bind_some,
      ih (s.setWorker j ⟨.exit, (lastBlock s.msg).set idOffset j.val.toUInt8 idOffset_lt⟩)
        (List.nodup_cons.mp hnodup).2 ?_ hstop]
    · rfl
    · intro k hk
      have hkj : k ≠ j := fun h => (List.nodup_cons.mp hnodup).1 (h ▸ hk)
      simpa [hkj] using hload k (List.mem_cons_of_mem j hk)

/-- The steps of worker `i` run alone from its creation to its exit, its search passing on pass
`k`. -/
def soloRun (i : Fin threadCount) (k : Nat) : List Event := List.replicate (2 * blockLength + k + 4) (.worker i)

/-- Worker `i` alone: it copies `solution`, passes on pass `k`, takes the free mutex, copies its
block back, signals and unlocks. -/
theorem exec_soloRun (s : State) (b : Vector UInt8 blockLength) (hw : s.workers i = ⟨.load 0, b⟩)
    (hstop : s.workerStop = false) (hfree : s.mutex = none) (k : Nat) (hk : FirstPass accept s.msg i k) :
    exec (State.step accept) s (soloRun i k) =
      some { s.setWorker i ⟨.exit, tryBlock s.msg i k⟩ with
        msg := storeFrom (tryBlock s.msg i k) s.msg 0 blockLength
        main := if s.main = .waiting then .woken false else s.main
        mutex := none } := by
  obtain ⟨hk1, hpass, hfail⟩ := hk
  have hsplit : soloRun i k = List.replicate (blockLength + 1) (.worker i) ++ (List.replicate k (.worker i) ++
      ([.worker i] ++ (List.replicate blockLength (.worker i) ++ [.worker i, .worker i]))) := by
    rw [soloRun, show 2 * blockLength + k + 4 = blockLength + 1 + (k + (1 + (blockLength + 2))) by omega]
    simp only [List.replicate_add]
    rfl
  rw [hsplit, exec_append_of _ (exec_copy accept s b hw),
    exec_append_of _ (exec_search accept _ ((lastBlock s.msg).set idOffset i.val.toUInt8 idOffset_lt)
      (State.workers_setWorker_self _ _ _) hstop k hk1 hpass hfail),
    exec_append_of _ (exec_trylock_free accept _ _ (State.workers_setWorker_self _ _ _) ?free),
    exec_copyBack accept _ (bump^[k] ((lastBlock s.msg).set idOffset i.val.toUInt8 idOffset_lt)) 0 blockLength
      ?back (Nat.zero_add _)]
  · simp [State.setWorker, tryBlock]
  case back => simp
  case free => simpa using hfree

theorem firstPass_one (haccept : ∀ b, accept b = true) (msg : Vector UInt8 bufferLength) (i : Fin threadCount) :
    FirstPass accept msg i 1 :=
  ⟨le_rfl, haccept _, fun _ hm h1 => absurd hm (by omega)⟩

theorem exec_soloAll (haccept : ∀ b, accept b = true) (js : List (Fin threadCount)) (hnodup : js.Nodup) :
    ∀ s : State, (∀ j ∈ js, (s.workers j).pc = .load 0) → s.workerStop = false → s.mutex = none →
      s.main = .test → ∃ s', exec (State.step accept) s (js.flatMap fun j => soloRun j 1) = some s' ∧
        s'.main = .test ∧ s'.stop = s.stop ∧ ∀ j, (s'.workers j).pc = if j ∈ js then .exit else (s.workers j).pc := by
  induction js with
  | nil => intro s _ _ _ hmain; exact ⟨s, rfl, hmain, rfl, fun _ => rfl⟩
  | cons j js ih =>
    intro s hload hstop hfree hmain
    obtain ⟨hj, hnodup'⟩ := List.nodup_cons.mp hnodup
    have hw : s.workers j = ⟨.load 0, (s.workers j).block⟩ := by rw [← hload j List.mem_cons_self]
    obtain ⟨t, ht, htdef⟩ : ∃ t, exec (State.step accept) s (soloRun j 1) = some t ∧ t = _ :=
      ⟨_, exec_soloRun accept s _ hw hstop hfree 1 (firstPass_one accept haccept _ _), rfl⟩
    have htpc : ∀ k, (t.workers k).pc = if k = j then .exit else (s.workers k).pc := by
      intro k
      by_cases hkj : k = j
      · subst hkj
        simp [htdef]
      · simp [htdef, hkj]
    have htload : ∀ k ∈ js, (t.workers k).pc = .load 0 := by
      intro k hk
      have hkj : k ≠ j := fun h => hj (h ▸ hk)
      rw [htpc, if_neg hkj]
      exact hload k (List.mem_cons_of_mem j hk)
    obtain ⟨s', hrun, hmain', hstop', hpc⟩ :=
      ih hnodup' t htload (by simp [htdef, hstop]) (by simp [htdef]) (by simp [htdef, hmain])
    refine ⟨s', by rw [List.flatMap_cons, exec_append_of _ ht, hrun], hmain', by simp [hstop', htdef], fun k => ?_⟩
    rw [hpc k, htpc k]
    by_cases hkj : k = j <;> simp [hkj]

def allSolo : List Event :=
  List.replicate (threadCount + 1) Event.main ++ (List.finRange threadCount).flatMap fun j => soloRun j 1

theorem exec_allSolo (haccept : ∀ b, accept b = true) :
    ∃ s, exec (State.step accept) (init msg₀) allSolo = some s ∧ s.main = .test ∧ s.stop = false ∧
      ∀ j, (s.workers j).pc = .exit := by
  obtain ⟨s, hrun, hmain, hstop, hpc⟩ := exec_soloAll accept haccept _ (List.nodup_finRange _) (started msg₀)
    (fun _ _ => rfl) rfl rfl rfl
  refine ⟨s, ?_, hmain, hstop, fun j => by simp [hpc]⟩
  rw [allSolo, exec_append_of _ (exec_create accept msg₀), hrun]

end Runs


/-! ### What every run keeps -/

section Invariant

/-- What every reachable state keeps: the buffer before `solution`, every worker's block outside
the id and the modifier, the blocks of the workers that passed, and each byte of `solution` as
it was or as some accepted block has it. -/
structure Inv (msg₀ : Vector UInt8 bufferLength) (s : State) : Prop where
  front : s.msg.toList.take blockPtr = msg₀.toList.take blockPtr
  agrees : ∀ i, Agrees msg₀ (s.workers i).block
  passed : ∀ i, (s.workers i).pc.passed = true → accept (s.workers i).block = true
  solution : ∀ j (hj : j < blockLength), (lastBlock s.msg)[j] = (lastBlock msg₀)[j] ∨
    ∃ b, accept b = true ∧ Agrees msg₀ b ∧ (lastBlock s.msg)[j] = b[j]

variable {accept} {msg₀ : Vector UInt8 bufferLength}

theorem inv_init : Inv accept msg₀ (init msg₀) where
  front := rfl
  agrees _ _ _ _ := rfl
  passed _ h := by simp [init, WorkerPc.passed] at h
  solution _ _ := .inl rfl

namespace Inv

variable {s : State}

theorem solution_outside (h : Inv accept msg₀ s) {j : Nat} (hj : j < blockLength) (hout : Outside j) :
    (lastBlock s.msg)[j] = (lastBlock msg₀)[j] := by
  rcases h.solution j hj with heq | ⟨b, -, hb, heq⟩
  · exact heq
  · exact heq.trans (hb j hj hout)

theorem of_eq {s' : State} (h : Inv accept msg₀ s) (hw : s'.workers = s.workers) (hm : s'.msg = s.msg) :
    Inv accept msg₀ s' where
  front := hm ▸ h.front
  agrees := hw ▸ h.agrees
  passed := hw ▸ h.passed
  solution := hm ▸ h.solution

theorem setWorker (h : Inv accept msg₀ s) {i : Fin threadCount} {w : Worker} (hagrees : Agrees msg₀ w.block)
    (hpassed : w.pc.passed = true → accept w.block = true) : Inv accept msg₀ (s.setWorker i w) where
  front := h.front
  agrees j := by
    by_cases hji : j = i
    · subst hji; simpa using hagrees
    · simpa [hji] using h.agrees j
  passed j := by
    by_cases hji : j = i
    · subst hji; simpa using hpassed
    · simpa [hji] using h.passed j
  solution := h.solution

theorem store (h : Inv accept msg₀ s) {b : Vector UInt8 blockLength} (hb : accept b = true)
    (hagrees : Agrees msg₀ b) {j : Nat} (hj : j < blockLength) :
    have := blockPtr_add_lt hj
    Inv accept msg₀ { s with msg := s.msg.set (blockPtr + j) b[j] } where
  front := by
    simp only [Vector.toList_set]
    rw [List.take_set_of_le (by omega)]
    exact h.front
  agrees := h.agrees
  passed := h.passed
  solution k hk := by
    by_cases hkj : k = j
    · subst hkj
      exact .inr ⟨b, hb, hagrees, by simp⟩
    · have hne : blockPtr + j ≠ blockPtr + k := by omega
      simpa [Vector.getElem_set_ne _ _ hne] using h.solution k hk

end Inv

theorem forceWorker_inv {s s' : State} {i : Fin threadCount} (h : Inv accept msg₀ s)
    (hstep : s.forceWorker accept i = some s') : Inv accept msg₀ s' := by
  rcases hw : s.workers i with ⟨pc, b⟩
  have hagrees : Agrees msg₀ b := by simpa [hw] using h.agrees i
  have hpassed : pc.passed = true → accept b = true := by simpa [hw] using h.passed i
  cases pc with
  | unborn => simp [State.forceWorker, hw] at hstep
  | load j =>
    by_cases hj : j < blockLength
    · rw [State.forceWorker_load hw hj, Option.some.injEq] at hstep
      subst hstep
      refine h.setWorker (fun k hk hout => ?_) (by simp [WorkerPc.passed])
      by_cases hkj : j = k
      · subst hkj
        simpa using h.solution_outside hk hout
      · simpa [Vector.getElem_set_ne _ _ hkj] using hagrees k hk hout
    · rw [State.forceWorker_load_done hw (Nat.not_lt.mp hj), Option.some.injEq] at hstep
      subst hstep
      exact h.setWorker (hagrees.set_id _) (by simp [WorkerPc.passed])
  | loop =>
    cases hstop : s.workerStop
    · rw [State.forceWorker_loop hw hstop, Option.some.injEq] at hstep
      subst hstep
      refine h.setWorker hagrees.bump fun hp => ?_
      split at hp
      · assumption
      · simp [WorkerPc.passed] at hp
    · rw [State.forceWorker_loop_stop hw hstop, Option.some.injEq] at hstep
      subst hstep
      exact h.setWorker hagrees (by simp [WorkerPc.passed])
  | trylock =>
    have hacc := hpassed rfl
    cases hm : s.mutex with
    | none =>
      rw [State.forceWorker_trylock_free hw hm, Option.some.injEq] at hstep
      subst hstep
      exact (h.setWorker hagrees fun _ => hacc).of_eq rfl rfl
    | some t =>
      rw [State.forceWorker_trylock_held hw hm, Option.some.injEq] at hstep
      subst hstep
      exact h.setWorker hagrees fun _ => hacc
  | sleep =>
    rw [State.forceWorker_sleep hw, Option.some.injEq] at hstep
    subst hstep
    exact h.setWorker hagrees fun _ => hpassed rfl
  | store j =>
    have hacc := hpassed rfl
    by_cases hj : j < blockLength
    · rw [State.forceWorker_store hw hj, Option.some.injEq] at hstep
      subst hstep
      exact (h.setWorker hagrees fun _ => hacc).store hacc hagrees hj
    · rw [State.forceWorker_signal hw (Nat.not_lt.mp hj), Option.some.injEq] at hstep
      subst hstep
      exact (h.setWorker hagrees fun _ => hacc).of_eq rfl rfl
  | unlock =>
    rw [State.forceWorker_unlock hw, Option.some.injEq] at hstep
    subst hstep
    exact (h.setWorker hagrees (by simp [WorkerPc.passed])).of_eq rfl rfl
  | exit => simp [State.forceWorker, hw] at hstep

theorem forceHash_frame {s s' : State} (hstep : s.forceHash = some s') :
    (∃ i, ∃ hi : i < threadCount, s' = { s.setWorker ⟨i, hi⟩ ⟨.load 0, (s.workers ⟨i, hi⟩).block⟩ with
      main := .create (i + 1) }) ∨ (s'.workers = s.workers ∧ s'.msg = s.msg) := by
  unfold State.forceHash at hstep
  split at hstep
  · split at hstep
    · exact .inl ⟨_, ‹_›, (Option.some.inj hstep).symm⟩
    · exact .inr (by rw [← Option.some.inj hstep]; exact ⟨rfl, rfl⟩)
  all_goals
    repeat' split at hstep
    all_goals first
      | exact .inr (by rw [← Option.some.inj hstep]; exact ⟨rfl, rfl⟩)
      | cases hstep

theorem forceHash_inv {s s' : State} (h : Inv accept msg₀ s) (hstep : s.forceHash = some s') :
    Inv accept msg₀ s' := by
  rcases forceHash_frame hstep with ⟨i, hi, rfl⟩ | ⟨hw, hm⟩
  · have h' : Inv accept msg₀ (s.setWorker ⟨i, hi⟩ ⟨.load 0, (s.workers ⟨i, hi⟩).block⟩) :=
      h.setWorker (h.agrees _) (by simp [WorkerPc.passed])
    exact h'.of_eq rfl rfl
  · exact h.of_eq hw hm

theorem step_inv {s s' : State} {e : Event} (h : Inv accept msg₀ s) (hstep : s.step accept e = some s') :
    Inv accept msg₀ s' := by
  cases e with
  | main => exact forceHash_inv h hstep
  | worker i => exact forceWorker_inv h hstep
  | timeout | spurious =>
    simp only [State.step] at hstep
    split at hstep
    · rw [Option.some.injEq] at hstep
      subst hstep
      exact h.of_eq rfl rfl
    · cases hstep
  | update =>
    rw [State.step, Option.some.injEq] at hstep
    subst hstep
    exact h.of_eq rfl rfl

end Invariant


/-! ### Signals that nobody waits for -/

/-- `force_hash` is past its wait loop: at `worker_stop = 1`, in its joins, or returned. -/
def MainPc.pastWait : MainPc → Bool
  | .stopWorkers | .join _ | .done => true
  | _ => false

/-- `force_hash` has created its workers and is not about to set `found`. -/
def MainPc.settled : MainPc → Bool
  | .create _ | .woken false => false
  | _ => true

section Wakeup

variable {accept} {s s' : State}

theorem forceHash_pastWait (hstep : s.forceHash = some s') :
    s'.main.pastWait = true ∨ (s'.found = s.found ∧ (s.main.pastWait = true → s'.main.pastWait = true)) := by
  cases hm : s.main with
  | create i =>
    simp only [State.forceHash, hm] at hstep
    split at hstep <;> cases hstep <;> simp [MainPc.pastWait]
  | test =>
    simp only [State.forceHash, hm] at hstep
    split at hstep <;> cases hstep <;> simp [MainPc.pastWait]
  | waiting => simp [State.forceHash, hm] at hstep
  | woken timedOut =>
    simp only [State.forceHash, hm] at hstep
    split at hstep
    · split at hstep <;> cases hstep <;> simp [MainPc.pastWait]
    · cases hstep
  | stopWorkers =>
    simp only [State.forceHash, hm] at hstep
    cases hstep
    simp [MainPc.pastWait]
  | join i =>
    simp only [State.forceHash, hm] at hstep
    split at hstep
    · split at hstep
      · cases hstep
        simp [MainPc.pastWait]
      · cases hstep
    · cases hstep
      simp [MainPc.pastWait]
  | done => simp [State.forceHash, hm] at hstep

theorem forceWorker_found {i : Fin threadCount} (hstep : s.forceWorker accept i = some s') :
    s'.found = s.found ∧ (s'.main = s.main ∨ s.main = .waiting) := by
  rcases hw : s.workers i with ⟨pc, b⟩
  cases pc with
  | unborn | exit => simp [State.forceWorker, hw] at hstep
  | load j =>
    by_cases hj : j < blockLength
    · rw [State.forceWorker_load hw hj] at hstep
      cases hstep
      simp
    · rw [State.forceWorker_load_done hw (Nat.not_lt.mp hj)] at hstep
      cases hstep
      simp
  | loop =>
    cases hstop : s.workerStop
    · rw [State.forceWorker_loop hw hstop] at hstep
      cases hstep
      simp
    · rw [State.forceWorker_loop_stop hw hstop] at hstep
      cases hstep
      simp
  | trylock =>
    cases hm : s.mutex with
    | none =>
      rw [State.forceWorker_trylock_free hw hm] at hstep
      cases hstep
      simp
    | some t =>
      rw [State.forceWorker_trylock_held hw hm] at hstep
      cases hstep
      simp
  | sleep =>
    rw [State.forceWorker_sleep hw] at hstep
    cases hstep
    simp
  | store j =>
    by_cases hj : j < blockLength
    · rw [State.forceWorker_store hw hj] at hstep
      cases hstep
      simp
    · -- the signal wakes `force_hash` if it waits
      rw [State.forceWorker_signal hw (Nat.not_lt.mp hj)] at hstep
      cases hstep
      by_cases hwait : s.main = .waiting <;> simp [hwait]
  | unlock =>
    rw [State.forceWorker_unlock hw] at hstep
    cases hstep
    simp

/-- `found` is set only on the way out of the wait loop. -/
def FoundInv (s : State) : Prop := s.found = true → s.main.pastWait = true

theorem step_foundInv {e : Event} (h : FoundInv s) (hstep : s.step accept e = some s') : FoundInv s' := by
  intro hfound
  cases e with
  | main =>
    rcases forceHash_pastWait hstep with hpast | ⟨hsame, hkeep⟩
    · exact hpast
    · exact hkeep (h (hsame ▸ hfound))
  | worker i =>
    obtain ⟨hsame, hmain | hwait⟩ := forceWorker_found hstep
    · exact hmain ▸ h (hsame ▸ hfound)
    · have := h (hsame ▸ hfound)
      simp [hwait, MainPc.pastWait] at this
  | timeout | spurious =>
    simp only [State.step] at hstep
    split at hstep
    · cases hstep
      have := h hfound
      simp [*, MainPc.pastWait] at this
    · cases hstep
  | update =>
    cases hstep
    exact h hfound

/-- No worker is left to signal and `force_hash` is not about to set `found`. -/
structure Quiet (s : State) : Prop where
  found : s.found = false
  exited : ∀ i, (s.workers i).pc = .exit
  settled : s.main.settled = true

theorem forceHash_quiet (h : Quiet s) (hstep : s.forceHash = some s') : Quiet s' := by
  have hsettled := h.settled
  cases hm : s.main with
  | create i => simp [hm, MainPc.settled] at hsettled
  | test =>
    simp only [State.forceHash, hm] at hstep
    split at hstep <;> cases hstep <;> exact ⟨h.found, h.exited, rfl⟩
  | waiting => simp [State.forceHash, hm] at hstep
  | woken timedOut =>
    cases timedOut
    · simp [hm, MainPc.settled] at hsettled
    · simp only [State.forceHash, hm] at hstep
      split at hstep
      · cases hstep
        exact ⟨h.found, h.exited, rfl⟩
      · cases hstep
  | stopWorkers =>
    simp only [State.forceHash, hm] at hstep
    cases hstep
    exact ⟨h.found, h.exited, rfl⟩
  | join i =>
    simp only [State.forceHash, hm] at hstep
    split at hstep
    · split at hstep
      · cases hstep
        exact ⟨h.found, h.exited, rfl⟩
      · cases hstep
    · cases hstep
      exact ⟨h.found, h.exited, rfl⟩
  | done => simp [State.forceHash, hm] at hstep

theorem step_quiet_of_ne {e : Event} (he : e ≠ .spurious) (h : Quiet s) (hstep : s.step accept e = some s') :
    Quiet s' := by
  cases e with
  | main => exact forceHash_quiet h hstep
  | worker i =>
    rw [State.step, State.forceWorker_exit (h.exited i)] at hstep
    cases hstep
  | timeout =>
    simp only [State.step] at hstep
    split at hstep
    · cases hstep
      exact ⟨h.found, h.exited, rfl⟩
    · cases hstep
  | spurious => exact absurd rfl he
  | update =>
    cases hstep
    exact ⟨h.found, h.exited, h.settled⟩

end Wakeup

/-- A signal sent while `force_hash` is not waiting is lost: once every worker has left while
`force_hash` is at its loop test, no run without a spurious wake-up sets `found`. -/
theorem forceHash_lost_wakeup {accept : Vector UInt8 blockLength → Bool} {msg₀ : Vector UInt8 bufferLength}
    (events : List Event) (s : State) (hrun : exec (State.step accept) (init msg₀) events = some s)
    (hmain : s.main = .test) (hexit : ∀ i, (s.workers i).pc = .exit) (events' : List Event)
    (hspurious : Event.spurious ∉ events') (s' : State) (hrun' : exec (State.step accept) s events' = some s') :
    s'.found = false := by
  have hfoundInv : FoundInv s :=
    exec_invariant (State.step accept) FoundInv (fun _ _ _ h hs => step_foundInv h hs) events _ _
      (fun h => by simp [init] at h) hrun
  have hfound : s.found = false := by
    cases hf : s.found
    · rfl
    · simpa [hmain, MainPc.pastWait] using hfoundInv hf
  have hquiet : Quiet s := ⟨hfound, hexit, by rw [hmain]; rfl⟩
  exact (exec_invariant_of_forall (State.step accept) (· ≠ .spurious) Quiet
    (fun _ _ _ he h hs => step_quiet_of_ne he h hs) events' s s' (fun e he h => hspurious (h ▸ he)) hquiet hrun').found

theorem forceHash_lost_wakeup_allSolo :
    ∃ s s', exec (State.step fun _ => true) (init (Vector.replicate bufferLength 0)) allSolo = some s ∧
      exec (State.step fun _ => true) s [.main, .timeout, .main, .main] = some s' ∧ s'.found = false := by
  obtain ⟨s, hrun, hmain, hstop, hexit⟩ := exec_allSolo (fun _ => true) (Vector.replicate bufferLength 0) fun _ => rfl
  have hrun' : exec (State.step fun _ => true) s [.main, .timeout, .main, .main] =
      some { s with main := .waiting, mutex := none } := by
    simp [exec_cons, State.step, State.forceHash, hmain, hstop]
  exact ⟨s, _, hrun, hrun', forceHash_lost_wakeup allSolo s hrun hmain hexit _ (by decide) _ hrun'⟩


/-! ### Two copies without the mutex -/

section Torn

variable (msg₀ : Vector UInt8 bufferLength)

theorem getElem_lastBlock_interleaved (b b' : Vector UInt8 blockLength) (msg : Vector UInt8 bufferLength)
    {j : Nat} (hj : j ≤ blockLength) (k : Nat) (hk : k < blockLength) :
    (lastBlock (storeFrom b (storeFrom b' msg 0 blockLength) j (blockLength - j)))[k] =
      if j ≤ k then b[k] else b'[k] := by
  rw [getElem_lastBlock_storeFrom b _ j _ (by omega) k hk,
    getElem_lastBlock_storeFrom b' _ 0 _ (by omega) k hk]
  by_cases hjk : j ≤ k
  · rw [if_pos ⟨hjk, by omega⟩, if_pos hjk]
  · rw [if_neg fun h => hjk h.1, if_neg hjk, if_pos ⟨Nat.zero_le _, by omega⟩]

theorem torn_eq_tryBlock (msg : Vector UInt8 bufferLength) (B C : Fin threadCount) (kB kC : Nat) (k : Nat)
    (hk : k < blockLength) :
    (if modifierOffset ≤ k then (tryBlock msg B kB)[k] else (tryBlock msg C kC)[k]) = (tryBlock msg C kB)[k] := by
  rw [getElem_tryBlock, getElem_tryBlock, getElem_tryBlock]
  have hid : idOffset = 50 := rfl
  have hmod : modifierOffset = 51 := rfl
  by_cases hk51 : modifierOffset ≤ k
  · have hne : idOffset ≠ k := by omega
    rw [if_pos hk51, if_neg hne, if_neg hne]
  · rw [if_neg hk51]
    by_cases hk50 : idOffset = k
    · rw [if_pos hk50, if_pos hk50]
    · -- before the modifier and off the id, both blocks are still the copied one
      have hout : Outside k := .inl (by omega)
      rw [if_neg hk50, if_neg hk50, getElem_iterate_bump _ _ hk hout, getElem_iterate_bump _ _ hk hout]

def others (A B C : Fin threadCount) : List (Fin threadCount) :=
  (List.finRange threadCount).filter fun j => j ≠ A ∧ j ≠ B ∧ j ≠ C

@[simp] theorem mem_others {A B C j : Fin threadCount} : j ∈ others A B C ↔ j ≠ A ∧ j ≠ B ∧ j ≠ C := by
  simp [others]

/-- The interleaving of `forceHash_torn`, phase by phase. -/
def tornSchedule (A B C : Fin threadCount) (kA kB kC : Nat) : List Event :=
  List.flatten
    [ -- `force_hash` creates the workers, `A`, `B` and `C` copy the block, and `force_hash` waits
      List.replicate (threadCount + 1) Event.main,
      List.replicate (blockLength + 1) (Event.worker A),
      List.replicate (blockLength + 1) (Event.worker B),
      List.replicate (blockLength + 1) (Event.worker C),
      [Event.main],
      -- `A` finds its block, takes the mutex, copies the block back and signals; `force_hash` wakes
      List.replicate kA (Event.worker A),
      [Event.worker A],
      List.replicate blockLength (Event.worker A) ++ [Event.worker A, Event.worker A],
      [Event.main],
      -- `B` and `C` find theirs while `force_hash` holds the mutex; `force_hash` sets `worker_stop`
      List.replicate kB (Event.worker B),
      [Event.worker B],
      List.replicate kC (Event.worker C),
      [Event.worker C],
      [Event.main],
      -- both leave their `trylock` loops: `B` copies up to the modifier, `C` all of its block, `B` the rest
      [Event.worker B],
      List.replicate modifierOffset (Event.worker B),
      [Event.worker C],
      List.replicate blockLength (Event.worker C) ++ [Event.worker C, Event.worker C],
      List.replicate (blockLength - modifierOffset) (Event.worker B) ++ [Event.worker B, Event.worker B],
      -- the other workers start and leave at once, and `force_hash` joins them all
      (others A B C).flatMap (fun j => List.replicate (blockLength + 2) (Event.worker j)),
      List.replicate (threadCount + 1) Event.main ]

/-- Two workers that meet `worker_stop` in their `trylock` loops copy their blocks back at once,
without the mutex: `force_hash` returns with `found` set and a block no worker's test accepted. -/
theorem forceHash_torn (A B C : Fin threadCount) (hAB : A ≠ B) (hAC : A ≠ C) (hBC : B ≠ C) (kA kB kC : Nat)
    (hA : FirstPass accept msg₀ A kA) (hB : FirstPass accept msg₀ B kB) (hC : FirstPass accept msg₀ C kC)
    (hlt : kB < kC) :
    ∃ events s, exec (State.step accept) (init msg₀) events = some s ∧ s.main = .done ∧ s.found = true ∧
      lastBlock s.msg = tryBlock msg₀ C kB ∧ accept (lastBlock s.msg) = false := by
  obtain ⟨hkA, hpassA, hfailA⟩ := hA
  obtain ⟨hkB, hpassB, hfailB⟩ := hB
  obtain ⟨hkC, hpassC, hfailC⟩ := hC
  have hlast : lastBlock (storeFrom (tryBlock msg₀ B kB)
      (storeFrom (tryBlock msg₀ C kC) (storeFrom (tryBlock msg₀ B kB) (storeFrom (tryBlock msg₀ A kA) msg₀ 0
        blockLength) 0 modifierOffset) 0 blockLength) (0 + modifierOffset) (blockLength - modifierOffset)) =
      tryBlock msg₀ C kB := by
    apply Vector.ext
    intro k hk
    rw [Nat.zero_add, getElem_lastBlock_interleaved _ _ _ (by decide) k hk]
    exact torn_eq_tryBlock msg₀ B C kB kC k hk
  refine ⟨tornSchedule A B C kA kB kC, ?_⟩
  simp only [tornSchedule, List.flatten_cons, List.flatten_nil, List.append_nil]
  rw [exec_append_of _ (exec_create accept msg₀),
    exec_append_of _ (exec_copy accept _ (lastBlock msg₀) ?cA),
    exec_append_of _ (exec_copy accept _ (lastBlock msg₀) ?cB),
    exec_append_of _ (exec_copy accept _ (lastBlock msg₀) ?cC),
    exec_append_of _ (exec_wait accept _ ?wm ?ws),
    exec_append_of _ (exec_search accept _ ((lastBlock msg₀).set idOffset A.val.toUInt8 idOffset_lt) ?sA ?sAs
      kA hkA hpassA hfailA),
    exec_append_of _ (exec_trylock_free accept _ (tryBlock msg₀ A kA) ?tA ?tAf),
    exec_append_of _ (exec_copyBack accept _ (tryBlock msg₀ A kA) 0 blockLength ?bA (Nat.zero_add _)),
    exec_append_of _ (exec_wake accept _ ?km ?kf),
    exec_append_of _ (exec_search accept _ ((lastBlock msg₀).set idOffset B.val.toUInt8 idOffset_lt) ?sB ?sBs
      kB hkB hpassB hfailB),
    exec_append_of _ (exec_trylock_held accept _ (tryBlock msg₀ B kB) ?tB .main ?tBh),
    exec_append_of _ (exec_search accept _ ((lastBlock msg₀).set idOffset C.val.toUInt8 idOffset_lt) ?sC ?sCs
      kC hkC hpassC hfailC),
    exec_append_of _ (exec_trylock_held accept _ (tryBlock msg₀ C kC) ?tC .main ?tCh),
    exec_append_of _ (exec_stopWorkers accept _ ?pm),
    exec_append_of _ (exec_break accept _ (tryBlock msg₀ B kB) ?rB ?rBs),
    exec_append_of _ (exec_store accept modifierOffset 0 _ (tryBlock msg₀ B kB) (by decide) ?stB),
    exec_append_of _ (exec_break accept _ (tryBlock msg₀ C kC) ?rC ?rCs),
    exec_append_of _ (exec_copyBack accept _ (tryBlock msg₀ C kC) 0 blockLength ?bC (Nat.zero_add _)),
    exec_append_of _ (exec_copyBack accept _ (tryBlock msg₀ B kB) (0 + modifierOffset) (blockLength - modifierOffset) ?bB (by decide)),
    exec_append_of _ (exec_quitAll accept (others A B C) _ ?nd ?ld ?qs),
    exec_join accept _ ?jm ?je]
  · refine ⟨_, rfl, rfl, ?_⟩
    simp only [found_quitAll, msg_quitAll, State.setWorker_msg, State.setWorker_found, started]
    rw [hlast]
    exact ⟨trivial, rfl, hfailC kB hlt hkB⟩
  case nd => exact (List.nodup_finRange threadCount).filter _
  case ld =>
    intro j hj
    obtain ⟨hjA, hjB, hjC⟩ := mem_others.mp hj
    simp [started, hjA, hjB, hjC]
  case je =>
    intro j
    rw [pc_quitAll]
    by_cases hj : j ∈ others A B C
    · rw [if_pos hj]
    · rw [if_neg hj]
      simp only [mem_others, not_and_or, not_not] at hj
      rcases hj with rfl | rfl | rfl
      · simp [hAB, hAC]
      · simp
      · simp [hBC.symm]
  all_goals simp [started, tryBlock, hAB, hAC, hBC, hAB.symm, hAC.symm, hBC.symm]

theorem forceHash_torn_ids :
    ∃ events s, exec (State.step fun b => decide (b.get ⟨idOffset, idOffset_lt⟩ < b.get ⟨modifierOffset, by decide⟩))
        (init (Vector.replicate bufferLength 0)) events = some s ∧ s.main = .done ∧ s.found = true ∧
      lastBlock s.msg = tryBlock (Vector.replicate bufferLength 0) ⟨2, by decide⟩ 2 ∧
      decide ((lastBlock s.msg).get ⟨idOffset, idOffset_lt⟩ < (lastBlock s.msg).get ⟨modifierOffset, by decide⟩) = false :=
  forceHash_torn _ _ ⟨0, by decide⟩ ⟨1, by decide⟩ ⟨2, by decide⟩ (by decide) (by decide) (by decide) 1 2 3
    (by decide) (by decide) (by set_option maxRecDepth 8000 in decide) (by decide)

end Torn


/-! ### The test on the commit -/

theorem toList_lastBlock (msg : Vector UInt8 bufferLength) : (lastBlock msg).toList = msg.toList.drop blockPtr := by
  apply List.ext_getElem
  · rw [Vector.length_toList, List.length_drop, Vector.length_toList]
    rfl
  · intro k hk _
    simp [lastBlock]

/-- `tries` from the chaining value of the first three blocks is the mask test on the digest of the
commit, once `pad_message` has put the padding in place. -/
theorem tries_hash_commit (msg : Vector UInt8 bufferLength)
    (hpad : (padMessage msg (UInt32.ofNat commitLength) (UInt32.ofNat bufferLength)).2 = msg) (mask : UInt32) :
    tries (chain initial (msg.toList.take blockPtr)) mask (lastBlock msg) =
      threadedAccepts mask (Sha1.hash (msg.toList.take commitLength)) := by
  rw [tries, toList_lastBlock, blockAt_drop, hash_commit msg (padMessage_commit msg hpad)]

theorem tries_hash_commit_zeros :
    let msg := (padMessage (Vector.replicate bufferLength 0) (UInt32.ofNat commitLength) (UInt32.ofNat bufferLength)).2
    tries (chain initial (msg.toList.take blockPtr)) 0xF0000000 (lastBlock msg) =
      threadedAccepts 0xF0000000 (Sha1.hash (msg.toList.take commitLength)) :=
  tries_hash_commit _ (padMessage_padMessage _ _ _ (by decide)) 0xF0000000

end Ctf3.Level1.Naive
