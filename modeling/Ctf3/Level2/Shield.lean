import Mathlib
import Ctf3.Lib.Trace

/-!
# The level 2 shield

`shield` stands in front of the backends. `Queue.takeRequest` hands each request to the least busy
`QueueProxy` that is not full, answers it with a 400 when `shouldReject` says so and no backend is
idle, and otherwise holds it in `Queue.requests`; each `'end'` of a backend request frees a slot,
and `Queue.tryProxyNext` fills it from the held requests. Here the events carry what
`shouldReject`, `closed` and `score` return, so every result below holds for every outcome of them;
`ClientStats.lean` computes them from the clock. `shield_invariant` is the main result, about every run.
-/

namespace Ctf3.Level2

def backendFlight : Int := 2

def backendQueue : Int := 1

structure QueueProxy where
  inFlight : Int
deriving DecidableEq, Repr

def QueueProxy.full (p : QueueProxy) : Bool := p.inFlight ≥ backendFlight + backendQueue

def QueueProxy.waiting (p : QueueProxy) : Bool := p.inFlight < backendFlight

/-- What the shield does outside its own state: a 400 reply to a request, a request handed to the
proxy of a backend, or a line on stderr. -/
inductive Effect (n : Nat)
  | reject (request : Nat)
  | proxy (request : Nat) (backend : Fin n)
  | error (message : String)
deriving DecidableEq, Repr

@[simp] def Effect.isProxyTo {n : Nat} (i : Fin n) : Effect n → Bool
  | .proxy _ j => j = i
  | _ => false

@[simp] def Effect.isProxyOf {n : Nat} (request : Nat) : Effect n → Bool
  | .proxy r _ => r = request
  | _ => false

/-- A `Queue` over `n` backends, each request named by its arrival number, with the effects so far. -/
structure Queue (n : Nat) where
  proxies : Vector QueueProxy n
  requests : List Nat
  output : List (Effect n)

namespace Queue

variable {n : Nat}

/-- `new Queue(proxies)`. -/
def init (n : Nat) : Queue n := ⟨Vector.replicate n ⟨0⟩, [], []⟩

def emit (q : Queue n) (e : Effect n) : Queue n := { q with output := q.output ++ [e] }

def rejectRequest (q : Queue n) (request : Nat) : Queue n := q.emit (.reject request)

/-- `this.proxies[i].push(reqData)`. -/
def push (q : Queue n) (i : Fin n) (request : Nat) : Queue n :=
  let q := if q.proxies[i].full then q.emit (.error "Pushed a request to a full proxy") else q
  { q.emit (.proxy request i) with proxies := q.proxies.set i ⟨q.proxies[i].inFlight + 1⟩ }

def getAvailableProxy (q : Queue n) : Option (Fin n) :=
  -- `_.min` keeps the first proxy with the fewest requests in flight. With no proxies it returns
  -- `Infinity` and `proxy.full()` throws; `main` builds one proxy per port, so never fewer than one.
  -- The order on `Int` is the one of its `LinearOrder`, which computes.
  match @List.argmin _ Int Int.instLinearOrder.toPartialOrder.toPreorder _ (fun i => q.proxies[i].inFlight)
      (List.finRange n) with
  | some i => if q.proxies[i].full then none else some i
  | none => none

/-- `takeRequest(reqData)`; `shouldReject` is what `clientStats.shouldReject(reqData)` returns
after `clientStats.record(reqData)`. -/
def takeRequest (q : Queue n) (request : Nat) (shouldReject : Bool) : Queue n :=
  let proxy := q.getAvailableProxy
  if !(proxy.any fun i => q.proxies[i].waiting) && shouldReject then q.rejectRequest request
  else match proxy with
    | some i => q.push i request
    | none => { q with requests := q.requests ++ [request] }

/-- `tryProxyNext()`; `reject r` is `reqData.closed || shouldReject(reqData)` and `score r` is
`clientStats.score(reqData, ...)` for the held request `r`. -/
def tryProxyNext (q : Queue n) (reject : Nat → Bool) (score : Nat → Int) : Queue n :=
  if q.requests = [] then q
  else match q.getAvailableProxy with
    | none => q.emit (.error "Expected a proxy to be ready but it wasn\x27t!")
    | some i =>
      -- `_.reject` answers each rejected request with a 400, in order, and keeps the others
      let kept := q.requests.filter fun r => !reject r
      let q := { q with requests := kept, output := q.output ++ (q.requests.filter reject).map Effect.reject }
      if h : kept = [] then q.emit (.error "Rejected all outstanding requests!")
      else
        -- `_.sortBy` is a stable ascending sort; `pop` takes its last request
        let sorted := kept.mergeSort fun a b => score a ≤ score b
        have hsorted : sorted ≠ [] := by
          simpa [sorted, ← List.length_pos_iff] using h
        { q with requests := sorted.dropLast }.push i (sorted.getLast hsorted)

/-- The `'end'` listener of `this.proxies[i]`. -/
def onEnd (q : Queue n) (i : Fin n) (reject : Nat → Bool) (score : Nat → Int) : Queue n :=
  { q with proxies := q.proxies.set i ⟨q.proxies[i].inFlight - 1⟩ }.tryProxyNext reject score

/-! ### The operations -/

@[simp] theorem emit_proxies (q : Queue n) (e : Effect n) : (q.emit e).proxies = q.proxies := rfl

@[simp] theorem emit_requests (q : Queue n) (e : Effect n) : (q.emit e).requests = q.requests := rfl

@[simp] theorem emit_output (q : Queue n) (e : Effect n) : (q.emit e).output = q.output ++ [e] := rfl

theorem getElem_set_fin {α : Type} (v : Vector α n) (i j : Fin n) (x : α) :
    (v.set i x)[j] = if i = j then x else v[j] := by
  simp [Vector.getElem_set, Fin.val_inj]

@[simp] theorem push_proxies (q : Queue n) (i : Fin n) (request : Nat) :
    (q.push i request).proxies = q.proxies.set i ⟨q.proxies[i].inFlight + 1⟩ := by
  unfold push
  split <;> rfl

@[simp] theorem push_requests (q : Queue n) (i : Fin n) (request : Nat) :
    (q.push i request).requests = q.requests := by
  unfold push
  split <;> rfl

theorem push_output (q : Queue n) (i : Fin n) (request : Nat) :
    (q.push i request).output =
      q.output ++ ((if q.proxies[i].full then [.error "Pushed a request to a full proxy"] else []) ++
        [.proxy request i]) := by
  unfold push
  split <;> simp

theorem getAvailableProxy_eq_some {q : Queue n} {i : Fin n} (h : q.getAvailableProxy = some i) :
    q.proxies[i].full = false ∧ ∀ j : Fin n, q.proxies[i].inFlight ≤ q.proxies[j].inFlight := by
  unfold getAvailableProxy at h
  split at h
  · rename_i m hm
    split at h
    · cases h
    · rename_i hnf
      cases h
      exact ⟨by simpa using hnf, fun j =>
        List.le_of_mem_argmin (f := fun k : Fin n => q.proxies[k].inFlight) (List.mem_finRange j) hm⟩
  · cases h

theorem getAvailableProxy_eq_none {q : Queue n} (h : q.getAvailableProxy = none) (j : Fin n) :
    q.proxies[j].full = true := by
  unfold getAvailableProxy at h
  split at h
  · rename_i m hm
    split at h
    · rename_i hfull
      have hle :=
        List.le_of_mem_argmin (f := fun k : Fin n => q.proxies[k].inFlight) (List.mem_finRange j) hm
      simp only [QueueProxy.full, decide_eq_true_eq] at hfull ⊢
      omega
    · cases h
  · rename_i hm
    exact absurd (List.argmin_eq_none.mp hm) (List.ne_nil_of_mem (List.mem_finRange j))

/-- How many requests were handed to the proxy of backend `i`. -/
def pushesTo (q : Queue n) (i : Fin n) : Nat := q.output.countP (Effect.isProxyTo i)

/-- How often request `r` was answered with a 400, handed to a backend, or held. -/
def dispositions (q : Queue n) (r : Nat) : Nat :=
  q.output.count (.reject r) + q.output.countP (Effect.isProxyOf r) + q.requests.count r

/-- How many requests of backend `i` have ended: those handed to it less those in flight. -/
def completed (q : Queue n) (i : Fin n) : Int := q.pushesTo i - q.proxies[i].inFlight

/-! ### What each operation does to the counts -/

theorem count_dropLast_add {α : Type} [DecidableEq α] (l : List α) (h : l ≠ []) (a : α) :
    l.dropLast.count a + (if l.getLast h = a then 1 else 0) = l.count a := by
  conv_rhs => rw [← List.dropLast_concat_getLast h]
  simp [List.count_append, List.count_singleton, beq_iff_eq]

theorem completed_push (q : Queue n) (i j : Fin n) (request : Nat) :
    (q.push i request).completed j = q.completed j := by
  unfold completed pushesTo
  rw [push_output, push_proxies, getElem_set_fin]
  by_cases hij : i = j
  · subst hij
    split <;> simp [Effect.isProxyTo]
  · split <;> simp [Effect.isProxyTo, hij]

theorem completed_takeRequest (q : Queue n) (request : Nat) (shouldReject : Bool) (j : Fin n) :
    (q.takeRequest request shouldReject).completed j = q.completed j := by
  unfold takeRequest
  dsimp only
  split
  · simp [rejectRequest, completed, pushesTo, Effect.isProxyTo]
  · split
    · exact completed_push q _ j request
    · rfl

theorem completed_tryProxyNext (q : Queue n) (reject : Nat → Bool) (score : Nat → Int) (j : Fin n) :
    (q.tryProxyNext reject score).completed j = q.completed j := by
  unfold tryProxyNext
  dsimp only
  split
  · rfl
  · split
    · simp [completed, pushesTo, Effect.isProxyTo]
    · split
      · simp [completed, pushesTo, Effect.isProxyTo, List.countP_map, Function.comp_def]
      · rw [completed_push]
        simp [completed, pushesTo, Effect.isProxyTo, List.countP_map, Function.comp_def]

theorem completed_onEnd (q : Queue n) (i j : Fin n) (reject : Nat → Bool) (score : Nat → Int) :
    (q.onEnd i reject score).completed j = q.completed j + if i = j then 1 else 0 := by
  unfold onEnd
  rw [completed_tryProxyNext]
  by_cases hij : i = j
  · subst hij
    simp [completed, pushesTo]
    omega
  · simp [completed, pushesTo, Fin.val_inj, hij]

theorem dispositions_push (q : Queue n) (i : Fin n) (request r : Nat) :
    (q.push i request).dispositions r = q.dispositions r + if request = r then 1 else 0 := by
  unfold dispositions
  rw [push_output, push_requests]
  split <;> simp [Effect.isProxyOf] <;> omega

theorem dispositions_takeRequest (q : Queue n) (request : Nat) (shouldReject : Bool) (r : Nat) :
    (q.takeRequest request shouldReject).dispositions r = q.dispositions r + if request = r then 1 else 0 := by
  unfold takeRequest
  dsimp only
  split
  · simp [rejectRequest, dispositions, List.count_singleton, Effect.isProxyOf]
    omega
  · split
    · exact dispositions_push q _ request r
    · simp [dispositions, List.count_append, List.count_singleton]
      omega

theorem dispositions_tryProxyNext (q : Queue n) (reject : Nat → Bool) (score : Nat → Int) (r : Nat) :
    (q.tryProxyNext reject score).dispositions r = q.dispositions r := by
  have hsplit : q.requests.count r =
      (q.requests.filter reject).count r + (q.requests.filter fun a => !reject a).count r :=
    List.countP_eq_countP_filter_add _ _ _
  have hrejects : ((q.requests.filter reject).map (Effect.reject (n := n))).count (.reject r) =
      (q.requests.filter reject).count r :=
    List.count_map_of_injective _ _ (fun a b h => by cases h; rfl) r
  have hproxies : ((q.requests.filter reject).map (Effect.reject (n := n))).countP (Effect.isProxyOf r) = 0 := by
    simp [List.countP_map, Function.comp_def]
  unfold tryProxyNext
  dsimp only
  split
  · rfl
  · split
    · simp [dispositions]
    · split
      · rename_i hkept
        rw [hkept, List.count_nil, Nat.add_zero] at hsplit
        simp only [dispositions, emit_output, emit_requests, List.count_append, List.countP_append, hrejects,
          hproxies, hkept, List.count_nil]
        simp
        omega
      · rename_i hkept
        rw [dispositions_push]
        have hsorted : (q.requests.filter fun a => !reject a).mergeSort (fun a b => score a ≤ score b) ≠ [] := by
          rw [← List.length_pos_iff, List.length_mergeSort, List.length_pos_iff]
          exact hkept
        have hpop := count_dropLast_add _ hsorted r
        rw [(List.mergeSort_perm _ _).count_eq r] at hpop
        simp only [dispositions, List.count_append, List.countP_append, hrejects, hproxies]
        omega

theorem dispositions_onEnd (q : Queue n) (i : Fin n) (reject : Nat → Bool) (score : Nat → Int) (r : Nat) :
    (q.onEnd i reject score).dispositions r = q.dispositions r := by
  unfold onEnd
  rw [dispositions_tryProxyNext]
  rfl

theorem tryProxyNext_keeps (q : Queue n) (reject : Nat → Bool) (score : Nat → Int) {r : Nat}
    (hheld : r ∈ q.requests) (hkeep : reject r = false) :
    ∃ new, (q.tryProxyNext reject score).output = q.output ++ new ∧ Effect.reject r ∉ new ∧
      (r ∈ (q.tryProxyNext reject score).requests ∨ ∃ i, Effect.proxy r i ∈ new) := by
  have hkept : r ∈ q.requests.filter fun a => !reject a := List.mem_filter.mpr ⟨hheld, by simp [hkeep]⟩
  unfold tryProxyNext
  dsimp only
  rw [if_neg (List.ne_nil_of_mem hheld)]
  split
  · exact ⟨_, rfl, by simp, .inl hheld⟩
  · rename_i i _
    rw [dif_neg (List.ne_nil_of_mem hkept), push_output, push_requests]
    have hsorted : r ∈ (q.requests.filter fun a => !reject a).mergeSort (fun a b => score a ≤ score b) :=
      (List.mergeSort_perm _ _).mem_iff.mpr hkept
    obtain hlast | hlast : r ∈ _ ∨ r = _ := by
      rw [← List.mem_singleton, ← List.mem_append, List.dropLast_append_getLast (List.ne_nil_of_mem hsorted)]
      exact hsorted
    · refine ⟨_, List.append_assoc _ _ _, by simp [hkeep], .inl hlast⟩
    · refine ⟨_, List.append_assoc _ _ _, by simp [hkeep], .inr ⟨i, by simp [hlast]⟩⟩

/-! ### What a reachable queue satisfies -/

/-- Each proxy holds between zero and `backendFlight + backendQueue` requests, and the only line on
stderr is the one of `tryProxyNext` rejecting every held request. -/
structure Bounded (q : Queue n) : Prop where
  inFlight_nonneg : ∀ j : Fin n, 0 ≤ q.proxies[j].inFlight
  inFlight_le : ∀ j : Fin n, q.proxies[j].inFlight ≤ backendFlight + backendQueue
  error_eq : ∀ m, Effect.error m ∈ q.output → m = "Rejected all outstanding requests!"

/-- A bounded queue that holds requests only while every proxy is full. -/
structure Safe (q : Queue n) : Prop extends q.Bounded where
  full_of_held : q.requests ≠ [] → ∀ j : Fin n, q.proxies[j].full

theorem Bounded.append {q : Queue n} (hq : q.Bounded) (requests : List Nat) (es : List (Effect n))
    (hes : ∀ m, Effect.error m ∈ es → m = "Rejected all outstanding requests!") :
    ({ q with requests := requests, output := q.output ++ es } : Queue n).Bounded where
  inFlight_nonneg := hq.inFlight_nonneg
  inFlight_le := hq.inFlight_le
  error_eq m hm := by
    rcases List.mem_append.mp hm with hm | hm
    · exact hq.error_eq m hm
    · exact hes m hm

theorem Bounded.push {q : Queue n} {i : Fin n} (hq : q.Bounded) (hnf : q.proxies[i].full = false)
    (request : Nat) : (q.push i request).Bounded where
  inFlight_nonneg j := by
    rw [push_proxies, getElem_set_fin]
    split
    · have := hq.inFlight_nonneg i
      dsimp only
      omega
    · exact hq.inFlight_nonneg j
  inFlight_le j := by
    rw [push_proxies, getElem_set_fin]
    split
    · simp only [QueueProxy.full, decide_eq_false_iff_not, not_le] at hnf
      dsimp only
      omega
    · exact hq.inFlight_le j
  error_eq m hm := by
    rw [push_output, hnf] at hm
    simp only [Bool.false_eq_true, if_false, List.nil_append, List.mem_append, List.mem_singleton,
      reduceCtorEq, or_false] at hm
    exact hq.error_eq m hm

theorem Safe.takeRequest {q : Queue n} (hq : q.Safe) (request : Nat) (shouldReject : Bool) :
    (q.takeRequest request shouldReject).Safe := by
  unfold Queue.takeRequest
  dsimp only
  cases hp : q.getAvailableProxy with
  | none =>
    have hfull := getAvailableProxy_eq_none hp
    split
    · exact ⟨hq.toBounded.append _ [.reject request] (by simp), hq.full_of_held⟩
    · exact ⟨⟨hq.inFlight_nonneg, hq.inFlight_le, hq.error_eq⟩, fun _ => hfull⟩
  | some i =>
    obtain ⟨hnf, -⟩ := getAvailableProxy_eq_some hp
    have hheld : q.requests = [] := by
      by_contra hne
      have := hq.full_of_held hne i
      rw [hnf] at this
      cases this
    split
    · exact ⟨hq.toBounded.append _ [.reject request] (by simp), hq.full_of_held⟩
    · exact ⟨hq.toBounded.push hnf request, fun hne => absurd hheld (by simpa using hne)⟩

theorem Safe.tryProxyNext {q : Queue n} {i : Fin n} (hq : q.Bounded)
    (hheld : q.requests ≠ [] → ∀ j : Fin n,
      q.proxies[j].inFlight = backendFlight + backendQueue - if i = j then 1 else 0)
    (reject : Nat → Bool) (score : Nat → Int) : (q.tryProxyNext reject score).Safe := by
  have hrejects : ∀ m, Effect.error m ∈ (q.requests.filter reject).map (Effect.reject (n := n)) →
      m = "Rejected all outstanding requests!" := by
    simp
  unfold Queue.tryProxyNext
  dsimp only
  split
  · rename_i hempty
    exact ⟨hq, fun hne => absurd hempty hne⟩
  · rename_i hne
    have hslots := hheld hne
    split
    · rename_i hp
      have hfull := getAvailableProxy_eq_none hp i
      simp only [QueueProxy.full, hslots i, backendFlight, backendQueue] at hfull
      cases hfull
    · rename_i i' hp
      obtain ⟨hnf, hmin⟩ := getAvailableProxy_eq_some hp
      have hi' : i' = i := by
        by_contra hne'
        have := hmin i
        rw [hslots i, hslots i', if_pos rfl, if_neg (Ne.symm hne')] at this
        simp [backendFlight, backendQueue] at this
      subst hi'
      split
      · rename_i hkept
        refine ⟨(hq.append _ _ hrejects).append _ [.error "Rejected all outstanding requests!"] (by simp), ?_⟩
        intro hne'
        exact absurd hkept (by simpa using hne')
      · refine ⟨(hq.append _ _ hrejects).push hnf _, fun _ j => ?_⟩
        rw [push_proxies, getElem_set_fin]
        split
        · rename_i hij
          subst hij
          simp only [QueueProxy.full, hslots i', backendFlight, backendQueue]
          decide
        · rename_i hij
          simp only [QueueProxy.full, hslots j, if_neg hij, backendFlight, backendQueue]
          decide

theorem Safe.onEnd {q : Queue n} (hq : q.Safe) {i : Fin n} (hi : 1 ≤ q.proxies[i].inFlight)
    (reject : Nat → Bool) (score : Nat → Int) : (q.onEnd i reject score).Safe := by
  unfold Queue.onEnd
  apply Safe.tryProxyNext (i := i)
  · constructor
    · intro j
      simp only [getElem_set_fin]
      split
      · dsimp only
        omega
      · exact hq.inFlight_nonneg j
    · intro j
      simp only [getElem_set_fin]
      split
      · have := hq.inFlight_le i
        dsimp only
        omega
      · exact hq.inFlight_le j
    · exact hq.error_eq
  · -- every proxy was full, and backend `i` has given one request back
    intro hne j
    have hfull := hq.full_of_held hne j
    have hle := hq.inFlight_le j
    simp only [QueueProxy.full, decide_eq_true_eq] at hfull
    simp only [getElem_set_fin]
    split
    · rename_i hij
      subst hij
      dsimp only
      omega
    · omega

end Queue

/-- A run of the shield: the queue, the number of requests so far, and the backend of each
`'end'` so far. -/
structure Sys (n : Nat) where
  queue : Queue n
  arrived : Nat
  ended : List (Fin n)

inductive Event (n : Nat)
  | request (shouldReject : Bool)
  | finish (backend : Fin n) (reject : Nat → Bool) (score : Nat → Int)

def Sys.init (n : Nat) : Sys n := ⟨Queue.init n, 0, []⟩

def Sys.step {n : Nat} (s : Sys n) : Event n → Option (Sys n)
  | .request shouldReject => some ⟨s.queue.takeRequest s.arrived shouldReject, s.arrived + 1, s.ended⟩
  | .finish i reject score =>
    -- the proxy emits one `'end'` for each request it was handed
    if s.ended.count i < s.queue.pushesTo i then
      some ⟨s.queue.onEnd i reject score, s.arrived, s.ended ++ [i]⟩
    else none

/-! ### Every run -/

/-- The queue is safe, each proxy has as many requests ended as the proxy emitted `'end'` for, and
each request that has arrived has exactly one disposition. -/
structure Sys.Inv {n : Nat} (s : Sys n) : Prop where
  safe : s.queue.Safe
  completed_eq : ∀ j : Fin n, s.queue.completed j = s.ended.count j
  dispositions_eq : ∀ r, s.queue.dispositions r = if r < s.arrived then 1 else 0

theorem inv_init (n : Nat) : (Sys.init n).Inv where
  safe := ⟨⟨fun _ => by simp [Sys.init, Queue.init], fun _ => by simp [Sys.init, Queue.init, backendFlight,
    backendQueue], fun _ h => by simp [Sys.init, Queue.init] at h⟩, fun h => absurd rfl h⟩
  completed_eq _ := by simp [Sys.init, Queue.init, Queue.completed, Queue.pushesTo]
  dispositions_eq _ := by simp [Sys.init, Queue.init, Queue.dispositions]

theorem step_inv {n : Nat} {s s' : Sys n} {e : Event n} (hs : s.Inv) (h : s.step e = some s') : s'.Inv := by
  cases e with
  | request shouldReject =>
    cases h
    refine ⟨hs.safe.takeRequest _ _, fun j => ?_, fun r => ?_⟩
    · rw [Queue.completed_takeRequest]
      exact hs.completed_eq j
    · rw [Queue.dispositions_takeRequest, hs.dispositions_eq r]
      dsimp only
      split_ifs <;> omega
  | finish i reject score =>
    simp only [Sys.step] at h
    split at h
    · rename_i hlt
      cases h
      have hi : 1 ≤ s.queue.proxies[i].inFlight := by
        have := hs.completed_eq i
        unfold Queue.completed at this
        omega
      refine ⟨hs.safe.onEnd hi reject score, fun j => ?_, fun r => ?_⟩
      · rw [Queue.completed_onEnd, hs.completed_eq j, List.count_append, List.count_singleton]
        by_cases hij : i = j
        · simp [hij]
        · simp [hij]
      · rw [Queue.dispositions_onEnd]
        exact hs.dispositions_eq r
    · cases h

theorem step_finish {n : Nat} {s s' : Sys n} {i : Fin n} {reject : Nat → Bool} {score : Nat → Int}
    (h : s.step (.finish i reject score) = some s') :
    s'.queue = s.queue.onEnd i reject score ∧ s'.arrived = s.arrived := by
  simp only [Sys.step] at h
  split at h
  · cases h
    exact ⟨rfl, rfl⟩
  · cases h

theorem lt_arrived_of_held {n : Nat} {s : Sys n} (hs : s.Inv) {r : Nat} (hheld : r ∈ s.queue.requests) :
    r < s.arrived := by
  have hdisp := hs.dispositions_eq r
  have hcount : 0 < s.queue.requests.count r := List.count_pos_iff.mpr hheld
  unfold Queue.dispositions at hdisp
  split_ifs at hdisp with hlt
  · exact hlt
  · omega

theorem shield_invariant {n : Nat} (trace : List (Event n)) (s : Sys n)
    (hs : Trace.exec Sys.step (Sys.init n) trace = some s) :
    (∀ j : Fin n, 0 ≤ s.queue.proxies[j].inFlight ∧
      s.queue.proxies[j].inFlight ≤ backendFlight + backendQueue) ∧
    (∀ m, Effect.error m ∈ s.queue.output → m = "Rejected all outstanding requests!") ∧
    (s.queue.requests ≠ [] → ∀ j : Fin n, s.queue.proxies[j].full) ∧
    (∀ r, s.queue.dispositions r = if r < s.arrived then 1 else 0) := by
  have hinv : s.Inv :=
    Trace.exec_invariant Sys.step Sys.Inv (fun _ _ _ hi h => step_inv hi h) trace _ s (inv_init n) hs
  obtain ⟨⟨⟨hnonneg, hle, herror⟩, hheld⟩, -, hdisp⟩ := hinv
  exact ⟨fun j => ⟨hnonneg j, hle j⟩, herror, hheld, hdisp⟩

theorem shield_invariant_held_request :
    ∃ s, Trace.exec Sys.step (Sys.init 1) [.request false, .request false, .request false, .request false,
        .finish 0 (fun _ => false) (fun _ => 0)] = some s ∧
      ((∀ j : Fin 1, 0 ≤ s.queue.proxies[j].inFlight ∧
        s.queue.proxies[j].inFlight ≤ backendFlight + backendQueue) ∧
      (∀ m, Effect.error m ∈ s.queue.output → m = "Rejected all outstanding requests!") ∧
      (s.queue.requests ≠ [] → ∀ j : Fin 1, s.queue.proxies[j].full) ∧
      (∀ r, s.queue.dispositions r = if r < s.arrived then 1 else 0)) :=
  ⟨_, rfl, shield_invariant [.request false, .request false, .request false, .request false,
    .finish 0 (fun _ => false) (fun _ => 0)] _ rfl⟩

end Ctf3.Level2
