import Mathlib
import Ctf3.Lib.Js
import Ctf3.Lib.Trace
import Ctf3.Level2.Shield

/-!
# Client statistics and the clock

`ClientStats` keeps the start times of the requests from each address and blackholes an address
that has sent more than `maxRequests` requests, or sent them less than `maxRate` ms apart on
average. `shouldReject` is also meant to turn away a request that has waited more than
`reqTimeout - reqTime` ms, but it reads `reqData.start`, a property `RequestData` does not have:
the wait is `NaN`, `NaN > reqTimeout` is `false`, and only the blackhole flag is left
(`shouldReject_eq_blackhole`).

`Shield` runs the queue of `Shield.lean` with the statistics and the clock. Every run of it is a
run of the queue (`exec_sys`), and `score` never meets an address it has no record of
(`score_isSome`). At an `'end'`, a held request from an address that is not blackholed is never
answered with a 400, however long it has waited (`finish_keeps_held_request`).
-/

namespace Ctf3.Level2

open Js

def reqTimeout : Int := 500

def reqTime : Int := 75

def maxRequests : Nat := 4

def maxRate : ℚ := 5

/-- `new RequestData(request, response, buffer)`: `Date.now()`, the `x-forwarded-for` header, and
whether the response has been closed. -/
structure RequestData where
  startTime : Int
  ip : String
  closed : Bool
deriving DecidableEq, Repr, Inhabited

/-- The properties of a `RequestData` that hold numbers. -/
def RequestData.properties (reqData : RequestData) : List (String × Js.Value) :=
  [("startTime", .number reqData.startTime)]

/-- What `ClientStats` keeps for one address; `rate` is `null` until its second request. -/
structure Datum where
  starts : List Int
  blackhole : Bool
  rate : Option ℚ

/-- `this.data`, by address. -/
structure ClientStats where
  data : String → Option Datum

namespace ClientStats

def init : ClientStats := ⟨fun _ => none⟩

/-- `record(reqData)`. -/
def record (s : ClientStats) (reqData : RequestData) : ClientStats :=
  let datum := (s.data reqData.ip).getD ⟨[], false, none⟩
  let datum := { datum with starts := datum.starts ++ [reqData.startTime] }
  let datum :=
    if datum.starts.length > maxRequests then { datum with blackhole := true }
    else if datum.starts.length > 1 then
      let deltas := (List.range (datum.starts.length - 1)).foldl
        (fun deltas i => deltas + (datum.starts.getD (i + 1) 0 - datum.starts.getD i 0)) (0 : Int)
      let rate : ℚ := deltas / (datum.starts.length - 1 : Nat)
      let datum := { datum with rate := some rate }
      if rate < maxRate then { datum with blackhole := true } else datum
    else datum
  ⟨fun ip => if ip = reqData.ip then some datum else s.data ip⟩

/-- `shouldReject(reqData)` with `Date.now()` reading `now`. -/
def shouldReject (s : ClientStats) (now : Int) (reqData : RequestData) : Bool :=
  let timedOut :=
    gt (sub (add (.number now) (.number reqTime)) (get reqData.properties "start")) (.number reqTimeout)
  let blackhole := (s.data reqData.ip).any (·.blackhole)
  timedOut || blackhole

/-- `score(reqData, queued)` with `Date.now()` reading `now`; `none` where `this.data[reqData.ip]`
is `undefined` and reading its `rate` throws. -/
def score (s : ClientStats) (now : Int) (reqData : RequestData) : Option Int :=
  (s.data reqData.ip).map fun datum =>
    let queueTime := now - reqData.startTime
    queueTime + ((maxRequests : Int) - datum.starts.length) * 100

theorem shouldReject_eq_blackhole (s : ClientStats) (now : Int) (reqData : RequestData) :
    s.shouldReject now reqData = (s.data reqData.ip).any (·.blackhole) := by
  have hstart : get reqData.properties "start" = .undefined := get_of_not_mem (by simp [RequestData.properties])
  simp [shouldReject, hstart, sub]

theorem isSome_data_record (s : ClientStats) (reqData : RequestData) (ip : String) :
    ((s.record reqData).data ip).isSome = (decide (ip = reqData.ip) || (s.data ip).isSome) := by
  unfold record
  by_cases hip : ip = reqData.ip <;> simp [hip]

end ClientStats

/-- The shield with its statistics: the run of its queue, `queue.clientStats`, and the
`RequestData` of each request by arrival number. -/
structure Shield (n : Nat) where
  sys : Sys n
  stats : ClientStats
  reqData : List RequestData

/-- A request arriving from an address, the response of a request closing, or a backend request
ending, with the clock reading `now`. -/
inductive ShieldEvent (n : Nat)
  | request (now : Int) (ip : String)
  | close (request : Nat)
  | finish (now : Int) (backend : Fin n)

namespace Shield

variable {n : Nat}

def init (n : Nat) : Shield n := ⟨Sys.init n, ClientStats.init, []⟩

/-- `reqData.closed || _this.clientStats.shouldReject(reqData)` in `tryProxyNext`. -/
def reject (s : Shield n) (now : Int) (request : Nat) : Bool :=
  let reqData := s.reqData.getD request default
  reqData.closed || s.stats.shouldReject now reqData

/-- `_this.clientStats.score(reqData, ...)` in `tryProxyNext`; `0` stands in for the throw, which
`score_isSome` rules out. -/
def score (s : Shield n) (now : Int) (request : Nat) : Int :=
  (s.stats.score now (s.reqData.getD request default)).getD 0

def step (s : Shield n) : ShieldEvent n → Option (Shield n)
  | .request now ip =>
    -- `takeRequest` records the request before it asks `shouldReject`
    let reqData : RequestData := ⟨now, ip, false⟩
    let stats := s.stats.record reqData
    (s.sys.step (.request (stats.shouldReject now reqData))).map fun sys => ⟨sys, stats, s.reqData ++ [reqData]⟩
  | .close request =>
    if request < s.reqData.length then
      some { s with reqData := s.reqData.modify request fun reqData => { reqData with closed := true } }
    else none
  | .finish now i => (s.sys.step (.finish i (s.reject now) (s.score now))).map fun sys => { s with sys }

/-! ### Every run is a run of the queue -/

theorem step_sys {s s' : Shield n} {e : ShieldEvent n} (h : s.step e = some s') :
    ∃ es, Trace.exec Sys.step s.sys es = some s'.sys := by
  cases e with
  | request now ip =>
    simp only [step] at h
    obtain ⟨sys, hsys, rfl⟩ := Option.map_eq_some_iff.mp h
    exact ⟨[_], by rw [Trace.exec_cons, hsys]; rfl⟩
  | close request =>
    simp only [step] at h
    split at h
    · cases h
      exact ⟨[], rfl⟩
    · cases h
  | finish now i =>
    simp only [step] at h
    obtain ⟨sys, hsys, rfl⟩ := Option.map_eq_some_iff.mp h
    exact ⟨[_], by rw [Trace.exec_cons, hsys]; rfl⟩

theorem exec_sys (es : List (ShieldEvent n)) (s : Shield n) (h : Trace.exec step (init n) es = some s) :
    ∃ es', Trace.exec Sys.step (Sys.init n) es' = some s.sys :=
  Trace.exec_rel step (fun s t => ∃ es', Trace.exec Sys.step s.sys es' = some t.sys)
    (fun _ => ⟨[], rfl⟩)
    (fun _ _ _ ⟨es₁, h₁⟩ ⟨es₂, h₂⟩ => ⟨es₁ ++ es₂, by rw [Trace.exec_append, h₁, Option.bind_some]; exact h₂⟩)
    (fun _ _ _ h => step_sys h) es _ _ h

theorem sys_inv {es : List (ShieldEvent n)} {s : Shield n} (h : Trace.exec step (init n) es = some s) :
    s.sys.Inv := by
  obtain ⟨es', hsys⟩ := exec_sys es s h
  exact Trace.exec_invariant Sys.step Sys.Inv (fun _ _ _ hi h => step_inv hi h) es' _ _ (inv_init n) hsys

/-! ### Every request has a record -/

/-- There is a `RequestData` for each request that has arrived, and a record for its address. -/
structure Inv (s : Shield n) : Prop where
  length_eq : s.reqData.length = s.sys.arrived
  recorded : ∀ ip ∈ s.reqData.map RequestData.ip, (s.stats.data ip).isSome

theorem map_ip_modify_closed (l : List RequestData) (request : Nat) :
    (l.modify request fun reqData => { reqData with closed := true }).map RequestData.ip = l.map RequestData.ip := by
  apply List.ext_getElem
  · simp
  · intro j _ _
    simp only [List.getElem_map, List.getElem_modify]
    split <;> rfl

theorem inv_init : (init n).Inv := ⟨rfl, by simp [init]⟩

theorem step_inv {s s' : Shield n} {e : ShieldEvent n} (hs : s.Inv) (h : s.step e = some s') : s'.Inv := by
  cases e with
  | request now ip =>
    simp only [step] at h
    obtain ⟨sys, hsys, rfl⟩ := Option.map_eq_some_iff.mp h
    simp only [Sys.step, Option.some.injEq] at hsys
    subst hsys
    refine ⟨by simp [hs.length_eq], fun ip' hip' => ?_⟩
    rw [ClientStats.isSome_data_record]
    simp only [List.map_append, List.map_cons, List.map_nil, List.mem_append, List.mem_singleton] at hip'
    rcases hip' with hip' | rfl
    · simp [hs.recorded ip' hip']
    · simp
  | close request =>
    simp only [step] at h
    split at h
    · cases h
      exact ⟨by simp [hs.length_eq], by simpa [map_ip_modify_closed] using hs.recorded⟩
    · cases h
  | finish now i =>
    simp only [step] at h
    obtain ⟨sys, hsys, rfl⟩ := Option.map_eq_some_iff.mp h
    exact ⟨(step_finish hsys).2 ▸ hs.length_eq, hs.recorded⟩

/-- `score` is only asked about held requests, and each of them has arrived and been recorded. -/
theorem score_isSome {es : List (ShieldEvent n)} {s : Shield n} (h : Trace.exec step (init n) es = some s)
    (now : Int) {r : Nat} (hheld : r ∈ s.sys.queue.requests) :
    (s.stats.score now (s.reqData.getD r default)).isSome := by
  have hinv : s.Inv := Trace.exec_invariant step Inv (fun _ _ _ hi h => step_inv hi h) es _ _ inv_init h
  have hlt : r < s.reqData.length := hinv.length_eq ▸ lt_arrived_of_held (sys_inv h) hheld
  have hmem : (s.reqData.getD r default).ip ∈ s.reqData.map RequestData.ip := by
    rw [List.getD_eq_getElem _ _ hlt]
    exact List.mem_map_of_mem (List.getElem_mem hlt)
  simpa [ClientStats.score] using hinv.recorded _ hmem

theorem score_isSome_fourth :
    ∃ s, Trace.exec step (init 1) [.request 0 "a", .request 0 "b", .request 0 "c", .request 0 "d"] = some s ∧
      3 ∈ s.sys.queue.requests ∧ (s.stats.score 1000 (s.reqData.getD 3 default)).isSome := by
  have h : Trace.exec step (init 1) [.request 0 "a", .request 0 "b", .request 0 "c", .request 0 "d"] = some _ := rfl
  exact ⟨_, h, by decide +kernel, score_isSome h 1000 (by decide +kernel)⟩

/-! ### The clock never rejects a request -/

theorem finish_keeps_held_request (s s' : Shield n) (now : Int) (i : Fin n) (r : Nat)
    (hstep : s.step (.finish now i) = some s') (hheld : r ∈ s.sys.queue.requests)
    (hopen : (s.reqData.getD r default).closed = false)
    (hclient : (s.stats.data (s.reqData.getD r default).ip).any (·.blackhole) = false) :
    ∃ new, s'.sys.queue.output = s.sys.queue.output ++ new ∧ Effect.reject r ∉ new ∧
      (r ∈ s'.sys.queue.requests ∨ ∃ j, Effect.proxy r j ∈ new) := by
  obtain ⟨sys, hsys, rfl⟩ := Option.map_eq_some_iff.mp hstep
  have hkeep : s.reject now r = false := by
    simp only [reject]
    rw [ClientStats.shouldReject_eq_blackhole, hopen, hclient]
    rfl
  rw [(step_finish hsys).1]
  exact Queue.tryProxyNext_keeps _ _ _ hheld hkeep

theorem finish_keeps_held_request_late :
    ∃ s s', Trace.exec step (init 1) [.request 0 "a", .request 0 "b", .request 0 "c", .request 0 "d"] = some s ∧
      s.step (.finish 1000 0) = some s' ∧ reqTimeout < 1000 + reqTime - (s.reqData.getD 3 default).startTime ∧
      Effect.proxy 3 0 ∈ s'.sys.queue.output ∧
      ∃ new, s'.sys.queue.output = s.sys.queue.output ++ new ∧ Effect.reject 3 ∉ new ∧
        (3 ∈ s'.sys.queue.requests ∨ ∃ j, Effect.proxy 3 j ∈ new) :=
  ⟨_, _, rfl, rfl, by decide, by decide +kernel, finish_keeps_held_request _ _ 1000 0 3 rfl (by decide) rfl rfl⟩

end Shield

end Ctf3.Level2
