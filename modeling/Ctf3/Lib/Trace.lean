import Mathlib

/-!
# Runs of a partial step function

A system given by `step : σ → ε → Option σ` (the state after an event, or `none` when the event
cannot happen in that state) runs a list of events. An invariant that every step keeps holds after
every run, and a reflexive, transitive relation that every step respects relates the two ends of
every run.
-/

namespace Trace

variable {σ ε : Type*} (step : σ → ε → Option σ)

/-- The state after the events `es` from `s`, if each of them can happen in turn. -/
def exec : σ → List ε → Option σ
  | s, [] => some s
  | s, e :: es => (step s e).bind fun s' => exec s' es

@[simp] theorem exec_nil (s : σ) : exec step s [] = some s := rfl

theorem exec_cons (s : σ) (e : ε) (es : List ε) :
    exec step s (e :: es) = (step s e).bind fun s' => exec step s' es := rfl

theorem exec_append (s : σ) (es es' : List ε) :
    exec step s (es ++ es') = (exec step s es).bind fun s' => exec step s' es' := by
  induction es generalizing s with
  | nil => rfl
  | cons e es ih =>
    rw [List.cons_append, exec_cons, exec_cons]
    cases step s e with
    | none => rfl
    | some s' => exact ih s'

/-- A run whose first events lead to `t` goes on from `t`. -/
theorem exec_append_of {s t : σ} {es : List ε} (h : exec step s es = some t) (es' : List ε) :
    exec step s (es ++ es') = exec step t es' := by
  rw [exec_append, h, Option.bind_some]

/-- A state is reachable from `s₀` when some run leads there. -/
def Reachable (s₀ s : σ) : Prop := ∃ es, exec step s₀ es = some s

/-- An invariant that every step keeps holds at the end of every run. -/
theorem exec_invariant (P : σ → Prop) (hstep : ∀ s e s', P s → step s e = some s' → P s') :
    ∀ (es : List ε) (s s' : σ), P s → exec step s es = some s' → P s' := by
  intro es
  induction es with
  | nil =>
    intro s s' hs hrun
    rw [exec_nil, Option.some.injEq] at hrun
    exact hrun ▸ hs
  | cons e es ih =>
    intro s s' hs hrun
    rw [exec_cons] at hrun
    obtain ⟨t, hstep_t, hrest⟩ := Option.bind_eq_some_iff.mp hrun
    exact ih t s' (hstep s e t hs hstep_t) hrest

/-- An invariant that every step of an allowed event keeps holds at the end of every run of
allowed events. -/
theorem exec_invariant_of_forall (Q : ε → Prop) (P : σ → Prop)
    (hstep : ∀ s e s', Q e → P s → step s e = some s' → P s') :
    ∀ (es : List ε) (s s' : σ), (∀ e ∈ es, Q e) → P s → exec step s es = some s' → P s' := by
  intro es
  induction es with
  | nil =>
    intro s s' _ hs hrun
    rw [exec_nil, Option.some.injEq] at hrun
    exact hrun ▸ hs
  | cons e es ih =>
    intro s s' hq hs hrun
    rw [exec_cons] at hrun
    obtain ⟨t, hstep_t, hrest⟩ := Option.bind_eq_some_iff.mp hrun
    exact ih t s' (fun e' he' => hq e' (List.mem_cons_of_mem e he'))
      (hstep s e t (hq e List.mem_cons_self) hs hstep_t) hrest

/-- A reflexive, transitive relation that each step respects relates the ends of every run. -/
theorem exec_rel (R : σ → σ → Prop) (hrefl : ∀ s, R s s) (htrans : ∀ s t u, R s t → R t u → R s u)
    (hstep : ∀ s e s', step s e = some s' → R s s') :
    ∀ (es : List ε) (s s' : σ), exec step s es = some s' → R s s' := by
  intro es
  induction es with
  | nil =>
    intro s s' hrun
    rw [exec_nil, Option.some.injEq] at hrun
    exact hrun ▸ hrefl s
  | cons e es ih =>
    intro s s' hrun
    rw [exec_cons] at hrun
    obtain ⟨t, hstep_t, hrest⟩ := Option.bind_eq_some_iff.mp hrun
    exact htrans s t s' (hstep s e t hstep_t) (ih t s' hrest)

end Trace
