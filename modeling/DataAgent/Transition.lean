import Mathlib

/-!
# Transition systems

A system takes a step by an action, or refuses it.

* `Reaches ok s t` : `t` comes after `s` in a run whose steps all meet `ok`; `Reaches.invariant` is its induction
  rule and `reaches_of_exec` makes a run of a list of actions;
* `InfiniteRun` : a run without end, in which the system may also rest (`InfiniteRun.ofActions`); `WeaklyFair` : an
  action that stays enabled is taken (`InfiniteRun.eventually`).
-/

namespace DataAgent.Transition

structure System (State Action : Type*) where
  init : State
  step : State → Action → Option State

namespace System
variable {State Action : Type*} (m : System State Action)

/-- A run whose steps all meet `ok`. -/
inductive Reaches (ok : State → Action → Prop) : State → State → Prop
  | refl (s : State) : Reaches ok s s
  | tail {s t u : State} {a : Action} : Reaches ok s t → ok t a → m.step t a = some u → Reaches ok s u

/-- A run of any steps from the start. -/
def Reachable (s : State) : Prop := m.Reaches (fun _ _ => True) m.init s

variable {m} {ok : State → Action → Prop}

/-- **What every step keeps, every run keeps.** -/
theorem Reaches.invariant {I : State → Prop} {s t : State} (h : m.Reaches ok s t)
    (hstep : ∀ s a t, I s → ok s a → m.step s a = some t → I t) (hs : I s) : I t := by
  induction h with
  | refl => exact hs
  | tail _ hok hstep' ih => exact hstep _ _ _ ih hok hstep'

theorem Reaches.mono {ok' : State → Action → Prop} (himp : ∀ s a, ok s a → ok' s a) {s t : State}
    (h : m.Reaches ok s t) : m.Reaches ok' s t := by
  induction h with
  | refl => exact .refl _
  | tail _ hok hstep ih => exact .tail ih (himp _ _ hok) hstep

theorem Reaches.trans {s t u : State} (h : m.Reaches ok s t) (h' : m.Reaches ok t u) : m.Reaches ok s u := by
  induction h' with
  | refl => exact h
  | tail _ hok hstep ih => exact .tail ih hok hstep

/-! ## Runs of given actions -/

variable (m) in
/-- The actions one after another, each checked. -/
def exec (ok : State → Action → Bool) : State → List Action → Option State
  | s, [] => some s
  | s, a :: rest => if ok s a then (m.step s a).bind fun t => exec ok t rest else none

theorem reaches_of_exec {ok : State → Action → Bool} {s t : State} {as : List Action}
    (h : m.exec ok s as = some t) : m.Reaches (fun s a => ok s a = true) s t := by
  induction as generalizing s with
  | nil =>
    obtain rfl : s = t := by simpa [exec] using h
    exact .refl s
  | cons a as ih =>
    rw [exec] at h
    split at h
    · rename_i hok
      obtain ⟨u, hu, hrest⟩ := Option.bind_eq_some_iff.mp h
      exact Reaches.trans (.tail (.refl s) hok hu) (ih hrest)
    · simp at h

/-! ## Runs without end -/

variable (m) in
structure InfiniteRun where
  state : ℕ → State
  act : ℕ → Option Action
  start : state 0 = m.init
  next : ∀ n, match act n with
    | none => state (n + 1) = state n
    | some a => m.step (state n) a = some (state (n + 1))

namespace InfiniteRun
variable (r : m.InfiniteRun)

/-- An action that stays enabled is taken. -/
def WeaklyFair (a : Action) : Prop :=
  ∀ n, (∀ k ≥ n, (m.step (r.state k) a).isSome) → ∃ k ≥ n, r.act k = some a

theorem next_of_act {n : ℕ} {a : Action} (h : r.act n = some a) : m.step (r.state n) a = some (r.state (n + 1)) := by
  have := r.next n
  rwa [h] at this

theorem next_of_rest {n : ℕ} (h : r.act n = none) : r.state (n + 1) = r.state n := by
  have := r.next n
  rwa [h] at this

theorem reachable (n : ℕ) : m.Reachable (r.state n) := by
  induction n with
  | zero => exact r.start ▸ .refl _
  | succ n ih =>
    cases h : r.act n with
    | none => exact r.next_of_rest h ▸ ih
    | some a => exact .tail ih trivial (r.next_of_act h)

/-- While `P` holds every step keeps it or reaches `Q`, and `a` is enabled and reaches `Q`: then a fair run
reaches `Q`. -/
theorem eventually {P Q : State → Prop} {a : Action} {n : ℕ} (hfair : r.WeaklyFair a) (hn : P (r.state n))
    (hkeep : ∀ k ≥ n, P (r.state k) → P (r.state (k + 1)) ∨ Q (r.state (k + 1)))
    (hen : ∀ k ≥ n, P (r.state k) → (m.step (r.state k) a).isSome)
    (hgoal : ∀ k ≥ n, P (r.state k) → r.act k = some a → Q (r.state (k + 1))) :
    ∃ k ≥ n, Q (r.state k) := by
  by_contra hno
  push Not at hno
  have hall : ∀ k ≥ n, P (r.state k) := by
    intro k hk
    induction k, hk using Nat.le_induction with
    | base => exact hn
    | succ k hk ih => exact (hkeep k hk ih).resolve_right (hno (k + 1) (by omega))
  obtain ⟨k, hk, hact⟩ := hfair n fun k hk => hen k hk (hall k hk)
  exact hno (k + 1) (by omega) (hgoal k hk (hall k hk) hact)

variable (m) in
/-- The state after the first `n` of the actions. -/
def stateAfter : State → List Action → ℕ → State
  | s, a :: rest, n + 1 => stateAfter ((m.step s a).getD s) rest n
  | s, _, _ => s

theorem stateAfter_next {s t : State} {as : List Action} (h : m.exec (fun _ _ => true) s as = some t) (n : ℕ) :
    match as[n]? with
    | none => stateAfter m s as (n + 1) = stateAfter m s as n
    | some a => m.step (stateAfter m s as n) a = some (stateAfter m s as (n + 1)) := by
  induction as generalizing s n with
  | nil => rfl
  | cons a as ih =>
    obtain ⟨u, hu, hrest⟩ := Option.bind_eq_some_iff.mp h
    cases n with
    | zero => simp [stateAfter, hu]
    | succ n => simpa [stateAfter, hu] using ih hrest n

/-- The actions one after another, and then rest. -/
def ofActions {t : State} (as : List Action) (h : m.exec (fun _ _ => true) m.init as = some t) : m.InfiniteRun where
  state := stateAfter m m.init as
  act n := as[n]?
  start := by cases as <;> rfl
  next := stateAfter_next h

end InfiniteRun

end System

end DataAgent.Transition
