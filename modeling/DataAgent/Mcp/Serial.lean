import DataAgent.Mcp.Session

/-!
# One request at a time

The server is meant to work on one request at a time (`Serialized`). A request stays in progress until the server
answers it, whatever its caller does meanwhile.

* `AnswerFirst` : what the session guarantees of `call_tool`;
* `CancelsInFlight` : the step that breaks the serialization;
* **`serialized_of_no_cancel`** and `not_serialized`.
-/

namespace DataAgent.Mcp
open Transition System

section
variable {ι ρ : Type*} [DecidableEq ι] {s t : State ι ρ}

/-- One request in progress at most, and none when a request is sent. -/
def Serialized (s : State ι ρ) : Prop :=
  (∀ c d, s.request c = .inProgress → s.request d = .inProgress → c = d) ∧
    ∀ c t, step s (.send c) = some t → ∀ d, s.request d ≠ .inProgress

/-- A timeout or a closed transport can end `call_tool` at any time; a result, or another error, comes with the
answer of the server or before the request is sent. -/
def AnswerFirst (s : State ι ρ) : Action ι ρ → Prop
  | .finish c (.raised e) => e.Closing ∨ s.request c ≠ .inProgress
  | .finish c (.returned _) => s.request c ≠ .inProgress
  | _ => True

/-- A caller is cancelled after its request was sent and before it was answered. -/
def CancelsInFlight (s : State ι ρ) : Action ι ρ → Prop
  | .cancel c => s.request c = .inProgress
  | _ => False

instance (s : State ι ρ) (a : Action ι ρ) : Decidable (AnswerFirst s a) := by
  unfold AnswerFirst
  split <;> infer_instance

instance (s : State ι ρ) (a : Action ι ρ) : Decidable (CancelsInFlight s a) := by
  unfold CancelsInFlight
  split <;> infer_instance

/-- **The invariant of the requests.** The lock holder is the only one with a request in progress, unless the
flag is set. -/
structure Served (s : State ι ρ) : Prop extends Session s where
  holds : ∀ c, s.request c = .inProgress → s.lock = some c ∨ s.unavailable = true
  one : ∀ c d, s.request c = .inProgress → s.request d = .inProgress → c = d

omit [DecidableEq ι] in
theorem Served.start : Served (State.start : State ι ρ) :=
  ⟨.start, by simp [State.start], by simp [State.start]⟩

/-- Nothing is in progress when a request can be sent: the sender holds the lock, so the flag is down. -/
theorem Served.idle_of_send (h : Served s) {c : ι} (hs : step s (.send c) = some t) (d : ι) :
    s.request d ≠ .inProgress := by
  obtain ⟨hc, hr, -⟩ := step_send.mp hs
  have hlock := (h.holder c).mp hc
  intro hd
  rcases h.holds d hd with hd' | hu
  · obtain rfl : c = d := Option.some.inj (hlock.symm.trans hd')
    rw [hr] at hd
    exact absurd hd (by decide)
  · rw [h.closed hu] at hlock
    exact absurd hlock (by simp)

/-- An exit from `call_tool` with the request answered, or with the flag set. -/
theorem Served.leave (h : Served s) {c : ι} (hc : s.pc c = .inside) {o : Outcome ρ}
    (ho : (handle o).1 = true ∨ s.request c ≠ .inProgress) : Served (s.leave c o) where
  toSession := h.toSession.leave hc o
  holds d hd := by
    right
    rw [leave_request] at hd
    rw [leave_unavailable, Bool.or_eq_true]
    rcases h.holds d hd with hl | hu
    · obtain rfl : c = d := Option.some.inj (((h.holder c).mp hc).symm.trans hl)
      exact Or.inr (ho.resolve_right fun hne => hne hd)
    · exact Or.inl hu
  one := h.one

/-- The step lemma. -/
theorem Served.step {a : Action ι ρ} (h : Served s) (hdoc : AnswerFirst s a) (hsafe : ¬ CancelsInFlight s a)
    (hs : Mcp.step s a = some t) : Served t := by
  have hsession := h.toSession.step hs
  cases a with
  | arrive c =>
    obtain ⟨-, rfl⟩ := step_arrive.mp hs
    exact ⟨hsession, h.holds, h.one⟩
  | acquire c =>
    obtain ⟨-, hl, rfl⟩ := step_acquire.mp hs
    split
    · rename_i hu
      exact ⟨by rwa [if_pos hu] at hsession, fun d _ => Or.inr hu, h.one⟩
    · rename_i hu
      refine ⟨by rwa [if_neg hu] at hsession, fun d hd => ?_, h.one⟩
      rcases h.holds d hd with hd' | hu'
      · rw [hl] at hd'
        exact absurd hd' (by simp)
      · exact absurd hu' hu
  | send c =>
    have hidle := h.idle_of_send hs
    obtain ⟨hc, -, rfl⟩ := step_send.mp hs
    have hself : ∀ d, (s.setRequest c .inProgress).request d = .inProgress → d = c := by
      intro d hd
      by_contra hne
      rw [setRequest_of_ne s _ hne] at hd
      exact hidle d hd
    refine ⟨hsession, fun d hd => ?_, fun d e hd he => (hself d hd).trans (hself e he).symm⟩
    obtain rfl := hself d hd
    exact Or.inl ((h.holder d).mp hc)
  | answer c =>
    obtain ⟨-, rfl⟩ := step_answer.mp hs
    have hold : ∀ d, (s.setRequest c .answered).request d = .inProgress → s.request d = .inProgress := by
      intro d hd
      by_cases hdc : d = c
      · subst hdc
        simp at hd
      · rwa [setRequest_of_ne s _ hdc] at hd
    exact ⟨hsession, fun d hd => h.holds d (hold d hd), fun d e hd he => h.one d e (hold d hd) (hold e he)⟩
  | finish c o =>
    obtain ⟨hc, rfl⟩ := step_finish.mp hs
    refine h.leave hc ?_
    cases o with
    | returned r => exact Or.inr hdoc
    | raised e => exact hdoc.imp_left (handle_raised e).mpr
  | cancel c =>
    rcases step_cancel.mp hs with ⟨-, rfl⟩ | ⟨hc, rfl⟩
    · exact ⟨hsession, h.holds, h.one⟩
    · exact h.leave hc (Or.inr hsafe)

theorem Served.serialized (h : Served s) : Serialized s := ⟨h.one, fun _ _ hs => h.idle_of_send hs⟩

/-- **In a run in which no caller is cancelled in mid-request the requests are serialized.** -/
theorem serialized_of_no_cancel
    (h : (manager ι ρ).Reaches (fun s a => AnswerFirst s a ∧ ¬ CancelsInFlight s a) .start s) : Serialized s :=
  (h.invariant (fun _ _ _ hi hok hstep => hi.step hok.1 hok.2 hstep) Served.start).serialized

end

/-- Two callers, the second of which sends its request after the answer to the first. -/
theorem serialized_two_callers : ∃ s, (manager ℕ Unit).exec (fun s a => AnswerFirst s a ∧ ¬ CancelsInFlight s a) .start
      [.arrive 0, .acquire 0, .send 0, .arrive 1, .answer 0, .finish 0 (.returned ()), .acquire 1, .send 1] = some s ∧
    s.request 0 = .answered ∧ s.request 1 = .inProgress ∧ Serialized s := by
  have hrun : ∃ s, (manager ℕ Unit).exec (fun s a => AnswerFirst s a ∧ ¬ CancelsInFlight s a) .start
      [.arrive 0, .acquire 0, .send 0, .arrive 1, .answer 0, .finish 0 (.returned ()), .acquire 1, .send 1] = some s ∧
        s.request 0 = .answered ∧ s.request 1 = .inProgress := ⟨_, rfl, rfl, rfl⟩
  obtain ⟨s, hs, h0, h1⟩ := hrun
  exact ⟨s, hs, h0, h1, serialized_of_no_cancel ((reaches_of_exec hs).mono fun s a h => by simpa using h)⟩

/-- Cancelling a caller in mid-request frees the lock with the flag down, and the next request is sent while the
server still works on the first. -/
theorem not_serialized : ¬ ∀ s : State ℕ Unit, (manager ℕ Unit).Reaches AnswerFirst .start s → Serialized s := by
  intro hall
  have hrun : ∃ s, (manager ℕ Unit).exec (fun s a => AnswerFirst s a) .start
      [.arrive 0, .acquire 0, .send 0, .arrive 1, .cancel 0, .acquire 1, .send 1] = some s ∧
        s.request 0 = .inProgress ∧ s.request 1 = .inProgress := ⟨_, rfl, rfl, rfl⟩
  obtain ⟨s, hs, h0, h1⟩ := hrun
  have hreach : (manager ℕ Unit).Reaches AnswerFirst .start s :=
    (reaches_of_exec hs).mono fun s a h => by simpa using h
  exact absurd ((hall s hreach).1 0 1 h0 h1) (by decide)

end DataAgent.Mcp
