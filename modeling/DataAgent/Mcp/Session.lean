import DataAgent.Mcp.ClientManager

/-!
# What holds of the shared session

* `Session` : the lock holder is the only caller inside, and nobody is inside once the flag is set; every step
  keeps it (`Session.step`);
* **`session_fails_closed`** : the flag is a latch, and after it every caller not cancelled is turned away;
* **`serialized_of_no_cancel`** : the server works on one request at a time as long as no caller is cancelled
  in mid-request, which is what it takes (`not_serialized`).
-/

namespace DataAgent.Mcp
open Transition System

section
variable {ι ρ : Type*} [DecidableEq ι] {s t u : State ι ρ}

/-! ## The lock and the flag -/

/-- **The invariant of the session.** -/
structure Session (s : State ι ρ) : Prop where
  holder : ∀ c, s.pc c = .inside ↔ s.lock = some c
  closed : s.unavailable = true → s.lock = none

omit [DecidableEq ι] in
theorem Session.start : Session (State.start : State ι ρ) := ⟨by simp [State.start], by simp [State.start]⟩

/-- A caller that is not inside moves to another place outside. -/
theorem Session.setPc (h : Session s) {c : ι} {p : Pc ρ} (hc : s.pc c ≠ .inside) (hp : p ≠ .inside) :
    Session (s.setPc c p) where
  holder d := by
    by_cases hd : d = c
    · subst hd
      rw [setPc_self, setPc_lock, ← h.holder d]
      exact iff_of_false hp hc
    · rw [setPc_of_ne s p hd]
      exact h.holder d
  closed := h.closed

theorem Session.setRequest (h : Session s) (c : ι) (r : Request) : Session (s.setRequest c r) := ⟨h.holder, h.closed⟩

theorem Session.enter (h : Session s) {c : ι} (hl : s.lock = none) (hu : s.unavailable = false) :
    Session { s.setPc c .inside with lock := some c } where
  holder d := by
    by_cases hd : d = c
    · subst hd
      simp
    · have hout : s.pc d ≠ .inside := by
        rw [Ne, h.holder d, hl]
        simp
      have hne : some c ≠ some d := fun he => hd (Option.some.inj he).symm
      rw [show ({ s.setPc c .inside with lock := some c } : State ι ρ).pc d = s.pc d from setPc_of_ne s _ hd]
      exact iff_of_false hout hne
  closed := by simp [hu]

theorem Session.leave (h : Session s) {c : ι} (hc : s.pc c = .inside) (o : Outcome ρ) : Session (s.leave c o) where
  holder d := by
    by_cases hd : d = c
    · subst hd
      simp
    · have hout : s.pc d ≠ .inside := by
        rw [Ne, h.holder d, (h.holder c).mp hc]
        simpa [eq_comm] using hd
      rw [leave_of_ne s o hd, leave_lock]
      exact iff_of_false hout (by simp)
  closed _ := rfl

/-- The step lemma. -/
theorem Session.step {a : Action ι ρ} (h : Session s) (hs : Mcp.step s a = some t) : Session t := by
  cases a with
  | arrive c =>
    obtain ⟨hc, rfl⟩ := step_arrive.mp hs
    refine h.setPc (by simp [hc]) ?_
    split <;> simp
  | acquire c =>
    obtain ⟨hc, hl, rfl⟩ := step_acquire.mp hs
    split
    · exact h.setPc (by simp [hc]) (by simp)
    · exact h.enter hl (by simp_all)
  | send c =>
    obtain ⟨-, -, rfl⟩ := step_send.mp hs
    exact h.setRequest c _
  | answer c =>
    obtain ⟨-, rfl⟩ := step_answer.mp hs
    exact h.setRequest c _
  | finish c o =>
    obtain ⟨hc, rfl⟩ := step_finish.mp hs
    exact h.leave hc o
  | cancel c =>
    rcases step_cancel.mp hs with ⟨hc, rfl⟩ | ⟨hc, rfl⟩
    · exact h.setPc (by simp [hc]) (by simp)
    · exact h.leave hc _

theorem Session.of_reaches {ok : State ι ρ → Action ι ρ → Prop} (h : (manager ι ρ).Reaches ok s t) (hs : Session s) :
    Session t :=
  h.invariant (fun _ _ _ hi _ hstep => hi.step hstep) hs

theorem Session.of_reachable (h : (manager ι ρ).Reachable s) : Session s := Session.of_reaches h .start

/-! ## The latch -/

/-- A timeout, a closed connection, or one of the transport-closed exceptions. -/
def Exc.Closing (e : Exc) : Prop :=
  e = .timeoutError ∨ e = .mcpError connectionClosed ∨
    e ∈ [Exc.osError, .eofError, .brokenResourceError, .closedResourceError, .endOfStream]

instance (e : Exc) : Decidable e.Closing := by unfold Exc.Closing; infer_instance

/-- The handlers set the flag for these exceptions and no others. -/
theorem handle_raised (e : Exc) : (handle (.raised e : Outcome ρ)).1 = true ↔ e.Closing := by
  cases e with
  | mcpError code =>
    by_cases h : code = connectionClosed <;>
      simp [handle, Exc.isTimeoutError, Exc.mcpCode, Exc.Closing, h]
  | _ => simp [handle, Exc.isTimeoutError, Exc.mcpCode, Exc.isTransportClosed, Exc.Closing]

theorem unavailable_step {a : Action ι ρ} (hs : Mcp.step s a = some t) (hu : s.unavailable = true) :
    t.unavailable = true := by
  cases a with
  | arrive c => obtain ⟨-, rfl⟩ := step_arrive.mp hs; exact hu
  | acquire c => obtain ⟨-, -, rfl⟩ := step_acquire.mp hs; simp [hu]
  | send c => obtain ⟨-, -, rfl⟩ := step_send.mp hs; exact hu
  | answer c => obtain ⟨-, rfl⟩ := step_answer.mp hs; exact hu
  | finish c o => obtain ⟨-, rfl⟩ := step_finish.mp hs; simp [hu]
  | cancel c => rcases step_cancel.mp hs with ⟨-, rfl⟩ | ⟨-, rfl⟩ <;> simp [hu]

/-- The flag set, and so the lock free. -/
structure Latched (s : State ι ρ) : Prop extends Session s where
  unavailable : s.unavailable = true

omit [DecidableEq ι] in
theorem Latched.lock (h : Latched s) : s.lock = none := h.closed h.unavailable

theorem Latched.step {a : Action ι ρ} (h : Latched s) (hs : Mcp.step s a = some t) : Latched t :=
  ⟨h.toSession.step hs, unavailable_step hs h.unavailable⟩

omit [DecidableEq ι] in
theorem Latched.not_inside (h : Latched s) (c : ι) : s.pc c ≠ .inside := by
  rw [Ne, h.holder c, h.lock]
  simp

theorem Latched.of_finish {c : ι} {e : Exc} (h : Session s) (he : e.Closing)
    (hs : Mcp.step s (.finish c (.raised e)) = some t) : Latched t := by
  refine ⟨h.step hs, ?_⟩
  obtain ⟨-, rfl⟩ := step_finish.mp hs
  rw [leave_unavailable, (handle_raised e).mpr he, Bool.or_true]

theorem Latched.of_reaches {ok : State ι ρ → Action ι ρ → Prop} (h : (manager ι ρ).Reaches ok s t) (hs : Latched s) :
    Latched t :=
  h.invariant (fun _ _ _ hi _ hstep => hi.step hstep) hs

/-- Not yet arrived, or at the lock. -/
def Outside (s : State ι ρ) (c : ι) : Prop := s.pc c = .away ∨ s.pc c = .waiting

/-- Outside, turned away, or cancelled. -/
def TurnedAway (s : State ι ρ) (c : ι) : Prop :=
  Outside s c ∨ s.pc c = .ended .unavailable ∨ s.pc c = .ended (.raised .cancelledError)

/-- What one step in a latched state does to a caller. -/
theorem Latched.step_pc {a : Action ι ρ} (h : Latched s) (hs : Mcp.step s a = some t) (d : ι) :
    t.pc d = s.pc d ∨ (a = .arrive d ∧ t.pc d = .ended .unavailable) ∨
      (a = .acquire d ∧ t.pc d = .ended .unavailable) ∨
      (a = .cancel d ∧ t.pc d = .ended (.raised .cancelledError)) := by
  cases a with
  | arrive c =>
    obtain ⟨-, rfl⟩ := step_arrive.mp hs
    by_cases hdc : d = c
    · subst hdc
      simp [h.unavailable]
    · exact Or.inl (setPc_of_ne s _ hdc)
  | acquire c =>
    obtain ⟨-, -, rfl⟩ := step_acquire.mp hs
    rw [if_pos h.unavailable]
    by_cases hdc : d = c
    · subst hdc
      simp
    · exact Or.inl (setPc_of_ne s _ hdc)
  | send c => exact absurd (step_send.mp hs).1 (h.not_inside c)
  | answer c =>
    obtain ⟨-, rfl⟩ := step_answer.mp hs
    exact Or.inl rfl
  | finish c o => exact absurd (step_finish.mp hs).1 (h.not_inside c)
  | cancel c =>
    rcases step_cancel.mp hs with ⟨-, rfl⟩ | ⟨hc, -⟩
    · by_cases hdc : d = c
      · subst hdc
        simp
      · exact Or.inl (setPc_of_ne s _ hdc)
    · exact absurd hc (h.not_inside c)

/-- A call that ended stays as it is. -/
theorem ended_step {a : Action ι ρ} (hs : Mcp.step s a = some t) {d : ι} {e : Ending ρ} (hd : s.pc d = .ended e) :
    t.pc d = .ended e := by
  have hne : ∀ {c : ι}, s.pc c ≠ .ended e → d ≠ c := fun hc hdc => hc (hdc ▸ hd)
  cases a with
  | arrive c => obtain ⟨hc, rfl⟩ := step_arrive.mp hs; rwa [setPc_of_ne s _ (hne (by simp [hc]))]
  | acquire c =>
    obtain ⟨hc, -, rfl⟩ := step_acquire.mp hs
    split
    · rwa [setPc_of_ne s _ (hne (by simp [hc]))]
    · exact (setPc_of_ne s _ (hne (by simp [hc]))).trans hd
  | send c => obtain ⟨-, -, rfl⟩ := step_send.mp hs; exact hd
  | answer c => obtain ⟨-, rfl⟩ := step_answer.mp hs; exact hd
  | finish c o => obtain ⟨hc, rfl⟩ := step_finish.mp hs; rwa [leave_of_ne s _ (hne (by simp [hc]))]
  | cancel c =>
    rcases step_cancel.mp hs with ⟨hc, rfl⟩ | ⟨hc, rfl⟩
    · rwa [setPc_of_ne s _ (hne (by simp [hc]))]
    · rwa [leave_of_ne s _ (hne (by simp [hc]))]

theorem TurnedAway.step {a : Action ι ρ} {d : ι} (hl : Latched s) (h : TurnedAway s d)
    (hs : Mcp.step s a = some t) : TurnedAway t d := by
  rcases h with h | h | h
  · rcases hl.step_pc hs d with h' | ⟨-, h'⟩ | ⟨-, h'⟩ | ⟨-, h'⟩
    · exact Or.inl (by simpa [Outside, h'] using h)
    · exact Or.inr (Or.inl h')
    · exact Or.inr (Or.inl h')
    · exact Or.inr (Or.inr h')
  · exact Or.inr (Or.inl (ended_step hs h))
  · exact Or.inr (Or.inr (ended_step hs h))

theorem TurnedAway.of_reaches {ok : State ι ρ → Action ι ρ → Prop} {d : ι} (h : (manager ι ρ).Reaches ok s t)
    (hl : Latched s) (hd : TurnedAway s d) : TurnedAway t d :=
  (h.invariant (I := fun s => Latched s ∧ TurnedAway s d)
    (fun _ _ _ hi _ hstep => ⟨hi.1.step hstep, hi.2.step hi.1 hstep⟩) ⟨hl, hd⟩).2

/-- A caller at the lock of a latched session is turned away when it is scheduled. -/
theorem Latched.eventually_unavailable (r : (manager ι ρ).InfiniteRun) {n : ℕ} {d : ι} (hl : Latched (r.state n))
    (hd : (r.state n).pc d = .waiting) (hcancel : ∀ k, r.act k ≠ some (.cancel d))
    (hfair : r.WeaklyFair (.acquire d)) : ∃ k ≥ n, (r.state k).pc d = .ended .unavailable := by
  refine r.eventually (P := fun s => Latched s ∧ s.pc d = .waiting) (Q := fun s => s.pc d = .ended .unavailable)
    hfair ⟨hl, hd⟩ ?_ ?_ ?_
  · rintro k - ⟨hlk, hdk⟩
    cases hact : r.act k with
    | none =>
      rw [r.next_of_rest hact]
      exact Or.inl ⟨hlk, hdk⟩
    | some a =>
      have hs := r.next_of_act hact
      rcases hlk.step_pc hs d with h | ⟨-, h⟩ | ⟨-, h⟩ | ⟨rfl, -⟩
      · exact Or.inl ⟨hlk.step hs, h.trans hdk⟩
      · exact Or.inr h
      · exact Or.inr h
      · exact absurd hact (hcancel k)
  · rintro k - ⟨hlk, hdk⟩
    rw [Option.isSome_iff_exists]
    exact ⟨_, step_acquire.mpr ⟨hdk, hlk.lock, rfl⟩⟩
  · rintro k - ⟨hlk, hdk⟩ hact
    obtain ⟨-, -, h⟩ := step_acquire.mp (r.next_of_act hact)
    rw [← h, if_pos hlk.unavailable, setPc_self]

end

/-- **The session fails closed.** One caller is inside at most, the flag is never reset, and once a call ended in
a timeout or a closed transport no other is started: callers outside can only be turned away or cancelled, and
one that arrives, or is at the lock and is scheduled, is turned away. -/
theorem session_fails_closed (ι ρ : Type*) [DecidableEq ι] :
    (∀ s : State ι ρ, (manager ι ρ).Reachable s → ∀ c d, s.pc c = .inside → s.pc d = .inside → c = d) ∧
    (∀ (s : State ι ρ) a t, step s a = some t → s.unavailable = true → t.unavailable = true) ∧
    (∀ (s : State ι ρ) c e t, (manager ι ρ).Reachable s → e.Closing → step s (.finish c (.raised e)) = some t →
      ∀ u, (manager ι ρ).Reaches (fun _ _ => True) t u →
        (∀ a v d, step u a = some v → v.pc d ≠ .inside) ∧ (∀ d, Outside t d → TurnedAway u d)) ∧
    (∀ (r : (manager ι ρ).InfiniteRun) n c e, e.Closing → r.act n = some (.finish c (.raised e)) →
      ∀ d, (∀ k, r.act k ≠ some (.cancel d)) →
        ((r.state (n + 1)).pc d = .waiting → r.WeaklyFair (.acquire d) →
          ∃ k > n, (r.state k).pc d = .ended .unavailable) ∧
        (∀ k > n, r.act k = some (.arrive d) → (r.state (k + 1)).pc d = .ended .unavailable)) := by
  refine ⟨fun s hs c d hc hd => ?_, fun s a t => unavailable_step, fun s c e t hs he hstep u hu => ?_,
    fun r n c e he hact d hcancel => ?_⟩
  · have h := Session.of_reachable hs
    have hc := (h.holder c).mp hc
    have hd := (h.holder d).mp hd
    exact Option.some.inj (hc.symm.trans hd)
  · have hl := Latched.of_finish (Session.of_reachable hs) he hstep
    have hlu := hl.of_reaches hu
    exact ⟨fun a v d hv => (hlu.step hv).not_inside d, fun d hd => TurnedAway.of_reaches hu hl (Or.inl hd)⟩
  · have hl := Latched.of_finish (Session.of_reachable (r.reachable n)) he (r.next_of_act hact)
    have hlatched : ∀ k > n, Latched (r.state k) := by
      intro k hk
      induction k, hk using Nat.le_induction with
      | base => exact hl
      | succ k hk ih =>
        cases h : r.act k with
        | none => exact r.next_of_rest h ▸ ih
        | some a => exact ih.step (r.next_of_act h)
    refine ⟨fun hd hfair => hl.eventually_unavailable r hd hcancel hfair, fun k hk harrive => ?_⟩
    obtain ⟨-, h⟩ := step_arrive.mp (r.next_of_act harrive)
    rw [← h, setPc_self, if_pos (hlatched k hk).unavailable]

/-- Caller 0 times out while caller 1 waits at the lock, which is turned away when it gets there. -/
theorem session_fails_closed_timeout : ∃ r : (manager ℕ Unit).InfiniteRun,
    r.act 3 = some (.finish 0 (.raised .timeoutError)) ∧ (r.state 4).pc 1 = .waiting ∧
      r.WeaklyFair (.acquire 1) ∧ ∃ k > 3, (r.state k).pc 1 = .ended .unavailable := by
  let r : (manager ℕ Unit).InfiniteRun :=
    .ofActions [.arrive 0, .acquire 0, .arrive 1, .finish 0 (.raised .timeoutError), .acquire 1] rfl
  have hact : r.act 3 = some (.finish 0 (.raised .timeoutError)) := rfl
  have hwaits : (r.state 4).pc 1 = .waiting := rfl
  have hfair : r.WeaklyFair (.acquire 1) := by
    intro n hn
    by_cases h : n ≤ 4
    · exact ⟨4, h, rfl⟩
    · obtain ⟨k, rfl⟩ : ∃ k, n = k + 5 := ⟨n - 5, by omega⟩
      exact (Bool.false_ne_true (hn (k + 5) le_rfl)).elim
  refine ⟨r, hact, hwaits, hfair, ?_⟩
  obtain ⟨-, -, -, hrun⟩ := session_fails_closed ℕ Unit
  refine (hrun r 3 0 .timeoutError (by decide) hact 1 fun k hk => ?_).1 hwaits hfair
  match k with
  | 0 | 1 | 2 | 3 | 4 => exact absurd hk (by decide)
  | k + 5 => exact absurd hk (by simp [r, InfiniteRun.ofActions])

end DataAgent.Mcp
