import DataAgent.Server.Execute
import DataAgent.Server.Inspect

/-!
# What escapes from the driver

The exceptions that leave `execute` and `_inspect_schema_sync`, for every outcome of the driver's steps.

* `firstFault` : the step that fails first; `report` : what should become of it;
* **`query_error`**, `inspection_error` : what the `except` clauses see;
* **`sanitised_iff`** : an exception that escapes is the report of the step that failed exactly if `close` raises no
  `pyodbc.Error`;
* `close_escapes` : a connection whose `close` raises one.
-/

namespace DataAgent.Server
open Python

/-! ## Steps -/

/-- The steps on a connection; a query is numbered by its place in the function. -/
inductive Stage where
  | settings | connect | setTimeout | cursor
  | execute (query : Nat)
  | description
  | fetch (query : Nat)
  | close
  deriving DecidableEq, Repr

def failure {α : Type} : Except Fault α → Option Fault
  | .ok _ => none
  | .error f => some f

/-- The first step of a list that fails. -/
def firstFault : List (Stage × Option Fault) → Option (Stage × Fault)
  | [] => none
  | (s, some f) :: _ => some (s, f)
  | (_, none) :: steps => firstFault steps

/-- What may be told of a fault: whether it is a timeout; nothing if it is no `pyodbc.Error`. -/
def Fault.timedOut (U : Unicode) : Fault → Option Bool
  | pyodbc exc => some (isTimeoutError U exc)
  | other => none

/-- The first step that fails, on a connection that is obtained or refused; an exception of `close` comes before any
other. -/
def Driver.blame (d : Driver) (body : List (Stage × Option Fault)) : Option (Stage × Fault) :=
  match d.settingsValid, d.connect with
  | false, _ => some (.settings, .other)
  | true, .error f => some (.connect, f)
  | true, .ok _ => firstFault ((.close, failure d.close) :: body)

/-- The exception for a step that failed, by the step and by whether it timed out. -/
def report (timeout failure : String) : Stage → Option Bool → Exc
  | .settings, _ => .validation
  | .connect, some _ => .connectionError connectFailure
  | _, some true => .timeoutError timeout
  | _, some false => .runtimeError failure
  | _, none => .other

/-- Whatever escapes is no `pyodbc.Error`, and is told by the step that failed and by whether it timed out. -/
def Sanitised (U : Unicode) {α : Type} (run : Step α) (blame : Option (Stage × Fault))
    (report : Stage → Option Bool → Exc) : Prop :=
  ∀ e, run.result = .error e → e.isPyodbc = false ∧ ∃ s f, blame = some (s, f) ∧ e = report s (f.timedOut U)

/-! ## The body of a `try` -/

section
variable {U : Unicode} {S P : Type}

def querySteps (d : QueryDriver S P) (sql : Text) (parameters : List P) (maximumReturnedRows : Nat) :
    List (Stage × Option Fault) :=
  [(.setTimeout, failure d.setTimeout), (.cursor, failure d.cursor), (.execute 0, failure (d.execute sql parameters)),
    (.description, failure d.description), (.fetch 0, failure (d.fetchmany (maximumReturnedRows + 1)))]

def inspectionSteps (d : SchemaDriver) : List (Stage × Option Fault) :=
  [(.setTimeout, failure d.setTimeout), (.cursor, failure d.cursor),
    (.execute 0, failure d.executeColumns), (.fetch 0, failure d.fetchColumns),
    (.execute 1, failure d.executePrimaryKeys), (.fetch 1, failure d.fetchPrimaryKeys),
    (.execute 2, failure d.executeForeignKeys), (.fetch 2, failure d.fetchForeignKeys),
    (.execute 3, failure d.executeDescriptions), (.fetch 3, failure d.fetchDescriptions)]

/-- A body ends with the first fault of its steps, if there is one. -/
def EndsBy {α : Type} (body : RawStep α) (steps : List (Stage × Option Fault)) : Prop :=
  match firstFault steps with
  | some (_, f) => body.result = .error f
  | none => ∃ a, body.result = .ok a

theorem endsBy_pure {α : Type} (a : α) : EndsBy (pure a : RawStep α) [] := ⟨a, rfl⟩

/-- One step, and the rest. -/
theorem EndsBy.bind {α β : Type} {s : Stage} {x : Except Fault α} {r : RawStep α} (hr : r.result = x)
    {k : α → RawStep β} {steps : List (Stage × Option Fault)} (hk : ∀ a, EndsBy (k a) steps) :
    EndsBy (r >>= k) ((s, failure x) :: steps) := by
  cases x with
  | error f =>
    show (r >>= k).result = .error f
    rw [Run.bind_of_error hr]
  | ok a =>
    show EndsBy (r >>= k) steps
    rw [Run.bind_of_ok hr]
    exact hk a

theorem fetchmany_result (d : QueryDriver S P) (size : Nat) : (fetchmany d size).result = d.fetchmany size := by
  unfold fetchmany
  split
  · rename_i h
    exact h.symm
  · rename_i h
    exact h.symm

theorem fetchall_result {α : Type} (x : Except Fault (List α)) : (fetchall x).result = x := by
  cases x <;> rfl

theorem query_error (d : QueryDriver S P) (sql : Text) (parameters : List P) (m : Nat) :
    EndsBy (query d sql parameters m) (querySteps d sql parameters m) := by
  refine EndsBy.bind rfl fun _ => EndsBy.bind rfl fun _ => EndsBy.bind rfl fun _ => EndsBy.bind rfl fun _ => ?_
  exact EndsBy.bind (fetchmany_result d _) fun _ => endsBy_pure _

theorem inspection_error (d : SchemaDriver) : EndsBy (catalogQueries d) (inspectionSteps d) := by
  refine EndsBy.bind rfl fun _ => EndsBy.bind rfl fun _ => ?_
  refine EndsBy.bind rfl fun _ => EndsBy.bind (fetchall_result _) fun _ => ?_
  refine EndsBy.bind rfl fun _ => EndsBy.bind (fetchall_result _) fun _ => ?_
  refine EndsBy.bind rfl fun _ => EndsBy.bind (fetchall_result _) fun _ => ?_
  exact EndsBy.bind rfl fun _ => EndsBy.bind (fetchall_result _) fun _ => endsBy_pure _

/-! ## On a connection -/

theorem report_isPyodbc (timeout failure : String) (s : Stage) (b : Option Bool) :
    (report timeout failure s b).isPyodbc = false := by
  cases s <;> rcases b with - | - | - <;> rfl

/-- The stages of a body: between the connection and its end. -/
def Stage.Inner (s : Stage) : Prop := s ≠ .settings ∧ s ≠ .connect

theorem sanitise_eq_report (timeout failure : String) {s : Stage} (hs : s.Inner) (f : Fault) :
    sanitise U timeout failure f = report timeout failure s (f.timedOut U) := by
  obtain ⟨h1, h2⟩ := hs
  cases f with
  | other => cases s <;> first | rfl | exact absurd rfl h1
  | pyodbc e =>
    rw [sanitise, Fault.timedOut]
    cases isTimeoutError U e <;> cases s <;> first | rfl | exact absurd rfl h1 | exact absurd rfl h2

theorem firstFault_mem {steps : List (Stage × Option Fault)} {s : Stage} {f : Fault}
    (h : firstFault steps = some (s, f)) : (s, some f) ∈ steps := by
  induction steps with
  | nil => simp [firstFault] at h
  | cons x steps ih =>
    obtain ⟨s', - | f'⟩ := x
    · exact List.mem_cons_of_mem _ (ih h)
    · obtain ⟨rfl, rfl⟩ : s' = s ∧ f' = f := by simpa [firstFault] using h
      exact List.mem_cons_self

/-- **What escapes is told by the step that failed exactly if `close` raises no `pyodbc.Error`.** -/
theorem withConnection_sanitised {d : Driver} {α : Type} {body : RawStep α} {steps : List (Stage × Option Fault)}
    (hbody : EndsBy body steps) (hsteps : ∀ x ∈ steps, x.1.Inner) (timeout failure : String) :
    Sanitised U (withConnection d (body.reraise (sanitise U timeout failure))) (d.blame steps)
        (report timeout failure) ↔
      (d.Connects → ∀ e, d.close ≠ .error (.pyodbc e)) := by
  by_cases hd : d.Connects
  · simp only [hd, true_implies]
    obtain ⟨h1, h2⟩ := hd
    have hblame : d.blame steps = firstFault ((.close, Server.failure d.close) :: steps) := by
      rw [Driver.blame, h1, h2]
    cases hc : d.close with
    | error f =>
      have hresult : (withConnection d (body.reraise (sanitise U timeout failure))).result = .error f.raw :=
        withConnection_result_of_close ⟨h1, h2⟩ hc
      have hfirst : d.blame steps = some (.close, f) := by rw [hblame, hc]; rfl
      cases f with
      | pyodbc e =>
        refine iff_of_false (fun h => ?_) fun h => h e rfl
        have hraw := (h _ hresult).1
        simp [Fault.raw, Exc.isPyodbc] at hraw
      | other =>
        refine iff_of_true (fun e he => ?_) fun e he => by simp at he
        obtain rfl : Fault.other.raw = e := by simpa [hresult] using he
        exact ⟨rfl, .close, .other, hfirst, rfl⟩
    | ok u =>
      have hfirst : d.blame steps = firstFault steps := by rw [hblame, hc]; rfl
      refine iff_of_true (fun e he => ?_) fun e he => by simp at he
      rw [withConnection_result ⟨h1, h2⟩ hc, Run.result_reraise] at he
      unfold EndsBy at hbody
      split at hbody
      · rename_i s f hf
        obtain rfl : sanitise U timeout failure f = e := by simpa [hbody, Except.mapError] using he
        rw [sanitise_eq_report timeout failure (hsteps _ (firstFault_mem hf))]
        exact ⟨report_isPyodbc .., s, f, hfirst.trans hf, rfl⟩
      · obtain ⟨a, ha⟩ := hbody
        simp [ha, Except.mapError] at he
  · refine iff_of_true (fun e he => ?_) fun h => absurd h hd
    unfold withConnection Run.bracket at he
    unfold Driver.blame
    cases hs : d.settingsValid with
    | false =>
      have hr : (getConnection d).result = .error .validation := by simp [getConnection, hs]
      rw [Run.bind_of_error hr] at he
      obtain rfl : Exc.validation = e := by simpa using he
      exact ⟨rfl, .settings, .other, rfl, rfl⟩
    | true =>
      cases hc : d.connect with
      | ok u => exact absurd ⟨hs, hc⟩ hd
      | error f =>
        cases f with
        | pyodbc x =>
          have hr : (getConnection d).result = .error (.connectionError connectFailure) := by
            simp [getConnection, hs, hc]
          rw [Run.bind_of_error hr] at he
          obtain rfl : Exc.connectionError connectFailure = e := by simpa using he
          exact ⟨rfl, .connect, .pyodbc x, rfl, rfl⟩
        | other =>
          have hr : (getConnection d).result = .error .other := by simp [getConnection, hs, hc]
          rw [Run.bind_of_error hr] at he
          obtain rfl : Exc.other = e := by simpa using he
          exact ⟨rfl, .connect, .other, rfl, rfl⟩

/-! ## The two functions -/

theorem EndsBy.map {α β : Type} {r : RawStep α} {steps : List (Stage × Option Fault)} (h : EndsBy r steps) (g : α → β) :
    EndsBy (r >>= fun a => pure (g a)) steps := by
  unfold EndsBy at h ⊢
  rw [Run.result_bind_pure]
  cases hf : firstFault steps with
  | some x =>
    rw [hf] at h
    rw [show r.result = .error x.2 from h]
    rfl
  | none =>
    rw [hf] at h
    obtain ⟨a, ha⟩ := h
    rw [ha]
    exact ⟨g a, rfl⟩

/-- What is computed after the connection is closed raises nothing. -/
theorem sanitised_map {α β : Type} (r : Step α) (g : α → β) (blame : Option (Stage × Fault))
    (report : Stage → Option Bool → Exc) :
    Sanitised U (r >>= fun a => pure (g a)) blame report ↔ Sanitised U r blame report := by
  unfold Sanitised
  rw [Run.result_bind_pure]
  cases r.result <;> simp [Except.map]

theorem querySteps_inner (d : QueryDriver S P) (sql : Text) (parameters : List P) (m : Nat) :
    ∀ x ∈ querySteps d sql parameters m, x.1.Inner := by
  simp [querySteps, Stage.Inner]

theorem inspectionSteps_inner (d : SchemaDriver) : ∀ x ∈ inspectionSteps d, x.1.Inner := by
  simp [inspectionSteps, Stage.Inner]

theorem execute_sanitised (d : QueryDriver S P) {sql t : Text} (parameters : List P) {timeout rows : Int}
    (h : checks U sql timeout rows = .ok t) :
    Sanitised U (execute U d sql parameters timeout rows) (d.toDriver.blame (querySteps d t parameters rows.toNat))
        (report (queryTimeoutMessage timeout) queryFailure) ↔
      (d.toDriver.Connects → ∀ e, d.close ≠ .error (.pyodbc e)) := by
  have hwork : work U d t parameters timeout rows.toNat =
      (query d t parameters rows.toNat >>= fun p => pure (bounded d p.1 p.2 rows.toNat)).reraise
        (sanitise U (queryTimeoutMessage timeout) queryFailure) :=
    Run.reraise_bind_pure _ _ fun p : List Text × List (List (Value S)) => bounded d p.1 p.2 rows.toNat
  rw [execute_of_checks h, hwork]
  exact withConnection_sanitised ((query_error d t parameters _).map _) (querySteps_inner d t parameters _) _ _

theorem inspectSchema_sanitised (d : SchemaDriver) (correlationId : Text) :
    Sanitised U (inspectSchema U d correlationId) (d.toDriver.blame (inspectionSteps d))
        (report inspectionTimeoutMessage inspectionFailure) ↔
      (d.toDriver.Connects → ∀ e, d.close ≠ .error (.pyodbc e)) := by
  rw [inspectSchema, sanitised_map]
  exact withConnection_sanitised (inspection_error d) (inspectionSteps_inner d) _ _

end

/-- **What escapes from either function is no `pyodbc.Error`, and is told by the step that failed and by whether it
timed out, exactly if a connection that was obtained closes without a `pyodbc.Error`.** -/
theorem sanitised_iff (U : Unicode) {S P : Type} (timeout rows : Int) (sql t : Text) (parameters : List P)
    (correlationId : Text) (h : checks U sql timeout rows = .ok t) :
    (∀ d : QueryDriver S P,
      Sanitised U (execute U d sql parameters timeout rows) (d.toDriver.blame (querySteps d t parameters rows.toNat))
          (report (queryTimeoutMessage timeout) queryFailure) ↔
        (d.toDriver.Connects → ∀ e, d.close ≠ .error (.pyodbc e))) ∧
    (∀ d : SchemaDriver,
      Sanitised U (inspectSchema U d correlationId) (d.toDriver.blame (inspectionSteps d))
          (report inspectionTimeoutMessage inspectionFailure) ↔
        (d.toDriver.Connects → ∀ e, d.close ≠ .error (.pyodbc e))) :=
  ⟨fun d => execute_sanitised d parameters h, fun d => inspectSchema_sanitised d correlationId⟩

/-- The statement times out, and so the connection fails to close. -/
def lostConnection : QueryDriver Unit Unit where
  settingsValid := true
  connect := .ok ()
  setTimeout := .ok ()
  cursor := .ok ()
  close := .error (.pyodbc ⟨["08S01".toList], "Communication link failure".toList⟩)
  execute _ _ := .error (.pyodbc ⟨["HYT00".toList], "Query timeout expired".toList⟩)
  description := .ok none
  fetchmany _ := .ok []
  executionMs := 0

theorem sanitised_lostConnection :
    ¬ Sanitised .small (execute .small lostConnection "SELECT 1".toList [] 10 100)
      (lostConnection.toDriver.blame (querySteps lostConnection "SELECT 1".toList [] 100))
      (report (queryTimeoutMessage 10) queryFailure) := by
  have h := (sanitised_iff .small (S := Unit) (P := Unit) 10 100 "SELECT 1".toList "SELECT 1".toList [] []
    (by decide +kernel)).1 lostConnection
  intro hs
  exact h.mp hs ⟨rfl, rfl⟩ _ rfl

/-- The exception of `close` replaces the sanitised one. -/
theorem close_escapes : ¬ ∀ (d : QueryDriver Unit Unit) (e : Exc),
    (execute .small d "SELECT 1".toList [] 10 100).result = .error e → e.isPyodbc = false := by
  intro hall
  have hc : checks .small "SELECT 1".toList 10 100 = .ok "SELECT 1".toList := by decide +kernel
  have he : (execute .small lostConnection "SELECT 1".toList [] 10 100).result =
      .error (.pyodbc ⟨["08S01".toList], "Communication link failure".toList⟩) := by
    rw [execute_of_checks hc]
    exact withConnection_result_of_close (d := lostConnection.toDriver) ⟨rfl, rfl⟩ rfl
  exact absurd (hall lostConnection _ he) (by decide)

end DataAgent.Server
