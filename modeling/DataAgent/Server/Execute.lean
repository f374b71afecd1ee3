import DataAgent.Server.Driver
import DataAgent.Server.Executor

/-!
# Running a statement

`readonly_query_executor.execute`: the bounds, the check of the statement, and the work on the connection.

* `execute` : for every outcome of the driver;
* **`bounded_execution`** : the rows that are returned, and what is opened, fetched and closed.
-/

namespace DataAgent.Server
open Python

/-! ## Bounds -/

def minQueryTimeoutSeconds : Int := 1
def maxQueryTimeoutSeconds : Int := 15
def minMaximumReturnedRows : Int := 1
def maxMaximumReturnedRows : Int := 500

/-- The message of a bound. -/
def boundMessage (field : String) (low high : Int) : String :=
  field ++ " must be between " ++ toString low ++ " and " ++ toString high

/-- `_validate_input`: the message of the `ValueError`. -/
def validateInput (queryTimeoutSeconds maximumReturnedRows : Int) : Except String Unit := do
  require (minQueryTimeoutSeconds ≤ queryTimeoutSeconds && queryTimeoutSeconds ≤ maxQueryTimeoutSeconds)
    (boundMessage "query_timeout_seconds" minQueryTimeoutSeconds maxQueryTimeoutSeconds)
  require (minMaximumReturnedRows ≤ maximumReturnedRows && maximumReturnedRows ≤ maxMaximumReturnedRows)
    (boundMessage "maximum_returned_rows" minMaximumReturnedRows maxMaximumReturnedRows)

theorem validateInput_ok {timeout rows : Int} :
    validateInput timeout rows = .ok () ↔ (1 ≤ timeout ∧ timeout ≤ 15) ∧ 1 ≤ rows ∧ rows ≤ 500 := by
  unfold validateInput require
  rw [raiseUnless_bind, raiseUnless_eq_ok, Bool.and_eq_true, Bool.and_eq_true, decide_eq_true_eq, decide_eq_true_eq,
    decide_eq_true_eq, decide_eq_true_eq]
  exact Iff.rfl

/-! ## Values -/

/-- A value of a row, as far as the serialisation tells them apart; `S` is what is passed on as it is. -/
inductive Value (S : Type) where
  | null
  | bytes (b : List UInt8)
  /-- A `Decimal`, by its `str`. -/
  | decimal (str : Text)
  /-- A value with `isoformat`. -/
  | temporal (isoformat : Text)
  | plain (s : S)

inductive Cell (S : Type) where
  | null
  | text (t : Text)
  | plain (s : S)
  deriving DecidableEq, Repr

/-- `bytes.hex`. -/
def hex (b : List UInt8) : Text := b.flatMap fun x => [Nat.digitChar (x.toNat / 16), Nat.digitChar (x.toNat % 16)]

section
variable {S : Type}

def serializeValue : Value S → Cell S
  | .null => .null
  | .bytes b => .text (hex b)
  | .decimal str => .text str
  | .temporal isoformat => .text isoformat
  | .plain s => .plain s

/-! ## The driver -/

/-- How the steps of a query end; `P` are the parameters of the statement. -/
structure QueryDriver (S P : Type) extends Driver where
  execute : Text → List P → Except Fault Unit
  /-- The names of `cursor.description`, which may be `None`. -/
  description : Except Fault (Option (List Text))
  fetchmany : Nat → Except Fault (List (List (Value S)))
  /-- What the clock has measured. -/
  executionMs : Int

structure QueryResult (S : Type) where
  columns : List Text
  rows : List (List (Cell S))
  rowCount : Nat
  truncated : Bool
  executionMs : Int

variable {P : Type}

/-- A step that leaves no trace. -/
def silent {α : Type} (x : Except Fault α) : RawStep α := .lift x

/-- `cursor.fetchmany(size)`. -/
def fetchmany (d : QueryDriver S P) (size : Nat) : RawStep (List (List (Value S))) :=
  match d.fetchmany size with
  | .ok rows => .perform (.fetched rows.length) (.ok rows)
  | .error f => .raise f

/-- The statements in the inner `try`. -/
def query (d : QueryDriver S P) (sql : Text) (parameters : List P) (maximumReturnedRows : Nat) :
    RawStep (List Text × List (List (Value S))) := do
  silent d.setTimeout
  silent d.cursor
  silent (d.execute sql parameters)
  let description ← silent d.description
  let rowsRaw ← fetchmany d (maximumReturnedRows + 1)
  return (description.getD [], rowsRaw)

/-- The rows that are returned, and whether there were more. -/
def bounded (d : QueryDriver S P) (columns : List Text) (rowsRaw : List (List (Value S))) (maximumReturnedRows : Nat) :
    QueryResult S :=
  let truncated := decide (maximumReturnedRows < rowsRaw.length)
  let limitedRows := rowsRaw.take maximumReturnedRows
  let rows := limitedRows.map fun row => row.map serializeValue
  ⟨columns, rows, rows.length, truncated, d.executionMs⟩

def queryTimeoutMessage (queryTimeoutSeconds : Int) : String :=
  "DB query timeout exceeded (" ++ toString queryTimeoutSeconds ++ "s)"

def queryFailure : String := "DB query execution failed"

variable (U : Unicode)

/-- The checks before the connection: the statement that is sent. -/
def checks (sql : Text) (queryTimeoutSeconds maximumReturnedRows : Int) : Except Exc Text :=
  match validateInput queryTimeoutSeconds maximumReturnedRows with
  | .error message => .error (.valueError message)
  | .ok _ => (validateSql U sql).mapError .valueError

/-- What is done on the connection. -/
def work (d : QueryDriver S P) (validatedSql : Text) (parameters : List P) (queryTimeoutSeconds : Int)
    (maximumReturnedRows : Nat) : Step (QueryResult S) := do
  let (columns, rowsRaw) ← (query d validatedSql parameters maximumReturnedRows).reraise
    (sanitise U (queryTimeoutMessage queryTimeoutSeconds) queryFailure)
  return bounded d columns rowsRaw maximumReturnedRows

def execute (d : QueryDriver S P) (sql : Text) (parameters : List P) (queryTimeoutSeconds maximumReturnedRows : Int) :
    Step (QueryResult S) := do
  let validatedSql ← .lift (checks U sql queryTimeoutSeconds maximumReturnedRows)
  withConnection d.toDriver (work U d validatedSql parameters queryTimeoutSeconds maximumReturnedRows.toNat)

/-! ## The run -/

variable {U}

theorem checks_ok {sql t : Text} {timeout rows : Int} : checks U sql timeout rows = .ok t ↔
    ((1 ≤ timeout ∧ timeout ≤ 15) ∧ 1 ≤ rows ∧ rows ≤ 500) ∧ validateSql U sql = .ok t := by
  rw [← validateInput_ok, checks]
  cases validateInput timeout rows with
  | error message => simp
  | ok u => cases validateSql U sql <;> simp [Except.mapError]

variable {d : QueryDriver S P} {sql t : Text} {parameters : List P} {timeout rows : Int}

theorem execute_of_checks (h : checks U sql timeout rows = .ok t) : execute U d sql parameters timeout rows =
    withConnection d.toDriver (work U d t parameters timeout rows.toNat) := by
  rw [execute, Run.bind_of_ok (a := t) (by simpa using h)]
  rfl

theorem execute_of_not_checks {e : Exc} (h : checks U sql timeout rows = .error e) :
    execute U d sql parameters timeout rows = .raise e := by
  rw [execute, Run.bind_of_error (e := e) (by simpa using h)]
  rfl

/-- The work on a connection opens and closes nothing. -/
theorem work_only (m : Nat) : (work U d t parameters timeout m).Only fun f => f ≠ .opened ∧ f ≠ .closed := by
  have hsilent : ∀ {α : Type} (x : Except Fault α), (silent x).Only fun f => f ≠ .opened ∧ f ≠ .closed :=
    fun x => Run.only_lift x
  have hfetch : (fetchmany d (m + 1)).Only fun f => f ≠ .opened ∧ f ≠ .closed := by
    unfold fetchmany
    split
    · exact Run.only_perform (by simp) _
    · exact Run.only_lift _
  refine Run.Only.bind (Run.Only.reraise ?_ _) fun _ => Run.only_pure _
  refine Run.Only.bind (hsilent _) fun _ => Run.Only.bind (hsilent _) fun _ => Run.Only.bind (hsilent _) fun _ => ?_
  exact Run.Only.bind (hsilent _) fun _ => Run.Only.bind hfetch fun _ => Run.only_pure _

theorem count_eq_zero_of_only {α : Type} {r : Step α} (h : r.Only fun f => f ≠ .opened ∧ f ≠ .closed) :
    r.effects.count .opened = 0 ∧ r.effects.count .closed = 0 := by
  rw [List.count_eq_zero, List.count_eq_zero]
  exact ⟨fun hm => (h _ hm).1 rfl, fun hm => (h _ hm).2 rfl⟩

/-- A connection is opened at most once, and closed as often as it is opened. -/
theorem execute_count : ((execute U d sql parameters timeout rows).effects.count .opened ≤ 1) ∧
    (execute U d sql parameters timeout rows).effects.count .closed =
      (execute U d sql parameters timeout rows).effects.count .opened := by
  cases hc : checks U sql timeout rows with
  | error e =>
    rw [execute_of_not_checks hc]
    simp
  | ok t =>
    rw [execute_of_checks hc]
    by_cases hd : d.toDriver.Connects
    · have hwork : (work U d t parameters timeout rows.toNat).Only fun f => f ≠ .opened ∧ f ≠ .closed := work_only _
      obtain ⟨h1, h2⟩ := count_eq_zero_of_only hwork
      rw [withConnection_effects hd]
      simp [h1, h2]
    · rw [withConnection_effects_of_not hd]
      simp

/-! ## A result set -/

/-- The driver lets every step succeed and has a result set of these rows. -/
structure QueryDriver.Returns (d : QueryDriver S P) (t : Text) (parameters : List P) (columns : Option (List Text))
    (rows : List (List (Value S))) : Prop where
  connects : d.toDriver.Connects
  closes : d.close = .ok ()
  setTimeout : d.setTimeout = .ok ()
  cursor : d.cursor = .ok ()
  execute : d.execute t parameters = .ok ()
  description : d.description = .ok columns
  /-- `fetchmany` returns the first rows, in order. -/
  fetchmany : ∀ size, d.fetchmany size = .ok (rows.take size)

theorem query_of_returns {columns : Option (List Text)} {all : List (List (Value S))}
    (h : d.Returns t parameters columns all) (m : Nat) : query d t parameters m =
      ⟨[.fetched (all.take (m + 1)).length], .ok (columns.getD [], all.take (m + 1))⟩ := by
  have hfetch : Server.fetchmany d (m + 1) =
      .perform (.fetched (all.take (m + 1)).length) (.ok (all.take (m + 1))) := by
    rw [Server.fetchmany, h.fetchmany]
  rw [query, h.setTimeout, h.cursor, h.execute, h.description, hfetch]
  rfl

theorem work_of_returns {columns : Option (List Text)} {all : List (List (Value S))}
    (h : d.Returns t parameters columns all) (m : Nat) : work U d t parameters timeout m =
      ⟨[.fetched (all.take (m + 1)).length], .ok (bounded d (columns.getD []) (all.take (m + 1)) m)⟩ := by
  rw [work, query_of_returns h]
  rfl

theorem execute_of_returns {columns : Option (List Text)} {all : List (List (Value S))}
    (hc : checks U sql timeout rows = .ok t) (h : d.Returns t parameters columns all) :
    (execute U d sql parameters timeout rows).result =
        .ok (bounded d (columns.getD []) (all.take (rows.toNat + 1)) rows.toNat) ∧
      (execute U d sql parameters timeout rows).effects =
        [.opened, .fetched (all.take (rows.toNat + 1)).length, .closed] := by
  rw [execute_of_checks hc, withConnection_result h.connects h.closes, withConnection_effects h.connects,
    work_of_returns h]
  exact ⟨rfl, rfl⟩

/-- The rows that the fetches brought. -/
def fetchedRows (effects : List Effect) : Nat :=
  (effects.map fun f => match f with
    | .fetched count => count
    | _ => 0).sum

/-- **A run is bounded.** With every step of the driver successful, the rows are the first ones of the result set,
serialised and as wide as they were, and `truncated` says whether there are more; and in every run nothing is opened
when a check fails, and what is opened is closed once. -/
theorem bounded_execution (U : Unicode) (d : QueryDriver S P) (sql : Text) (parameters : List P) (timeout rows : Int) :
    (∀ t columns all, validateSql U sql = .ok t → 1 ≤ timeout → timeout ≤ 15 → 1 ≤ rows → rows ≤ 500 →
      d.Returns t parameters columns all →
      fetchedRows (execute U d sql parameters timeout rows).effects ≤ rows + 1 ∧
      ∃ result, (execute U d sql parameters timeout rows).result = .ok result ∧
        result.rows = (all.take rows.toNat).map (fun row => row.map serializeValue) ∧
        result.rows.map List.length = (all.take rows.toNat).map List.length ∧
        result.rowCount = result.rows.length ∧ result.rowCount ≤ rows ∧
        (result.truncated = true ↔ rows < all.length)) ∧
    (¬ ((1 ≤ timeout ∧ timeout ≤ 15) ∧ 1 ≤ rows ∧ rows ≤ 500) ∨ (∀ t, validateSql U sql ≠ .ok t) →
      .opened ∉ (execute U d sql parameters timeout rows).effects) ∧
    (execute U d sql parameters timeout rows).effects.count .opened ≤ 1 ∧
    (execute U d sql parameters timeout rows).effects.count .closed =
      (execute U d sql parameters timeout rows).effects.count .opened := by
  refine ⟨fun t columns all hsql h1 h2 h3 h4 hd => ?_, fun hbad => ?_, execute_count.1, execute_count.2⟩
  · obtain ⟨hresult, heffects⟩ := execute_of_returns (checks_ok.mpr ⟨⟨⟨h1, h2⟩, h3, h4⟩, hsql⟩) hd
    have hrows : (bounded d (columns.getD []) (all.take (rows.toNat + 1)) rows.toNat).rows =
        (all.take rows.toNat).map fun row => row.map serializeValue := by
      show ((all.take (rows.toNat + 1)).take rows.toNat).map _ = _
      rw [List.take_take, Nat.min_eq_left (by omega)]
    refine ⟨?_, _, hresult, hrows, ?_, rfl, ?_, ?_⟩
    · rw [heffects]
      simp only [fetchedRows, List.map_cons, List.map_nil, List.sum_cons, List.sum_nil, List.length_take]
      omega
    · rw [hrows, List.map_map]
      exact List.map_congr_left fun row _ => List.length_map ..
    · show ((bounded d (columns.getD []) (all.take (rows.toNat + 1)) rows.toNat).rows.length : Int) ≤ rows
      rw [hrows, List.length_map, List.length_take]
      omega
    · show decide (rows.toNat < (all.take (rows.toNat + 1)).length) = true ↔ _
      rw [decide_eq_true_eq, List.length_take]
      omega
  · have hnone : ∀ t, checks U sql timeout rows ≠ .ok t := by
      intro t ht
      obtain ⟨hbounds, hsql⟩ := checks_ok.mp ht
      exact hbad.elim (fun h => h hbounds) fun h => h t hsql
    cases hc : checks U sql timeout rows with
    | error e =>
      rw [execute_of_not_checks hc]
      simp
    | ok t => exact absurd hc (hnone t)

end

/-- A result set of three rows. -/
def threeRows : QueryDriver Int Unit where
  settingsValid := true
  connect := .ok ()
  setTimeout := .ok ()
  cursor := .ok ()
  close := .ok ()
  execute _ _ := .ok ()
  description := .ok (some ["ProductID".toList])
  fetchmany size := .ok ([[.plain 1], [.plain 2], [.null]].take size)
  executionMs := 7

theorem bounded_execution_two : ∃ result, (execute .small threeRows "SELECT 1".toList [] 10 2).result = .ok result ∧
    result.rows = [[.plain 1], [.plain 2]] ∧ result.truncated = true := by
  have hd : threeRows.Returns "SELECT 1".toList [] (some ["ProductID".toList]) [[.plain 1], [.plain 2], [.null]] :=
    ⟨⟨rfl, rfl⟩, rfl, rfl, rfl, rfl, rfl, fun _ => rfl⟩
  obtain ⟨-, result, hresult, hrows, -, -, -, htruncated⟩ :=
    (bounded_execution .small threeRows "SELECT 1".toList [] 10 2).1 "SELECT 1".toList _ _ (by decide +kernel)
      (by decide) (by decide) (by decide) (by decide) hd
  exact ⟨result, hresult, hrows, htruncated.mpr (by decide)⟩

end DataAgent.Server
