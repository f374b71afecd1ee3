import DataAgent.Python.Effects
import DataAgent.Python.Text

/-!
# The database driver

`mcp_server.db`: the exceptions of `pyodbc` and what the server makes of them, and the connection that each tool
opens for itself.

* `Driver` : how the steps on a connection end; the statements a tool runs have outcomes of their own;
* `getConnection`, `isTimeoutError`;
* `withConnection` : `connection = get_connection(); try: ... finally: connection.close()`;
  **`withConnection_effects`**, `withConnection_result` : what it does and how it ends.
-/

namespace DataAgent.Server
open Python

/-! ## Exceptions -/

/-- A `pyodbc.Error`: its `args` and its `str`. -/
structure DbError where
  args : List Text
  str : Text
  deriving DecidableEq, Repr

/-- What a step of the driver raises. -/
inductive Fault where
  | pyodbc (e : DbError)
  /-- An exception that is no `pyodbc.Error`. -/
  | other
  deriving DecidableEq, Repr

/-- The exceptions of the server. -/
inductive Exc where
  | valueError (message : String)
  /-- `ValidationError` of the settings. -/
  | validation
  | connectionError (message : String)
  | timeoutError (message : String)
  | runtimeError (message : String)
  | pyodbc (e : DbError)
  | other
  deriving DecidableEq, Repr

/-- The exception as it comes from the driver. -/
def Fault.raw : Fault → Exc
  | pyodbc e => .pyodbc e
  | other => .other

def Exc.isPyodbc : Exc → Bool
  | pyodbc _ => true
  | _ => false

def timeoutSqlstates : List Text := ["HYT00", "HYT01"].map String.toList

/-- `part in text`. -/
def contains (part : Text) : Text → Bool
  | [] => part.isEmpty
  | c :: t => part.isPrefixOf (c :: t) || contains part t

variable (U : Unicode)

def isTimeoutError (exc : DbError) : Bool :=
  let sqlstate := exc.args.head?.getD []
  let message := U.lower exc.str
  timeoutSqlstates.contains sqlstate || contains "timeout".toList message

/-- `except pyodbc.Error`: the message of a timeout, or the other one. -/
def sanitise (timeout failure : String) : Fault → Exc
  | .pyodbc exc => if isTimeoutError U exc then .timeoutError timeout else .runtimeError failure
  | .other => .other

/-! ## Connections -/

/-- What is seen of the work on a connection. -/
inductive Effect where
  | opened
  | closed
  /-- A fetch and the number of rows it brought. -/
  | fetched (count : Nat)
  deriving DecidableEq, Repr

/-- How the steps on a connection end. -/
structure Driver where
  settingsValid : Bool
  connect : Except Fault Unit
  setTimeout : Except Fault Unit
  cursor : Except Fault Unit
  close : Except Fault Unit

abbrev Step (α : Type) := Run Effect Exc α

/-- A step of the driver inside the `try`. -/
abbrev RawStep (α : Type) := Run Effect Fault α

def connectFailure : String := "Failed to connect to target database"

/-- `get_connection`. -/
def getConnection (d : Driver) : Step Unit :=
  if d.settingsValid then
    match d.connect with
    | .ok _ => .perform .opened (.ok ())
    | .error (.pyodbc _) => .raise (.connectionError connectFailure)
    | .error .other => .raise .other
  else .raise .validation

/-- `connection.close()`. -/
def close (d : Driver) : Step Unit := .perform .closed (d.close.mapError Fault.raw)

def withConnection (d : Driver) {α : Type} (use : Step α) : Step α :=
  Run.bracket (getConnection d) (fun _ => close d) fun _ => use

/-- A connection is obtained. -/
def Driver.Connects (d : Driver) : Prop := d.settingsValid = true ∧ d.connect = .ok ()

instance (d : Driver) : Decidable d.Connects := by unfold Driver.Connects; infer_instance

section
variable {d : Driver} {α : Type} {use : Step α}

theorem getConnection_of_connects (h : d.Connects) : getConnection d = .perform .opened (.ok ()) := by
  rw [getConnection, if_pos h.1, h.2]

/-- A connection that is refused: nothing is opened, and the driver's text is left out. -/
theorem getConnection_of_not (h : ¬ d.Connects) : ∃ e, getConnection d = .raise e ∧ e.isPyodbc = false := by
  unfold getConnection
  split
  · rename_i hs
    split
    · rename_i hc
      exact absurd ⟨hs, hc⟩ h
    · exact ⟨_, rfl, rfl⟩
    · exact ⟨_, rfl, rfl⟩
  · exact ⟨_, rfl, rfl⟩

/-- **The connection is opened, used and closed**, in this order and on every path. -/
theorem withConnection_effects (h : d.Connects) :
    (withConnection d use).effects = .opened :: (use.effects ++ [.closed]) := by
  have hconn := getConnection_of_connects h
  have hok : (getConnection d).result = .ok () := by rw [hconn]; rfl
  rw [withConnection, Run.bracket_effects hok, hconn]
  rfl

theorem withConnection_effects_of_not (h : ¬ d.Connects) : (withConnection d use).effects = [] := by
  obtain ⟨e, he, -⟩ := getConnection_of_not h
  have herr : (getConnection d).result = .error e := by rw [he]; rfl
  rw [withConnection, Run.bracket_effects_of_error herr, he]
  rfl

/-- The connection closes. -/
theorem withConnection_result (h : d.Connects) (hc : d.close = .ok ()) :
    (withConnection d use).result = use.result := by
  have hok : (getConnection d).result = .ok () := by rw [getConnection_of_connects h]; rfl
  exact Run.bracket_result_of_release hok (by simp [close, hc, Except.mapError])

/-- It does not: the exception of `close` is what is raised. -/
theorem withConnection_result_of_close (h : d.Connects) {f : Fault} (hc : d.close = .error f) :
    (withConnection d use).result = .error f.raw := by
  have hok : (getConnection d).result = .ok () := by rw [getConnection_of_connects h]; rfl
  exact Run.bracket_result_of_release_error hok (by simp [close, hc, Except.mapError])

end

end DataAgent.Server
