import DataAgent.Agent.Llm
import DataAgent.Mcp.Tools
import DataAgent.Python.ExitStack

/-!
# The process of the application

What startup and shutdown raise, open and do.

* `Failure`, `AdminDbCause` : the exceptions;
* `Resource`, `Activity`, `needs` : what is opened and closed, and what has to be open for what is done;
* `Step` : a part of what the process does.
-/

namespace DataAgent.Core
open Python

/-! ## Exceptions -/

/-- The raises of `AdminDBUnavailableError`. -/
inductive AdminDbCause where
  | parentMissing (parent : Text)
  | parentNotWritable (parent : Text)
  | engine
  | migration
  | revisionUnreadable
  | revisionMismatch (expected found : Option Text)
  | tablesMissing (tables : List Text)
  deriving DecidableEq, Repr

/-- The exceptions of startup and shutdown. -/
inductive Failure where
  | mcpStartup (reason : Mcp.StartupReason)
  | adminDbUnavailable (cause : AdminDbCause)
  | businessMetadataMapping (message : String)
  /-- `MCPToolExecutionError` or `MCPTransportError`. -/
  | mcpCall
  /-- `pydantic.ValidationError`. -/
  | validation
  | timeoutError
  | runtimeError
  /-- Any other `Exception`. -/
  | other
  /-- `CancelledError`, `KeyboardInterrupt` and the like. -/
  | baseException
  /-- What a task group raises in place of the exception that left it. -/
  | exceptionGroup (e : Failure)
  deriving DecidableEq, Repr

/-- The exception inside all groups. -/
def Failure.cause : Failure → Failure
  | exceptionGroup e => e.cause
  | e => e

/-- `isinstance(e, Exception)`. -/
def Failure.isException (e : Failure) : Bool := e.cause != .baseException

theorem mapError_eq_ok {α ε ε' : Type} {x : Except ε α} {f : ε → ε'} {a : α} : x.mapError f = .ok a ↔ x = .ok a := by
  cases x <;> simp [Except.mapError]

theorem mapError_eq_error {α ε ε' : Type} {x : Except ε α} {f : ε → ε'} {e : ε'} :
    x.mapError f = .error e ↔ ∃ e', x = .error e' ∧ f e' = e := by
  cases x <;> simp [Except.mapError]

/-- What is done first is kept, and what comes after it may be replaced. -/
theorem mapError_bind_congr {α β ε ε' : Type} {f : ε → ε'} {x : Except ε α} {k k' : α → Except ε β}
    (h : ∀ a, (k a).mapError f = (k' a).mapError f) : (x >>= k).mapError f = (x >>= k').mapError f := by
  cases x with
  | error e => rfl
  | ok a => exact h a

/-! ## Resources -/

inductive Resource where
  | engine | llmClient | transport | session
  deriving DecidableEq, Repr

/-- What `chat.completions.create` is called with beside the model. -/
structure ChatRequest where
  systemPrompt : Text
  userPrompt : Text
  maxCompletionTokens : Nat
  jsonMode : Bool
  deriving DecidableEq, Repr

inductive Activity where
  | log (message : String)
  /-- `command.upgrade(config, "head")`. -/
  | upgrade
  | readRevision
  | readTables
  | initializeSession
  | listTools
  | callTool (name : String)
  | setState (name : String)
  /-- A request to the provider. -/
  | send (connection : Agent.Connection) (request : ChatRequest)
  /-- The startup is complete. -/
  | serve
  deriving DecidableEq, Repr

/-- What has to be open. -/
def needs : Activity → Finset Resource
  | .upgrade | .readRevision | .readTables => {.engine}
  | .initializeSession | .listTools | .callTool _ => {.transport, .session}
  | .send _ _ => {.llmClient}
  | .serve => {.engine, .transport, .session}
  | .log _ | .setState _ => ∅

abbrev Step (α : Type) := Run (Event Resource Activity) Failure α

/-- An activity and its outcome. -/
def perform {α : Type} (a : Activity) (x : Except Failure α) : Step α := .perform (.did a) x

theorem uses_perform {α : Type} {o : Finset Resource} {a : Activity} (h : needs a ⊆ o) (x : Except Failure α) :
    Run.Only (Uses needs o) (perform a x) := Run.only_perform (p := Uses needs o) (f := Event.did a) h x

end DataAgent.Core
