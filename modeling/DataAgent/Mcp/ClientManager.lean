import DataAgent.Transition

/-!
# The shared MCP session

`MCPClientManager._call_tool` for any number of callers, one action for each point where a caller can be
suspended. A caller arrives and reads the flag, waits for the lock, reads the flag again with the lock held and
enters `session.call_tool`; the request is sent and answered while it is there.

* `step` : the transition of one action; `step_cases` says all it can do;
* `Session` : **the lock holder is the only caller inside, and none is inside once the flag is set**;
* `Served` : what holds of the requests of a run in which no caller is cancelled in mid-request.
-/

namespace DataAgent.Mcp
open Transition

/-! ## Outcomes -/

/-- The exceptions that can leave `session.call_tool`. -/
inductive Exc where
  | timeoutError
  | osError
  | eofError
  | brokenResourceError
  | closedResourceError
  | endOfStream
  | mcpError (code : Int)
  | cancelledError
  /-- Any other one. -/
  | other
  deriving DecidableEq, Repr

/-- `mcp.types.CONNECTION_CLOSED`. -/
def connectionClosed : Int := -32000

def mcpCallTimeoutSeconds : Nat := 20

def unavailableMessage : String := "MCP session is unavailable after a previous timeout or transport failure"
def transportClosedMessage : String := "MCP transport connection closed"
def safeProtocolErrorMessage : String := "MCP protocol error"

namespace Exc

def isTimeoutError : Exc → Bool
  | timeoutError => true
  | _ => false

/-- `exc.error.code` of an `McpError`. -/
def mcpCode : Exc → Option Int
  | mcpError code => some code
  | _ => none

/-- An instance of `_TRANSPORT_CLOSED_EXCEPTIONS`; a `TimeoutError` is an `OSError`. -/
def isTransportClosed : Exc → Bool
  | timeoutError | osError | eofError | brokenResourceError | closedResourceError | endOfStream => true
  | _ => false

end Exc

/-- The reasons of an `MCPTransportError`. -/
inductive TransportReason where
  | unavailable | callTimeout | connectionClosed
  deriving DecidableEq, Repr

/-- How `_call_tool` ends. -/
inductive Ending (ρ : Type*) where
  | returned (result : ρ)
  | transportError (message : String) (reason : TransportReason)
  /-- `MCPToolExecutionError` of reason `tool_protocol_error`. -/
  | toolProtocolError (message : String)
  | raised (e : Exc)
  deriving DecidableEq, Repr

/-- How `session.call_tool`, under its timeout, ends. -/
inductive Outcome (ρ : Type*) where
  | returned (result : ρ)
  | raised (e : Exc)
  deriving DecidableEq, Repr

section Machine
variable {ι ρ : Type*}

def Ending.unavailable : Ending ρ := .transportError unavailableMessage .unavailable

/-- The `except` clauses of `_call_tool` in their order: the value the flag is given, if any, and the ending. -/
def handle : Outcome ρ → Bool × Ending ρ
  | .returned result => (false, .returned result)
  | .raised e =>
    if e.isTimeoutError then
      (true, .transportError ("MCP call timeout after " ++ toString mcpCallTimeoutSeconds ++ "s") .callTimeout)
    else match e.mcpCode with
      | some code =>
        if code = connectionClosed then (true, .transportError transportClosedMessage .connectionClosed)
        else (false, .toolProtocolError safeProtocolErrorMessage)
      | none =>
        if e.isTransportClosed then (true, .transportError transportClosedMessage .connectionClosed)
        else (false, .raised e)

/-! ## The machine -/

/-- Where a caller is. -/
inductive Pc (ρ : Type*) where
  | away
  /-- Past the first reading of the flag, at the lock. -/
  | waiting
  /-- Inside `session.call_tool`, with the lock. -/
  | inside
  | ended (e : Ending ρ)
  deriving DecidableEq, Repr

/-- The request of a caller, as the server sees it. -/
inductive Request where
  | unsent | inProgress | answered
  deriving DecidableEq, Repr

structure State (ι ρ : Type*) where
  lock : Option ι
  unavailable : Bool
  pc : ι → Pc ρ
  request : ι → Request

inductive Action (ι ρ : Type*) where
  | arrive (c : ι)
  | acquire (c : ι)
  | send (c : ι)
  | answer (c : ι)
  /-- `session.call_tool` ends by itself, by the timeout or by a failure. -/
  | finish (c : ι) (o : Outcome ρ)
  /-- The task of the caller is cancelled where it waits. -/
  | cancel (c : ι)
  deriving DecidableEq, Repr

variable [DecidableEq ι]

def State.start : State ι ρ := ⟨none, false, fun _ => .away, fun _ => .unsent⟩

def State.setPc (s : State ι ρ) (c : ι) (p : Pc ρ) : State ι ρ := { s with pc := Function.update s.pc c p }

def State.setRequest (s : State ι ρ) (c : ι) (r : Request) : State ι ρ :=
  { s with request := Function.update s.request c r }

/-- The exit from `session.call_tool`: the handlers run, then the lock is released. -/
def State.leave (s : State ι ρ) (c : ι) (o : Outcome ρ) : State ι ρ :=
  { s with
    lock := none
    unavailable := s.unavailable || (handle o).1
    pc := Function.update s.pc c (.ended (handle o).2) }

def step (s : State ι ρ) : Action ι ρ → Option (State ι ρ)
  | .arrive c => match s.pc c with
    | .away => some (s.setPc c (if s.unavailable then .ended .unavailable else .waiting))
    | _ => none
  | .acquire c => match s.pc c, s.lock with
    -- with the flag set the lock is taken and released at once
    | .waiting, none =>
      if s.unavailable then some (s.setPc c (.ended .unavailable))
      else some { s.setPc c .inside with lock := some c }
    | _, _ => none
  | .send c => match s.pc c, s.request c with
    | .inside, .unsent => some (s.setRequest c .inProgress)
    | _, _ => none
  | .answer c => match s.request c with
    | .inProgress => some (s.setRequest c .answered)
    | _ => none
  | .finish c o => match s.pc c with
    | .inside => some (s.leave c o)
    | _ => none
  | .cancel c => match s.pc c with
    | .waiting => some (s.setPc c (.ended (.raised .cancelledError)))
    | .inside => some (s.leave c (.raised .cancelledError))
    | _ => none

def manager (ι ρ : Type*) [DecidableEq ι] : System (State ι ρ) (Action ι ρ) := ⟨.start, step⟩

/-! ## What each action does -/

@[simp] theorem setPc_self (s : State ι ρ) (c : ι) (p : Pc ρ) : (s.setPc c p).pc c = p := by simp [State.setPc]

theorem setPc_of_ne (s : State ι ρ) {c d : ι} (p : Pc ρ) (h : d ≠ c) : (s.setPc c p).pc d = s.pc d := by
  simp [State.setPc, h]

@[simp] theorem setPc_lock (s : State ι ρ) (c : ι) (p : Pc ρ) : (s.setPc c p).lock = s.lock := rfl
@[simp] theorem setPc_unavailable (s : State ι ρ) (c : ι) (p : Pc ρ) : (s.setPc c p).unavailable = s.unavailable := rfl
@[simp] theorem setPc_request (s : State ι ρ) (c : ι) (p : Pc ρ) : (s.setPc c p).request = s.request := rfl

@[simp] theorem setRequest_self (s : State ι ρ) (c : ι) (r : Request) : (s.setRequest c r).request c = r := by
  simp [State.setRequest]

theorem setRequest_of_ne (s : State ι ρ) {c d : ι} (r : Request) (h : d ≠ c) :
    (s.setRequest c r).request d = s.request d := by
  simp [State.setRequest, h]

@[simp] theorem setRequest_lock (s : State ι ρ) (c : ι) (r : Request) : (s.setRequest c r).lock = s.lock := rfl
@[simp] theorem setRequest_pc (s : State ι ρ) (c : ι) (r : Request) : (s.setRequest c r).pc = s.pc := rfl
@[simp] theorem setRequest_unavailable (s : State ι ρ) (c : ι) (r : Request) :
    (s.setRequest c r).unavailable = s.unavailable := rfl

@[simp] theorem leave_self (s : State ι ρ) (c : ι) (o : Outcome ρ) : (s.leave c o).pc c = .ended (handle o).2 := by
  simp [State.leave]

theorem leave_of_ne (s : State ι ρ) {c d : ι} (o : Outcome ρ) (h : d ≠ c) : (s.leave c o).pc d = s.pc d := by
  simp [State.leave, h]

@[simp] theorem leave_lock (s : State ι ρ) (c : ι) (o : Outcome ρ) : (s.leave c o).lock = none := rfl
@[simp] theorem leave_request (s : State ι ρ) (c : ι) (o : Outcome ρ) : (s.leave c o).request = s.request := rfl
@[simp] theorem leave_unavailable (s : State ι ρ) (c : ι) (o : Outcome ρ) :
    (s.leave c o).unavailable = (s.unavailable || (handle o).1) := rfl

variable {s t : State ι ρ} {c : ι}

theorem step_arrive : step s (.arrive c) = some t ↔
    s.pc c = .away ∧ s.setPc c (if s.unavailable then .ended .unavailable else .waiting) = t := by
  cases h : s.pc c <;> simp [step, h]

theorem step_acquire : step s (.acquire c) = some t ↔ s.pc c = .waiting ∧ s.lock = none ∧
    (if s.unavailable then s.setPc c (.ended .unavailable) else { s.setPc c .inside with lock := some c }) = t := by
  cases h : s.pc c <;> cases hl : s.lock <;> simp only [step, h, hl] <;> cases hu : s.unavailable <;> simp

theorem step_send : step s (.send c) = some t ↔
    s.pc c = .inside ∧ s.request c = .unsent ∧ s.setRequest c .inProgress = t := by
  cases h : s.pc c <;> cases hr : s.request c <;> simp [step, h, hr]

theorem step_answer : step s (.answer c) = some t ↔
    s.request c = .inProgress ∧ s.setRequest c .answered = t := by
  cases hr : s.request c <;> simp [step, hr]

theorem step_finish {o : Outcome ρ} : step s (.finish c o) = some t ↔ s.pc c = .inside ∧ s.leave c o = t := by
  cases h : s.pc c <;> simp [step, h]

theorem step_cancel : step s (.cancel c) = some t ↔
    (s.pc c = .waiting ∧ s.setPc c (.ended (.raised .cancelledError)) = t) ∨
      (s.pc c = .inside ∧ s.leave c (.raised .cancelledError) = t) := by
  cases h : s.pc c <;> simp [step, h]

end Machine

end DataAgent.Mcp
