import DataAgent.Mcp.ClientManager
import DataAgent.Server.Driver

/-!
# What the client makes of a tool call

The rest of `MCPClientManager`: the call as one caller sees it, the classification of error results and the contract
of the others.

* `callTool` : `_call_tool` with no other caller at the lock; **`callTool_exec`** : it is what the shared session
  does;
* `classifyToolError`, `parseResult`; `readTool` : the whole call of a tool.
-/

namespace DataAgent.Mcp
open Python (Text)

/-! ## Results -/

/-- A `CallToolResult`; `J` is the structured content. -/
structure CallToolResult (J : Type) where
  isError : Bool
  /-- The `text` of each part of the content, where it has one. -/
  content : List (Option Text)
  structuredContent : Option J

/-- The exceptions of the manager. -/
inductive ClientError where
  /-- `MCPToolExecutionError`. -/
  | toolExecution (message reason : String)
  /-- `MCPTransportError`. -/
  | transport (message : String) (reason : TransportReason)
  /-- What no `except` clause of `_call_tool` names. -/
  | raised (e : Exc)
  deriving DecidableEq, Repr

def safeToolErrorMessage : String := "MCP tool returned an error"
def safeToolTimeoutMessage : String := "MCP tool reported a timeout"

def timeoutSafePhrases : List Text :=
  ["DB query timeout exceeded", "Schema inspection timeout exceeded"].map String.toList

section
variable {J M ρ : Type}

/-- `_extract_error_text`. -/
def extractErrorText (result : CallToolResult J) : Text :=
  let parts := (result.content.filterMap id).filter fun text => !text.isEmpty
  List.intercalate [' '] parts

/-- `_classify_tool_error`: the message and the reason. -/
def classifyToolError (result : CallToolResult J) : String × String :=
  let rawText := extractErrorText result
  if timeoutSafePhrases.any fun phrase => Server.contains phrase rawText then (safeToolTimeoutMessage, "tool_timeout")
  else (safeToolErrorMessage, "tool_error")

/-- `_parse_result`; `modelValidate` is `model_validate` of the tool's result model, which gives nothing for a
`ValidationError`. -/
def parseResult (modelValidate : J → Option M) (toolName : String) (result : CallToolResult J) : Except ClientError M :=
  if result.isError then
    let (message, reason) := classifyToolError result
    .error (.toolExecution message reason)
  else match result.structuredContent with
    | none => .error (.toolExecution (toolName ++ " result missing structuredContent") "invalid_result_contract")
    | some structured => match modelValidate structured with
      | none => .error (.toolExecution (toolName ++ " result failed contract validation") "invalid_result_contract")
      | some validated => .ok validated

/-! ## The call -/

/-- `_call_tool` for one caller: the flag afterwards, and how the call ends. -/
def callTool (unavailable : Bool) (o : Outcome ρ) : Bool × Ending ρ :=
  if unavailable then (true, .unavailable) else handle o

def Ending.result : Ending ρ → Except ClientError ρ
  | .returned result => .ok result
  | .transportError message reason => .error (.transport message reason)
  | .toolProtocolError message => .error (.toolExecution message "tool_protocol_error")
  | .raised e => .error (.raised e)

/-- A tool call and its result: the flag afterwards, and what is returned or raised. -/
def readTool (modelValidate : J → Option M) (toolName : String) (unavailable : Bool) (o : Outcome (CallToolResult J)) :
    Bool × Except ClientError M :=
  let (flag, ending) := callTool unavailable o
  (flag, ending.result.bind (parseResult modelValidate toolName))

/-- **One caller of the shared session, with the lock free**: what its actions come to is `callTool`. -/
theorem callTool_exec {ι : Type} [DecidableEq ι] (s : State ι ρ) (c : ι) (o : Outcome ρ) (hpc : s.pc c = .away)
    (hlock : s.lock = none) : ∃ as t, (manager ι ρ).exec (fun _ _ => true) s as = some t ∧
      t.pc c = .ended (callTool s.unavailable o).2 ∧ t.unavailable = (callTool s.unavailable o).1 := by
  cases hu : s.unavailable with
  | true =>
    refine ⟨[.arrive c], s.setPc c (.ended .unavailable), ?_, by simp [callTool], by simp [callTool, hu]⟩
    simp [Transition.System.exec, manager, step, hpc, hu]
  | false =>
    let inside : State ι ρ := { (s.setPc c .waiting).setPc c .inside with lock := some c }
    have h1 : step s (.arrive c) = some (s.setPc c .waiting) := by simp [step, hpc, hu]
    have h2 : step (s.setPc c .waiting) (.acquire c) = some inside := by simp [step, hlock, hu, inside]
    have h3 : step inside (.finish c o) = some (inside.leave c o) := by
      have hinside : inside.pc c = .inside := setPc_self _ _ _
      simp [step, hinside]
    refine ⟨[.arrive c, .acquire c, .finish c o], inside.leave c o, ?_, ?_, ?_⟩
    · simp [Transition.System.exec, manager, h1, h2, h3]
    · rw [leave_self]
      rfl
    · show (s.unavailable || (handle o).1) = (handle o).1
      rw [hu, Bool.false_or]

end

end DataAgent.Mcp
