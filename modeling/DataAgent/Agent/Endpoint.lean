import DataAgent.Agent.Classified
import DataAgent.Mcp.ToolResult
import DataAgent.Server.Execute

/-!
# The whole path of a question

From the provider and the driver to the response: the server's tool, the tool result that FastMCP makes of it, the
MCP client, the pipeline and the HTTP status. The exceptions of the surroundings come with their texts.

* `World` : a question, and what the provider, the driver and the SDK do while it is answered;
* `executeReadonlyQuery` : the call of the manager in a world;
* `ask` : the response and the flag of the manager after it; `serve` : one question after another.
-/

namespace DataAgent.Agent
open Python

/-! ## The provider -/

/-- The classes of what `chat.completions.create` raises under its timeout, as the `except` clauses tell them apart. -/
inductive ProviderExc where
  | timeoutError
  | rateLimitError
  | openAIError
  /-- Any other `Exception`. -/
  | other
  deriving DecidableEq, Repr

inductive ProviderEvent where
  | response (choices : List (Option Text))
  | raised (e : ProviderExc) (text : Text)
  deriving DecidableEq, Repr

/-- The event as the handlers of `_create` see it; nothing for an exception that they do not name. -/
def ProviderEvent.reply : ProviderEvent → Option Reply
  | response choices => some (.response choices)
  | raised .timeoutError _ => some .timeoutError
  | raised .rateLimitError _ => some .rateLimitError
  | raised .openAIError _ => some .openAIError
  | raised .other _ => none

/-- One call of the client, with what the provider does. -/
structure ProviderCall where
  cached : Option Connection
  settings : Option Settings
  event : ProviderEvent

/-- `_create`. -/
def ProviderCall.content (sdk : Sdk) (a : ProviderCall) (userPrompt : Text) : Except Exc Text :=
  match a.event.reply with
  | some reply => create sdk ⟨a.cached, a.settings, reply⟩ userPrompt
  | none => (ensureClient sdk a.cached a.settings).bind fun _ => .error .other

/-- `complete_json`. -/
def ProviderCall.json (sdk : Sdk) (depth : Nat) (a : ProviderCall) (userPrompt : Text) : Except Exc Json :=
  (a.content sdk userPrompt).bind fun content => (Json.loads depth content).mapError loadsExc

/-- With a reply that the client knows it is the call modelled before. -/
theorem ProviderCall.json_of_reply {sdk : Sdk} {depth : Nat} {a : ProviderCall} {reply : Reply}
    (h : a.event.reply = some reply) (userPrompt : Text) :
    a.json sdk depth userPrompt = completeJson sdk depth ⟨a.cached, a.settings, reply⟩ userPrompt := by
  rw [ProviderCall.json, ProviderCall.content, h]
  rfl

/-! ## The server's tool -/

/-- What FastMCP makes of a tool's run: `success` of a dictionary and its correlation id, `errorContent` of an
exception. -/
structure FastMcp (S J : Type) where
  success : Text → Server.QueryResult S → Mcp.CallToolResult J
  errorContent : Server.Exc → List (Option Text)

/-- A tool that raises gives an error result. -/
def FastMcp.toolResult {S J : Type} (f : FastMcp S J) (correlationId : Text) :
    Except Server.Exc (Server.QueryResult S) → Mcp.CallToolResult J
  | .ok result => f.success correlationId result
  | .error e => ⟨true, f.errorContent e, none⟩

/-- An `Exception` of the MCP SDK: its class, with the code of an `McpError`, and its text. The cancellation of a
request is none, and has no outcome. -/
structure SessionExc where
  cls : Mcp.Exc
  text : Text
  isException : cls ≠ .cancelledError

/-- A question, and what the surroundings do while it is answered. -/
structure World (S J C : Type) where
  question : Text
  sdk : Sdk
  intent : ProviderCall
  plan : ProviderCall
  sql : ProviderCall
  driver : Server.QueryDriver S C
  fastMcp : FastMcp S J
  /-- What ends `session.call_tool` in place of the tool's result. -/
  session : Option SessionExc

/-- The three calls of the provider. -/
def World.llm {S J C : Type} (depth : Nat) (w : World S J C) : LlmCalls Json :=
  ⟨w.intent.json w.sdk depth, w.plan.json w.sdk depth,
    fun userPrompt => (w.sql.content w.sdk userPrompt).map some⟩

section
variable {S J C : Type} (U : Unicode)

/-- How `session.call_tool` ends. -/
def World.callTool (w : World S J C) (call : Call C) : Mcp.Outcome (Mcp.CallToolResult J) :=
  match w.session with
  | some e => .raised e.cls
  | none => .returned (w.fastMcp.toolResult call.correlationId (Server.execute U w.driver call.sql call.parameters
      call.queryTimeoutSeconds call.maximumReturnedRows).result)

/-! ## The client -/

/-- The exceptions of the manager as `_handle_question` tells them apart. -/
def managerExc : Mcp.ClientError → Exc
  | .toolExecution _ _ => .mcpToolExecution
  | .transport _ _ => .mcpTransport
  | .raised _ => .other

/-- `execute_readonly_query` of the manager: the flag afterwards, and what is returned or raised. -/
def executeReadonlyQuery (modelValidate : J → Option (BoundedResult C)) (w : World S J C) (unavailable : Bool)
    (call : Call C) : Bool × Except Exc (BoundedResult C) :=
  let (flag, result) := Mcp.readTool modelValidate "execute_readonly_query" unavailable (w.callTool U call)
  (flag, result.mapError managerExc)

/-! ## The response -/

inductive Status where
  | completed | clarificationRequired | rejected | failed
  deriving DecidableEq, Repr

def Outcome.status : Outcome C → Status
  | completed _ _ => .completed
  | clarificationRequired _ _ => .clarificationRequired
  | rejected _ _ _ => .rejected
  | failed _ _ _ => .failed

/-- `_STATUS_TO_HTTP_STATUS_CODE`. -/
def httpStatusCode : Status → Nat
  | .completed => 200
  | .clarificationRequired => 200
  | .rejected => 422
  | .failed => 500

structure Response (C : Type) where
  statusCode : Nat
  content : Outcome C

/-- `JSONResponse.render` writes the outcome as UTF-8; `writes` tells whether `json.dumps` takes a result, which it
does not with a `nan` in it. -/
def Outcome.renders (writes : BoundedResult C → Bool) : Outcome C → Bool
  | completed correlationId boundedResult => encodable correlationId && writes boundedResult
  | clarificationRequired correlationId message => encodable correlationId && encodable message
  | rejected correlationId _ message => encodable correlationId && encodable message
  | failed correlationId _ message => encodable correlationId && encodable message

variable (P : Pydantic Json) (F : Json.FloatFormat) (depth : Nat) (modelValidate : J → Option (BoundedResult C))
  (writes : BoundedResult C → Bool)

/-- `handle_question` in a world, from the flag of the manager: the outcome, and the flag afterwards. -/
def handleIn (w : World S J C) (correlationId : Text) (unavailable : Bool) : Except Exc (Outcome C) × Bool :=
  let manager := fun call => (executeReadonlyQuery U modelValidate w unavailable call).2
  let (outcome, calls) := handleQuestion U P F depth manager w.question correlationId (w.llm depth)
  (outcome, calls.foldl (fun flag call => (executeReadonlyQuery U modelValidate w flag call).1) unavailable)

/-- `_outcome_response`. What it raises leaves the endpoint, and is answered with a plain 500. -/
def outcomeResponse (outcome : Outcome C) : Except Exc (Response C) := do
  raiseUnless (outcome.renders writes) .other
  return ⟨httpStatusCode outcome.status, outcome⟩

/-- `ask_question`. -/
def ask (w : World S J C) (correlationId : Text) (unavailable : Bool) : Except Exc (Response C) × Bool :=
  let (outcome, flag) := handleIn U P F depth modelValidate w correlationId unavailable
  (outcome.bind (outcomeResponse writes), flag)

theorem ask_result (w : World S J C) (correlationId : Text) (unavailable : Bool) :
    (ask U P F depth modelValidate writes w correlationId unavailable).1 =
      (handleIn U P F depth modelValidate w correlationId unavailable).1.bind (outcomeResponse writes) := rfl

/-- One question after another, each in its own world. -/
def serve : Bool → List (World S J C × Text) → List (Except Exc (Response C))
  | _, [] => []
  | unavailable, (w, correlationId) :: rest =>
    let (response, flag) := ask U P F depth modelValidate writes w correlationId unavailable
    response :: serve flag rest

end

end DataAgent.Agent
