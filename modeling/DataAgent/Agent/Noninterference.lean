import DataAgent.Agent.Answered
import DataAgent.Python.Alike
import DataAgent.Server.Sanitised

/-!
# Error texts do not reach the response

Two worlds that differ in the texts of exceptions and of error results only. The texts are read on two hops: the
server tells a timeout by the SQLSTATE or the text of a `pyodbc.Error`, and the client tells one by a phrase in the
error result. So the two runs may raise different exceptions on either hop, and what they have in common is less
after each: the class of the driver's exception, then that the tool raised at all, then the class of the manager's
exception.

* `SameButTexts` : the relation between the worlds;
* `execute_alike`, `parseResult_alike`, `executeReadonlyQuery_eq` : the hops;
* **`noninterference`** : the response and the flag are the same; **`serve_noninterference`** : so are all responses
  of a run.
-/

namespace DataAgent.Server
open Python

/-- The same class: a `pyodbc.Error`, or none. -/
def Fault.SameClass : Fault → Fault → Prop
  | pyodbc _, pyodbc _ => True
  | other, other => True
  | _, _ => False

/-- Drivers whose steps end the same way, up to what is in the exceptions. -/
structure QueryDriver.SameButTexts {S P : Type} (d d' : QueryDriver S P) : Prop where
  settingsValid : d.settingsValid = d'.settingsValid
  connect : Alike Fault.SameClass d.connect d'.connect
  setTimeout : Alike Fault.SameClass d.setTimeout d'.setTimeout
  cursor : Alike Fault.SameClass d.cursor d'.cursor
  close : Alike Fault.SameClass d.close d'.close
  execute : ∀ sql parameters, Alike Fault.SameClass (d.execute sql parameters) (d'.execute sql parameters)
  description : Alike Fault.SameClass d.description d'.description
  fetchmany : ∀ size, Alike Fault.SameClass (d.fetchmany size) (d'.fetchmany size)
  executionMs : d.executionMs = d'.executionMs

section
variable {U : Unicode} {S P : Type} {d d' : QueryDriver S P}

theorem query_alike (h : d.SameButTexts d') (sql : Text) (parameters : List P) (m : Nat) :
    (query d sql parameters m).Alike Fault.SameClass (query d' sql parameters m) := by
  have hfetch : (fetchmany d (m + 1)).Alike Fault.SameClass (fetchmany d' (m + 1)) := by
    unfold Run.Alike
    rw [fetchmany_result, fetchmany_result]
    exact h.fetchmany _
  refine Run.Alike.bind h.setTimeout fun _ => Run.Alike.bind h.cursor fun _ => ?_
  refine Run.Alike.bind (h.execute sql parameters) fun _ => Run.Alike.bind h.description fun _ => ?_
  exact hfetch.bind fun _ => Run.alike_pure _

/-- The two runs may tell a timeout differently: what they have in common is that they raise. -/
theorem work_alike (h : d.SameButTexts d') (sql : Text) (parameters : List P) (timeout : Int) (m : Nat) :
    (work U d sql parameters timeout m).Alike Any (work U d' sql parameters timeout m) := by
  refine Run.Alike.bind ((query_alike h sql parameters m).reraise fun _ _ _ => trivial) fun p => ?_
  have hbounded : bounded d p.1 p.2 m = bounded d' p.1 p.2 m := by
    unfold bounded
    rw [h.executionMs]
  show Run.Alike Any (pure (bounded d p.1 p.2 m)) (pure (bounded d' p.1 p.2 m))
  rw [hbounded]
  exact Run.alike_pure _

theorem getConnection_alike (h : d.SameButTexts d') :
    (getConnection d.toDriver).Alike Any (getConnection d'.toDriver) := by
  unfold getConnection
  rw [h.settingsValid]
  split
  · have hconnect := h.connect
    generalize d.connect = x at hconnect
    generalize d'.connect = y at hconnect
    cases hconnect with
    | ok u => exact .ok _
    | @error e e' he => cases e <;> cases e' <;> exact .error trivial
  · exact .error trivial

/-- **The server's function**: both runs return the same, or both raise. -/
theorem execute_alike (h : d.SameButTexts d') (sql : Text) (parameters : List P) (timeout rows : Int) :
    (execute U d sql parameters timeout rows).Alike Any (execute U d' sql parameters timeout rows) := by
  refine Run.Alike.bind (Alike.refl (fun _ => trivial) _) fun validatedSql => ?_
  refine Run.alike_bracket (getConnection_alike h) (fun _ => ?_) fun _ => work_alike h _ _ _ _
  exact Alike.mapError h.close fun _ _ _ => trivial

end

end DataAgent.Server

namespace DataAgent.Mcp
open Python

/-- Error results, whatever their content, or the same result. -/
def CallToolResult.SameButTexts {J : Type} (r r' : CallToolResult J) : Prop :=
  (r.isError = true ∧ r'.isError = true) ∨ r = r'

/-- The exceptions that one `except` clause of the service takes together. -/
def ClientError.SameClass (e e' : ClientError) : Prop := Agent.managerExc e = Agent.managerExc e'

theorem ClientError.SameClass.refl (e : ClientError) : e.SameClass e := rfl

section
variable {J M : Type}

/-- **An error result**: the client may tell a timeout differently, but raises the same class. -/
theorem parseResult_alike {r r' : CallToolResult J} (h : r.SameButTexts r') (modelValidate : J → Option M)
    (toolName : String) :
    Alike ClientError.SameClass (parseResult modelValidate toolName r) (parseResult modelValidate toolName r') := by
  rcases h with ⟨h, h'⟩ | rfl
  · rw [parseResult, parseResult, if_pos h, if_pos h']
    exact .error rfl
  · exact Alike.refl ClientError.SameClass.refl _

/-- Outcomes of `session.call_tool` with the same exception, or with results that are the same up to texts. -/
inductive Outcome.SameButTexts : Outcome (CallToolResult J) → Outcome (CallToolResult J) → Prop
  | returned {r r' : CallToolResult J} (h : r.SameButTexts r') : SameButTexts (.returned r) (.returned r')
  | raised (e : Exc) : SameButTexts (.raised e) (.raised e)

theorem readTool_alike {o o' : Outcome (CallToolResult J)} (h : o.SameButTexts o') (modelValidate : J → Option M)
    (toolName : String) (unavailable : Bool) :
    (readTool modelValidate toolName unavailable o).1 = (readTool modelValidate toolName unavailable o').1 ∧
      Alike ClientError.SameClass (readTool modelValidate toolName unavailable o).2
        (readTool modelValidate toolName unavailable o').2 := by
  cases h with
  | raised e => exact ⟨rfl, Alike.refl ClientError.SameClass.refl _⟩
  | returned h =>
    cases unavailable with
    | true => exact ⟨rfl, Alike.refl ClientError.SameClass.refl _⟩
    | false => exact ⟨rfl, parseResult_alike h modelValidate toolName⟩

end

end DataAgent.Mcp

namespace DataAgent.Agent
open Python

/-- The same response, or exceptions of one class. -/
inductive ProviderEvent.SameButTexts : ProviderEvent → ProviderEvent → Prop
  | response (choices : List (Option Text)) : SameButTexts (.response choices) (.response choices)
  | raised (e : ProviderExc) (text text' : Text) : SameButTexts (.raised e text) (.raised e text')

structure ProviderCall.SameButTexts (a a' : ProviderCall) : Prop where
  cached : a.cached = a'.cached
  settings : a.settings = a'.settings
  event : a.event.SameButTexts a'.event

/-- The same class, with the same code of an `McpError`, at the same point. -/
def SameSession : Option SessionExc → Option SessionExc → Prop
  | none, none => True
  | some e, some e' => e.cls = e'.cls
  | _, _ => False

/-- **Worlds that differ in texts only.** What FastMCP says of an exception of a tool is not even mentioned. -/
structure SameButTexts {S J C : Type} (w w' : World S J C) : Prop where
  question : w.question = w'.question
  sdk : w.sdk = w'.sdk
  intent : w.intent.SameButTexts w'.intent
  plan : w.plan.SameButTexts w'.plan
  sql : w.sql.SameButTexts w'.sql
  driver : w.driver.SameButTexts w'.driver
  success : ∀ correlationId result,
    (w.fastMcp.success correlationId result).SameButTexts (w'.fastMcp.success correlationId result)
  session : SameSession w.session w'.session

section
variable {S J C : Type} {U : Unicode} {w w' : World S J C}

theorem ProviderCall.content_eq {a a' : ProviderCall} (h : a.SameButTexts a') (sdk : Sdk) :
    a.content sdk = a'.content sdk := by
  have hreply : a.event.reply = a'.event.reply := by
    have he := h.event
    generalize a.event = x at he
    generalize a'.event = y at he
    cases he with
    | response choices => rfl
    | raised e text text' => cases e <;> rfl
  funext userPrompt
  rw [ProviderCall.content, ProviderCall.content, hreply, h.cached, h.settings]

theorem llm_eq (h : SameButTexts w w') (depth : Nat) : w.llm depth = w'.llm depth := by
  have hjson : ∀ {a a' : ProviderCall}, a.SameButTexts a' → a.json w.sdk depth = a'.json w.sdk depth := by
    intro a a' ha
    funext userPrompt
    rw [ProviderCall.json, ProviderCall.json, ProviderCall.content_eq ha]
  rw [World.llm, World.llm, ← h.sdk, hjson h.intent, hjson h.plan, ProviderCall.content_eq h.sql]

theorem toolResult_alike (h : SameButTexts w w') (correlationId : Text)
    {r r' : Except Server.Exc (Server.QueryResult S)} (hr : Alike Any r r') :
    (w.fastMcp.toolResult correlationId r).SameButTexts (w'.fastMcp.toolResult correlationId r') := by
  cases hr with
  | ok result => exact h.success correlationId result
  | error he => exact Or.inl ⟨rfl, rfl⟩

theorem callTool_alike (h : SameButTexts w w') (call : Call C) :
    (w.callTool U call).SameButTexts (w'.callTool U call) := by
  have hs := h.session
  unfold World.callTool
  rcases hw : w.session with - | e <;> rcases hw' : w'.session with - | e' <;> rw [hw, hw'] at hs
  · exact .returned (toolResult_alike h _ (Server.execute_alike h.driver _ _ _ _))
  · exact hs.elim
  · exact hs.elim
  · show Mcp.Outcome.SameButTexts (.raised e.cls) (.raised e'.cls)
    rw [show e.cls = e'.cls from hs]
    exact .raised _

/-- **The manager's call**: the same flag, and the same result or exception as far as the service can tell. -/
theorem executeReadonlyQuery_eq (h : SameButTexts w w') (modelValidate : J → Option (BoundedResult C))
    (unavailable : Bool) (call : Call C) : executeReadonlyQuery U modelValidate w unavailable call =
      executeReadonlyQuery U modelValidate w' unavailable call := by
  obtain ⟨hflag, hresult⟩ := Mcp.readTool_alike (callTool_alike (U := U) h call) modelValidate "execute_readonly_query"
    unavailable
  refine Prod.ext hflag (Alike.eq ?_)
  exact Alike.mapError hresult fun _ _ he => he

end

/-- **Error texts never reach the user.** In worlds that differ in texts only, the response to a question is the
same, and so is the flag of the manager after it. -/
theorem noninterference {S J C : Type} (U : Unicode) (P : Pydantic Json) (F : Json.FloatFormat) (depth : Nat)
    (modelValidate : J → Option (BoundedResult C)) (writes : BoundedResult C → Bool) {w w' : World S J C}
    (h : SameButTexts w w') (correlationId : Text) (unavailable : Bool) :
    ask U P F depth modelValidate writes w correlationId unavailable =
      ask U P F depth modelValidate writes w' correlationId unavailable := by
  simp only [ask, handleIn, executeReadonlyQuery_eq h, llm_eq h, h.question]

/-! ### A timeout against another failure -/

def respond (content : Text) : ProviderCall := ⟨some ⟨[], [], none⟩, none, .response [some content]⟩

/-- The messages of the server's own exceptions. -/
def toolErrorText : Server.Exc → Text
  | .timeoutError message => "Error executing tool execute_readonly_query: ".toList ++ message.toList
  | .runtimeError message => "Error executing tool execute_readonly_query: ".toList ++ message.toList
  | _ => "Error executing tool execute_readonly_query".toList

/-- A world in which the driver fails at the statement, with this exception. -/
def failing (e : Server.DbError) : World Unit Unit Unit where
  question := "low stock".toList
  sdk := .lenient
  intent := respond sampleIntent
  plan := respond samplePlan
  sql := respond Guardrail.oneJoin
  driver := { Server.lostConnection with
    close := .ok ()
    execute := fun _ _ => .error (.pyodbc e) }
  fastMcp := ⟨fun _ _ => ⟨false, [], some ()⟩, fun exc => [some (toolErrorText exc)]⟩
  session := none

def timedOut : World Unit Unit Unit := failing ⟨["HYT00".toList], "Query timeout expired".toList⟩
def refused : World Unit Unit Unit := failing ⟨["42000".toList], "SELECT permission denied on Product".toList⟩

/-- The reason that the client gives to the result of the call in a world. -/
def reasonIn (w : World Unit Unit Unit) : String :=
  match w.callTool .small (callFor [] Guardrail.oneJoin) with
  | .returned result => (Mcp.classifyToolError result).2
  | .raised _ => ""

theorem respond_json (depth : Nat) {content t : Text} (ht : encodable t = true) (hne : content ≠ []) :
    (respond content).json .lenient depth t = (Json.loads depth content).mapError loadsExc := by
  rw [ProviderCall.json_of_reply rfl]
  exact completeJson_answering depth ht hne

theorem respond_content {content t : Text} (ht : encodable t = true) (hne : content ≠ []) :
    (respond content).content .lenient t = .ok content :=
  create_answering ht hne

theorem failing_llm (e : Server.DbError) (depth : Nat) : (failing e).llm depth =
    ⟨(respond sampleIntent).json .lenient depth, (respond samplePlan).json .lenient depth,
      fun userPrompt => ((respond Guardrail.oneJoin).content .lenient userPrompt).map some⟩ := rfl

theorem vetted_failing (e : Server.DbError) :
    Vetted .small .exact .half 900 "low stock".toList ((failing e).llm 900) Guardrail.oneJoin := by
  have hne : Guardrail.oneJoin ≠ [] := by decide +kernel
  rw [failing_llm]
  refine vetted_sample ?_ fun t ht => ⟨?_, ?_⟩ <;> dsimp only [sampleCalls]
  · exact respond_json 900 (by decide) sampleIntent_ne_nil
  · exact respond_json 900 ht samplePlan_ne_nil
  · rw [respond_content ht hne, Except.map]

theorem executeReadonlyQuery_timedOut :
    (executeReadonlyQuery .small (fun _ => none) timedOut false (callFor [] Guardrail.oneJoin)).2 =
      .error .mcpToolExecution := by
  have h : (match (executeReadonlyQuery .small (fun _ => none) timedOut false (callFor [] Guardrail.oneJoin)).2 with
      | .error e => decide (e = .mcpToolExecution)
      | .ok _ => false) = true := by
    decide +kernel
  revert h
  cases (executeReadonlyQuery .small (fun _ => none) timedOut false (callFor [] Guardrail.oneJoin)).2 <;> simp

theorem handleIn_timedOut : (handleIn .small .exact .half 900 (fun _ => none) timedOut [] false).1 =
    .ok (.failed [] .mcpExecutionFailed mcpMessage) := by
  rw [handleIn_eq timedOut [] false (handleStages_of_failure (vetted_failing _) executeReadonlyQuery_timedOut),
    failureOf, failedOutcome_ok _ (messages_not_blank _ (by simp)), outcomeOf]

/-- The two hops tell the failures apart, the response does not. -/
theorem noninterference_timeout : reasonIn timedOut = "tool_timeout" ∧ reasonIn refused = "tool_error" ∧
    (ask .small .exact .half 900 (fun _ => none) (fun _ => true) timedOut [] false).1.toOption.map (·.statusCode) =
      some 500 ∧
    ask .small .exact .half 900 (fun _ => none) (fun _ => true) timedOut [] false =
      ask .small .exact .half 900 (fun _ => none) (fun _ => true) refused [] false := by
  have hrenders : encodable mcpMessage = true := messages_encodable _ (by simp)
  have hstatus : (ask .small .exact .half 900 (fun _ => none) (fun _ => true) timedOut [] false).1 =
      .ok ⟨500, .failed [] .mcpExecutionFailed mcpMessage⟩ := by
    rw [ask_result, handleIn_timedOut, Except.bind, outcomeResponse, Outcome.renders, hrenders]
    rfl
  refine ⟨by decide +kernel, by decide +kernel, by rw [hstatus]; rfl, noninterference _ _ _ _ _ _ ?_ _ _⟩
  have hcall : ∀ content, (respond content).SameButTexts (respond content) := fun content => ⟨rfl, rfl, .response _⟩
  refine ⟨rfl, rfl, hcall sampleIntent, hcall samplePlan, hcall Guardrail.oneJoin, ?_, fun _ _ => Or.inr rfl, trivial⟩
  exact ⟨rfl, .ok _, .ok _, .ok _, .ok _, fun _ _ => .error trivial, .ok _, fun _ => .ok _, rfl⟩

/-- Worlds that differ in texts only, question by question. -/
def SameRequest {S J C : Type} (x y : World S J C × Text) : Prop := SameButTexts x.1 y.1 ∧ x.2 = y.2

/-- **And so over a whole run of questions.** -/
theorem serve_noninterference {S J C : Type} (U : Unicode) (P : Pydantic Json) (F : Json.FloatFormat) (depth : Nat)
    (modelValidate : J → Option (BoundedResult C)) (writes : BoundedResult C → Bool)
    {xs ys : List (World S J C × Text)} (h : List.Forall₂ SameRequest xs ys) (unavailable : Bool) :
    serve U P F depth modelValidate writes unavailable xs = serve U P F depth modelValidate writes unavailable ys := by
  induction h generalizing unavailable with
  | nil => rfl
  | @cons x y xs ys hxy _ ih =>
    obtain ⟨w, correlationId⟩ := x
    obtain ⟨w', correlationId'⟩ := y
    obtain ⟨hw, rfl⟩ : SameButTexts w w' ∧ correlationId = correlationId' := hxy
    simp only [serve, ask, handleIn, executeReadonlyQuery_eq hw, llm_eq hw, hw.question, ih]

end DataAgent.Agent
