import DataAgent.Agent.Endpoint
import DataAgent.Guardrail.Agreement
import DataAgent.Mcp.Contract

/-!
# What is answered over a run of questions

The questions of a run share the session: one that breaks it leaves it unavailable for those after it.

* `Breaks` : a question that breaks the session; `Completes` : one that the database answers;
* `handleIn_of_vetted`, `handleIn_of_not_vetted` : one question; `flagAfter`, `serve_append` : a run, cut in two;
* `outcomeResponse_cases` : when an outcome is not sent;
* **`serve_completed_iff`** : the questions of a run that are completed.
-/

namespace DataAgent.Agent
open Python

section
variable {S J C V : Type} {U : Unicode} {correlationId : Text}

/-- The server lets an approved statement pass as it is. -/
theorem checks_of_validate {sql s : Text} {context : MetadataContext} (h : Guardrail.validate U sql context = .ok s) :
    Server.checks U s queryTimeoutSeconds maximumRows = .ok s := by
  obtain ⟨hclean, topMatch, d, outs, p, i, hp⟩ := Guardrail.validate_ok_iff.mp h
  have hne : s ≠ [] := by
    rintro rfl
    have hselect := (Guardrail.checkSelect_ok hp.select).1
    rw [Guardrail.matchStart_select_nil] at hselect
    simp at hselect
  refine Server.checks_ok.mpr ⟨by decide, ?_⟩
  exact Guardrail.server_accepts (Guardrail.cleaned_of_clean hclean) hne hp.select

end

section
variable {S J C : Type} (U : Unicode) (P : Pydantic Json) (F : Json.FloatFormat) (depth : Nat)
  (modelValidate : J → Option (BoundedResult C)) (writes : BoundedResult C → Bool)

/-! ## Questions -/

/-- The question has a statement for the session, and the call ends in an exception that leaves it unavailable. -/
def Breaks (w : World S J C) : Prop :=
  (∃ sql, Vetted U P F depth w.question (w.llm depth) sql) ∧ ∃ e, w.session = some e ∧
    (Mcp.handle (.raised e.cls : Mcp.Outcome (Mcp.CallToolResult J))).1 = true

/-- The database runs the vetted statement, as it is, and the client takes its result as `r`. -/
def Completes (w : World S J C) (correlationId : Text) (r : BoundedResult C) : Prop :=
  ∃ sql result, Vetted U P F depth w.question (w.llm depth) sql ∧ w.session = none ∧
    (Server.withConnection w.driver.toDriver
      (Server.work U w.driver sql [] queryTimeoutSeconds maximumRows)).result = .ok result ∧
    Mcp.parseResult modelValidate "execute_readonly_query" (w.fastMcp.success correlationId result) = .ok r

/-- The flag of the manager after some questions. -/
def flagAfter (unavailable : Bool) (questions : List (World S J C × Text)) : Bool :=
  questions.foldl (fun flag q => (handleIn U P F depth modelValidate q.1 q.2 flag).2) unavailable

variable {U P F depth modelValidate writes} {question correlationId : Text}

/-! ## One question -/

/-- The messages of the service. -/
def fixedMessages : List Text :=
  [rateLimitedMessage, llmUnavailableText, intentMessage, metadataMessage, planMessage, sqlMessage, mcpMessage,
    internalMessage]

/-- A refusal or a failure has one of the messages of the service. -/
def Outcome.Fixed : Outcome C → Prop
  | rejected _ _ message => message ∈ fixedMessages
  | failed _ _ message => message ∈ fixedMessages
  | _ => True

theorem rejected_fixed {code : RejectedCode} {message : Text} {outcome : Outcome C} (hm : message ∈ fixedMessages)
    (h : rejectedOutcome correlationId code message = .ok outcome) : outcome.Fixed := by
  unfold rejectedOutcome nonBlankMessage at h
  obtain ⟨-, h⟩ := raiseUnless_bind.mp h
  rw [← Except.ok.inj h]
  exact hm

theorem failed_fixed {code : FailedCode} {message : Text} {outcome : Outcome C} (hm : message ∈ fixedMessages)
    (h : failedOutcome correlationId code message = .ok outcome) : outcome.Fixed := by
  unfold failedOutcome nonBlankMessage at h
  obtain ⟨-, h⟩ := raiseUnless_bind.mp h
  rw [← Except.ok.inj h]
  exact hm

theorem unavailable_fixed {reason : String} {outcome : Outcome C}
    (h : failedOutcome correlationId .llmUnavailable (llmUnavailableMessage reason) = .ok outcome) : outcome.Fixed := by
  refine failed_fixed ?_ h
  unfold llmUnavailableMessage
  split <;> simp [fixedMessages]

theorem ending_eq {x : Except Exc (Outcome C)} {outcome : Outcome C}
    (h : ending x = .ok (.ends outcome : Prepared C)) : x = .ok outcome := by
  cases x with
  | error e => simp [ending, Except.map] at h
  | ok o => rw [Prepared.ends.inj (Except.ok.inj h)]

theorem sqlStage_fixed {plan : PlanFields} {context : MetadataContext} {llm : LlmCalls Json} {outcome : Outcome C}
    (h : sqlStage U F depth correlationId plan context llm = .ok (.ends outcome)) : outcome.Fixed := by
  unfold sqlStage at h
  split at h
  · exact unavailable_fixed (ending_eq h)
  · simp at h
  split at h
  · exact rejected_fixed (by simp [fixedMessages]) (ending_eq h)
  · simp at h
  · simp at h

theorem planStage_fixed {intent : IntentFields} {context : MetadataContext} {llm : LlmCalls Json}
    {outcome : Outcome C} (h : planStage U P F depth correlationId intent context llm = .ok (.ends outcome)) :
    outcome.Fixed := by
  unfold planStage at h
  split at h
  · exact unavailable_fixed (ending_eq h)
  · exact rejected_fixed (by simp [fixedMessages]) (ending_eq h)
  · simp at h
  split at h
  · exact rejected_fixed (by simp [fixedMessages]) (ending_eq h)
  · simp at h
  · exact sqlStage_fixed h

theorem stages_fixed {llm : LlmCalls Json} {outcome : Outcome C}
    (h : stages U P F depth question correlationId llm = .ok (.ends outcome)) : outcome.Fixed := by
  unfold stages at h
  split at h
  · exact unavailable_fixed (ending_eq h)
  · exact rejected_fixed (by simp [fixedMessages]) (ending_eq h)
  · simp at h
  split at h
  · -- a clarification
    have hclarification := ending_eq h
    unfold clarificationRequiredOutcome nonBlankMessage at hclarification
    obtain ⟨-, hclarification⟩ := raiseUnless_bind.mp hclarification
    rw [← Except.ok.inj hclarification]
    trivial
  split at h
  · exact rejected_fixed (by simp [fixedMessages]) (ending_eq h)
  · exact planStage_fixed h

/-- An outcome has the correlation id of its question, and a message of the service unless it asks back. -/
theorem handleStages_ok {manager : Call C → Except Exc (BoundedResult C)} {llm : LlmCalls Json} {outcome : Outcome C}
    (h : (handleStages U P F depth manager question correlationId llm).1 = .ok outcome) :
    outcome.correlationId = correlationId ∧ outcome.Fixed := by
  unfold handleStages at h
  split at h
  · simp at h
  · rename_i o hs
    obtain rfl := Except.ok.inj h
    rcases stages_ok hs with ⟨sql, hp, -⟩ | ⟨o', hp, hc, -⟩
    · simp at hp
    · obtain rfl := Prepared.ends.inj hp
      exact ⟨hc, stages_fixed hs⟩
  · have hfailed := @failedOutcome_ok C correlationId .mcpExecutionFailed mcpMessage
      (messages_not_blank mcpMessage (by simp))
    dsimp only at h
    split at h
    · rw [hfailed] at h
      rw [← Except.ok.inj h]
      exact ⟨rfl, by simp [Outcome.Fixed, fixedMessages]⟩
    · rw [hfailed] at h
      rw [← Except.ok.inj h]
      exact ⟨rfl, by simp [Outcome.Fixed, fixedMessages]⟩
    · simp at h
    · rw [← Except.ok.inj h]
      exact ⟨rfl, trivial⟩

/-- What the stages come to, for the user. -/
def outcomeOf (correlationId : Text) : Except Exc (Outcome C) → Outcome C
  | .error _ => .failed correlationId .internalError internalMessage
  | .ok outcome => outcome

theorem handleIn_eq (w : World S J C) (correlationId : Text) (unavailable : Bool) {outcome : Except Exc (Outcome C)}
    {calls : List (Call C)}
    (h : handleStages U P F depth (fun call => (executeReadonlyQuery U modelValidate w unavailable call).2) w.question
      correlationId (w.llm depth) = (outcome, calls)) :
    handleIn U P F depth modelValidate w correlationId unavailable = (.ok (outcomeOf correlationId outcome),
      calls.foldl (fun flag call => (executeReadonlyQuery U modelValidate w flag call).1) unavailable) := by
  simp only [handleIn, handleQuestion_eq, h]
  cases outcome <;> rfl

theorem outcomeOf_completed {outcome : Except Exc (Outcome C)} {c c' : Text} {r : BoundedResult C} :
    outcomeOf c outcome = .completed c' r ↔ outcome = .ok (.completed c' r) := by
  cases outcome <;> simp [outcomeOf]

/-- There is always an outcome. -/
theorem handleIn_ok (w : World S J C) (correlationId : Text) (unavailable : Bool) :
    ∃ outcome, (handleIn U P F depth modelValidate w correlationId unavailable).1 = .ok outcome ∧
      outcome.correlationId = correlationId ∧ outcome.Fixed := by
  rcases h : handleStages U P F depth (fun call => (executeReadonlyQuery U modelValidate w unavailable call).2)
    w.question correlationId (w.llm depth) with ⟨outcome, calls⟩
  rw [handleIn_eq w correlationId unavailable h]
  cases outcome with
  | error e => exact ⟨_, rfl, rfl, by simp [outcomeOf, Outcome.Fixed, fixedMessages]⟩
  | ok outcome => exact ⟨outcome, rfl, handleStages_ok (congrArg Prod.fst h)⟩

/-- Without a vetted statement the session is left alone, and nothing is completed. -/
theorem handleIn_of_not_vetted {w : World S J C} (correlationId : Text) (unavailable : Bool)
    (h : ∀ sql, ¬ Vetted U P F depth w.question (w.llm depth) sql) :
    (handleIn U P F depth modelValidate w correlationId unavailable).2 = unavailable ∧
      ∀ c r, (handleIn U P F depth modelValidate w correlationId unavailable).1 ≠ .ok (.completed c r) := by
  rcases @handleStages_cases C U Json P F depth w.question correlationId
      (fun call => (executeReadonlyQuery U modelValidate w unavailable call).2) (w.llm depth) with
    ⟨e, he⟩ | ⟨outcome, ho, -, hn⟩ | ⟨sql, hv, -⟩
  · rw [handleIn_eq w correlationId unavailable he]
    exact ⟨rfl, fun c r hr => by simpa using outcomeOf_completed.mp (Except.ok.inj hr)⟩
  · rw [handleIn_eq w correlationId unavailable ho]
    refine ⟨rfl, fun c r hr => ?_⟩
    rw [Except.ok.inj (outcomeOf_completed.mp (Except.ok.inj hr))] at hn
    exact hn
  · exact absurd hv (h sql)

/-- With one the session is called, and the question is completed exactly if the call returns. -/
theorem handleIn_of_vetted {w : World S J C} {sql : Text} (hv : Vetted U P F depth w.question (w.llm depth) sql)
    (correlationId : Text) (unavailable : Bool) :
    (handleIn U P F depth modelValidate w correlationId unavailable).2 =
        (executeReadonlyQuery U modelValidate w unavailable (callFor correlationId sql)).1 ∧
      ∀ r, (handleIn U P F depth modelValidate w correlationId unavailable).1 = .ok (.completed correlationId r) ↔
        (executeReadonlyQuery U modelValidate w unavailable (callFor correlationId sql)).2 = .ok r := by
  cases hm : (executeReadonlyQuery U modelValidate w unavailable (callFor correlationId sql)).2 with
  | ok result =>
    rw [handleIn_eq w correlationId unavailable (handleStages_of_vetted hv hm)]
    refine ⟨rfl, fun r => ?_⟩
    simp [outcomeOf]
  | error e =>
    have hne : ∀ r, (failureOf correlationId e : Except Exc (Outcome C)) ≠ .ok (.completed correlationId r) := by
      intro r
      have hfailed := @failedOutcome_ok C correlationId .mcpExecutionFailed mcpMessage
        (messages_not_blank mcpMessage (by simp))
      cases e <;> simp [failureOf, hfailed]
    rw [handleIn_eq w correlationId unavailable (handleStages_of_failure hv hm)]
    refine ⟨rfl, fun r => ?_⟩
    rw [Except.ok.injEq, outcomeOf_completed]
    simp [hne]

/-! ## The call -/

/-- The flag after a call. -/
theorem executeReadonlyQuery_flag (w : World S J C) (unavailable : Bool) (call : Call C) :
    (executeReadonlyQuery U modelValidate w unavailable call).1 = true ↔ unavailable = true ∨
      ∃ e, w.session = some e ∧ (Mcp.handle (.raised e.cls : Mcp.Outcome (Mcp.CallToolResult J))).1 = true := by
  show (Mcp.callTool unavailable (w.callTool U call)).1 = true ↔ _
  unfold Mcp.callTool World.callTool
  cases unavailable with
  | true => simp
  | false => cases w.session <;> simp [Mcp.handle]

/-- The call returns exactly if the session is available and intact, and the database answers. -/
theorem executeReadonlyQuery_ok {w : World S J C} {unavailable : Bool} {call : Call C} {r : BoundedResult C} :
    (executeReadonlyQuery U modelValidate w unavailable call).2 = .ok r ↔ unavailable = false ∧ w.session = none ∧
      ∃ result, (Server.execute U w.driver call.sql call.parameters call.queryTimeoutSeconds
          call.maximumReturnedRows).result = .ok result ∧
        Mcp.parseResult modelValidate "execute_readonly_query" (w.fastMcp.success call.correlationId result) =
          .ok r := by
  have hread : (executeReadonlyQuery U modelValidate w unavailable call).2 = .ok r ↔
      (Mcp.readTool modelValidate "execute_readonly_query" unavailable (w.callTool U call)).2 = .ok r := by
    show ((Mcp.readTool modelValidate "execute_readonly_query" unavailable (w.callTool U call)).2.mapError
      managerExc) = .ok r ↔ _
    cases (Mcp.readTool modelValidate "execute_readonly_query" unavailable (w.callTool U call)).2 <;>
      simp [Except.mapError]
  rw [hread, Mcp.readTool_eq_ok]
  refine and_congr_right fun _ => ?_
  simp only [Mcp.parseResult_eq_ok]
  unfold World.callTool
  cases w.session with
  | some e => simp
  | none =>
    cases (Server.execute U w.driver call.sql call.parameters call.queryTimeoutSeconds
        call.maximumReturnedRows).result with
    | error e =>
      -- a tool that raises gives an error result
      simp [FastMcp.toolResult]
    | ok result => simp [FastMcp.toolResult]

theorem vetted_unique {llm : LlmCalls Json} {sql sql' : Text} (h : Vetted U P F depth question llm sql)
    (h' : Vetted U P F depth question llm sql') : sql = sql' := by
  have hstages : stages U P F depth question [] llm = .ok (.sql sql : Prepared Unit) := stages_sql_iff.mpr h
  rw [stages_sql_iff.mpr h'] at hstages
  exact (Prepared.sql.inj (Except.ok.inj hstages)).symm

/-- A question leaves the session unavailable if it was, or if it breaks it. -/
theorem handleIn_flag (w : World S J C) (correlationId : Text) (unavailable : Bool) :
    (handleIn U P F depth modelValidate w correlationId unavailable).2 = true ↔
      unavailable = true ∨ Breaks U P F depth w := by
  by_cases h : ∃ sql, Vetted U P F depth w.question (w.llm depth) sql
  · obtain ⟨sql, hv⟩ := h
    rw [(handleIn_of_vetted hv correlationId unavailable).1, executeReadonlyQuery_flag, Breaks,
      and_iff_right ⟨sql, hv⟩]
  · rw [(handleIn_of_not_vetted correlationId unavailable fun sql hv => h ⟨sql, hv⟩).1, Breaks]
    simp [h]

/-- A question is completed exactly if the session is available and the database answers it. -/
theorem handleIn_completed_iff {w : World S J C} {correlationId : Text} {unavailable : Bool} {r : BoundedResult C} :
    (handleIn U P F depth modelValidate w correlationId unavailable).1 = .ok (.completed correlationId r) ↔
      unavailable = false ∧ Completes U P F depth modelValidate w correlationId r := by
  have hexecute : ∀ sql, Vetted U P F depth w.question (w.llm depth) sql →
      Server.execute U w.driver sql [] queryTimeoutSeconds maximumRows =
        Server.withConnection w.driver.toDriver (Server.work U w.driver sql [] queryTimeoutSeconds maximumRows) := by
    rintro sql ⟨_, _, _, _, -, -, -, -, -, -, hsql⟩
    exact Server.execute_of_checks (checks_of_validate hsql)
  by_cases h : ∃ sql, Vetted U P F depth w.question (w.llm depth) sql
  · obtain ⟨sql, hv⟩ := h
    rw [(handleIn_of_vetted hv correlationId unavailable).2, executeReadonlyQuery_ok]
    refine and_congr_right fun _ => ?_
    constructor
    · rintro ⟨hsession, result, hresult, hparse⟩
      refine ⟨sql, result, hv, hsession, ?_, hparse⟩
      rw [← hexecute sql hv]
      exact hresult
    · rintro ⟨sql', result, hv', hsession, hresult, hparse⟩
      obtain rfl := vetted_unique hv hv'
      refine ⟨hsession, result, ?_, hparse⟩
      rw [← hexecute sql hv] at hresult
      exact hresult
  · refine iff_of_false ((handleIn_of_not_vetted correlationId unavailable fun sql hv => h ⟨sql, hv⟩).2 _ _) ?_
    rintro ⟨-, sql, _, hv, -⟩
    exact h ⟨sql, hv⟩

/-! ## A run -/

theorem serve_append (unavailable : Bool) (xs ys : List (World S J C × Text)) :
    serve U P F depth modelValidate writes unavailable (xs ++ ys) =
      serve U P F depth modelValidate writes unavailable xs ++
      serve U P F depth modelValidate writes (flagAfter U P F depth modelValidate unavailable xs) ys := by
  induction xs generalizing unavailable with
  | nil => rfl
  | cons x xs ih =>
    show _ :: serve U P F depth modelValidate writes _ (xs ++ ys) = _
    rw [ih]
    rfl

theorem length_serve (unavailable : Bool) (xs : List (World S J C × Text)) :
    (serve U P F depth modelValidate writes unavailable xs).length = xs.length := by
  induction xs generalizing unavailable with
  | nil => rfl
  | cons x xs ih => exact congrArg Nat.succ (ih _)

/-- The session is unavailable once a question has broken it, and not before. -/
theorem flagAfter_iff (unavailable : Bool) (xs : List (World S J C × Text)) :
    flagAfter U P F depth modelValidate unavailable xs = true ↔
      unavailable = true ∨ ∃ x ∈ xs, Breaks U P F depth x.1 := by
  induction xs generalizing unavailable with
  | nil => simp [flagAfter]
  | cons x xs ih =>
    show flagAfter U P F depth modelValidate (handleIn U P F depth modelValidate x.1 x.2 unavailable).2 xs = true ↔ _
    rw [ih, handleIn_flag, or_assoc]
    simp only [List.mem_cons, exists_eq_or_imp]

/-- The response to a question of a run. -/
theorem serve_get (before after : List (World S J C × Text)) (w : World S J C) (correlationId : Text) :
    (serve U P F depth modelValidate writes false (before ++ (w, correlationId) :: after))[before.length]? =
      some (ask U P F depth modelValidate writes w correlationId
        (flagAfter U P F depth modelValidate false before)).1 := by
  rw [serve_append, List.getElem?_append_right (length_serve ..).le, length_serve, Nat.sub_self]
  rfl

/-- Why a response is not sent: its outcome has an id that cannot be encoded, asks back with such a text, or has a
result that cannot be written. -/
def Unsent (writes : BoundedResult C → Bool) (outcome : Outcome C) : Prop :=
  encodable outcome.correlationId = false ∨
    (∃ message, outcome = .clarificationRequired outcome.correlationId message ∧ encodable message = false) ∨
      ∃ r, outcome = .completed outcome.correlationId r ∧ writes r = false

/-- A response carries its outcome, or there is none. -/
theorem outcomeResponse_cases {outcome : Outcome C} (hfixed : outcome.Fixed) :
    outcomeResponse writes outcome = .ok ⟨httpStatusCode outcome.status, outcome⟩ ∨
      (outcomeResponse writes outcome = .error .other ∧ Unsent writes outcome) := by
  cases hrenders : outcome.renders writes with
  | true => exact Or.inl (by simp [outcomeResponse, hrenders, raiseUnless, bind, Except.bind, pure, Except.pure])
  | false =>
    refine Or.inr ⟨by simp [outcomeResponse, hrenders, raiseUnless, bind, Except.bind], ?_⟩
    cases outcome with
    | completed c r =>
      exact (Bool.and_eq_false_iff.mp hrenders).imp_right fun h => Or.inr ⟨r, rfl, h⟩
    | clarificationRequired c message =>
      exact (Bool.and_eq_false_iff.mp hrenders).imp_right fun h => Or.inl ⟨message, rfl, h⟩
    | rejected c code message =>
      rw [Outcome.renders, messages_encodable message hfixed, Bool.and_true] at hrenders
      exact Or.inl hrenders
    | failed c code message =>
      rw [Outcome.renders, messages_encodable message hfixed, Bool.and_true] at hrenders
      exact Or.inl hrenders

end

end DataAgent.Agent
