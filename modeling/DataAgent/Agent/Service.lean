import DataAgent.Agent.Decode
import DataAgent.Agent.Prompt
import DataAgent.Guardrail.Validate

/-!
# The question pipeline

`agent_service.handle_question`: intent, metadata, plan, SQL, execution, with the exceptions of each stage turned
into an outcome. A run gives what the function returns or raises, and the calls it made of the MCP manager.

* `stages` : the stages before the execution (`Prepared`);
* `handleQuestion` : the whole, which never raises (**`handleQuestion_safe`**).
-/

namespace DataAgent.Agent
open Python

/-! ## Outcomes -/

inductive RejectedCode where
  | invalidRequest | intentContractViolation | metadataNotFound | queryPlanInvalid | sqlRejected
  deriving DecidableEq, Repr

inductive FailedCode where
  | llmUnavailable | mcpExecutionFailed | internalError
  deriving DecidableEq, Repr

/-- A row set with cells of type `C`: what the manager returns and what the outcome carries. -/
structure BoundedResult (C : Type) where
  columns : List Text
  rows : List (List C)
  rowCount : Int
  truncated : Bool
  executionMs : Int

inductive Outcome (C : Type) where
  | completed (correlationId : Text) (boundedResult : BoundedResult C)
  | clarificationRequired (correlationId message : Text)
  | rejected (correlationId : Text) (code : RejectedCode) (message : Text)
  | failed (correlationId : Text) (code : FailedCode) (message : Text)

section
variable {C : Type}

namespace Outcome

def correlationId : Outcome C → Text
  | completed c _ => c
  | clarificationRequired c _ => c
  | rejected c _ _ => c
  | failed c _ _ => c

end Outcome

/-- `_non_blank_message`. -/
def nonBlankMessage (message : Text) : Except Exc Unit := raiseUnless (!isBlank message) .validation

def clarificationRequiredOutcome (correlationId message : Text) : Except Exc (Outcome C) := do
  nonBlankMessage message
  return .clarificationRequired correlationId message

def rejectedOutcome (correlationId : Text) (code : RejectedCode) (message : Text) : Except Exc (Outcome C) := do
  nonBlankMessage message
  return .rejected correlationId code message

def failedOutcome (correlationId : Text) (code : FailedCode) (message : Text) : Except Exc (Outcome C) := do
  nonBlankMessage message
  return .failed correlationId code message

/-! ## Messages -/

def rateLimitedMessage : Text :=
  "LLM 사용 한도를 초과했거나 일시적으로 요청이 제한되었습니다. 잠시 후 다시 시도해 주세요.".toList

def llmUnavailableText : Text := "설정된 LLM Provider를 사용할 수 없습니다.".toList

/-- `_llm_unavailable_message`. -/
def llmUnavailableMessage (reason : String) : Text :=
  if reason = "rate_limited" then rateLimitedMessage else llmUnavailableText

def intentMessage : Text := "자연어 질문을 구조화된 형태로 이해하지 못했습니다.".toList
def clarificationMessage : Text := "질문을 더 구체적으로 알려주세요.".toList
def metadataMessage : Text := "이 질문에 필요한 정보를 현재 지원 범위에서 찾을 수 없습니다.".toList
def planMessage : Text := "조회 계획을 검증하지 못했습니다.".toList
def sqlMessage : Text := "생성된 조회문이 실행 제한을 통과하지 못했습니다.".toList
def mcpMessage : Text := "조회를 실행하지 못했습니다.".toList
def internalMessage : Text := "예상하지 못한 내부 오류가 발생했습니다.".toList

/-! ## The stages -/

/-- The text between the lines of a text, as `str.split` cuts it. -/
def splitLines (t : Text) : List Text := t.splitOn '\n'

/-- `text.startswith("```")`. -/
def startsFence (t : Text) : Bool := List.isPrefixOf (List.replicate 3 '\x60') t

/-- `_extract_sql`: the text without the fence of a code block. -/
def extractSql (text : Text) : Text :=
  let stripped := strip text
  if startsFence stripped then
    let lines := (splitLines stripped).drop 1
    let lines := if lines.getLast?.any fun l => startsFence (strip l) then lines.dropLast else lines
    strip (List.intercalate ['\n'] lines)
  else stripped

/-- What the three calls of the model's client return or raise, for the user prompt; a text call may return what is no
text. -/
structure LlmCalls (V : Type) where
  intent : Text → Except Exc V
  plan : Text → Except Exc V
  sql : Text → Except Exc (Option Text)

/-- A call with the prompt that was written; `json.dumps` raises a `ValueError` or a `RecursionError`. -/
def withPrompt {α : Type} (userPrompt : Option Text) (call : Text → Except Exc α) : Except Exc α :=
  match userPrompt with
  | none => .error .other
  | some userPrompt => call userPrompt

/-- `generate_sql`, from the outcome of the call. -/
def generateSql (call : Except Exc (Option Text)) : Except Exc Text :=
  match call with
  | .error e => .error e
  | .ok none => .error .other
  | .ok (some text) => .ok (extractSql text)

def queryTimeoutSeconds : Nat := 10
def maximumRows : Nat := 100

/-- The arguments of `execute_readonly_query`. -/
structure Call (C : Type) where
  sql : Text
  parameters : List C
  correlationId : Text
  queryTimeoutSeconds : Nat
  maximumReturnedRows : Nat

/-- The arguments of the call for a statement. -/
def callFor (correlationId sql : Text) : Call C := ⟨sql, [], correlationId, queryTimeoutSeconds, maximumRows⟩

@[simp] theorem callFor_sql (correlationId sql : Text) : (callFor correlationId sql : Call C).sql = sql := rfl

/-- What the stages before the execution come to. -/
inductive Prepared (C : Type) where
  | sql (sql : Text)
  | ends (outcome : Outcome C)

variable (U : Unicode) {V : Type} (P : Pydantic V) (F : Json.FloatFormat) (depth : Nat)

/-- An outcome that ends the pipeline before the execution. -/
def ending (outcome : Except Exc (Outcome C)) : Except Exc (Prepared C) := outcome.map .ends

/-- The statement is asked for and held against the guardrail. -/
def sqlStage (correlationId : Text) (plan : PlanFields) (context : MetadataContext) (llm : LlmCalls V) :
    Except Exc (Prepared C) :=
  match generateSql (withPrompt (sqlPrompt F depth plan context) llm.sql) with
  | .error (.llmUnavailable _ reason) =>
    ending (failedOutcome correlationId .llmUnavailable (llmUnavailableMessage reason))
  | .error e => .error e
  | .ok sql =>
    match Guardrail.validate U sql context with
    | .error (.sqlRejected _) => ending (rejectedOutcome correlationId .sqlRejected sqlMessage)
    | .error _ => .error .other
    | .ok sql => .ok (.sql sql)

/-- The plan is asked for and validated. -/
def planStage (correlationId : Text) (intent : IntentFields) (context : MetadataContext) (llm : LlmCalls V) :
    Except Exc (Prepared C) :=
  match generateQueryPlan P.planFields (withPrompt (planPrompt F depth intent context) llm.plan) with
  | .error (.llmUnavailable _ reason) =>
    ending (failedOutcome correlationId .llmUnavailable (llmUnavailableMessage reason))
  | .error (.queryPlanInvalid _) => ending (rejectedOutcome correlationId .queryPlanInvalid planMessage)
  | .error e => .error e
  | .ok plan =>
    match validateQueryPlan plan context with
    | .error (.queryPlanInvalid _) => ending (rejectedOutcome correlationId .queryPlanInvalid planMessage)
    | .error e => .error e
    | .ok plan => sqlStage U F depth correlationId plan.toPlanFields context llm

/-- `_handle_question` up to the execution. -/
def stages (question correlationId : Text) (llm : LlmCalls V) : Except Exc (Prepared C) :=
  match generateRuntimeIntent P.intentFields (llm.intent question) with
  | .error (.llmUnavailable _ reason) =>
    ending (failedOutcome correlationId .llmUnavailable (llmUnavailableMessage reason))
  | .error (.intentContractViolation _) =>
    ending (rejectedOutcome correlationId .intentContractViolation intentMessage)
  | .error e => .error e
  | .ok intent =>
    if intent.requiresClarification then
      -- `intent.clarification_reason or ...`
      let reason := intent.clarificationReason.getD []
      ending (clarificationRequiredOutcome correlationId (if reason.isEmpty then clarificationMessage else reason))
    else match retrieve U intent.subject intent.requestedConcepts with
      | .error (.notFound _) => ending (rejectedOutcome correlationId .metadataNotFound metadataMessage)
      | .ok entries => planStage U P F depth correlationId intent.toIntentFields (build entries) llm

/-- `_handle_question`, with the calls made of the manager. -/
def handleStages (manager : Call C → Except Exc (BoundedResult C)) (question correlationId : Text)
    (llm : LlmCalls V) : Except Exc (Outcome C) × List (Call C) :=
  match stages U P F depth question correlationId llm with
  | .error e => (.error e, [])
  | .ok (.ends outcome) => (.ok outcome, [])
  | .ok (.sql sql) =>
    let call := callFor correlationId sql
    match manager call with
    | .error .mcpToolExecution => (failedOutcome correlationId .mcpExecutionFailed mcpMessage, [call])
    | .error .mcpTransport => (failedOutcome correlationId .mcpExecutionFailed mcpMessage, [call])
    | .error e => (.error e, [call])
    | .ok result =>
      let boundedResult : BoundedResult C :=
        ⟨result.columns, result.rows, result.rowCount, result.truncated, result.executionMs⟩
      (.ok (.completed correlationId boundedResult), [call])

/-- `handle_question`. -/
def handleQuestion (manager : Call C → Except Exc (BoundedResult C)) (question correlationId : Text)
    (llm : LlmCalls V) : Except Exc (Outcome C) × List (Call C) :=
  match handleStages U P F depth manager question correlationId llm with
  | (.error _, calls) => (failedOutcome correlationId .internalError internalMessage, calls)
  | (.ok outcome, calls) => (.ok outcome, calls)

/-! ## Safety -/

variable {U P F depth} {question correlationId : Text}

theorem clarificationRequiredOutcome_ok {message : Text} (h : isBlank message = false) :
    (clarificationRequiredOutcome correlationId message : Except Exc (Outcome C)) =
      .ok (.clarificationRequired correlationId message) := by
  simp [clarificationRequiredOutcome, nonBlankMessage, raiseUnless, h, bind, Except.bind, pure, Except.pure]

theorem rejectedOutcome_ok (code : RejectedCode) {message : Text} (h : isBlank message = false) :
    (rejectedOutcome correlationId code message : Except Exc (Outcome C)) =
      .ok (.rejected correlationId code message) := by
  simp [rejectedOutcome, nonBlankMessage, raiseUnless, h, bind, Except.bind, pure, Except.pure]

theorem failedOutcome_ok (code : FailedCode) {message : Text} (h : isBlank message = false) :
    (failedOutcome correlationId code message : Except Exc (Outcome C)) =
      .ok (.failed correlationId code message) := by
  simp [failedOutcome, nonBlankMessage, raiseUnless, h, bind, Except.bind, pure, Except.pure]

/-- No fixed message is blank. -/
theorem messages_not_blank : ∀ m ∈ [rateLimitedMessage, llmUnavailableText, intentMessage, clarificationMessage,
    metadataMessage, planMessage, sqlMessage, mcpMessage, internalMessage], isBlank m = false := by
  decide +kernel

theorem messages_encodable : ∀ m ∈ [rateLimitedMessage, llmUnavailableText, intentMessage, metadataMessage,
    planMessage, sqlMessage, mcpMessage, internalMessage], encodable m = true := by
  decide +kernel

-- their characters play no part in what follows
attribute [irreducible] rateLimitedMessage llmUnavailableText intentMessage clarificationMessage metadataMessage
  planMessage sqlMessage mcpMessage internalMessage

/-- The outcomes that come before any execution. -/
def NoExecution : Outcome C → Prop
  | .clarificationRequired _ _ => True
  | .rejected _ _ _ => True
  | .failed _ .llmUnavailable _ => True
  | _ => False

theorem ending_failed {message : Text} {p : Prepared C}
    (h : ending (failedOutcome correlationId .llmUnavailable message) = .ok p) :
    ∃ outcome, p = .ends outcome ∧ outcome.correlationId = correlationId ∧ NoExecution outcome := by
  cases hb : isBlank message with
  | true => simp [failedOutcome, nonBlankMessage, raiseUnless, hb, bind, Except.bind, ending, Except.map] at h
  | false =>
    rw [failedOutcome_ok _ hb] at h
    exact ⟨_, (Except.ok.inj h).symm, rfl, trivial⟩

theorem ending_rejected {code : RejectedCode} {message : Text} {p : Prepared C}
    (h : ending (rejectedOutcome correlationId code message) = .ok p) :
    ∃ outcome, p = .ends outcome ∧ outcome.correlationId = correlationId ∧ NoExecution outcome := by
  cases hb : isBlank message with
  | true => simp [rejectedOutcome, nonBlankMessage, raiseUnless, hb, bind, Except.bind, ending, Except.map] at h
  | false =>
    rw [rejectedOutcome_ok _ hb] at h
    exact ⟨_, (Except.ok.inj h).symm, rfl, trivial⟩

theorem ending_clarification {message : Text} {p : Prepared C}
    (h : ending (clarificationRequiredOutcome correlationId message) = .ok p) :
    ∃ outcome, p = .ends outcome ∧ outcome.correlationId = correlationId ∧ NoExecution outcome := by
  cases hb : isBlank message with
  | true =>
    simp [clarificationRequiredOutcome, nonBlankMessage, raiseUnless, hb, bind, Except.bind, ending, Except.map] at h
  | false =>
    rw [clarificationRequiredOutcome_ok hb] at h
    exact ⟨_, (Except.ok.inj h).symm, rfl, trivial⟩

variable (U P F depth) in
/-- Every stage before the execution let the statement pass, each asking with what the one before returned. -/
def Vetted (question : Text) (llm : LlmCalls V) (sql : Text) : Prop :=
  ∃ intent entries plan text,
    generateRuntimeIntent P.intentFields (llm.intent question) = .ok intent ∧ intent.requiresClarification = false ∧
    retrieve U intent.subject intent.requestedConcepts = .ok entries ∧
    generateQueryPlan P.planFields
      (withPrompt (planPrompt F depth intent.toIntentFields (build entries)) llm.plan) = .ok plan ∧
    validateQueryPlan plan (build entries) = .ok plan ∧
    withPrompt (sqlPrompt F depth plan.toPlanFields (build entries)) llm.sql = .ok (some text) ∧
    Guardrail.validate U (extractSql text) (build entries) = .ok sql

theorem generateSql_ok {call : Except Exc (Option Text)} {sql : Text} (h : generateSql call = .ok sql) :
    ∃ text, call = .ok (some text) ∧ sql = extractSql text := by
  unfold generateSql at h
  split at h
  · simp at h
  · simp at h
  · rename_i text
    exact ⟨text, rfl, (Except.ok.inj h).symm⟩

variable (correlationId) in
/-- An outcome of the question before any execution. -/
def Ends (p : Prepared C) : Prop :=
  ∃ outcome, p = .ends outcome ∧ outcome.correlationId = correlationId ∧ NoExecution outcome

theorem sqlStage_ok {plan : PlanFields} {context : MetadataContext} {llm : LlmCalls V} {p : Prepared C}
    (h : sqlStage U F depth correlationId plan context llm = .ok p) :
    (∃ sql text, p = .sql sql ∧ withPrompt (sqlPrompt F depth plan context) llm.sql = .ok (some text) ∧
      Guardrail.validate U (extractSql text) context = .ok sql) ∨ Ends correlationId p := by
  unfold sqlStage at h
  split at h
  · exact Or.inr (ending_failed h)
  · simp at h
  rename_i sql hsql
  split at h
  · exact Or.inr (ending_rejected h)
  · simp at h
  rename_i sql' hsql'
  obtain ⟨text, htext, rfl⟩ := generateSql_ok hsql
  exact Or.inl ⟨sql', text, (Except.ok.inj h).symm, htext, hsql'⟩

theorem planStage_ok {intent : IntentFields} {context : MetadataContext} {llm : LlmCalls V} {p : Prepared C}
    (h : planStage U P F depth correlationId intent context llm = .ok p) :
    (∃ sql plan text, p = .sql sql ∧
      generateQueryPlan P.planFields (withPrompt (planPrompt F depth intent context) llm.plan) = .ok plan ∧
      validateQueryPlan plan context = .ok plan ∧
      withPrompt (sqlPrompt F depth plan.toPlanFields context) llm.sql = .ok (some text) ∧
      Guardrail.validate U (extractSql text) context = .ok sql) ∨ Ends correlationId p := by
  unfold planStage at h
  split at h
  · exact Or.inr (ending_failed h)
  · exact Or.inr (ending_rejected h)
  · simp at h
  rename_i plan hplan
  split at h
  · exact Or.inr (ending_rejected h)
  · simp at h
  rename_i plan' hplan'
  obtain rfl := validateQueryPlan_ok hplan'
  exact (sqlStage_ok h).imp_left fun ⟨sql, text, hp, htext, hsql⟩ => ⟨sql, plan', text, hp, hplan, hplan', htext, hsql⟩

/-- What the stages come to when they do not raise. -/
theorem stages_ok {llm : LlmCalls V} {p : Prepared C} (h : stages U P F depth question correlationId llm = .ok p) :
    (∃ sql, p = .sql sql ∧ Vetted U P F depth question llm sql) ∨ Ends correlationId p := by
  unfold stages at h
  split at h
  · exact Or.inr (ending_failed h)
  · exact Or.inr (ending_rejected h)
  · simp at h
  rename_i intent hintent
  split at h
  · exact Or.inr (ending_clarification h)
  rename_i hclar
  split at h
  · exact Or.inr (ending_rejected h)
  rename_i entries hentries
  rcases planStage_ok h with ⟨sql, plan, text, hp, hplan, hvalid, htext, hsql⟩ | h
  · exact Or.inl ⟨sql, hp, intent, entries, plan, text, hintent, by simpa using hclar, hentries, hplan, hvalid, htext,
      hsql⟩
  · exact Or.inr h

/-- Every statement that passes the stages is vetted, and every vetted one passes. -/
theorem stages_sql_iff {llm : LlmCalls V} {sql : Text} :
    stages U P F depth question correlationId llm = .ok (.sql sql : Prepared C) ↔
      Vetted U P F depth question llm sql := by
  constructor
  · intro h
    rcases stages_ok h with ⟨sql', hp, hv⟩ | ⟨outcome, hp, -⟩
    · obtain rfl := Prepared.sql.inj hp
      exact hv
    · simp at hp
  · rintro ⟨intent, entries, plan, text, hintent, hclar, hentries, hplan, hvalid, htext, hsql⟩
    have hgenerate : generateSql (withPrompt (sqlPrompt F depth plan.toPlanFields (build entries)) llm.sql) =
        .ok (extractSql text) := by
      rw [htext]
      rfl
    rw [stages, hintent]
    simp only [hclar, Bool.false_eq_true, if_false, hentries]
    rw [planStage, hplan]
    simp only [hvalid]
    rw [sqlStage, hgenerate]
    simp only [hsql]

/-- How a question ends if the manager raises. -/
def failureOf (correlationId : Text) : Exc → Except Exc (Outcome C)
  | .mcpToolExecution | .mcpTransport => failedOutcome correlationId .mcpExecutionFailed mcpMessage
  | e => .error e

/-- With a vetted statement the manager is called, and its result is that of the question. -/
theorem handleStages_of_vetted {manager : Call C → Except Exc (BoundedResult C)} {llm : LlmCalls V} {sql : Text}
    {result : BoundedResult C} (hv : Vetted U P F depth question llm sql)
    (hm : manager (callFor correlationId sql) = .ok result) :
    handleStages U P F depth manager question correlationId llm =
      (.ok (.completed correlationId result), [callFor correlationId sql]) := by
  rw [handleStages, stages_sql_iff.mpr hv]
  simp only [hm]

theorem handleStages_of_failure {manager : Call C → Except Exc (BoundedResult C)} {llm : LlmCalls V} {sql : Text}
    {e : Exc} (hv : Vetted U P F depth question llm sql) (hm : manager (callFor correlationId sql) = .error e) :
    handleStages U P F depth manager question correlationId llm =
      (failureOf correlationId e, [callFor correlationId sql]) := by
  rw [handleStages, stages_sql_iff.mpr hv]
  simp only [hm]
  cases e <;> rfl

/-- What a run that reaches the manager, or does not, comes to. -/
theorem handleStages_cases (manager : Call C → Except Exc (BoundedResult C)) (llm : LlmCalls V) :
    (∃ e, handleStages U P F depth manager question correlationId llm = (.error e, [])) ∨
    (∃ outcome, handleStages U P F depth manager question correlationId llm = (.ok outcome, []) ∧
      outcome.correlationId = correlationId ∧ NoExecution outcome) ∨
    ∃ sql, Vetted U P F depth question llm sql ∧
      (handleStages U P F depth manager question correlationId llm).2 = [callFor correlationId sql] ∧
      ((∃ result, manager (callFor correlationId sql) = .ok result ∧
          (handleStages U P F depth manager question correlationId llm).1 = .ok (.completed correlationId result)) ∨
        ∃ e, manager (callFor correlationId sql) = .error e ∧
          ((handleStages U P F depth manager question correlationId llm).1 = .error e ∨
            (handleStages U P F depth manager question correlationId llm).1 =
              failedOutcome correlationId .mcpExecutionFailed mcpMessage)) := by
  unfold handleStages
  cases hs : stages U P F depth question correlationId llm with
  | error e => exact Or.inl ⟨e, rfl⟩
  | ok p =>
    rcases stages_ok hs with ⟨sql, rfl, hv⟩ | ⟨outcome, rfl, hc, hn⟩
    · refine Or.inr (Or.inr ⟨sql, hv, ?_⟩)
      simp only
      cases hm : manager (callFor correlationId sql) with
      | ok result => exact ⟨rfl, Or.inl ⟨result, rfl, rfl⟩⟩
      | error e => cases e <;> exact ⟨rfl, Or.inr ⟨_, rfl, by simp⟩⟩
    · exact Or.inr (Or.inl ⟨outcome, rfl, hc, hn⟩)

variable (U P F depth) in
/-- `handle_question` returns the outcome of the stages, or `internal_error` for what they raise. -/
theorem handleQuestion_eq (manager : Call C → Except Exc (BoundedResult C)) (llm : LlmCalls V) :
    handleQuestion U P F depth manager question correlationId llm =
      (match (handleStages U P F depth manager question correlationId llm).1 with
        | .error _ => .ok (.failed correlationId .internalError internalMessage)
        | .ok outcome => .ok outcome,
      (handleStages U P F depth manager question correlationId llm).2) := by
  unfold handleQuestion
  rw [failedOutcome_ok _ (messages_not_blank _ (by simp))]
  rcases handleStages U P F depth manager question correlationId llm with ⟨_ | _, _⟩ <;> rfl

end

/-- **The pipeline is safe.** It always returns an outcome, with the given correlation id; it calls the manager at
most once, for a statement that every stage let pass and with fixed arguments; and it is completed exactly if the
call returned, with the result of the call. -/
theorem handleQuestion_safe {C V : Type} (U : Unicode) (P : Pydantic V) (F : Json.FloatFormat) (depth : Nat)
    (manager : Call C → Except Exc (BoundedResult C)) (question correlationId : Text) (llm : LlmCalls V) :
    ∃ outcome calls, handleQuestion U P F depth manager question correlationId llm = (.ok outcome, calls) ∧
      outcome.correlationId = correlationId ∧ calls.length ≤ 1 ∧
      (∀ call ∈ calls, Vetted U P F depth question llm call.sql ∧ call.parameters = [] ∧
        call.correlationId = correlationId ∧ call.queryTimeoutSeconds = 10 ∧ call.maximumReturnedRows = 100) ∧
      (NoExecution outcome → calls = []) ∧
      (∀ result, outcome = .completed correlationId result ↔ ∃ call, calls = [call] ∧ manager call = .ok result) := by
  rw [handleQuestion_eq]
  rcases @handleStages_cases C U V P F depth question correlationId manager llm with
    ⟨e, h⟩ | ⟨outcome, h, hc, hn⟩ | ⟨sql, hv, hcalls, hend⟩
  · rw [h]
    refine ⟨_, _, rfl, rfl, by simp, by simp, by simp, by simp⟩
  · rw [h]
    refine ⟨_, _, rfl, hc, by simp, by simp, by simp, fun result => ?_⟩
    constructor
    · rintro rfl
      exact hn.elim
    · simp
  · rw [hcalls]
    have hcall : ∀ call ∈ [(callFor correlationId sql : Call C)],
        Vetted U P F depth question llm call.sql ∧ call.parameters = [] ∧
        call.correlationId = correlationId ∧ call.queryTimeoutSeconds = 10 ∧ call.maximumReturnedRows = 100 := by
      intro call h
      obtain rfl := List.mem_singleton.mp h
      exact ⟨hv, rfl, rfl, rfl, rfl⟩
    rcases hend with ⟨result, hm, h⟩ | ⟨e, hm, h | h⟩
    · rw [h]
      refine ⟨_, _, rfl, rfl, by simp, hcall, fun hn => hn.elim, fun result' => ?_⟩
      simp [hm]
    · rw [h]
      refine ⟨_, _, rfl, rfl, by simp, hcall, fun hn => hn.elim, fun result => ?_⟩
      simp [hm]
    · rw [h, failedOutcome_ok _ (messages_not_blank _ (by simp))]
      refine ⟨_, _, rfl, rfl, by simp, hcall, fun hn => hn.elim, fun result => ?_⟩
      simp [hm]

/-! ### A completed run -/

/-- An intent in the scope of the demo, with this text as another concept. -/
def intentWith (concept : String) : Text :=
  ["\x7b\"request_type\":\"lookup\",", "\"subject\":\"product\",", "\"requested_concepts\":",
    "[\"inventory\",\"safety_stock\"", concept, "],", "\"requested_output\":\"list\",",
    "\"explicit_parameters\":\x7b\x7d,", "\"requires_clarification\":false,",
    "\"clarification_reason\":null\x7d"].flatMap String.toList

def sampleIntent : Text := intentWith ""

/-- A plan in the scope of the demo. -/
def samplePlan : Text :=
  ["\x7b\"purpose\":\"low stock\",\"entity_id\":\"product\",", "\"dimension_ids\":[\"product_id\",\"product_name\"],",
    "\"metric_ids\":[\"current_inventory\",\"safety_stock_level\"],",
    "\"filters\":[\x7b\"filter_id\":\"below_safety_stock\"\x7d],",
    "\"time_policy_id\":null,\"grain_id\":\"product\",", "\"join_ids\":[\"product_to_product_inventory\"],",
    "\"order_by\":[\x7b\"field_id\":\"product_id\",\"direction\":\"asc\"\x7d],", "\"limit\":10,\"depth\":1\x7d"].flatMap
    String.toList

theorem sampleIntent_ne_nil : sampleIntent ≠ [] := by decide +kernel
theorem samplePlan_ne_nil : samplePlan ≠ [] := by decide +kernel

/-- A model that answers in the scope of the demo. -/
def sampleCalls : LlmCalls Json where
  intent _ := (Json.loads 900 sampleIntent).mapError loadsExc
  plan _ := (Json.loads 900 samplePlan).mapError loadsExc
  sql _ := .ok (some Guardrail.oneJoin)

/-- One row, with cells that do not matter. -/
def sampleResult : BoundedResult Unit :=
  ⟨["ProductID", "Name", "CurrentInventory", "SafetyStockLevel"].map String.toList, [[(), (), (), ()]], 1, false, 3⟩

theorem sampleIntent_ok (question : Text) : ∃ intent,
    generateRuntimeIntent Pydantic.exact.intentFields (sampleCalls.intent question) = .ok intent ∧
      intent.requiresClarification = false ∧ retrieve .small intent.subject intent.requestedConcepts = .ok allEntries ∧
      Writable .half 899 intent.dump ∧ intent.dump.encodable = true := by
  have h : (generateRuntimeIntent Pydantic.exact.intentFields (sampleCalls.intent [])).toOption.any (fun intent =>
      !intent.requiresClarification && (retrieve .small intent.subject intent.requestedConcepts).toOption.isSome &&
        (Json.dumps .half intent.dump 899).isSome && intent.dump.encodable) = true := by
    decide +kernel
  cases hintent : generateRuntimeIntent Pydantic.exact.intentFields (sampleCalls.intent []) with
  | error e => simp [hintent, Except.toOption] at h
  | ok intent =>
    simp only [hintent, Except.toOption, Option.any_some, Bool.and_eq_true, Bool.not_eq_true'] at h
    obtain ⟨⟨⟨hclar, hsome⟩, hwritable⟩, hencodable⟩ := h
    cases hentries : retrieve .small intent.subject intent.requestedConcepts with
    | error e => simp [hentries] at hsome
    | ok entries =>
      obtain rfl := retrieve_ok hentries
      exact ⟨intent, hintent, hclar, hentries, hwritable, hencodable⟩

theorem samplePlan_ok (userPrompt : Text) : ∃ plan,
    generateQueryPlan Pydantic.exact.planFields (sampleCalls.plan userPrompt) = .ok plan ∧
      validateQueryPlan plan (build allEntries) = .ok plan ∧ plan.dump.encodable = true := by
  have h : (generateQueryPlan Pydantic.exact.planFields (sampleCalls.plan [])).toOption.any (fun plan =>
      (validateQueryPlan plan (build allEntries)).toOption.isSome && plan.dump.encodable) = true := by
    decide +kernel
  cases hplan : generateQueryPlan Pydantic.exact.planFields (sampleCalls.plan []) with
  | error e => simp [hplan, Except.toOption] at h
  | ok plan =>
    simp only [hplan, Except.toOption, Option.any_some, Bool.and_eq_true] at h
    cases hvalid : validateQueryPlan plan (build allEntries) with
    | error e => simp [hvalid] at h
    | ok plan' =>
      obtain rfl := validateQueryPlan_ok hvalid
      exact ⟨plan', hplan, hvalid, h.2⟩

/-- The statement is vetted with every model that answers so to the prompts that can be encoded. -/
theorem vetted_sample {question : Text} {llm : LlmCalls Json}
    (hintent : llm.intent question = sampleCalls.intent question)
    (h : ∀ t, encodable t = true → llm.plan t = sampleCalls.plan t ∧ llm.sql t = sampleCalls.sql t) :
    Vetted .small .exact .half 900 question llm Guardrail.oneJoin := by
  obtain ⟨intent, hread, hclar, hentries, hwritable, hencodable⟩ := sampleIntent_ok question
  obtain ⟨t₂, ht₂⟩ := Option.isSome_iff_exists.mp
    (writable_promptDocument hwritable "runtime_intent" (build allEntries))
  obtain ⟨plan, hplan, hvalid, hencodable'⟩ := samplePlan_ok t₂
  have hscope := wellFormed_and_required_iff.mp ⟨violation_eq_none.mp plan.valid, validateQueryPlan_ok_iff.mp hvalid⟩
  obtain ⟨t₃, ht₃⟩ := Option.isSome_iff_exists.mp
    (writable_promptDocument (writable_demoScope (F := .half) hscope 895) "query_plan" (build allEntries))
  refine ⟨intent, allEntries, plan, Guardrail.oneJoin, ?_, hclar, hentries, ?_, hvalid, ?_, ?_⟩
  · rw [hintent, hread]
  · rw [show planPrompt .half 900 intent.toIntentFields (build allEntries) = some t₂ from ht₂, withPrompt,
      (h t₂ ((encodable_planPrompt ht₂).trans hencodable)).1]
    exact hplan
  · rw [show sqlPrompt .half 900 plan.toPlanFields (build allEntries) = some t₃ from ht₃, withPrompt,
      (h t₃ ((encodable_sqlPrompt ht₃).trans hencodable')).2]
    rfl
  · rw [show extractSql Guardrail.oneJoin = Guardrail.oneJoin by decide +kernel]
    exact Guardrail.validate_oneJoin

/-- A question of the demo is completed, with the rows of the one call. -/
theorem handleQuestion_completed :
    handleQuestion .small .exact .half 900 (fun _ => .ok sampleResult) "low stock".toList "id".toList sampleCalls =
      (.ok (.completed "id".toList sampleResult), [callFor "id".toList Guardrail.oneJoin]) ∧
    Vetted .small .exact .half 900 "low stock".toList sampleCalls Guardrail.oneJoin := by
  have hrun : handleQuestion .small .exact .half 900 (fun _ => .ok sampleResult) "low stock".toList "id".toList
      sampleCalls = (.ok (.completed "id".toList sampleResult), [callFor "id".toList Guardrail.oneJoin]) := by
    rw [handleQuestion_eq, handleStages_of_vetted (vetted_sample rfl fun _ _ => ⟨rfl, rfl⟩) rfl]
  obtain ⟨outcome, calls, h, -, -, hcalls, -⟩ := handleQuestion_safe .small .exact .half 900
    (fun _ : Call Unit => .ok sampleResult) "low stock".toList "id".toList sampleCalls
  obtain ⟨-, rfl⟩ := Prod.mk.inj (hrun.symm.trans h)
  have hvetted := (hcalls _ (List.mem_singleton_self _)).1
  rw [callFor_sql] at hvetted
  exact ⟨hrun, hvetted⟩

end DataAgent.Agent
