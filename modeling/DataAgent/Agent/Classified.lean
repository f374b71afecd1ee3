import DataAgent.Agent.Service
import DataAgent.Guardrail.Raises

/-!
# Which failures of the provider are classified

The pipeline with `OpenAICompatibleLLMClient` as its client, for every behaviour of the provider at each of the
three calls.

* `Classified` : the pipeline goes on to the execution, or ends before it in an outcome of its own, never in
  `internal_error`;
* `JsonEscapes`, `TextEscapes` : the behaviours that no `except` clause of the stages covers;
* **`classified_iff`** : the run is classified exactly if no call that is reached behaves so.
-/

namespace DataAgent.Agent
open Python

section
variable {C : Type}

/-- The three calls with this client. -/
def clientCalls (sdk : Sdk) (depth : Nat) (a₁ a₂ a₃ : Attempt) : LlmCalls Json :=
  ⟨completeJson sdk depth a₁, completeJson sdk depth a₂, fun userPrompt => (completeText sdk a₃ userPrompt).map some⟩

def Classified (r : Except Exc (Outcome C) × List (Call C)) : Prop :=
  r.2 ≠ [] ∨ ∃ outcome, r.1 = .ok outcome ∧ NoExecution outcome

/-! ## What escapes -/

/-- The request is sent and the first choice has the content. -/
def Answers (sdk : Sdk) (a : Attempt) (userPrompt content : Text) : Prop :=
  Sends sdk a userPrompt ∧ content ≠ [] ∧ ∃ rest, a.reply = .response (some content :: rest)

/-- The call fails unclassified, or its content has an integer of too many digits or is nested too deeply for the
decoder. -/
def JsonEscapes (sdk : Sdk) (depth : Nat) (a : Attempt) (userPrompt : Text) : Prop :=
  Unclassified sdk a userPrompt ∨ ∃ content, Answers sdk a userPrompt content ∧
    (Json.loads depth content = .error .valueError ∨ Json.loads depth content = .error .recursionError)

/-- The call fails unclassified, or its statement passes the rules before the count and has too many digits in it. -/
def TextEscapes (sdk : Sdk) (U : Unicode) (a : Attempt) (userPrompt : Text) : Prop :=
  Unclassified sdk a userPrompt ∨ ∃ content cleaned, Answers sdk a userPrompt content ∧
    Guardrail.clean (extractSql content) = .ok cleaned ∧ Guardrail.checkSelect U cleaned = .ok () ∧
    Guardrail.OverlongTop U cleaned

/-- The prompt cannot be written, or the call with it escapes. -/
def PromptEscapes (escapes : Text → Prop) (userPrompt : Option Text) : Prop := ∀ t, userPrompt = some t → escapes t

variable {sdk : Sdk} {depth : Nat}

theorem content_eq_ok {reply : Reply} {content : Text} :
    reply.content = .ok content ↔ content ≠ [] ∧ ∃ rest, reply = .response (some content :: rest) := by
  constructor
  · intro h
    unfold Reply.content at h
    split at h
    iterate 4 simp at h
    rename_i o rest
    split at h
    · simp at h
    · rename_i hne
      obtain rfl := Except.ok.inj h
      cases o with
      | none => simp at hne
      | some c => exact ⟨by simpa using hne, rest, rfl⟩
  · rintro ⟨hne, rest, rfl⟩
    have hempty : content.isEmpty = false := by simpa using hne
    simp [Reply.content, hempty]

theorem create_eq_ok {a : Attempt} {userPrompt content : Text} :
    create sdk a userPrompt = .ok content ↔ Answers sdk a userPrompt content := by
  rw [Answers, ← content_eq_ok]
  constructor
  · intro h
    rcases create_cases sdk a userPrompt with hs | ⟨e, -, he⟩ | ⟨connection, -, -, he⟩
    · exact ⟨hs, by rwa [create_of_sends hs] at h⟩
    · rw [he] at h
      simp at h
    · rw [he] at h
      simp at h
  · rintro ⟨hs, h⟩
    rwa [create_of_sends hs]

/-- A failure that escapes. -/
def Exc.Escapes (e : Exc) : Prop := e = .validation ∨ e = .other

theorem completeJson_of_escapes {a : Attempt} {userPrompt : Text} (h : JsonEscapes sdk depth a userPrompt) :
    ∃ e, completeJson sdk depth a userPrompt = .error e ∧ e.Escapes := by
  unfold completeJson
  rcases h with h | ⟨content, ha, hl | hl⟩
  · obtain ⟨e, he, hcases⟩ := create_of_unclassified h
    exact ⟨e, by rw [he]; rfl, hcases⟩
  · rw [create_eq_ok.mpr ha]
    exact ⟨.other, by simp [bind, Except.bind, hl, Except.mapError, loadsExc], Or.inr rfl⟩
  · rw [create_eq_ok.mpr ha]
    exact ⟨.other, by simp [bind, Except.bind, hl, Except.mapError, loadsExc], Or.inr rfl⟩

/-- A failure of a JSON call that does not escape is one of the two that the stages know. -/
theorem completeJson_error {a : Attempt} {userPrompt : Text} {e : Exc} (hno : ¬ JsonEscapes sdk depth a userPrompt)
    (h : completeJson sdk depth a userPrompt = .error e) : e.IsUnavailable ∨ e = .jsonDecode := by
  unfold completeJson at h
  cases hc : create sdk a userPrompt with
  | error e' =>
    rw [hc] at h
    obtain rfl : e' = e := by simpa [bind, Except.bind] using h
    rcases create_error hc with h | ⟨-, hn⟩
    · exact Or.inl h
    · exact absurd (Or.inl hn) hno
  | ok content =>
    rw [hc] at h
    have ha := create_eq_ok.mp hc
    simp only [bind, Except.bind] at h
    cases hl : Json.loads depth content with
    | ok v => simp [hl, Except.mapError] at h
    | error le =>
      rw [hl] at h
      cases le with
      | jsonDecodeError => exact Or.inr (by simpa [Except.mapError, loadsExc] using h.symm)
      | valueError => exact absurd (Or.inr ⟨content, ha, Or.inl hl⟩) hno
      | recursionError => exact absurd (Or.inr ⟨content, ha, Or.inr hl⟩) hno
      | outOfFuel => exact absurd hl (Json.loads_ne_outOfFuel _ _)

theorem not_unclassified {a : Attempt} {userPrompt content : Text} (hc : create sdk a userPrompt = .ok content) :
    ¬ Unclassified sdk a userPrompt := by
  intro hn
  obtain ⟨e, he, -⟩ := create_of_unclassified hn
  rw [he] at hc
  simp at hc

theorem not_jsonEscapes {a : Attempt} {userPrompt content : Text} (hc : create sdk a userPrompt = .ok content)
    (hl : (Json.loads depth content).toOption.isSome) : ¬ JsonEscapes sdk depth a userPrompt := by
  rintro (hn | ⟨content', ha, h⟩)
  · exact not_unclassified hc hn
  · obtain rfl : content = content' := Except.ok.inj (hc.symm.trans (create_eq_ok.mpr ha))
    rcases h with h | h <;> simp [h, Except.toOption] at hl

/-! ## The stages -/

/-- On a decoded value pydantic raises `ValidationError` and nothing else. -/
structure Pydantic.Validates (P : Pydantic Json) : Prop where
  intent : ∀ v e, P.intentFields v = .error e → e = .validation
  plan : ∀ v e, P.planFields v = .error e → e = .validation

variable {U : Unicode} {P : Pydantic Json} {F : Json.FloatFormat} {question correlationId : Text}
  {a₁ a₂ a₃ : Attempt}

variable (sdk depth U P question a₁) in
/-- The plan is asked for with this intent, in the context of the entries. -/
def PlanReached (intent : RuntimeIntent) (entries : List MetadataEntry) : Prop :=
  generateRuntimeIntent P.intentFields (completeJson sdk depth a₁ question) = .ok intent ∧
    intent.requiresClarification = false ∧ retrieve U intent.subject intent.requestedConcepts = .ok entries

variable (sdk depth P F a₂) in
/-- The statement is asked for with this plan. -/
def SqlReached (intent : RuntimeIntent) (entries : List MetadataEntry) (plan : QueryPlan) : Prop :=
  generateQueryPlan P.planFields
      (withPrompt (planPrompt F depth intent.toIntentFields (build entries)) (completeJson sdk depth a₂)) = .ok plan ∧
    validateQueryPlan plan (build entries) = .ok plan

theorem withPrompt_of_escapes {α : Type} {escapes : Text → Prop} {userPrompt : Option Text}
    {f : Text → Except Exc α} (hcall : ∀ t, escapes t → ∃ e, f t = .error e ∧ e.Escapes)
    (h : PromptEscapes escapes userPrompt) : ∃ e, withPrompt userPrompt f = .error e ∧ e.Escapes := by
  cases userPrompt with
  | none => exact ⟨.other, rfl, Or.inr rfl⟩
  | some t => exact hcall t (h t rfl)

/-- A call that does not escape is made with its prompt. -/
theorem withPrompt_of_not_escapes {α : Type} {escapes : Text → Prop} {userPrompt : Option Text}
    (call : Text → Except Exc α) (h : ¬ PromptEscapes escapes userPrompt) :
    ∃ t, userPrompt = some t ∧ ¬ escapes t ∧ withPrompt userPrompt call = call t := by
  unfold PromptEscapes at h
  push Not at h
  obtain ⟨t, rfl, ht⟩ := h
  exact ⟨t, rfl, ht, rfl⟩

theorem generateRuntimeIntent_of_escapes {call : Except Exc Json} (h : ∃ e, call = .error e ∧ e.Escapes) :
    ∃ e, generateRuntimeIntent P.intentFields call = .error e ∧ e.Escapes := by
  obtain ⟨e, rfl, he⟩ := h
  refine ⟨e, ?_, he⟩
  rcases he with rfl | rfl <;> rfl

theorem generateQueryPlan_of_escapes {call : Except Exc Json} (h : ∃ e, call = .error e ∧ e.Escapes) :
    ∃ e, generateQueryPlan P.planFields call = .error e ∧ e.Escapes := by
  obtain ⟨e, rfl, he⟩ := h
  refine ⟨e, ?_, he⟩
  rcases he with rfl | rfl <;> rfl

theorem generateRuntimeIntent_error (hP : P.Validates) {call : Except Exc Json}
    (hcall : ∀ e, call = .error e → e.IsUnavailable ∨ e = .jsonDecode) {e : Exc}
    (h : generateRuntimeIntent P.intentFields call = .error e) :
    e.IsUnavailable ∨ ∃ message, e = .intentContractViolation message := by
  unfold generateRuntimeIntent at h
  split at h
  · exact Or.inr ⟨_, (Except.error.inj h).symm⟩
  · rename_i e' hne
    obtain rfl := Except.error.inj h
    exact Or.inl ((hcall _ rfl).resolve_right hne)
  · split at h
    · exact Or.inr ⟨_, (Except.error.inj h).symm⟩
    · rename_i raw e' hne hf
      exact absurd (hP.intent _ _ hf) hne
    · split at h
      · simp at h
      · exact Or.inr ⟨_, (Except.error.inj h).symm⟩

theorem generateQueryPlan_error (hP : P.Validates) {call : Except Exc Json}
    (hcall : ∀ e, call = .error e → e.IsUnavailable ∨ e = .jsonDecode) {e : Exc}
    (h : generateQueryPlan P.planFields call = .error e) :
    e.IsUnavailable ∨ ∃ message, e = .queryPlanInvalid message := by
  unfold generateQueryPlan at h
  split at h
  · exact Or.inr ⟨_, (Except.error.inj h).symm⟩
  · rename_i e' hne
    obtain rfl := Except.error.inj h
    exact Or.inl ((hcall _ rfl).resolve_right hne)
  · split at h
    · exact Or.inr ⟨_, (Except.error.inj h).symm⟩
    · rename_i raw e' hne hf
      exact absurd (hP.plan _ _ hf) hne
    · split at h
      · simp at h
      · exact Or.inr ⟨_, (Except.error.inj h).symm⟩

theorem generateSql_completeText (a : Attempt) (userPrompt : Text) :
    generateSql ((completeText sdk a userPrompt).map some) = (create sdk a userPrompt).map extractSql := by
  unfold completeText generateSql
  cases create sdk a userPrompt <;> rfl

theorem failed_ends {message : Text} (h : message ∈ [rateLimitedMessage, llmUnavailableText]) :
    ∃ p : Prepared C, ending (failedOutcome correlationId .llmUnavailable message) = .ok p := by
  have hblank : isBlank message = false := by
    refine messages_not_blank _ ?_
    simp only [List.mem_cons, List.not_mem_nil, or_false] at h ⊢
    tauto
  exact ⟨_, by rw [failedOutcome_ok _ hblank]; rfl⟩

theorem unavailable_ends (reason : String) : ∃ p : Prepared C,
    ending (failedOutcome correlationId .llmUnavailable (llmUnavailableMessage reason)) = .ok p := by
  refine failed_ends ?_
  unfold llmUnavailableMessage
  split <;> simp

theorem rejected_ends (code : RejectedCode) {message : Text}
    (h : message ∈ [intentMessage, metadataMessage, planMessage, sqlMessage]) :
    ∃ p : Prepared C, ending (rejectedOutcome correlationId code message) = .ok p := by
  have hblank : isBlank message = false := by
    refine messages_not_blank _ ?_
    simp only [List.mem_cons, List.not_mem_nil, or_false] at h ⊢
    tauto
  exact ⟨_, by rw [rejectedOutcome_ok _ hblank]; rfl⟩

/-- The call for a statement does not escape exactly if the statement gets past the guardrail or is rejected by it. -/
theorem textEscapes_iff {userPrompt : Text} {context : MetadataContext} :
    (∃ p : Prepared C, (match (create sdk a₃ userPrompt).map extractSql with
      | .error (.llmUnavailable _ reason) =>
        ending (failedOutcome correlationId .llmUnavailable (llmUnavailableMessage reason))
      | .error e => .error e
      | .ok sql =>
        match Guardrail.validate U sql context with
        | .error (.sqlRejected _) => ending (rejectedOutcome correlationId .sqlRejected sqlMessage)
        | .error _ => .error .other
        | .ok sql => .ok (.sql sql)) = .ok p) ↔ ¬ TextEscapes sdk U a₃ userPrompt := by
  cases hc : create sdk a₃ userPrompt with
  | error e =>
    rcases create_error hc with ⟨message, reason, rfl⟩ | ⟨hcases, hn⟩
    · refine iff_of_true (unavailable_ends reason) ?_
      rintro (hn | ⟨content, -, ha, -⟩)
      · obtain ⟨e, he, hcases⟩ := create_of_unclassified hn
        obtain rfl := Except.error.inj (he.symm.trans hc)
        simp at hcases
      · rw [create_eq_ok.mpr ha] at hc
        simp at hc
    · refine iff_of_false ?_ (not_not_intro (Or.inl hn))
      rcases hcases with rfl | rfl <;> rintro ⟨p, hp⟩ <;> simp [Except.map] at hp
  | ok content =>
    have ha := create_eq_ok.mp hc
    have hsame : ∀ {content'}, Answers sdk a₃ userPrompt content' → content' = content := fun h =>
      Except.ok.inj ((create_eq_ok.mpr h).symm.trans hc)
    simp only [Except.map]
    cases hv : Guardrail.validate U (extractSql content) context with
    | ok sql =>
      refine iff_of_true ⟨_, rfl⟩ ?_
      rintro (hn | ⟨content', cleaned, ha', h⟩)
      · exact not_unclassified hc hn
      · rw [hsame ha', Guardrail.validate_valueError.mpr ⟨cleaned, h⟩] at *
        simp at hv
    | error e =>
      rcases Guardrail.validate_error hv with ⟨message, rfl⟩ | ⟨rfl, cleaned, h⟩
      · refine iff_of_true (rejected_ends _ (by simp)) ?_
        rintro (hn | ⟨content', cleaned, ha', h⟩)
        · exact not_unclassified hc hn
        · obtain rfl := hsame ha'
          rw [Guardrail.validate_valueError.mpr ⟨cleaned, h⟩] at hv
          simp at hv
      · exact iff_of_false (by rintro ⟨p, hp⟩; simp at hp) (not_not_intro (Or.inr ⟨content, cleaned, ha, h⟩))

/-- The last stage before the execution goes through unless the third call escapes. -/
theorem sqlStage_ok_iff {plan : PlanFields} {context : MetadataContext} :
    (∃ p : Prepared C, sqlStage U F depth correlationId plan context (clientCalls sdk depth a₁ a₂ a₃) = .ok p) ↔
      ¬ PromptEscapes (TextEscapes sdk U a₃) (sqlPrompt F depth plan context) := by
  unfold sqlStage clientCalls
  cases hprompt : sqlPrompt F depth plan context with
  | none => simp [PromptEscapes, withPrompt, generateSql]
  | some t =>
    have hescapes : PromptEscapes (TextEscapes sdk U a₃) (some t) ↔ TextEscapes sdk U a₃ t :=
      ⟨fun h => h t rfl, fun h t' ht => Option.some.inj ht ▸ h⟩
    simp only [withPrompt, generateSql_completeText, hescapes]
    exact textEscapes_iff

theorem planStage_ok_iff (hP : P.Validates) {intent : RuntimeIntent} {entries : List MetadataEntry} :
    (∃ p : Prepared C, planStage U P F depth correlationId intent.toIntentFields (build entries)
      (clientCalls sdk depth a₁ a₂ a₃) = .ok p) ↔
      ¬ PromptEscapes (JsonEscapes sdk depth a₂) (planPrompt F depth intent.toIntentFields (build entries)) ∧
        ∀ plan, SqlReached sdk depth P F a₂ intent entries plan →
          ¬ PromptEscapes (TextEscapes sdk U a₃) (sqlPrompt F depth plan.toPlanFields (build entries)) := by
  by_cases hesc : PromptEscapes (JsonEscapes sdk depth a₂) (planPrompt F depth intent.toIntentFields (build entries))
  · refine iff_of_false ?_ (fun h => h.1 hesc)
    rintro ⟨p, hp⟩
    obtain ⟨e, he, hcases⟩ := generateQueryPlan_of_escapes (P := P)
      (withPrompt_of_escapes (f := completeJson sdk depth a₂) (fun _ => completeJson_of_escapes) hesc)
    unfold planStage clientCalls at hp
    simp only [he] at hp
    rcases hcases with rfl | rfl <;> simp at hp
  · obtain ⟨t, -, ht, hcall⟩ := withPrompt_of_not_escapes (completeJson sdk depth a₂) hesc
    have herror : ∀ e, withPrompt (planPrompt F depth intent.toIntentFields (build entries))
        (completeJson sdk depth a₂) = .error e → e.IsUnavailable ∨ e = .jsonDecode := by
      intro e he
      rw [hcall] at he
      exact completeJson_error ht he
    unfold planStage
    simp only [clientCalls]
    cases hplan : generateQueryPlan P.planFields (withPrompt (planPrompt F depth intent.toIntentFields (build entries))
        (completeJson sdk depth a₂)) with
    | error e =>
      have hno : ∀ plan, ¬ SqlReached sdk depth P F a₂ intent entries plan := by
        rintro plan ⟨h, -⟩
        rw [h] at hplan
        simp at hplan
      refine iff_of_true ?_ ⟨hesc, fun plan h => absurd h (hno plan)⟩
      rcases generateQueryPlan_error hP herror hplan with ⟨message, reason, rfl⟩ | ⟨message, rfl⟩
      · exact unavailable_ends reason
      · exact rejected_ends _ (by simp)
    | ok plan =>
      have hsame : ∀ {plan'}, SqlReached sdk depth P F a₂ intent entries plan' → plan' = plan := fun h =>
        Except.ok.inj (h.1.symm.trans hplan)
      cases hvalid : validateQueryPlan plan (build entries) with
      | error e =>
        have hno : ∀ plan', ¬ SqlReached sdk depth P F a₂ intent entries plan' := by
          intro plan' h
          have hok := h.2
          rw [hsame h, hvalid] at hok
          simp at hok
        refine iff_of_true ?_ ⟨hesc, fun plan' h => absurd h (hno plan')⟩
        obtain ⟨message, rfl⟩ := validateQueryPlan_error hvalid
        simp only [hvalid]
        exact rejected_ends _ (by simp)
      | ok plan' =>
        obtain rfl := validateQueryPlan_ok hvalid
        simp only [hvalid]
        refine sqlStage_ok_iff.trans ⟨fun h => ⟨hesc, fun plan h' => hsame h' ▸ h⟩, fun h => h.2 plan' ⟨hplan, hvalid⟩⟩

theorem stages_ok_iff (hP : P.Validates) :
    (∃ p : Prepared C, stages U P F depth question correlationId (clientCalls sdk depth a₁ a₂ a₃) = .ok p) ↔
      ¬ JsonEscapes sdk depth a₁ question ∧ ∀ intent entries, PlanReached sdk depth U P question a₁ intent entries →
        ¬ PromptEscapes (JsonEscapes sdk depth a₂) (planPrompt F depth intent.toIntentFields (build entries)) ∧
          ∀ plan, SqlReached sdk depth P F a₂ intent entries plan →
            ¬ PromptEscapes (TextEscapes sdk U a₃) (sqlPrompt F depth plan.toPlanFields (build entries)) := by
  by_cases hesc : JsonEscapes sdk depth a₁ question
  · refine iff_of_false ?_ (fun h => h.1 hesc)
    rintro ⟨p, hp⟩
    obtain ⟨e, he, hcases⟩ := generateRuntimeIntent_of_escapes (P := P) (completeJson_of_escapes hesc)
    unfold stages clientCalls at hp
    simp only [he] at hp
    rcases hcases with rfl | rfl <;> simp at hp
  · unfold stages
    simp only [clientCalls]
    cases hintent : generateRuntimeIntent P.intentFields (completeJson sdk depth a₁ question) with
    | error e =>
      have hno : ∀ intent entries, ¬ PlanReached sdk depth U P question a₁ intent entries := by
        rintro intent entries ⟨h, -⟩
        rw [h] at hintent
        simp at hintent
      refine iff_of_true ?_ ⟨hesc, fun intent entries h => absurd h (hno intent entries)⟩
      rcases generateRuntimeIntent_error hP (fun e => completeJson_error hesc) hintent with
        ⟨message, reason, rfl⟩ | ⟨message, rfl⟩
      · exact unavailable_ends reason
      · exact rejected_ends _ (by simp)
    | ok intent =>
      have hsame : ∀ {intent' entries}, PlanReached sdk depth U P question a₁ intent' entries → intent' = intent :=
        fun h => Except.ok.inj (h.1.symm.trans hintent)
      simp only
      by_cases hclar : intent.requiresClarification = true
      · rw [if_pos hclar]
        refine iff_of_true ?_ ⟨hesc, fun intent' entries h => ?_⟩
        · obtain ⟨reason, hr, hblank⟩ := intent.reason_not_blank hclar
          have hne : reason.isEmpty = false := by
            cases reason with
            | nil => exact absurd hblank (by decide)
            | cons c t => rfl
          rw [hr, Option.getD_some, hne, if_neg (by simp), clarificationRequiredOutcome_ok hblank]
          exact ⟨_, rfl⟩
        · have hno := h.2.1
          rw [hsame h, hclar] at hno
          exact absurd hno (by decide)
      · rw [if_neg hclar]
        cases hentries : retrieve U intent.subject intent.requestedConcepts with
        | error e =>
          refine iff_of_true (rejected_ends _ (by simp)) ⟨hesc, fun intent' entries h => ?_⟩
          have hok := h.2.2
          rw [hsame h, hentries] at hok
          simp at hok
        | ok entries =>
          refine (planStage_ok_iff hP).trans ⟨fun h => ⟨hesc, fun intent' entries' h' => ?_⟩,
            fun h => h.2 intent entries ⟨hintent, by simpa using hclar, hentries⟩⟩
          obtain rfl := hsame h'
          obtain rfl := Except.ok.inj (hentries.symm.trans h'.2.2)
          exact h

/-- A run is classified exactly if its stages do not raise. -/
theorem classified_iff_stages (manager : Call C → Except Exc (BoundedResult C)) (llm : LlmCalls Json) :
    Classified (handleQuestion U P F depth manager question correlationId llm) ↔
      ∃ p : Prepared C, stages U P F depth question correlationId llm = .ok p := by
  rw [handleQuestion_eq]
  unfold Classified handleStages
  cases hs : stages U P F depth question correlationId llm with
  | error e => simp [NoExecution]
  | ok p =>
    refine iff_of_true ?_ ⟨p, rfl⟩
    rcases stages_ok hs with ⟨sql, rfl, -⟩ | ⟨outcome, rfl, -, hn⟩
    · left
      simp only
      split <;> simp
    · exact Or.inr ⟨outcome, rfl, hn⟩

end

theorem orInvalid_error {α : Type} {o : Option α} {e : Exc} (h : orInvalid o = .error e) : e = .validation := by
  cases o with
  | none => exact (Except.error.inj h).symm
  | some a => simp [orInvalid] at h

theorem Pydantic.exact_validates : Pydantic.exact.Validates :=
  ⟨fun _ _ h => orInvalid_error h, fun _ _ h => orInvalid_error h⟩

/-- An SDK that takes everything. -/
def Sdk.lenient : Sdk := ⟨fun _ => true, fun _ => true⟩

/-- A client that is ready, and the provider's reply. -/
def replying (reply : Reply) : Attempt := ⟨some ⟨[], [], none⟩, none, reply⟩

/-- A provider that answers with one choice. -/
def answering (content : Text) : Attempt := replying (.response [some content])

theorem create_answering {content userPrompt : Text} (h : encodable userPrompt = true) (hne : content ≠ []) :
    create .lenient (answering content) userPrompt = .ok content := by
  have hsends : Sends .lenient (answering content) userPrompt :=
    ⟨⟨[], [], none⟩, rfl, by simpa [Sdk.builds, Sdk.lenient, encodable] using h⟩
  exact create_eq_ok.mpr ⟨hsends, hne, [], rfl⟩

theorem completeJson_answering (depth : Nat) {content userPrompt : Text} (h : encodable userPrompt = true)
    (hne : content ≠ []) :
    completeJson .lenient depth (answering content) userPrompt = (Json.loads depth content).mapError loadsExc := by
  rw [completeJson, create_answering h hne]
  rfl

/-- An intent with a lone surrogate is accepted, and the prompt for the plan cannot be encoded. -/
example : (match (handleQuestion (C := Unit) .small .exact .half 900 (fun _ => .error .mcpTransport) [] []
    (clientCalls .lenient 900 (answering (intentWith ",\"\\ud800\"")) (answering []) (answering []))).1 with
    | .ok (.failed _ code _) => decide (code = .internalError)
    | _ => false) = true := by
  decide +kernel

end DataAgent.Agent
