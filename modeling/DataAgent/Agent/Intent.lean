import DataAgent.Agent.Llm

/-!
# Runtime intents

`intent_resolver`: the RuntimeIntent contract and the stage that asks the model for one. What pydantic does with a
value of the declared types is a parameter (`Pydantic` in `Plan`); the model's own validator is `violation`.
-/

namespace DataAgent.Agent
open Python

inductive RequestType where
  | lookup | aggregation | comparison | ranking | complexInvestigation
  deriving DecidableEq, Repr

inductive RequestedOutput where
  | list | summary | ranking | investigation
  deriving DecidableEq, Repr

/-- A value of `str | int | float | bool`; the digits of a float are kept as text. -/
inductive Scalar where
  | str (s : Text)
  | int (n : Int)
  | float (digits : Text)
  | bool (b : Bool)
  deriving DecidableEq, Repr

structure IntentFields where
  requestType : RequestType
  subject : Text
  requestedConcepts : List Text
  requestedOutput : RequestedOutput
  explicitParameters : List (Text × Scalar)
  requiresClarification : Bool
  clarificationReason : Option Text
  deriving DecidableEq, Repr

def isBlank (t : Text) : Bool := (strip t).isEmpty

/-- `RuntimeIntent._check_invariants`: the message of the `ValueError`, if there is one. -/
def IntentFields.violation (f : IntentFields) : Option String :=
  if f.requiresClarification then
    if f.clarificationReason.all isBlank then
      some "clarification_reason must be a non-blank string when requires_clarification is true"
    else none
  else if f.clarificationReason.isSome then
    some "clarification_reason must be null when requires_clarification is false"
  else if f.requestedConcepts.isEmpty then
    some "requested_concepts must not be empty when requires_clarification is false"
  else if isBlank f.subject then some "subject must not be blank when requires_clarification is false"
  else none

/-- An intent that meets the contract. -/
structure RuntimeIntent extends IntentFields where
  valid : toIntentFields.violation = none

/-- `generate_runtime_intent`, from the outcome of the call and with `fields` for the types pydantic checks. -/
def generateRuntimeIntent {V : Type} (fields : V → Except Exc IntentFields) (call : Except Exc V) :
    Except Exc RuntimeIntent :=
  match call with
  | .error .jsonDecode => .error (.intentContractViolation "LLM response is not valid JSON")
  | .error e => .error e
  | .ok raw =>
    match fields raw with
    | .error .validation => .error (.intentContractViolation "RuntimeIntent Contract violation")
    | .error e => .error e
    | .ok f =>
      if h : f.violation = none then .ok { toIntentFields := f, valid := h }
      else .error (.intentContractViolation "RuntimeIntent Contract violation")

/-- The reason of an intent that asks for clarification is not blank. -/
theorem RuntimeIntent.reason_not_blank (i : RuntimeIntent) (h : i.requiresClarification = true) :
    ∃ reason, i.clarificationReason = some reason ∧ isBlank reason = false := by
  have hv := i.valid
  unfold IntentFields.violation at hv
  rw [if_pos h] at hv
  split_ifs at hv with hr
  cases hc : i.clarificationReason with
  | none => simp [hc] at hr
  | some reason => exact ⟨reason, rfl, by simpa [hc] using hr⟩

end DataAgent.Agent
