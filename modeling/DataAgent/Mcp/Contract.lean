import DataAgent.Mcp.Session
import DataAgent.Mcp.ToolResult

/-!
# The contract of the client manager

A call of a tool returns a dict of its result model, or raises one of the two exceptions of the manager.

* `ResultModel` : what pydantic does for a result model; `inspectSchema`, `executeReadonlyQuery`;
* **`contract_iff`** : exactly the exceptions that no `except` clause names come through;
* **`Settled.of_reaches`** : any number of callers of the shared session, in any order.
-/

namespace DataAgent.Mcp
open Transition System

/-- A result model: its instances, `model_validate`, which gives nothing for a `ValidationError`, and
`model_dump`. -/
structure ResultModel (J D : Type) where
  Instance : Type
  modelValidate : J → Option Instance
  modelDump : Instance → D

section
variable {J D : Type} (model : ResultModel J D)

/-- A dict of the model: the dump of an instance that was validated. -/
def ResultModel.Satisfied (dict : D) : Prop :=
  ∃ structured validated, model.modelValidate structured = some validated ∧ model.modelDump validated = dict

/-- The end of a public method: the instance is dumped. -/
def dumpResult (toolName : String) (unavailable : Bool) (o : Outcome (CallToolResult J)) : Except ClientError D :=
  (readTool model.modelValidate toolName unavailable o).2.map model.modelDump

/-- `MCPClientManager.inspect_schema`, by the flag and by how `session.call_tool` ends. -/
def inspectSchema (unavailable : Bool) (o : Outcome (CallToolResult J)) : Except ClientError D :=
  dumpResult model "inspect_schema" unavailable o

def executeReadonlyQuery (unavailable : Bool) (o : Outcome (CallToolResult J)) : Except ClientError D :=
  dumpResult model "execute_readonly_query" unavailable o

/-- What a caller may get: a dict of the model, `MCPToolExecutionError`, `MCPTransportError`, or its own
cancellation. -/
def Honoured : Except ClientError D → Prop
  | .ok dict => model.Satisfied dict
  | .error (.toolExecution _ _) => True
  | .error (.transport _ _) => True
  | .error (.raised e) => e = .cancelledError

variable {model}

/-- Every result object gives a dict of the model or a tool error. -/
theorem honoured_parseResult (toolName : String) (result : CallToolResult J) :
    Honoured model ((parseResult model.modelValidate toolName result).map model.modelDump) := by
  unfold parseResult
  split
  · trivial
  · split
    · trivial
    · rename_i structured _
      split
      · trivial
      · rename_i validated hvalidated
        exact ⟨structured, validated, hvalidated, rfl⟩

/-- The exceptions that the handlers let through. -/
theorem handle_raised_raised {ρ : Type} (e f : Exc) :
    (handle (.raised e : Outcome ρ)).2 = .raised f ↔ e = f ∧ (f = .cancelledError ∨ f = .other) := by
  cases e with
  | mcpError code =>
    have hne : ¬ ((Exc.mcpError code = f) ∧ (f = .cancelledError ∨ f = .other)) := by
      rintro ⟨rfl, h | h⟩ <;> simp at h
    refine iff_of_false ?_ hne
    by_cases hcode : code = connectionClosed <;> simp [handle, Exc.isTimeoutError, Exc.mcpCode, hcode]
  | cancelledError | other =>
    simp only [handle, Exc.isTimeoutError, Exc.mcpCode, Exc.isTransportClosed, Bool.false_eq_true, if_false,
      Ending.raised.injEq]
    constructor
    · rintro rfl
      simp
    · exact fun h => h.1
  | _ =>
    simp only [handle, Exc.isTimeoutError, Exc.mcpCode, Exc.isTransportClosed, Bool.false_eq_true, if_false, if_true]
    refine iff_of_false (by simp) ?_
    rintro ⟨rfl, h | h⟩ <;> simp at h

/-- An ending of `_call_tool`, with the result read as the tool's. -/
def readEnding (model : ResultModel J D) (toolName : String) (ending : Ending (CallToolResult J)) :
    Except ClientError D :=
  (ending.result.bind (parseResult model.modelValidate toolName)).map model.modelDump

theorem dumpResult_eq (toolName : String) (unavailable : Bool) (o : Outcome (CallToolResult J)) :
    dumpResult model toolName unavailable o = readEnding model toolName (callTool unavailable o).2 := rfl

theorem handle_returned_iff {ρ : Type} {o : Outcome ρ} {result : ρ} :
    (handle o).2 = .returned result ↔ o = .returned result := by
  cases o with
  | returned r => simp [handle]
  | raised e =>
    refine iff_of_false (fun h => ?_) (by simp)
    simp only [handle] at h
    split at h
    · simp at h
    · split at h
      · split at h <;> simp at h
      · split at h <;> simp at h

/-- With the flag down, what is read is the result that the session returned. -/
theorem readTool_eq_ok {M : Type} {modelValidate : J → Option M} {toolName : String} {unavailable : Bool}
    {o : Outcome (CallToolResult J)} {validated : M} :
    (readTool modelValidate toolName unavailable o).2 = .ok validated ↔ unavailable = false ∧
      ∃ result, o = .returned result ∧ parseResult modelValidate toolName result = .ok validated := by
  cases unavailable with
  | true => simp [readTool, callTool, Ending.unavailable, Ending.result, Except.bind]
  | false =>
    have hread : (readTool modelValidate toolName false o).2 =
        (handle o).2.result.bind (parseResult modelValidate toolName) := rfl
    rw [hread]
    simp only [← handle_returned_iff, true_and]
    cases (handle o).2 <;> simp [Ending.result, Except.bind]

/-- What a validated result comes from. -/
theorem parseResult_eq_ok {M : Type} {modelValidate : J → Option M} {toolName : String} {result : CallToolResult J}
    {validated : M} : parseResult modelValidate toolName result = .ok validated ↔ result.isError = false ∧
      ∃ structured, result.structuredContent = some structured ∧ modelValidate structured = some validated := by
  unfold parseResult
  cases herror : result.isError with
  | true => simp
  | false =>
    cases hstructured : result.structuredContent with
    | none => simp
    | some structured => cases hvalidated : modelValidate structured <;> simp [hvalidated]

/-- Only an exception that came through breaks the contract. -/
theorem honoured_readEnding (toolName : String) (ending : Ending (CallToolResult J)) :
    Honoured model (readEnding model toolName ending) ↔ ∀ e, ending = .raised e → e = .cancelledError := by
  cases ending with
  | returned result => exact iff_of_true (honoured_parseResult toolName result) (by simp)
  | transportError message reason => exact iff_of_true trivial (by simp)
  | toolProtocolError message => exact iff_of_true trivial (by simp)
  | raised e =>
    constructor
    · rintro (h : e = .cancelledError) f hf
      exact Ending.raised.inj hf ▸ h
    · exact fun h => h e rfl

theorem honoured_dumpResult (toolName : String) (unavailable : Bool) (o : Outcome (CallToolResult J)) :
    Honoured model (dumpResult model toolName unavailable o) ↔ unavailable = true ∨ o ≠ .raised .other := by
  rw [dumpResult_eq, honoured_readEnding]
  cases unavailable with
  | true => simp [callTool, Ending.unavailable]
  | false =>
    simp only [callTool, Bool.false_eq_true, if_false, false_or]
    cases o with
    | returned result => simp [handle]
    | raised e =>
      simp only [handle_raised_raised, ne_eq, Outcome.raised.injEq]
      constructor
      · rintro h rfl
        have hcancelled := h .other ⟨rfl, Or.inr rfl⟩
        simp at hcancelled
      · rintro h f ⟨rfl, hf⟩
        exact hf.resolve_right h

end

/-- **The contract holds of a call unless `session.call_tool` ends in an exception that no clause names.** With the
flag set it is not called. -/
theorem contract_iff {J D : Type} (schemaModel queryModel : ResultModel J D) (unavailable : Bool)
    (o : Outcome (CallToolResult J)) :
    (Honoured schemaModel (inspectSchema schemaModel unavailable o) ∧
      Honoured queryModel (executeReadonlyQuery queryModel unavailable o)) ↔
    unavailable = true ∨ o ≠ .raised .other := by
  unfold inspectSchema executeReadonlyQuery
  rw [honoured_dumpResult, honoured_dumpResult, and_self]

/-- The exception for structured content that fails the output schema leaves as it is. -/
theorem schema_failure_raised : ¬ ∀ (J D : Type) (model : ResultModel J D) (unavailable : Bool)
    (o : Outcome (CallToolResult J)), Honoured model (executeReadonlyQuery model unavailable o) := by
  intro h
  have hother : Exc.other = .cancelledError := h Unit Unit ⟨Unit, some, id⟩ false (.raised .other)
  simp at hother

/-! ## The shared session -/

section
variable {ι J D : Type} [DecidableEq ι] {s t : State ι (CallToolResult J)}

/-- Whoever is done has an ending within the contract, for either tool. -/
def Settled (s : State ι (CallToolResult J)) : Prop :=
  ∀ c ending, s.pc c = .ended ending → ∀ e, ending = .raised e → e = .cancelledError

theorem Settled.setPc (h : Settled s) {c : ι} {p : Pc (CallToolResult J)}
    (hp : ∀ ending, p = .ended ending → ∀ e, ending = .raised e → e = .cancelledError) : Settled (s.setPc c p) := by
  intro d ending hd
  by_cases hdc : d = c
  · subst hdc
    rw [setPc_self] at hd
    exact hp ending hd
  · rw [setPc_of_ne s p hdc] at hd
    exact h d ending hd

theorem Settled.leave (h : Settled s) (c : ι) {o : Outcome (CallToolResult J)} (ho : o ≠ .raised .other) :
    Settled (s.leave c o) := by
  intro d ending hd e he
  by_cases hdc : d = c
  · subst hdc
    rw [leave_self] at hd
    have hending : (handle o).2 = ending := by simpa using hd
    subst he
    cases o with
    | returned result => simp [handle] at hending
    | raised f =>
      obtain ⟨rfl, hf⟩ := (handle_raised_raised f e).mp hending
      exact hf.resolve_right fun hother => ho (congrArg Outcome.raised hother)
  · rw [leave_of_ne s o hdc] at hd
    exact h d ending hd e he

/-- The step lemma: no call ends in an exception that the clauses miss. -/
theorem Settled.step {a : Action ι (CallToolResult J)} (h : Settled s) (ha : ∀ c, a ≠ .finish c (.raised .other))
    (hs : Mcp.step s a = some t) : Settled t := by
  cases a with
  | arrive c =>
    obtain ⟨-, rfl⟩ := step_arrive.mp hs
    refine h.setPc ?_
    split <;> simp [Ending.unavailable]
  | acquire c =>
    obtain ⟨-, -, rfl⟩ := step_acquire.mp hs
    split
    · exact h.setPc (by simp [Ending.unavailable])
    · exact h.setPc (p := .inside) (by simp)
  | send c =>
    obtain ⟨-, -, rfl⟩ := step_send.mp hs
    exact h
  | answer c =>
    obtain ⟨-, rfl⟩ := step_answer.mp hs
    exact h
  | finish c o =>
    obtain ⟨-, rfl⟩ := step_finish.mp hs
    exact h.leave c fun ho => ha c (congrArg (Action.finish c) ho)
  | cancel c =>
    rcases step_cancel.mp hs with ⟨-, rfl⟩ | ⟨-, rfl⟩
    · exact h.setPc (by simp)
    · exact h.leave c (by simp)

/-- **Any number of callers in any order**: in a run without such an exception every call that is done keeps to the
contract of its tool. -/
theorem Settled.of_reaches (h : (manager ι (CallToolResult J)).Reaches (fun _ a => ∀ c, a ≠ .finish c (.raised .other))
    .start t) : Settled t :=
  h.invariant (fun _ _ _ hi ha hstep => hi.step ha hstep) (by simp [Settled, State.start])

omit [DecidableEq ι] in
theorem Settled.honoured (h : Settled s) {c : ι} {ending : Ending (CallToolResult J)} (hc : s.pc c = .ended ending)
    (model : ResultModel J D) (toolName : String) : Honoured model (readEnding model toolName ending) :=
  (honoured_readEnding toolName ending).mpr (h c ending hc)

end

end DataAgent.Mcp
