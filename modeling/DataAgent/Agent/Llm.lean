import DataAgent.Python.Json

/-!
# The language model client

The exceptions that the stages of a question tell apart, and `OpenAICompatibleLLMClient` for every behaviour of
the provider.

* `Sdk`, `Sdk.builds` : which clients and which requests the SDK makes;
* `create` : one call of the provider, classified; `completeJson`, `completeText`;
* **`create_unclassified_iff`** : the failures of a call that are not classified.
-/

namespace DataAgent.Agent
open Python

/-- The exceptions as the `except` clauses of the service tell them apart. -/
inductive Exc where
  | llmUnavailable (message reason : String)
  | jsonDecode
  | intentContractViolation (message : String)
  | metadataNotFound (message : String)
  | queryPlanInvalid (message : String)
  | sqlRejected (message : String)
  | mcpToolExecution
  | mcpTransport
  /-- `pydantic.ValidationError`. -/
  | validation
  /-- Any other `Exception`. -/
  | other
  deriving DecidableEq, Repr

/-! ## The client -/

structure Settings where
  llmProvider : Option Text
  llmModel : Option Text
  llmApiKey : Option Text
  llmBaseUrl : Option Text

/-- The arguments of `AsyncOpenAI` that vary, and the model. -/
structure Connection where
  apiKey : Text
  model : Text
  baseUrl : Option Text
  deriving DecidableEq, Repr

/-- `(value or "").strip()`. -/
def stripped (value : Option Text) : Text := strip (value.getD [])

/-- `if not ok: raise LLMUnavailableError(message, reason="configuration_error")`. -/
def requireSetting (ok : Bool) (message : String) : Except Exc Unit :=
  raiseUnless ok (.llmUnavailable message "configuration_error")

/-- `_validate_settings`. -/
def validateSettings (settings : Settings) : Except Exc Connection := do
  let provider := stripped settings.llmProvider
  let model := stripped settings.llmModel
  let apiKey := stripped settings.llmApiKey
  let baseUrl := if (stripped settings.llmBaseUrl).isEmpty then none else some (stripped settings.llmBaseUrl)
  requireSetting (!(model.isEmpty || apiKey.isEmpty)) "LLM_MODEL and LLM_API_KEY must be configured"
  requireSetting (baseUrl.isSome || provider = "openai".toList)
    "LLM_PROVIDER must be exactly \"openai\" when LLM_BASE_URL is not set"
  requireSetting (baseUrl.isNone || !provider.isEmpty) "LLM_PROVIDER must not be blank when LLM_BASE_URL is set"
  return ⟨apiKey, model, baseUrl⟩

/-- What the SDK takes. -/
structure Sdk where
  /-- `AsyncOpenAI` is made of these arguments. -/
  constructs : Connection → Bool
  /-- The key can be put in a header. -/
  authorizes : Connection → Bool

/-- A request can be made: its body is encoded as UTF-8. The system prompts are constants without surrogates. -/
def Sdk.builds (sdk : Sdk) (connection : Connection) (userPrompt : Text) : Bool :=
  sdk.authorizes connection && encodable connection.model && encodable userPrompt

section
variable (sdk : Sdk)

/-- The client of these settings, which are nothing if `get_settings` raises its `ValidationError`. -/
def connectionOf (settings : Option Settings) : Except Exc Connection :=
  match settings with
  | none => .error .validation
  | some settings => do
    let connection ← validateSettings settings
    raiseUnless (sdk.constructs connection) .other
    return connection

/-- `_ensure_client`: the client made before, or of the settings. -/
def ensureClient (cached : Option Connection) (settings : Option Settings) : Except Exc Connection :=
  match cached with
  | some connection => .ok connection
  | none => connectionOf sdk settings

/-! ## A call -/

/-- What the provider does: a response with the content of each choice, or an exception. -/
inductive Reply where
  | response (choices : List (Option Text))
  | timeoutError
  | rateLimitError
  | openAIError
  deriving DecidableEq, Repr

/-- The part of `_create` from the reply on. -/
def Reply.content : Reply → Except Exc Text
  | timeoutError => .error (.llmUnavailable "LLM call timed out" "timeout")
  | rateLimitError => .error (.llmUnavailable "LLM call was rate limited" "rate_limited")
  | openAIError => .error (.llmUnavailable "LLM call failed" "provider_error")
  -- `response.choices[0]`
  | response [] => .error .other
  | response (content :: _) =>
    if (content.getD []).isEmpty then .error (.llmUnavailable "LLM returned an empty response" "empty_response")
    else .ok (content.getD [])

/-- One call of the client: what was made before, the settings it would read, the provider's reply. -/
structure Attempt where
  cached : Option Connection
  settings : Option Settings
  reply : Reply

/-- `_create`. A request that cannot be made raises a `UnicodeEncodeError`, which is no `OpenAIError`. -/
def create (a : Attempt) (userPrompt : Text) : Except Exc Text := do
  let connection ← ensureClient sdk a.cached a.settings
  raiseUnless (sdk.builds connection userPrompt) .other
  a.reply.content

/-- A failure of `json.loads` as an exception. -/
def loadsExc : LoadsError → Exc
  | .jsonDecodeError => .jsonDecode
  | _ => .other

/-- `complete_json`, with `depth` levels of nesting before the recursion limit. -/
def completeJson (depth : Nat) (a : Attempt) (userPrompt : Text) : Except Exc Json := do
  let content ← create sdk a userPrompt
  (Json.loads depth content).mapError loadsExc

def completeText (a : Attempt) (userPrompt : Text) : Except Exc Text := create sdk a userPrompt

/-! ## Failures -/

/-- The client is there, and the request can be made with it. -/
def Sends (a : Attempt) (userPrompt : Text) : Prop :=
  ∃ connection, ensureClient sdk a.cached a.settings = .ok connection ∧ sdk.builds connection userPrompt = true

/-- Why a call fails with an exception that no handler turns into an `LLMUnavailableError`. -/
inductive Unclassified (a : Attempt) (userPrompt : Text) : Prop
  /-- The settings cannot be read. -/
  | unread (hc : a.cached = none) (hs : a.settings = none)
  /-- They are complete, but the SDK makes no client of them. -/
  | unmade {settings : Settings} {connection : Connection} (hc : a.cached = none) (hs : a.settings = some settings)
      (hv : validateSettings settings = .ok connection) (h : sdk.constructs connection = false)
  /-- No request can be made with the client. -/
  | unbuilt {connection : Connection} (hc : ensureClient sdk a.cached a.settings = .ok connection)
      (h : sdk.builds connection userPrompt = false)
  | noChoice (hs : Sends sdk a userPrompt) (h : a.reply = .response [])

end

section
variable {sdk : Sdk} {a : Attempt} {userPrompt : Text} {e : Exc}

/-- `LLMUnavailableError`. -/
def Exc.IsUnavailable (e : Exc) : Prop := ∃ message reason, e = .llmUnavailable message reason

theorem requireSetting_bind_error {α : Type} {ok : Bool} {message : String} {f : Unit → Except Exc α}
    (h : (requireSetting ok message >>= f) = .error e) : e.IsUnavailable ∨ f () = .error e := by
  cases ok with
  | true => exact Or.inr h
  | false => exact Or.inl ⟨message, _, (Except.error.inj h).symm⟩

theorem validateSettings_error {settings : Settings} (h : validateSettings settings = .error e) :
    e.IsUnavailable := by
  unfold validateSettings at h
  rcases requireSetting_bind_error h with h | h
  · exact h
  rcases requireSetting_bind_error h with h | h
  · exact h
  rcases requireSetting_bind_error h with h | h
  · exact h
  · simp [pure, Except.pure] at h

/-- A reply without choices is the only one that is not classified. -/
theorem Reply.content_error {reply : Reply} (h : reply.content = .error e) :
    e.IsUnavailable ∨ (e = .other ∧ reply = .response []) := by
  unfold Reply.content at h
  split at h
  · exact Or.inl ⟨_, _, (Except.error.inj h).symm⟩
  · exact Or.inl ⟨_, _, (Except.error.inj h).symm⟩
  · exact Or.inl ⟨_, _, (Except.error.inj h).symm⟩
  · exact Or.inr ⟨(Except.error.inj h).symm, rfl⟩
  · split at h
    · exact Or.inl ⟨_, _, (Except.error.inj h).symm⟩
    · simp at h

theorem create_of_sends (h : Sends sdk a userPrompt) : create sdk a userPrompt = a.reply.content := by
  obtain ⟨connection, hc, hb⟩ := h
  simp [create, hc, hb, raiseUnless, bind, Except.bind]

theorem ensureClient_error (h : ensureClient sdk a.cached a.settings = .error e) :
    a.cached = none ∧ connectionOf sdk a.settings = .error e := by
  unfold ensureClient at h
  split at h
  · simp at h
  · exact ⟨‹_›, h⟩

/-- A call either sends its request, or ends without. -/
theorem create_cases (sdk : Sdk) (a : Attempt) (userPrompt : Text) : Sends sdk a userPrompt ∨
    (∃ e, ensureClient sdk a.cached a.settings = .error e ∧ create sdk a userPrompt = .error e) ∨
    ∃ connection, ensureClient sdk a.cached a.settings = .ok connection ∧ sdk.builds connection userPrompt = false ∧
      create sdk a userPrompt = .error .other := by
  cases hc : ensureClient sdk a.cached a.settings with
  | error e => exact Or.inr (Or.inl ⟨e, rfl, by simp [create, hc, bind, Except.bind]⟩)
  | ok connection =>
    cases hb : sdk.builds connection userPrompt with
    | true => exact Or.inl ⟨connection, hc, hb⟩
    | false => exact Or.inr (Or.inr ⟨connection, rfl, hb, by simp [create, hc, hb, raiseUnless, bind, Except.bind]⟩)

/-- A failure to make the client is classified, or one of the first two. -/
theorem connectionOf_error (hc : a.cached = none) (h : connectionOf sdk a.settings = .error e) :
    e.IsUnavailable ∨ (e = .validation ∨ e = .other) ∧ Unclassified sdk a userPrompt := by
  unfold connectionOf at h
  split at h
  · rename_i hs
    exact Or.inr ⟨Or.inl (Except.error.inj h).symm, .unread hc hs⟩
  · rename_i settings hs
    cases hv : validateSettings settings with
    | error e' =>
      obtain rfl : e' = e := by simpa [hv, bind, Except.bind] using h
      exact Or.inl (validateSettings_error hv)
    | ok connection =>
      cases hm : sdk.constructs connection with
      | true => simp [hv, hm, raiseUnless, bind, Except.bind, pure, Except.pure] at h
      | false =>
        obtain rfl : .other = e := by simpa [hv, hm, raiseUnless, bind, Except.bind] using h
        exact Or.inr ⟨Or.inr rfl, .unmade hc hs hv hm⟩

/-- A failure of a call is an `LLMUnavailableError`, or it is one of these. -/
theorem create_error (h : create sdk a userPrompt = .error e) :
    e.IsUnavailable ∨ (e = .validation ∨ e = .other) ∧ Unclassified sdk a userPrompt := by
  rcases create_cases sdk a userPrompt with hs | ⟨e', he, hcreate⟩ | ⟨connection, hc, hb, hcreate⟩
  · rw [create_of_sends hs] at h
    exact (Reply.content_error h).imp_right fun ⟨he, hr⟩ => ⟨Or.inr he, .noChoice hs hr⟩
  · obtain rfl : e' = e := Except.error.inj (hcreate.symm.trans h)
    obtain ⟨hc, hconnection⟩ := ensureClient_error he
    exact connectionOf_error hc hconnection
  · obtain rfl : .other = e := Except.error.inj (hcreate.symm.trans h)
    exact Or.inr ⟨Or.inr rfl, .unbuilt hc hb⟩

theorem create_of_unclassified (h : Unclassified sdk a userPrompt) :
    ∃ e, create sdk a userPrompt = .error e ∧ (e = .validation ∨ e = .other) := by
  cases h with
  | unread hc hs =>
    exact ⟨.validation, by simp [create, ensureClient, connectionOf, hc, hs, bind, Except.bind], by simp⟩
  | unmade hc hs hv hm =>
    refine ⟨.other, ?_, by simp⟩
    simp [create, ensureClient, connectionOf, hc, hs, hv, hm, raiseUnless, bind, Except.bind]
  | unbuilt hc hb => exact ⟨.other, by simp [create, hc, hb, raiseUnless, bind, Except.bind], by simp⟩
  | noChoice hs hr => exact ⟨.other, by rw [create_of_sends hs, hr]; rfl, by simp⟩

/-- **The failures of a call that are not classified.** -/
theorem create_unclassified_iff : (∃ e, create sdk a userPrompt = .error e ∧ ¬ e.IsUnavailable) ↔
    Unclassified sdk a userPrompt := by
  constructor
  · rintro ⟨e, h, hne⟩
    exact ((create_error h).resolve_left hne).2
  · intro h
    obtain ⟨e, he, hcases⟩ := create_of_unclassified h
    refine ⟨e, he, ?_⟩
    rintro ⟨message, reason, rfl⟩
    simp at hcases

end

end DataAgent.Agent
