import DataAgent.Core.Process

/-!
# The life of the server process

`lifecycle.mcp_lifespan`: the process and the session are entered on an exit stack, the tools are discovered and
checked, and the manager is yielded.

* `ServerProcess` : how the steps end; `discover`, `start`, `mcpLifespan`;
* `start_ok_iff` : when the manager is yielded; `start_error` : what is raised otherwise;
* `start_tidy` : what is entered.
-/

namespace DataAgent.Mcp
open Python DataAgent.Core

/-- How the steps with the server process end. -/
structure ServerProcess where
  enterTransport : Except Failure Unit
  exitTransport : Option Failure → Exit Failure
  enterSession : Except Failure Unit
  exitSession : Option Failure → Exit Failure
  initializeSession : Except Failure Unit
  listTools : Except Failure (List Tool)

section
variable (p : ServerProcess)

/-- `stdio_client(server_params)`. -/
def transport : Manager Resource Failure := ⟨.transport, p.enterTransport, p.exitTransport⟩

/-- `ClientSession(read_stream, write_stream)`. -/
def session : Manager Resource Failure := ⟨.session, p.enterSession, p.exitSession⟩

/-- `except TimeoutError`. -/
def discoveryFailure : Failure → Failure
  | .timeoutError => .mcpStartup .startupTimeout
  | e => e

/-- The inner `try`: the steps under the startup timeout. -/
def discover : Step (List Tool) :=
  Run.reraise discoveryFailure do
    perform .initializeSession p.initializeSession
    perform .listTools p.listTools

/-- An exception of `verify_tool_contracts`. -/
def toolFailure (e : ToolError) : Failure :=
  match e.reason with
  | some reason => .mcpStartup reason
  | none => .other

/-- `except MCPStartupError: raise`, `except Exception`. -/
def startupFailure : Failure → Failure
  | .mcpStartup reason => .mcpStartup reason
  | e => if e.isException then .mcpStartup .startupFailed else e

/-- The outer `try`. -/
def start : Entering Resource Activity Failure Unit :=
  Entering.reraise startupFailure do
    Entering.enter (transport p)
    Entering.enter (session p)
    let tools ← Entering.lift (discover p)
    Entering.lift (.lift ((verifyToolContracts tools).mapError toolFailure))

/-- `async with mcp_lifespan(): body`. -/
def mcpLifespan (body : Step Unit) : Step Unit := generator (start p) .runtimeError body

/-! ## The start -/

/-- Every step succeeds, and the tools are accepted. -/
structure ServerProcess.Starts : Prop where
  transport : p.enterTransport = .ok ()
  session : p.enterSession = .ok ()
  initializeSession : p.initializeSession = .ok ()
  tools : ∃ tools, p.listTools = .ok tools ∧ verifyToolContracts tools = .ok ()

variable {p}

theorem discover_result : (discover p).result =
    (p.initializeSession >>= fun _ => p.listTools).mapError discoveryFailure := by
  rw [discover, Run.result_reraise, Run.result_bind]
  rfl

theorem start_result : (start p).result = (p.enterTransport >>= fun _ => p.enterSession >>= fun _ =>
    (p.initializeSession >>= fun _ => p.listTools).mapError discoveryFailure >>= fun tools =>
      (verifyToolContracts tools).mapError toolFailure).mapError startupFailure := by
  unfold start
  rw [Entering.result_reraise, Entering.result_bind, Entering.result_enter]
  congr 2
  funext
  rw [Entering.result_bind, Entering.result_enter]
  congr 1
  funext
  rw [Entering.result_bind, Entering.result_lift, discover_result]
  rfl

/-- The manager is yielded exactly if every step succeeds and the tools are accepted. -/
theorem start_ok_iff : (start p).result = .ok () ↔ p.Starts := by
  rw [start_result, mapError_eq_ok, seq_eq_ok, seq_eq_ok, bind_eq_ok]
  simp only [mapError_eq_ok, seq_eq_ok]
  exact ⟨fun ⟨h1, h2, tools, ⟨h3, h4⟩, h5⟩ => ⟨h1, h2, h3, tools, h4, h5⟩,
    fun ⟨h1, h2, h3, tools, h4, h5⟩ => ⟨h1, h2, tools, ⟨h3, h4⟩, h5⟩⟩

/-- Whatever goes wrong is a startup error with a reason, but for what is no `Exception`. -/
theorem start_error {e : Failure} (h : (start p).result = .error e) :
    e.isException = false ∨ ∃ reason, e = .mcpStartup reason := by
  rw [start_result, mapError_eq_error] at h
  obtain ⟨e', -, rfl⟩ := h
  unfold startupFailure
  split
  · exact Or.inr ⟨_, rfl⟩
  · split
    · exact Or.inr ⟨_, rfl⟩
    · rename_i hno
      exact Or.inl (by simpa using hno)

/-! ## What is open -/

theorem discover_uses {o : Finset Resource} (h : {.transport, .session} ⊆ o) :
    Run.Only (Uses needs o) (discover p) := by
  unfold discover
  refine Run.Only.reraise (Run.Only.bind ?_ fun _ => ?_) _
  · exact uses_perform h _
  · exact uses_perform h _

/-- The session is entered on top of the transport, and the tools are asked for inside both. -/
theorem start_tidy {o : Finset Resource} (ht : .transport ∉ o) (hs : .session ∉ o) : Tidy needs o (start p) := by
  unfold start
  refine Tidy.reraise (Tidy.bind (tidy_enter ht) fun _ h => ?_) _
  rw [Entering.result_enter] at h
  rw [Entering.entered_enter h]
  refine Tidy.bind (tidy_enter ?_) fun _ h => ?_
  · simpa [session, resources, transport] using hs
  rw [Entering.result_enter] at h
  rw [Entering.entered_enter h]
  refine Tidy.bind (tidy_lift (discover_uses ?_)) fun tools _ => ?_
  · intro r hr
    simp [resources, transport, session] at hr ⊢
    tauto
  · exact tidy_lift (Run.only_lift _)

theorem ServerProcess.Starts.discover (hp : p.Starts) : ∃ tools, (discover p).result = .ok tools := by
  obtain ⟨tools, htools, -⟩ := hp.tools
  refine ⟨tools, ?_⟩
  rw [discover_result, hp.initializeSession, htools]
  rfl

theorem start_entered (h : (start p).result = .ok ()) : (start p).entered = [session p, transport p] := by
  have hp := start_ok_iff.mp h
  obtain ⟨tools, hdiscover⟩ := hp.discover
  show Entering.entered (_ >>= _) = _
  rw [Entering.entered_bind ((Entering.result_enter _).trans hp.transport),
    Entering.entered_bind ((Entering.result_enter _).trans hp.session),
    Entering.entered_bind hdiscover, Entering.entered_enter hp.session, Entering.entered_enter hp.transport]
  rfl

theorem start_effects (h : (start p).result = .ok ()) : (start p).effects =
    [.opened .transport, .opened .session, .did .initializeSession, .did .listTools] := by
  have hp := start_ok_iff.mp h
  obtain ⟨tools, hdiscover⟩ := hp.discover
  have heffects : (discover p).effects = [.did .initializeSession, .did .listTools] := by
    show (perform .initializeSession p.initializeSession >>= fun _ => perform .listTools p.listTools).effects = _
    rw [Run.bind_of_ok (a := ()) hp.initializeSession]
    rfl
  show Run.effects (Entering.toRun (_ >>= _)) = _
  rw [Entering.effects_bind ((Entering.result_enter _).trans hp.transport),
    Entering.effects_bind ((Entering.result_enter _).trans hp.session),
    Entering.effects_bind hdiscover, Entering.effects_enter hp.transport, Entering.effects_enter hp.session,
    Entering.effects_lift, heffects]
  rfl

theorem mem_start_entered {m : Manager Resource Failure} (h : m ∈ (start p).entered) :
    m = session p ∨ m = transport p := by
  rcases Entering.mem_entered_bind h with h | ⟨_, h⟩
  · exact Or.inr (Entering.mem_entered_enter h)
  rcases Entering.mem_entered_bind h with h | ⟨_, h⟩
  · exact Or.inl (Entering.mem_entered_enter h)
  rcases Entering.mem_entered_bind h with h | ⟨_, h⟩
  · simp at h
  · simp at h

end

end DataAgent.Mcp
