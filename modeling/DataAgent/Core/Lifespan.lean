import DataAgent.Agent.LlmClient
import DataAgent.Agent.Startup
import DataAgent.Db.Admin
import DataAgent.Mcp.Contract
import DataAgent.Mcp.Lifecycle

/-!
# The lifespan of the application

`lifespan.lifespan`: the settings, the admin database, the server process, the catalog and its mapping, the requests,
and the way down, for every behaviour of what it calls.

* `World` : that behaviour; `lifespan`;
* `checks` : the decision alone; **`checks_ok_iff`** : when the application comes up;
* **`lifespan_ledger`** : nothing is used that is not open, and all is closed at the end;
* **`lifespan_serves`** : what has been done when the first request is answered;
* **`lifespan_result`** : how the lifespan ends.
-/

namespace DataAgent.Core
open Python

/-! ## Settings -/

inductive AppEnv where
  | localEnv | development | staging | production
  deriving DecidableEq, Repr

/-- The values of the `Literal`. -/
def appEnvs : List (Text × AppEnv) :=
  [("local".toList, .localEnv), ("development".toList, .development), ("staging".toList, .staging),
    ("production".toList, .production)]

/-- The variables of `Settings`, from the process or `.env`. -/
structure Environment extends Agent.Settings where
  appEnv : Option Text
  adminDbPath : Option Text

structure Settings extends Agent.Settings where
  appEnv : AppEnv
  adminDbPath : Text

/-- `get_settings`. -/
def getSettings (env : Environment) : Except Failure Settings :=
  match appEnvs.lookup (env.appEnv.getD "local".toList) with
  | none => .error .validation
  | some appEnv => do
    let adminDbPath := env.adminDbPath.getD "./data/admin.db".toList
    raiseUnless (!(strip adminDbPath).isEmpty) .validation
    return { env.toSettings with appEnv, adminDbPath }

/-! ## The run -/

/-- How what the lifespan calls behaves. -/
structure World where
  environment : Environment
  files : Db.FileSystem
  adminDb : Db.AdminDb
  server : Mcp.ServerProcess
  /-- How `session.call_tool("inspect_schema", ...)` ends. -/
  inspect : Mcp.Outcome (Mcp.CallToolResult Json)
  sdk : Agent.Sdk
  /-- What the requests make the application do. -/
  works : List Agent.Work
  /-- How the `yield` ends. -/
  shutdown : Except Failure Unit
  /-- How closing the client of the provider ends. -/
  close : Except Failure Unit

def clientFailure : Mcp.ClientError → Failure
  | .toolExecution _ _ => .mcpCall
  | .transport _ _ => .mcpCall
  | .raised .cancelledError => .baseException
  | .raised _ => .other

def catalogFailure : Agent.StartupError → Failure
  | .invalidResultContract => .mcpCall
  | .validation => .validation
  | .businessMetadataMapping message => .businessMetadataMapping message

/-- `_InspectSchemaToolResult`. -/
def schemaModel : Mcp.ResultModel Json Json :=
  ⟨Agent.InspectSchemaToolResult, Agent.inspectSchemaToolResult, Agent.InspectSchemaToolResult.dump⟩

section
variable (w : World)

/-- `mcp_client_manager.inspect_schema`, the first call of the manager. -/
def inspectSchema : Except Failure Json := (Mcp.inspectSchema schemaModel false w.inspect).mapError clientFailure

def setState (name : String) : Step Unit := perform (.setState name) (.ok ())

def log (message : String) : Step Unit := perform (.log message) (.ok ())

/-- The `yield`. -/
def serve : Step Unit := ⟨.did .serve :: (Agent.runWork w.sdk none w.works).trace, w.shutdown⟩

/-- The catalog is built and held against the business metadata. -/
def checkMapping (inspectSchemaResult : Json) : Except Failure Unit :=
  (Agent.checkCatalog inspectSchemaResult).mapError catalogFailure

/-- The body of `async with _mcp_lifespan()`. -/
def withManager : Step Unit := do
  let inspectSchemaResult ← perform (.callTool "inspect_schema") (inspectSchema w)
  Run.lift (checkMapping inspectSchemaResult)
  setState "mcp_client_manager"
  setState "physical_metadata_catalog"
  serve w

/-- The body of the `try`. -/
def guarded : Step Unit := do
  Db.prepareAdminDbSchema w.adminDb
  setState "admin_db_engine"
  setState "admin_db_sessionmaker"
  setState "llm_client"
  Mcp.mcpLifespan w.server (withManager w)
  log "Application shutdown"

/-- `build_admin_db_engine`. -/
def openEngine (adminDbPath : Text) : Step Unit :=
  match Db.buildAdminDbEngine w.files w.adminDb adminDbPath with
  | .ok _ => .perform (.opened .engine) (.ok ())
  | .error e => .raise e

/-- `llm_client.aclose()`: the client is closed if one was made. -/
def aclose (trace : List (Event Resource Activity)) : Step Unit :=
  if .opened .llmClient ∈ trace then .perform (.closed .llmClient) w.close else pure ()

/-- `engine.dispose()`. -/
def dispose : Step Unit := .perform (.closed .engine) w.adminDb.dispose

def lifespan : Step Unit := do
  log "Application startup"
  let settings ← Run.lift (getSettings w.environment)
  openEngine w settings.adminDbPath
  (guarded w).andFinally ((aclose w (guarded w).effects).andFinally (dispose w))

/-- The decision of the startup, without what is done for it. -/
def checks : Except Failure Unit := do
  let settings ← getSettings w.environment
  Db.buildAdminDbEngine w.files w.adminDb settings.adminDbPath
  (Db.prepareAdminDbSchema w.adminDb).result
  (Mcp.start w.server).result
  let inspectSchemaResult ← inspectSchema w
  checkMapping inspectSchemaResult

theorem openEngine_result {w : World} (adminDbPath : Text) :
    (openEngine w adminDbPath).result = Db.buildAdminDbEngine w.files w.adminDb adminDbPath := by
  unfold openEngine
  split <;> simp [*]

/-! ## The ledger -/

variable {w}

/-- A part of the run that may make the client of the provider, and leaves the rest as it is. -/
def MayOpen (o : Finset Resource) (r : Step Unit) : Prop :=
  ledger needs o r.effects = some (if .opened .llmClient ∈ r.effects then insert .llmClient o else o)

theorem not_opened_of_uses {o : Finset Resource} {α : Type} {r : Step α} (h : Run.Only (Uses needs o) r)
    (x : Resource) : .opened x ∉ r.effects := fun hx => h _ hx

theorem MayOpen.bind {o : Finset Resource} {α : Type} {r : Step α} {k : α → Step Unit} (hr : Run.Only (Uses needs o) r)
    (hk : ∀ a, MayOpen o (k a)) : MayOpen o (r >>= k) := by
  unfold MayOpen
  cases h : r.result with
  | error e =>
    rw [Run.bind_of_error h]
    simp [not_opened_of_uses hr, ledger_of_uses hr]
  | ok a =>
    rw [Run.bind_of_ok h]
    simp only [List.mem_append, not_opened_of_uses hr, false_or]
    rw [ledger_append_of (ledger_of_uses hr)]
    exact hk a

theorem events_use {o : Finset Resource} (ho : {.transport, .session, .llmClient} ⊆ o) {sdk : Agent.Sdk}
    (connection : Agent.Connection) (work : Agent.Work) : ∀ e ∈ work.events sdk connection, Uses needs o e := by
  intro e he
  cases work with
  | llm c =>
    rw [Agent.mem_sent he]
    exact Finset.Subset.trans (show ({.llmClient} : Finset Resource) ⊆ _ by decide) ho
  | tool name =>
    rw [List.mem_singleton.mp he]
    exact Finset.Subset.trans (show ({.transport, .session} : Finset Resource) ⊆ _ by decide) ho

/-- The work of the requests, with the session open. -/
theorem runWork_ledger {o : Finset Resource} (ho : {.transport, .session} ⊆ o) (hclient : .llmClient ∉ o)
    (sdk : Agent.Sdk) (works : List Agent.Work) :
    ledger needs o (Agent.runWork sdk none works).trace =
      some (if .opened .llmClient ∈ (Agent.runWork sdk none works).trace then insert .llmClient o else o) := by
  induction works with
  | nil => rfl
  | cons work works ih =>
    cases work with
    | tool name =>
      show ledger needs o (.did (.callTool name) :: _) = _
      rw [ledger, if_pos (show needs (.callTool name) ⊆ o from ho), ih]
      simp [Agent.runWork]
    | llm c =>
      cases h : Agent.connectionOf sdk c.settings with
      | error e =>
        rw [Agent.runWork, Agent.createCall_refused h]
        exact ih
      | ok connection =>
        have hopen : {.transport, .session, .llmClient} ⊆ insert Resource.llmClient o := by
          intro x hx
          simp only [Finset.mem_insert, Finset.mem_singleton] at hx
          rcases hx with rfl | rfl | rfl
          · exact Finset.mem_insert_of_mem (ho (by simp))
          · exact Finset.mem_insert_of_mem (ho (by simp))
          · exact Finset.mem_insert_self _ _
        have hevents : ∀ e ∈ (Agent.Work.llm c :: works).flatMap (Agent.Work.events sdk connection),
            Uses needs (insert .llmClient o) e := by
          intro e he
          obtain ⟨work, -, he⟩ := List.mem_flatMap.mp he
          exact events_use hopen connection work e he
        have htrace : (Agent.runWork sdk none (.llm c :: works)).trace =
            .opened .llmClient :: (Agent.Work.llm c :: works).flatMap (Agent.Work.events sdk connection) := by
          simp [Agent.runWork, Agent.createCall_first h, Agent.runWork_some, Agent.Work.events]
        rw [htrace, ledger, if_neg hclient, ledger_of_uses hevents, if_pos (List.mem_cons_self ..)]

theorem serve_mayOpen {o : Finset Resource} (ho : {.engine, .transport, .session} ⊆ o) (hclient : .llmClient ∉ o) :
    MayOpen o (serve w) := by
  have hsub : {.transport, .session} ⊆ o := Finset.Subset.trans (by decide) ho
  unfold MayOpen serve
  rw [ledger, if_pos (show needs .serve ⊆ o from ho), runWork_ledger hsub hclient]
  simp

theorem withManager_mayOpen {o : Finset Resource} (ho : {.engine, .transport, .session} ⊆ o)
    (hclient : .llmClient ∉ o) : MayOpen o (withManager w) := by
  have hsub : {.transport, .session} ⊆ o := Finset.Subset.trans (by decide) ho
  refine MayOpen.bind (uses_perform hsub _) fun result => MayOpen.bind (Run.only_lift _) fun _ => ?_
  refine MayOpen.bind (uses_perform (Finset.empty_subset o) _) fun _ => ?_
  refine MayOpen.bind (uses_perform (Finset.empty_subset o) _) fun _ => ?_
  exact serve_mayOpen ho hclient

theorem not_opened_start (p : Mcp.ServerProcess) : .opened .llmClient ∉ (Mcp.start p).effects := by
  intro h
  have htidy := Mcp.start_tidy (p := p) (o := {.llmClient}) (by decide) (by decide)
  rcases htidy.mem _ h with ⟨r, hr, he⟩ | h
  · obtain rfl : Resource.llmClient = r := Event.opened.inj he
    rw [resources, List.mem_toFinset] at hr
    obtain ⟨m, hm, hresource⟩ := List.mem_map.mp hr
    exact htidy.fresh.2 m hm (by rw [hresource]; exact Finset.mem_singleton_self _)
  · exact h.elim

/-- The server process adds to what is open around it, and takes it away again. -/
theorem mcpLifespan_mayOpen {p : Mcp.ServerProcess} {o : Finset Resource} {body : Step Unit} (ht : .transport ∉ o)
    (hs : .session ∉ o) (hbody : MayOpen (o ∪ {.transport, .session}) body) : MayOpen o (Mcp.mcpLifespan p body) := by
  let opened : Finset Resource := if .opened .llmClient ∈ body.effects then insert .llmClient o else o
  have hledger : ledger needs o (generator (Mcp.start p) .runtimeError body).effects =
      some (if (Mcp.start p).result.isOk then opened else o) := by
    refine generator_ledger (Mcp.start_tidy ht hs) fun hok => ?_
    have hresources : resources [Mcp.session p, Mcp.transport p] = {.transport, .session} :=
      show ([.session, .transport] : List Resource).toFinset = {.transport, .session} by decide
    rw [Mcp.start_entered hok, hresources, hbody]
    constructor
    · unfold opened
      split
      · rw [Finset.insert_union]
      · rfl
    · have hnot : ∀ x ∈ [Resource.session, .transport], x ∉ opened := by
        unfold opened
        split <;> simp [ht, hs]
      have hnodup : [Resource.session, .transport].Nodup := by decide
      exact ⟨hnodup, fun m hm => hnot _ (List.mem_map_of_mem (f := (·.resource)) hm)⟩
  have hmem : .opened .llmClient ∈ (generator (Mcp.start p) .runtimeError body).effects ↔ _ :=
    mem_generator (by simp)
  unfold MayOpen Mcp.mcpLifespan
  rw [hledger]
  cases h : (Mcp.start p).result <;> simp [hmem, h, not_opened_start, opened, Except.isOk, Except.toBool]

/-- What needs nothing may follow. -/
theorem MayOpen.then {o : Finset Resource} {r k : Step Unit} (hr : MayOpen o r) (hk : Run.Only (Uses needs ∅) k) :
    MayOpen o (r >>= fun _ => k) := by
  cases h : r.result with
  | error e =>
    rw [Run.bind_of_error h]
    exact hr
  | ok a =>
    have hmono : ∀ o' : Finset Resource, ∀ e ∈ k.effects, Uses needs o' e :=
      fun o' e he => (hk e he).mono (Finset.empty_subset _)
    rw [Run.bind_of_ok h]
    unfold MayOpen
    rw [ledger_append_of hr, ledger_of_uses (hmono _)]
    simp [not_opened_of_uses hk]

theorem guarded_mayOpen : MayOpen {.engine} (guarded w) := by
  refine MayOpen.bind (Db.prepareAdminDbSchema_uses (by decide)) fun _ => ?_
  refine MayOpen.bind (uses_perform (by decide) _) fun _ => ?_
  refine MayOpen.bind (uses_perform (by decide) _) fun _ => ?_
  refine MayOpen.bind (uses_perform (by decide) _) fun _ => ?_
  refine MayOpen.then (mcpLifespan_mayOpen (by decide) (by decide) ?_) (uses_perform (by decide) _)
  exact withManager_mayOpen (by decide) (by decide)

/-- The two closings of the `finally`. -/
theorem closing_ledger {t : List (Event Resource Activity)}
    (h : ledger needs {.engine} t = some (if .opened .llmClient ∈ t then insert .llmClient {.engine} else {.engine})) :
    ledger needs {.engine} (t ++ ((aclose w t).andFinally (dispose w)).effects) = some ∅ := by
  rw [ledger_append_of h]
  unfold aclose
  split
  · show ledger needs {.llmClient, .engine} [.closed .llmClient, .closed .engine] = some ∅
    decide
  · show ledger needs {.engine} [.closed .engine] = some ∅
    decide

theorem ledger_lifespan (w : World) : ledger needs ∅ (lifespan w).effects = some ∅ := by
  have hlog : Run.Only (Uses needs ∅) (log "Application startup") := uses_perform (by decide) _
  have hbody : ∀ path, ledger needs ∅ (openEngine w path >>= fun _ =>
      (guarded w).andFinally ((aclose w (guarded w).effects).andFinally (dispose w))).effects = some ∅ := by
    intro path
    unfold openEngine
    split
    · show ledger needs ∅ (.opened .engine :: _) = some ∅
      rw [ledger, if_neg (by decide)]
      exact closing_ledger guarded_mayOpen
    · rfl
  show ledger needs ∅ (.did (.log _) :: (Run.lift (getSettings w.environment) >>= _).effects) = some ∅
  rw [ledger, if_pos (by decide)]
  cases h : getSettings w.environment with
  | error e => rfl
  | ok settings => exact hbody _

/-! ### Opening before closing -/

theorem perform_notClosing {α : Type} (a : Activity) (x : Except Failure α) : Run.Only NotClosing (perform a x) :=
  Run.only_perform (fun r => by simp) x

theorem serve_notClosing : Run.Only NotClosing (serve w) := by
  intro e he
  rcases List.mem_cons.mp he with rfl | he
  · exact fun r => by simp
  · rcases Agent.mem_runWork he with rfl | ⟨name, rfl⟩ | ⟨connection, request, rfl⟩ <;> exact fun r => by simp

theorem withManager_notClosing : Run.Only NotClosing (withManager w) :=
  Run.Only.bind (perform_notClosing _ _) fun _ => Run.Only.bind (Run.only_lift _) fun _ =>
    Run.Only.bind (perform_notClosing _ _) fun _ => Run.Only.bind (perform_notClosing _ _) fun _ => serve_notClosing

theorem guarded_phased : Phased (guarded w).effects := by
  have hschema : Run.Only NotClosing (Db.prepareAdminDbSchema w.adminDb) := fun e he =>
    (Db.prepareAdminDbSchema_uses (o := {.engine}) (by decide) e he).notClosing
  have hstart : Run.Only NotClosing (Mcp.start w.server).toRun :=
    (Mcp.start_tidy (o := ∅) (by decide) (by decide)).notClosing
  refine Run.phased_bind_up hschema fun _ => ?_
  refine Run.phased_bind_up (perform_notClosing _ _) fun _ => Run.phased_bind_up (perform_notClosing _ _) fun _ => ?_
  refine Run.phased_bind_up (perform_notClosing _ _) fun _ => ?_
  refine Run.phased_bind_down (generator_phased hstart withManager_notClosing) fun _ => ?_
  exact Run.only_perform (fun r => by simp) _

theorem closing_notOpening (t : List (Event Resource Activity)) :
    ∀ e ∈ ((aclose w t).andFinally (dispose w)).effects, NotOpening e := by
  intro e he
  unfold aclose dispose at he
  split at he
  · obtain rfl | rfl : e = .closed .llmClient ∨ e = .closed .engine := by simpa [Run.perform] using he
    · exact fun r => by simp
    · exact fun r => by simp
  · obtain rfl : e = .closed .engine := by simpa [Run.perform] using he
    exact fun r => by simp

theorem lifespan_phased : Phased (lifespan w).effects := by
  refine Run.phased_bind_up (perform_notClosing _ _) fun _ => Run.phased_bind_up (Run.only_lift _) fun settings => ?_
  refine Run.phased_bind_up ?_ fun _ => guarded_phased.append_down (closing_notOpening _)
  unfold openEngine
  split
  · exact Run.only_perform (fun r => by simp) _
  · exact Run.only_lift _

/-- **Whatever happens, nothing is used that is not open, everything is opened and closed at most once, and in the end
nothing is open.** -/
theorem lifespan_ledger (w : World) : ledger needs ∅ (lifespan w).effects = some ∅ ∧
    ∀ r, (lifespan w).effects.count (.opened r) ≤ 1 ∧ (lifespan w).effects.count (.closed r) ≤ 1 :=
  ⟨ledger_lifespan w, lifespan_phased.once (ledger_lifespan w)⟩

/-! ## The decision -/

/-- What has to hold for the application to come up. -/
structure World.Ready (w : World) : Prop where
  appEnv : (appEnvs.lookup (w.environment.appEnv.getD "local".toList)).isSome
  adminDbPath : strip (w.environment.adminDbPath.getD "./data/admin.db".toList) ≠ []
  directory : ∃ path, w.files.resolve (w.environment.adminDbPath.getD "./data/admin.db".toList) = .ok path ∧
    w.files.isDir (w.files.parent path) = .ok true ∧ w.files.isWritable (w.files.parent path) = true ∧
    w.adminDb.createEngine path = .ok ()
  schema : w.adminDb.upgrade = .ok () ∧ ∃ head existing, w.adminDb.currentHead = .ok head ∧
    w.adminDb.currentRevision = .ok head ∧ w.adminDb.tableNames = .ok existing ∧
    ∀ t ∈ Db.requiredTables, t ∈ existing
  server : w.server.Starts
  catalog : ∃ result structured validated, w.inspect = .returned result ∧ result.isError = false ∧
    result.structuredContent = some structured ∧ Agent.inspectSchemaToolResult structured = some validated ∧
    (∀ x ∈ Agent.requiredTableColumns,
      (Agent.PhysicalMetadataCatalog.mk validated.schemas validated.foreignKeys).HasColumns x.1 x.2) ∧
    ∃ fk ∈ validated.foreignKeys, Agent.isRequiredForeignKey fk = true

theorem getSettings_ok {env : Environment} {s : Settings} (h : getSettings env = .ok s) :
    (appEnvs.lookup (env.appEnv.getD "local".toList)).isSome ∧
      s.adminDbPath = env.adminDbPath.getD "./data/admin.db".toList ∧ strip s.adminDbPath ≠ [] := by
  unfold getSettings at h
  split at h
  · simp at h
  · rename_i appEnv happ
    obtain ⟨_, hpath, h⟩ := bind_eq_ok.mp h
    obtain rfl := Except.ok.inj h
    refine ⟨by rw [happ]; rfl, rfl, ?_⟩
    simpa [raiseUnless_eq_ok] using hpath

theorem getSettings_of {env : Environment} (happ : (appEnvs.lookup (env.appEnv.getD "local".toList)).isSome)
    (hpath : strip (env.adminDbPath.getD "./data/admin.db".toList) ≠ []) :
    ∃ s, getSettings env = .ok s ∧ s.adminDbPath = env.adminDbPath.getD "./data/admin.db".toList := by
  obtain ⟨appEnv, h⟩ := Option.isSome_iff_exists.mp happ
  unfold getSettings
  rw [h]
  generalize env.adminDbPath.getD "./data/admin.db".toList = path at hpath
  exact ⟨_, bind_eq_ok.mpr ⟨(), raiseUnless_eq_ok.mpr (by simpa using hpath), rfl⟩, rfl⟩

theorem inspectSchema_ok_iff {json : Json} : inspectSchema w = .ok json ↔ ∃ result structured validated,
    w.inspect = .returned result ∧ result.isError = false ∧ result.structuredContent = some structured ∧
    Agent.inspectSchemaToolResult structured = some validated ∧ validated.dump = json := by
  have hread : inspectSchema w = .ok json ↔ ∃ validated,
      (Mcp.readTool Agent.inspectSchemaToolResult "inspect_schema" false w.inspect).2 = .ok validated ∧
        validated.dump = json := by
    rw [inspectSchema, mapError_eq_ok]
    show (Mcp.readTool Agent.inspectSchemaToolResult "inspect_schema" false w.inspect).2.map
      Agent.InspectSchemaToolResult.dump = .ok json ↔ _
    cases (Mcp.readTool Agent.inspectSchemaToolResult "inspect_schema" false w.inspect).2 <;> simp [Except.map]
  simp only [hread, Mcp.readTool_eq_ok, Mcp.parseResult_eq_ok, true_and]
  constructor
  · rintro ⟨validated, ⟨result, hresult, herror, structured, hstructured, hvalidated⟩, hdump⟩
    exact ⟨result, structured, validated, hresult, herror, hstructured, hvalidated, hdump⟩
  · rintro ⟨result, structured, validated, hresult, herror, hstructured, hvalidated, hdump⟩
    exact ⟨validated, ⟨result, hresult, herror, structured, hstructured, hvalidated⟩, hdump⟩

theorem checkMapping_dump {validated : Agent.InspectSchemaToolResult} : checkMapping validated.dump = .ok () ↔
    (∀ x ∈ Agent.requiredTableColumns,
      (Agent.PhysicalMetadataCatalog.mk validated.schemas validated.foreignKeys).HasColumns x.1 x.2) ∧
    ∃ fk ∈ validated.foreignKeys, Agent.isRequiredForeignKey fk = true := by
  rw [checkMapping, mapError_eq_ok, Agent.checkCatalog, Agent.buildPhysicalMetadataCatalog_dump, mapError_eq_ok,
    Agent.validatePhysicalMapping_eq_ok]

theorem checks_eq_ok : checks w = .ok () ↔ ∃ settings, getSettings w.environment = .ok settings ∧
    Db.buildAdminDbEngine w.files w.adminDb settings.adminDbPath = .ok () ∧
    (Db.prepareAdminDbSchema w.adminDb).result = .ok () ∧ (Mcp.start w.server).result = .ok () ∧
    ∃ json, inspectSchema w = .ok json ∧ checkMapping json = .ok () := by
  rw [checks, bind_eq_ok]
  simp only [Mcp.seq_eq_ok]
  simp only [bind_eq_ok]

/-- **When the application comes up.** -/
theorem checks_ok_iff : checks w = .ok () ↔ w.Ready := by
  simp only [checks_eq_ok, Db.buildAdminDbEngine_ok_iff, Db.prepareAdminDbSchema_ok_iff, Mcp.start_ok_iff,
    inspectSchema_ok_iff]
  constructor
  · rintro ⟨settings, hsettings, hdirectory, hschema, hserver, json, hjson, hmapping⟩
    obtain ⟨happ, hpath, hblank⟩ := getSettings_ok hsettings
    obtain ⟨result, structured, validated, hresult, herror, hstructured, hvalidated, rfl⟩ := hjson
    rw [hpath] at hblank hdirectory
    exact ⟨happ, hblank, hdirectory, hschema, hserver, result, structured, validated, hresult, herror, hstructured,
      hvalidated, checkMapping_dump.mp hmapping⟩
  · rintro ⟨happ, hblank, hdirectory, hschema, hserver, result, structured, validated, hresult, herror, hstructured,
      hvalidated, hmapping⟩
    obtain ⟨settings, hsettings, hpath⟩ := getSettings_of happ hblank
    rw [← hpath] at hdirectory
    exact ⟨settings, hsettings, hdirectory, hschema, hserver, validated.dump,
      ⟨result, structured, validated, hresult, herror, hstructured, hvalidated, rfl⟩, checkMapping_dump.mpr hmapping⟩

/-! ## The way up -/

/-- What is done before the first request is answered. -/
def startupTrace : List (Event Resource Activity) :=
  [.did (.log "Application startup"), .opened .engine, .did .upgrade, .did .readRevision, .did .readTables,
    .did (.setState "admin_db_engine"), .did (.setState "admin_db_sessionmaker"), .did (.setState "llm_client"),
    .opened .transport, .opened .session, .did .initializeSession, .did .listTools,
    .did (.callTool "inspect_schema"), .did (.setState "mcp_client_manager"),
    .did (.setState "physical_metadata_catalog")]

theorem not_serve_of_uses {o : Finset Resource} {α : Type} {r : Step α} (h : Run.Only (Uses needs o) r)
    (ho : ¬ needs .serve ⊆ o) : .did .serve ∉ r.effects := fun hx => ho (h _ hx)

theorem not_serve_perform {α : Type} {a : Activity} (ha : a ≠ .serve) (x : Except Failure α) :
    .did .serve ∉ (perform a x).effects := by
  simpa [perform] using ha.symm

theorem not_serve_start (p : Mcp.ServerProcess) : .did .serve ∉ (Mcp.start p).effects := by
  intro h
  rcases (Mcp.start_tidy (p := p) (o := ∅) (by decide) (by decide)).mem _ h with ⟨r, -, he⟩ | h
  · simp at he
  · -- the engine is not entered with the server process
    have hengine : Resource.engine ∈ resources (Mcp.start p).entered := by
      simpa using h (show Resource.engine ∈ needs .serve by decide)
    rw [resources, List.mem_toFinset] at hengine
    obtain ⟨m, hm, hresource⟩ := List.mem_map.mp hengine
    rcases Mcp.mem_start_entered hm with rfl | rfl <;> simp [Mcp.session, Mcp.transport] at hresource

theorem not_serve_closing (t : List (Event Resource Activity)) :
    .did .serve ∉ ((aclose w t).andFinally (dispose w)).effects := by
  unfold aclose dispose
  split <;> simp [Run.perform]

/-- Requests are answered only after all checks. -/
theorem checks_of_serve (h : .did .serve ∈ (lifespan w).effects) : checks w = .ok () := by
  have hmanager : .did .serve ∈ (withManager w).effects → ∃ json, inspectSchema w = .ok json ∧
      checkMapping json = .ok () := by
    intro h
    rcases Run.mem_bind.mp h with h | ⟨json, hjson, h⟩
    · exact absurd h (not_serve_perform (by simp) _)
    rcases Run.mem_bind.mp h with h | ⟨_, hmapping, h⟩
    · simp at h
    exact ⟨json, hjson, hmapping⟩
  have hguarded : .did .serve ∈ (guarded w).effects → (Db.prepareAdminDbSchema w.adminDb).result = .ok () ∧
      (Mcp.start w.server).result = .ok () ∧ .did .serve ∈ (withManager w).effects := by
    intro h
    rcases Run.mem_bind.mp h with h | ⟨_, hschema, h⟩
    · exact absurd h (not_serve_of_uses (Db.prepareAdminDbSchema_uses (Finset.mem_singleton_self _)) (by decide))
    rcases Run.mem_bind.mp h with h | ⟨_, -, h⟩
    · exact absurd h (not_serve_perform (by simp) _)
    rcases Run.mem_bind.mp h with h | ⟨_, -, h⟩
    · exact absurd h (not_serve_perform (by simp) _)
    rcases Run.mem_bind.mp h with h | ⟨_, -, h⟩
    · exact absurd h (not_serve_perform (by simp) _)
    rcases Run.mem_bind.mp h with h | ⟨_, -, h⟩
    · rcases (mem_generator (by simp)).mp h with h | ⟨hstart, h⟩
      · exact absurd h (not_serve_start _)
      · exact ⟨hschema, hstart, h⟩
    · exact absurd h (not_serve_perform (by simp) _)
  rcases Run.mem_bind.mp h with h | ⟨_, -, h⟩
  · exact absurd h (not_serve_perform (by simp) _)
  rcases Run.mem_bind.mp h with h | ⟨settings, hsettings, h⟩
  · simp at h
  rcases Run.mem_bind.mp h with h | ⟨_, hengine, h⟩
  · unfold openEngine at h
    split at h <;> simp [Run.perform] at h
  rw [openEngine_result] at hengine
  rcases List.mem_append.mp h with h | h
  · obtain ⟨hschema, hstart, h⟩ := hguarded h
    exact checks_eq_ok.mpr ⟨settings, hsettings, hengine, hschema, hstart, hmanager h⟩
  · exact absurd h (not_serve_closing _)

/-- With all checks passed, startup does this. -/
theorem effects_of_checks (h : checks w = .ok ()) : ∃ rest, (lifespan w).effects = startupTrace ++ .did .serve :: rest ∧
    .did .serve ∉ rest := by
  obtain ⟨settings, hsettings, hengine, hschema, hstart, json, hjson, hmapping⟩ := checks_eq_ok.mp h
  have hmanager : (withManager w).effects = .did (.callTool "inspect_schema") ::
      .did (.setState "mcp_client_manager") :: .did (.setState "physical_metadata_catalog") :: (serve w).effects := by
    rw [withManager, Run.effects_bind (a := json) hjson, Run.effects_bind (a := ()) hmapping]
    rfl
  obtain ⟨exits, hexits, hlifespan⟩ : ∃ t : List (Event Resource Activity), (∀ x ∈ t, ∃ r, x = .closed r) ∧
      (Mcp.mcpLifespan w.server (withManager w)).effects =
        (Mcp.start w.server).effects ++ ((withManager w).effects ++ t) := generator_effects hstart
  obtain ⟨down, hafter, hdown⟩ := Run.effects_bind_const (Mcp.mcpLifespan w.server (withManager w))
    (log "Application shutdown")
  have hguarded : (guarded w).effects = [.did .upgrade, .did .readRevision, .did .readTables,
      .did (.setState "admin_db_engine"), .did (.setState "admin_db_sessionmaker"), .did (.setState "llm_client")] ++
      ((Mcp.mcpLifespan w.server (withManager w)).effects ++ down) := by
    rw [guarded, Run.effects_bind (a := ()) hschema, Db.prepareAdminDbSchema_effects hschema, ← hafter]
    rfl
  have hengine' : (openEngine w settings.adminDbPath).effects = [.opened .engine] := by
    rw [openEngine, hengine]
    rfl
  refine ⟨(Agent.runWork w.sdk none w.works).trace ++ exits ++ down ++
    ((aclose w (guarded w).effects).andFinally (dispose w)).effects, ?_, ?_⟩
  · rw [lifespan, Run.effects_bind (a := ()) rfl, Run.effects_bind (a := settings) hsettings,
      Run.effects_bind (a := ()) ((openEngine_result _).trans hengine), hengine', Run.effects_andFinally, hguarded,
      hlifespan, Mcp.start_effects hstart, hmanager]
    simp [startupTrace, serve, log, perform]
  · have hwork : .did .serve ∉ (Agent.runWork w.sdk none w.works).trace := by
      intro h
      rcases Agent.mem_runWork h with h | ⟨name, h⟩ | ⟨connection, request, h⟩ <;> simp at h
    have hexits : .did .serve ∉ exits := by
      intro h
      obtain ⟨r, hr⟩ := hexits _ h
      simp at hr
    have hdown : .did .serve ∉ down := fun h => not_serve_perform (by simp) _ (hdown h)
    simp only [List.mem_append, not_or]
    exact ⟨⟨⟨hwork, hexits⟩, hdown⟩, not_serve_closing _⟩

/-- A tool that conforms to a contract. -/
def conforming (c : Mcp.ToolContract) : Mcp.Tool :=
  ⟨c.name, some [("properties".toList, .obj (c.properties.map fun p => (p.1, .obj [("type".toList, .str p.2)]))),
    ("required".toList, .arr (c.required.map fun name => .str name))]⟩

def tableWith (name : String) (columns : List String) : Agent.TableMetadata :=
  ⟨name.toList, none, columns.map fun c => ⟨c.toList, "int".toList, false, 1, none⟩, none⟩

/-- The tables and the key of the mapping. -/
def mapped : Agent.InspectSchemaToolResult where
  correlationId := "startup".toList
  schemas := [⟨"Production".toList, [tableWith "Product" ["ProductID", "Name", "SafetyStockLevel"],
    tableWith "ProductInventory" ["ProductID", "Quantity"]]⟩]
  foreignKeys := [⟨"FK".toList, "Production".toList, "ProductInventory".toList, ["ProductID".toList],
    "Production".toList, "Product".toList, ["ProductID".toList]⟩]
  summary := []

/-- A world in which the server reports these tools. -/
def sample (tools : List Mcp.Tool) : World where
  environment := ⟨⟨none, none, none, none⟩, none, none⟩
  files := ⟨fun path => .ok path, fun _ => [], fun _ => .ok true, fun _ => true⟩
  adminDb := ⟨fun _ => .ok (), .ok (), .ok none, .ok none, .ok Db.requiredTables, .ok ()⟩
  server := ⟨.ok (), fun _ => .propagate, .ok (), fun _ => .propagate, .ok (), .ok tools⟩
  inspect := .returned ⟨false, [], some mapped.dump⟩
  sdk := ⟨fun _ => true, fun _ => true⟩
  works := []
  shutdown := .ok ()
  close := .ok ()

/-- What is left and closed at the end raises nothing of its own. The contexts of the server process are task groups:
what leaves them is raised again in an exception group. -/
structure World.ClosesQuietly (w : World) : Prop where
  transport : (Mcp.transport w.server).Keeps Failure.cause
  session : (Mcp.session w.server).Keeps Failure.cause
  close : w.close = .ok ()
  dispose : w.adminDb.dispose = .ok ()

/-- A task group around the exception in flight. -/
def regroup : Option Failure → Exit Failure
  | none => .propagate
  | some e => .raises (.exceptionGroup e)

/-- The sample world with the task groups of the two contexts. -/
def grouped (tools : List Mcp.Tool) : World :=
  { sample tools with server := ⟨.ok (), regroup, .ok (), regroup, .ok (), .ok tools⟩ }

end

end DataAgent.Core
