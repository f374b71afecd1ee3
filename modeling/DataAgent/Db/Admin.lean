import DataAgent.Core.Process

/-!
# The admin database

`session.build_admin_db_engine` and `schema.prepare_admin_db_schema`.

* `FileSystem`, `AdminDb` : how the path and the database behave;
* `buildAdminDbEngine`, `prepareAdminDbSchema`, with **`prepareAdminDbSchema_ok_iff`** : the schema that is accepted.
-/

namespace DataAgent.Db
open Python DataAgent.Core

/-! ## The engine -/

structure FileSystem where
  resolve : Text → Except Failure Text
  parent : Text → Text
  isDir : Text → Except Failure Bool
  isWritable : Text → Bool

/-- How the steps with the database end. -/
structure AdminDb where
  /-- `create_engine`, for the path of the file. -/
  createEngine : Text → Except Failure Unit
  upgrade : Except Failure Unit
  /-- `script.get_current_head()`. -/
  currentHead : Except Failure (Option Text)
  currentRevision : Except Failure (Option Text)
  tableNames : Except Failure (List Text)
  dispose : Except Failure Unit

/-- `except Exception as exc: raise AdminDBUnavailableError`. -/
def unavailable (cause : AdminDbCause) : Failure → Failure
  | .baseException => .baseException
  | _ => .adminDbUnavailable cause

section
variable (files : FileSystem) (db : AdminDb)

/-- `_ensure_parent_directory_accessible`. -/
def ensureParentDirectoryAccessible (adminDbPath : Text) : Except Failure Text := do
  let path ← files.resolve adminDbPath
  let parent := files.parent path
  raiseUnless (← files.isDir parent) (.adminDbUnavailable (.parentMissing parent))
  raiseUnless (files.isWritable parent) (.adminDbUnavailable (.parentNotWritable parent))
  return path

/-- `build_admin_db_engine`. -/
def buildAdminDbEngine (adminDbPath : Text) : Except Failure Unit := do
  let path ← ensureParentDirectoryAccessible files adminDbPath
  (db.createEngine path).mapError (unavailable .engine)

/-! ## The schema -/

/-- `_run_migrations`. -/
def runMigrations : Step Unit := (perform .upgrade db.upgrade).reraise (unavailable .migration)

def requiredTables : List Text := ["users", "table_policies", "audit_logs", "error_reports"].map String.toList

def missingTables (existing : List Text) : List Text := requiredTables.filter fun table => !existing.contains table

/-- `_verify_schema`. -/
def verifySchema : Step Unit := do
  let head ← Run.lift db.currentHead
  let current ← (perform .readRevision db.currentRevision).reraise (unavailable .revisionUnreadable)
  Run.lift (raiseUnless (current = head) (.adminDbUnavailable (.revisionMismatch head current)))
  let existing ← perform .readTables db.tableNames
  let missing := missingTables existing
  Run.lift (raiseUnless missing.isEmpty (.adminDbUnavailable (.tablesMissing missing)))

def prepareAdminDbSchema : Step Unit := do
  runMigrations db
  verifySchema db

/-! ## What is accepted -/

variable {files db}

theorem buildAdminDbEngine_ok_iff {adminDbPath : Text} : buildAdminDbEngine files db adminDbPath = .ok () ↔
    ∃ path, files.resolve adminDbPath = .ok path ∧ files.isDir (files.parent path) = .ok true ∧
      files.isWritable (files.parent path) = true ∧ db.createEngine path = .ok () := by
  simp only [buildAdminDbEngine, ensureParentDirectoryAccessible, bind_eq_ok, mapError_eq_ok, raiseUnless_eq_ok]
  constructor
  · rintro ⟨path, ⟨_, hpath, _, hdir, _, rfl, _, hwritable, h⟩, hengine⟩
    obtain rfl := Except.ok.inj h
    exact ⟨_, hpath, hdir, hwritable, hengine⟩
  · rintro ⟨path, hpath, hdir, hwritable, hengine⟩
    exact ⟨path, ⟨path, hpath, true, hdir, (), rfl, (), hwritable, rfl⟩, hengine⟩

theorem prepareAdminDbSchema_result : (prepareAdminDbSchema db).result =
    (db.upgrade.mapError (unavailable .migration) >>= fun _ => db.currentHead >>= fun head =>
      db.currentRevision.mapError (unavailable .revisionUnreadable) >>= fun current =>
        raiseUnless (current = head) (.adminDbUnavailable (.revisionMismatch head current)) >>= fun _ =>
          db.tableNames >>= fun existing =>
            raiseUnless (missingTables existing).isEmpty
              (.adminDbUnavailable (.tablesMissing (missingTables existing)))) := by
  simp only [prepareAdminDbSchema, runMigrations, verifySchema, Run.result_bind, Run.result_reraise, Run.result_lift]
  rfl

theorem missingTables_eq_nil {existing : List Text} :
    missingTables existing = [] ↔ ∀ t ∈ requiredTables, t ∈ existing := by
  simp [missingTables, List.filter_eq_nil_iff]

/-- **The schema is accepted exactly if the migrations run, the revision is their head and no table is missing.** -/
theorem prepareAdminDbSchema_ok_iff : (prepareAdminDbSchema db).result = .ok () ↔ db.upgrade = .ok () ∧
    ∃ head existing, db.currentHead = .ok head ∧ db.currentRevision = .ok head ∧ db.tableNames = .ok existing ∧
      ∀ t ∈ requiredTables, t ∈ existing := by
  rw [prepareAdminDbSchema_result, Mcp.seq_eq_ok, bind_eq_ok]
  simp only [bind_eq_ok, mapError_eq_ok, raiseUnless_eq_ok, List.isEmpty_iff, missingTables_eq_nil, decide_eq_true_eq]
  constructor
  · rintro ⟨hupgrade, head, hhead, current, hcurrent, -, rfl, existing, hexisting, htables⟩
    exact ⟨hupgrade, current, existing, hhead, hcurrent, hexisting, htables⟩
  · rintro ⟨hupgrade, head, existing, hhead, hcurrent, hexisting, htables⟩
    exact ⟨hupgrade, head, hhead, head, hcurrent, (), rfl, existing, hexisting, htables⟩

theorem prepareAdminDbSchema_effects (h : (prepareAdminDbSchema db).result = .ok ()) :
    (prepareAdminDbSchema db).effects = [.did .upgrade, .did .readRevision, .did .readTables] := by
  obtain ⟨hupgrade, head, existing, hhead, hcurrent, hexisting, -⟩ := prepareAdminDbSchema_ok_iff.mp h
  have hrevision : ((perform .readRevision db.currentRevision).reraise (unavailable .revisionUnreadable)).result =
      .ok head := mapError_eq_ok.mpr hcurrent
  have hequal : (Run.lift (raiseUnless (head = head) (.adminDbUnavailable (.revisionMismatch head head))) :
      Step Unit).result = .ok () := raiseUnless_eq_ok.mpr (decide_eq_true rfl)
  rw [prepareAdminDbSchema, Run.effects_bind (a := ()) (mapError_eq_ok.mpr hupgrade), verifySchema,
    Run.effects_bind (a := head) hhead, Run.effects_bind hrevision, Run.effects_bind hequal,
    Run.effects_bind (a := existing) hexisting]
  rfl

theorem prepareAdminDbSchema_uses {o : Finset Resource} (h : .engine ∈ o) :
    Run.Only (Uses needs o) (prepareAdminDbSchema db) := by
  have hneeds : ({.engine} : Finset Resource) ⊆ o := Finset.singleton_subset_iff.mpr h
  unfold prepareAdminDbSchema runMigrations verifySchema
  refine Run.Only.bind (Run.Only.reraise (uses_perform hneeds _) _) fun _ => ?_
  refine Run.Only.bind (Run.only_lift _) fun head => ?_
  refine Run.Only.bind (Run.Only.reraise (uses_perform hneeds _) _) fun current => ?_
  refine Run.Only.bind (Run.only_lift _) fun _ => ?_
  refine Run.Only.bind (uses_perform hneeds _) fun existing => ?_
  exact Run.only_lift _

end

end DataAgent.Db
