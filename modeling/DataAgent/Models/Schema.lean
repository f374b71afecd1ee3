import DataAgent.Db.Admin
import DataAgent.Sqlite.Store

/-!
# The tables of the admin database

The tables as `app/models` declares them, and as migration `0001` makes them.

* `users`, `tablePolicies`, `auditLogs`, `errorReports`, `adminSchema` : the models;
* `Declared`, `Create`, `Drop` : operations on what is declared, with `Create.foldlM_undo`;
* `upgrade`, `downgrade` : the migration; **`upgrade_exact`** : it makes the tables of the models and can be undone.
-/

namespace DataAgent.Models
open Sqlite

def str (s : String) : Sqlite.Value := .text s.toList

/-! ## Enumerations -/

inductive UserRole where
  | supplyRiskAnalyst
  | inventoryViewer
  deriving DecidableEq, Repr

def UserRole.value : UserRole → String
  | supplyRiskAnalyst => "supply_risk_analyst"
  | inventoryViewer => "inventory_viewer"

def UserRole.all : List UserRole := [.supplyRiskAnalyst, .inventoryViewer]

inductive AuditStatus where
  | success
  | permissionDenied
  | contractError
  | guardrailRejected
  | timeout
  | connectionClosed
  deriving DecidableEq, Repr

def AuditStatus.value : AuditStatus → String
  | success => "success"
  | permissionDenied => "permission_denied"
  | contractError => "contract_error"
  | guardrailRejected => "guardrail_rejected"
  | timeout => "timeout"
  | connectionClosed => "connection_closed"

def AuditStatus.all : List AuditStatus :=
  [.success, .permissionDenied, .contractError, .guardrailRejected, .timeout, .connectionClosed]

/-! ## Models -/

/-- A column for texts that must be given. -/
def text (name : String) : Column := ⟨name, .text, false, none⟩

/-- A column of another type (`INTEGER`, `BOOLEAN`, `DATETIME`, `JSON`) that is never null. -/
def numeric (name : String) (default : Option Default) : Column := ⟨name, .numeric, false, default⟩

def users : TableDef where
  name := "users"
  columns := [text "slack_user_id", numeric "is_active" (some (.literal (.int 1))), text "role"]
  checks := [("ck_users_slack_user_id_not_blank", notBlank "slack_user_id"),
    ("ck_users_is_active_bool", .isIn (.column "is_active") [.int 0, .int 1]),
    ("ck_users_role", .isIn (.column "role") [str "supply_risk_analyst", str "inventory_viewer"])]
  uniques := [("uq_users_slack_user_id", ["slack_user_id"])]
  foreignKeys := []
  autoincrement := false

def tablePolicies : TableDef where
  name := "table_policies"
  columns := [text "role", text "schema_name", text "table_name", numeric "allowed_columns" none]
  checks := [("ck_table_policies_role", .isIn (.column "role") [str "supply_risk_analyst", str "inventory_viewer"]),
    ("ck_table_policies_schema_name_not_blank", notBlank "schema_name"),
    ("ck_table_policies_table_name_not_blank", notBlank "table_name"),
    ("ck_table_policies_allowed_columns_nonempty_array", nonemptyArray "allowed_columns")]
  uniques := [("uq_table_policies_role_schema_table", ["role", "schema_name", "table_name"])]
  foreignKeys := []
  autoincrement := false

def auditLogs : TableDef where
  name := "audit_logs"
  columns := [text "correlation_id", text "workflow_step", numeric "depth" none, text "status",
    numeric "is_retry" (some (.literal (.int 0))), numeric "occurred_at" (some .currentTimestamp)]
  checks := [("ck_audit_logs_correlation_id_not_blank", notBlank "correlation_id"),
    ("ck_audit_logs_workflow_step_not_blank", notBlank "workflow_step"),
    ("ck_audit_logs_depth_range", between "depth" 0 2),
    ("ck_audit_logs_status", .isIn (.column "status") [str "success", str "permission_denied", str "contract_error",
      str "guardrail_rejected", str "timeout", str "connection_closed"]),
    ("ck_audit_logs_is_retry_bool", .isIn (.column "is_retry") [.int 0, .int 1])]
  uniques := [("uq_audit_logs_id_correlation_id", ["id", "correlation_id"])]
  foreignKeys := []
  autoincrement := true

def errorReports : TableDef where
  name := "error_reports"
  columns := [text "correlation_id", ⟨"audit_log_id", .numeric, true, none⟩]
  checks := [("ck_error_reports_correlation_id_not_blank", notBlank "correlation_id")]
  uniques := []
  foreignKeys := [⟨"fk_error_reports_audit_log_correlation", ["audit_log_id", "correlation_id"],
    "audit_logs", ["id", "correlation_id"]⟩]
  autoincrement := false

/-- The tables of the models, in any database engine. -/
def adminSchema (E : Engine) : Schema where
  tables := [users, tablePolicies, auditLogs, errorReports]
  engine := E
  distinct := by decide

/-! ## The migration -/

structure Index where
  name : String
  table : String
  columns : List String

/-- Names are the same up to the case of ASCII letters. -/
def fold (name : String) : List Char := name.toList.map Char.toLower

/-- What is declared in a database. -/
structure Declared where
  tables : List TableDef
  views : List String
  indexes : List Index
  /-- The table that SQLite keeps the ids of `AUTOINCREMENT` in. -/
  sequenced : Bool
  indexed : ∀ i ∈ indexes, fold i.table ∈ tables.map (fold ·.name)

namespace Declared

/-- Tables, views and indexes share their names. -/
def names (s : Declared) : List (List Char) :=
  s.tables.map (fold ·.name) ++ s.views.map fold ++ s.indexes.map (fold ·.name)

def addTable (s : Declared) (d : TableDef) : Declared where
  tables := s.tables ++ [d]
  views := s.views
  indexes := s.indexes
  sequenced := s.sequenced || d.autoincrement
  indexed i hi := by
    rw [List.map_append]
    exact List.mem_append_left _ (s.indexed i hi)

def addIndex (s : Declared) (i : Index) (h : fold i.table ∈ s.tables.map (fold ·.name)) : Declared where
  tables := s.tables
  views := s.views
  indexes := s.indexes ++ [i]
  sequenced := s.sequenced
  indexed j hj := by
    rcases List.mem_append.mp hj with hj | hj
    · exact s.indexed j hj
    · rwa [List.mem_singleton.mp hj]

/-- A table goes with its indexes. -/
def dropTable (s : Declared) (name : String) : Declared where
  tables := s.tables.filter (fold ·.name ≠ fold name)
  views := s.views
  indexes := s.indexes.filter (fold ·.table ≠ fold name)
  sequenced := s.sequenced
  indexed i hi := by
    obtain ⟨hi, htable⟩ := List.mem_filter.mp hi
    obtain ⟨d, hd, hname⟩ := List.mem_map.mp (s.indexed i hi)
    exact List.mem_map.mpr ⟨d, List.mem_filter.mpr ⟨hd, by simpa [hname] using htable⟩, hname⟩

def dropIndex (s : Declared) (name : String) : Declared where
  tables := s.tables
  views := s.views
  indexes := s.indexes.filter (fold ·.name ≠ fold name)
  sequenced := s.sequenced
  indexed i hi := s.indexed i (List.mem_of_mem_filter hi)

/-- The same declarations beside `sqlite_sequence`. -/
def withSequence (s : Declared) (sequenced : Bool) : Declared := { s with sequenced := sequenced }

theorem ext' {s t : Declared} (htables : s.tables = t.tables) (hviews : s.views = t.views)
    (hindexes : s.indexes = t.indexes) (hsequenced : s.sequenced = t.sequenced) : s = t := by
  cases s
  cases t
  cases htables
  cases hviews
  cases hindexes
  cases hsequenced
  rfl

theorem mem_names_addTable {s : Declared} {d : TableDef} {n : List Char} :
    n ∈ (s.addTable d).names ↔ n ∈ s.names ∨ n = fold d.name := by
  simp only [names, addTable, List.map_append, List.map_singleton, List.mem_append, List.mem_singleton]
  tauto

theorem mem_names_addIndex {s : Declared} {i : Index} {h : fold i.table ∈ s.tables.map (fold ·.name)} {n : List Char} :
    n ∈ (s.addIndex i h).names ↔ n ∈ s.names ∨ n = fold i.name := by
  simp only [names, addIndex, List.map_append, List.map_singleton, List.mem_append, List.mem_singleton]
  tauto

end Declared

/-- `op.create_table` and `op.create_index`. -/
inductive Create where
  | table (d : TableDef)
  | index (i : Index)

/-- `op.drop_table` and `op.drop_index`. -/
inductive Drop where
  | table (name : String)
  | index (name : String)
  deriving DecidableEq

def Create.name : Create → String
  | table d => d.name
  | index i => i.name

/-- Nothing if the operation fails. -/
def Create.run (s : Declared) : Create → Option Declared
  | table d => if s.names.contains (fold d.name) then none else some (s.addTable d)
  | index i =>
    if s.names.contains (fold i.name) then none
    else if h : (s.tables.map (fold ·.name)).contains (fold i.table) then
      some (s.addIndex i (List.contains_iff_mem.mp h))
    else none

def Drop.run (s : Declared) : Drop → Option Declared
  | table name => if (s.tables.map (fold ·.name)).contains (fold name) then some (s.dropTable name) else none
  | index name => if (s.indexes.map (fold ·.name)).contains (fold name) then some (s.dropIndex name) else none

def upgrade : List Create := [
  .table ⟨"users",
    [text "slack_user_id", numeric "is_active" (some (.literal (.int 1))), text "role"],
    [("ck_users_slack_user_id_not_blank", notBlank "slack_user_id"),
      ("ck_users_is_active_bool", .isIn (.column "is_active") [.int 0, .int 1]),
      ("ck_users_role", .isIn (.column "role") [str "supply_risk_analyst", str "inventory_viewer"])],
    [("uq_users_slack_user_id", ["slack_user_id"])], [], false⟩,
  .table ⟨"table_policies",
    [text "role", text "schema_name", text "table_name", numeric "allowed_columns" none],
    [("ck_table_policies_role", .isIn (.column "role") [str "supply_risk_analyst", str "inventory_viewer"]),
      ("ck_table_policies_schema_name_not_blank", notBlank "schema_name"),
      ("ck_table_policies_table_name_not_blank", notBlank "table_name"),
      ("ck_table_policies_allowed_columns_nonempty_array", nonemptyArray "allowed_columns")],
    [("uq_table_policies_role_schema_table", ["role", "schema_name", "table_name"])], [], false⟩,
  .table ⟨"audit_logs",
    [text "correlation_id", text "workflow_step", numeric "depth" none, text "status",
      numeric "is_retry" (some (.literal (.int 0))), numeric "occurred_at" (some .currentTimestamp)],
    [("ck_audit_logs_correlation_id_not_blank", notBlank "correlation_id"),
      ("ck_audit_logs_workflow_step_not_blank", notBlank "workflow_step"),
      ("ck_audit_logs_depth_range", between "depth" 0 2),
      ("ck_audit_logs_status", .isIn (.column "status") [str "success", str "permission_denied",
        str "contract_error", str "guardrail_rejected", str "timeout", str "connection_closed"]),
      ("ck_audit_logs_is_retry_bool", .isIn (.column "is_retry") [.int 0, .int 1])],
    [("uq_audit_logs_id_correlation_id", ["id", "correlation_id"])], [], true⟩,
  .index ⟨"ix_audit_logs_correlation_id", "audit_logs", ["correlation_id"]⟩,
  .table ⟨"error_reports",
    [text "correlation_id", ⟨"audit_log_id", .numeric, true, none⟩],
    [("ck_error_reports_correlation_id_not_blank", notBlank "correlation_id")], [],
    [⟨"fk_error_reports_audit_log_correlation", ["audit_log_id", "correlation_id"],
      "audit_logs", ["id", "correlation_id"]⟩], false⟩]

def downgrade : List Drop := [.table "error_reports", .index "ix_audit_logs_correlation_id",
  .table "audit_logs", .table "table_policies", .table "users"]

/-! ## Up and down -/

theorem Create.fresh {c : Create} {s t : Declared} (h : c.run s = some t) : fold c.name ∉ s.names := by
  cases c <;> · intro hmem; simp_all [Create.run, Create.name]

theorem Create.mem_names {c : Create} {s t : Declared} (h : c.run s = some t) {n : List Char} :
    n ∈ t.names ↔ n ∈ s.names ∨ n = fold c.name := by
  cases c with
  | table d =>
    simp only [Create.run] at h
    split at h
    · simp at h
    · obtain rfl := Option.some.inj h
      exact Declared.mem_names_addTable
  | index i =>
    simp only [Create.run] at h
    split at h
    · simp at h
    · split at h
      · obtain rfl := Option.some.inj h
        exact Declared.mem_names_addIndex
      · simp at h

/-- What is made can only be made where all of its names are free. -/
theorem Create.fresh_all {cs : List Create} {s t : Declared} (h : cs.foldlM Create.run s = some t) :
    ∀ c ∈ cs, fold c.name ∉ s.names := by
  induction cs generalizing s with
  | nil => simp
  | cons c cs ih =>
    rw [List.foldlM_cons, Option.bind_eq_bind, Option.bind_eq_some_iff] at h
    obtain ⟨u, hu, h⟩ := h
    refine List.forall_mem_cons.mpr ⟨Create.fresh hu, fun x hx hmem => ?_⟩
    exact ih h x hx ((Create.mem_names hu).mpr (Or.inl hmem))

def Create.undo : Create → Drop
  | table d => .table d.name
  | index i => .index i.name

/-- What was made is taken away again; `sqlite_sequence` stays. -/
theorem Create.run_undo {c : Create} {s t : Declared} (h : c.run s = some t) :
    c.undo.run t = some (s.withSequence t.sequenced) := by
  have hfresh := Create.fresh h
  cases c with
  | table d =>
    simp only [Create.name, Declared.names, List.mem_append, List.mem_map, not_or, not_exists, not_and] at hfresh
    have hno : ∀ i ∈ s.indexes, fold i.table ≠ fold d.name := fun i hi heq => by
      obtain ⟨d', hd', hname⟩ := List.mem_map.mp (s.indexed i hi)
      exact hfresh.1.1 d' hd' (hname.trans heq)
    simp only [Create.run] at h
    split at h
    · simp at h
    · obtain rfl := Option.some.inj h
      have hmem : fold d.name ∈ (s.addTable d).tables.map (fold ·.name) := by simp [Declared.addTable]
      refine (if_pos (List.contains_iff_mem.mpr hmem)).trans (congrArg some (Declared.ext' ?_ rfl ?_ rfl))
      · simpa [Declared.dropTable, Declared.addTable, Declared.withSequence, List.filter_append] using hfresh.1.1
      · simpa [Declared.dropTable, Declared.addTable, Declared.withSequence] using hno
  | index i =>
    simp only [Create.name, Declared.names, List.mem_append, List.mem_map, not_or, not_exists, not_and] at hfresh
    simp only [Create.run] at h
    split at h
    · simp at h
    · split at h
      · rename_i htable
        obtain rfl := Option.some.inj h
        have hmem : fold i.name ∈ (s.addIndex i (List.contains_iff_mem.mp htable)).indexes.map (fold ·.name) := by
          simp [Declared.addIndex]
        refine (if_pos (List.contains_iff_mem.mpr hmem)).trans (congrArg some (Declared.ext' rfl rfl ?_ rfl))
        simpa [Declared.dropIndex, Declared.addIndex, Declared.withSequence, List.filter_append] using hfresh.2
      · simp at h

theorem Drop.run_withSequence (d : Drop) (s : Declared) (b : Bool) :
    d.run (s.withSequence b) = (d.run s).map (·.withSequence b) := by
  cases d <;> · simp only [Drop.run, apply_ite (Option.map _), Option.map_some, Option.map_none]; rfl

/-- What was made is taken back from the last to the first. -/
theorem Create.foldlM_undo {cs : List Create} {s t : Declared} (h : cs.foldlM Create.run s = some t) :
    (cs.map Create.undo).reverse.foldlM Drop.run t = some (s.withSequence t.sequenced) := by
  induction cs generalizing s with
  | nil =>
    obtain rfl : s = t := by simpa using h
    rfl
  | cons c cs ih =>
    rw [List.foldlM_cons, Option.bind_eq_bind, Option.bind_eq_some_iff] at h
    obtain ⟨u, hu, h⟩ := h
    have hlast : c.undo.run (u.withSequence t.sequenced) = some (s.withSequence t.sequenced) := by
      rw [Drop.run_withSequence, Create.run_undo hu]
      rfl
    rw [List.map_cons, List.reverse_cons, List.foldlM_append, ih h]
    simpa using hlast

def Create.table? : Create → Option TableDef
  | table d => some d
  | index _ => none

def Create.index? : Create → Option Index
  | table _ => none
  | index i => some i

theorem Create.run_declared {c : Create} {s t : Declared} (h : c.run s = some t) :
    t.tables = s.tables ++ c.table?.toList ∧ t.views = s.views ∧ t.indexes = s.indexes ++ c.index?.toList ∧
      t.sequenced = (s.sequenced || c.table?.any (·.autoincrement)) := by
  cases c with
  | table d =>
    simp only [Create.run] at h
    split at h
    · simp at h
    · obtain rfl := Option.some.inj h
      exact ⟨rfl, rfl, (List.append_nil _).symm, rfl⟩
  | index i =>
    simp only [Create.run] at h
    split at h
    · simp at h
    · split at h
      · obtain rfl := Option.some.inj h
        exact ⟨(List.append_nil _).symm, rfl, rfl, (Bool.or_false _).symm⟩
      · simp at h

theorem Create.foldlM_declared {cs : List Create} {s t : Declared} (h : cs.foldlM Create.run s = some t) :
    t.tables = s.tables ++ cs.filterMap Create.table? ∧ t.views = s.views ∧
      t.indexes = s.indexes ++ cs.filterMap Create.index? ∧
      t.sequenced = (s.sequenced || (cs.filterMap Create.table?).any (·.autoincrement)) := by
  induction cs generalizing s with
  | nil =>
    obtain rfl : s = t := by simpa using h
    simp
  | cons c cs ih =>
    rw [List.foldlM_cons, Option.bind_eq_bind, Option.bind_eq_some_iff] at h
    obtain ⟨u, hu, h⟩ := h
    obtain ⟨htables, hviews, hindexes, hsequenced⟩ := ih h
    obtain ⟨htable, hview, hindex, hsequence⟩ := Create.run_declared hu
    rw [htables, hviews, hindexes, hsequenced, htable, hview, hindex, hsequence]
    cases c <;> simp [Create.table?, Create.index?, Bool.or_assoc] <;> rfl

/-- Every index comes after its table. -/
def Placed : List (List Char) → List Create → Prop
  | _, [] => True
  | known, .table d :: cs => Placed (fold d.name :: known) cs
  | known, .index i :: cs => fold i.table ∈ known ∧ Placed known cs

/-- What is made can be made if its names are free. -/
theorem Create.foldlM_isSome {cs : List Create} {s : Declared} {known : List (List Char)}
    (hknown : ∀ n ∈ known, n ∈ s.tables.map (fold ·.name)) (hplaced : Placed known cs)
    (hnodup : (cs.map (fold ·.name)).Nodup) (hfresh : ∀ c ∈ cs, fold c.name ∉ s.names) :
    ∃ t, cs.foldlM Create.run s = some t := by
  induction cs generalizing s known with
  | nil => exact ⟨s, rfl⟩
  | cons c cs ih =>
    rw [List.map_cons, List.nodup_cons] at hnodup
    obtain ⟨hc, hcs⟩ := List.forall_mem_cons.mp hfresh
    have hrest : ∀ {u : Declared}, c.run s = some u → ∀ x ∈ cs, fold x.name ∉ u.names := by
      intro u hu x hx hmem
      rcases (Create.mem_names hu).mp hmem with hmem | heq
      · exact hcs x hx hmem
      · exact hnodup.1 (heq ▸ List.mem_map_of_mem hx)
    cases c with
    | table d =>
      have hrun : (Create.table d).run s = some (s.addTable d) := if_neg (mt List.contains_iff_mem.mp hc)
      have hadded : ∀ n ∈ fold d.name :: known, n ∈ (s.addTable d).tables.map (fold ·.name) := by
        intro n hn
        rw [Declared.addTable, List.map_append, List.map_singleton, List.mem_append, List.mem_singleton]
        exact (List.mem_cons.mp hn).elim Or.inr fun hn => Or.inl (hknown n hn)
      obtain ⟨t, ht⟩ := ih hadded hplaced hnodup.2 (hrest hrun)
      exact ⟨t, by rw [List.foldlM_cons, hrun]; exact ht⟩
    | index i =>
      have htable := hknown (fold i.table) hplaced.1
      have hrun : (Create.index i).run s = some (s.addIndex i htable) :=
        (if_neg (mt List.contains_iff_mem.mp hc)).trans (dif_pos (List.contains_iff_mem.mpr htable))
      obtain ⟨t, ht⟩ := ih (s := s.addIndex i htable) hknown hplaced.2 hnodup.2 (hrest hrun)
      exact ⟨t, by rw [List.foldlM_cons, hrun]; exact ht⟩

/-! ## The migration and the models -/

theorem downgrade_eq : downgrade = (upgrade.map Create.undo).reverse := rfl

/-- **The migration runs where its names are free; it makes the tables of the models, and can be taken back** but for
`sqlite_sequence`, which the table with `AUTOINCREMENT` brings. -/
theorem upgrade_exact (s : Declared) :
    ((∃ t, upgrade.foldlM Create.run s = some t) ↔ ∀ c ∈ upgrade, fold c.name ∉ s.names) ∧
      ∀ t, upgrade.foldlM Create.run s = some t →
        t.tables = s.tables ++ [users, tablePolicies, auditLogs, errorReports] ∧ t.views = s.views ∧
        t.indexes = s.indexes ++ [⟨"ix_audit_logs_correlation_id", "audit_logs", ["correlation_id"]⟩] ∧
        t.sequenced = true ∧ downgrade.foldlM Drop.run t = some (s.withSequence true) := by
  refine ⟨⟨fun ⟨t, ht⟩ => Create.fresh_all ht, fun hfresh => ?_⟩, fun t ht => ?_⟩
  · refine @Create.foldlM_isSome upgrade s [] (by simp) ?_ (by decide) hfresh
    simp [Placed, upgrade]
  · obtain ⟨htables, hviews, hindexes, hsequenced⟩ := Create.foldlM_declared ht
    have hsequence : t.sequenced = true := hsequenced.trans (Bool.or_true _)
    refine ⟨htables, hviews, hindexes, hsequence, ?_⟩
    rw [downgrade_eq, Create.foldlM_undo ht, hsequence]

/-- What is required of the schema is what the migration makes. -/
theorem missingTables_upgrade {s t : Declared} (h : upgrade.foldlM Create.run s = some t) :
    Db.missingTables (t.tables.map (·.name.toList)) = [] := by
  rw [Db.missingTables_eq_nil, (Create.foldlM_declared h).1]
  have hall : ∀ n ∈ Db.requiredTables, n ∈ (upgrade.filterMap Create.table?).map (·.name.toList) := by decide
  intro n hn
  rw [List.map_append]
  exact List.mem_append_right _ (hall n hn)

end DataAgent.Models
