import DataAgent.Models.Schema

/-!
# Rows as objects

What the rows of the admin database stand for.

* `User`, `Policy`, `AuditLog`, `ErrorReport` : objects in which no field breaks a check; each `ofRow_isSome_iff` says
  that a row is such an object exactly if it meets the declarations of its table;
* `Contents` : what the database says as a whole; **`contents_of_consistent`** : it says so if it is consistent.
-/

namespace DataAgent.Models
open Sqlite

/-! ## Fields -/

/-- The text has something between its spaces. -/
def NotBlank (t : List Char) : Prop := length (trim t) ≠ 0

instance (t : List Char) : Decidable (NotBlank t) := inferInstanceAs (Decidable (_ ≠ _))

abbrev Name := {t : List Char // NotBlank t}

def nameOf : Sqlite.Value → Option Name
  | .text t => if h : NotBlank t then some ⟨t, h⟩ else none
  | _ => none

/-- How deep an event lies; nothing keeps a number like 1.5 out. -/
abbrev Depth := {x : Double // .ofInt 0 ≤ x ∧ x ≤ .ofInt 2}

def depthOf (v : Sqlite.Value) : Option Depth := do
  let x ← v.toDouble
  if h : .ofInt 0 ≤ x ∧ x ≤ .ofInt 2 then some ⟨x, h⟩ else none

def boolOf : Sqlite.Value → Option Bool
  | .int 0 => some false
  | .int 1 => some true
  | _ => none

/-- The text of a JSON array that is not empty. -/
abbrev Columns (E : Engine) := {t : List Char // ∃ n, E.json t = some ("array", n) ∧ 1 ≤ n}

def columnsOf (E : Engine) (v : Sqlite.Value) : Option (Columns E) := do
  let t ← v.chars E
  match h : E.json t with
  | some (kind, n) => if hn : kind = "array" ∧ 1 ≤ n then some ⟨t, n, by rw [h, hn.1], hn.2⟩ else none
  | none => none

/-- The member of an enumeration that a value is stored for. -/
def enumOf {α : Type} (members : List α) (value : α → String) (v : Sqlite.Value) : Option α :=
  members.find? fun m => str (value m) = v

section
variable {E : Engine} {row : String → Sqlite.Value} {c : String}

/-- What a column for texts holds. -/
theorem text_of_store {v : Sqlite.Value} (h : Affinity.text.store E v = v) (hnull : v ≠ .null) :
    ∃ t, v = .text t := by
  cases v with
  | null => exact absurd rfl hnull
  | text t => exact ⟨t, rfl⟩
  | _ => simp [Affinity.store] at h

theorem nameOf_isSome_iff (h : Affinity.text.store E (row c) = row c) :
    (nameOf (row c)).isSome ↔ row c ≠ .null ∧ passes E row (notBlank c) = true := by
  by_cases hnull : row c = .null
  · simp [hnull, nameOf]
  · obtain ⟨t, ht⟩ := text_of_store h hnull
    have hname : (nameOf (.text t)).isSome ↔ NotBlank t := by by_cases ht : NotBlank t <;> simp [nameOf, ht]
    rw [passes_notBlank ht, ht, hname]
    simp [NotBlank]

theorem depthOf_isSome_iff : (depthOf (row c)).isSome ↔ row c ≠ .null ∧ passes E row (between c 0 2) = true := by
  by_cases hnull : row c = .null
  · simp [hnull, depthOf, Sqlite.Value.toDouble]
  · rw [passes_between hnull]
    cases hx : (row c).toDouble with
    | none => simp [depthOf, hx]
    | some x => by_cases h : Double.ofInt 0 ≤ x ∧ x ≤ Double.ofInt 2 <;> simp [depthOf, hx, h, hnull]

/-- Among the real numbers that are stored there is none of the integers that stand for the booleans. -/
theorem boolOf_isSome_iff (h : Affinity.numeric.store E (row c) = row c) : (boolOf (row c)).isSome ↔
    row c ≠ .null ∧ passes E row (.isIn (.column c) [.int 0, .int 1]) = true := by
  by_cases hnull : row c = .null
  · simp [hnull, boolOf]
  rw [passes_isIn hnull]
  have hmem : (boolOf (row c)).isSome ↔ row c = .int 0 ∨ row c = .int 1 := by
    unfold boolOf
    split <;> simp_all
  rw [hmem]
  cases hrow : row c with
  | null => exact absurd hrow hnull
  | int i => simp [Sqlite.Value.order, compareOfLessAndEq_eq_eq]
  | text t => simp [Sqlite.Value.order]
  | real x =>
    have hx : x ≠ .ofInt 0 ∧ x ≠ .ofInt 1 := by
      rw [hrow] at h
      constructor <;> · rintro rfl; simp [Affinity.store, Double.store, Double.ofInt] at h
    simp [Sqlite.Value.order, compareOfLessAndEq_eq_eq, hx]

theorem columnsOf_isSome_iff : (columnsOf E (row c)).isSome ↔
    row c ≠ .null ∧ passes E row (nonemptyArray c) = true := by
  cases hchars : (row c).chars E with
  | none =>
    have hnull : row c = .null := by
      cases hrow : row c with
      | null => rfl
      | _ => simp [hrow, Sqlite.Value.chars] at hchars
    simp [columnsOf, hnull, Sqlite.Value.chars]
  | some t =>
    have hnull : row c ≠ .null := fun heq => by simp [heq, Sqlite.Value.chars] at hchars
    rw [passes_nonemptyArray hchars]
    have hcolumns : (columnsOf E (row c)).isSome ↔ ∃ n, E.json t = some ("array", n) ∧ 1 ≤ n := by
      simp only [columnsOf, hchars, Option.bind_eq_bind, Option.bind_some]
      split
      · rename_i kind n hj
        split
        · simp_all
        · simp_all
      · simp_all
    simp [hcolumns, hnull]

theorem enumOf_isSome_iff {α : Type} {members : List α} {value : α → String}
    (h : Affinity.text.store E (row c) = row c) : (enumOf members value (row c)).isSome ↔
      row c ≠ .null ∧ passes E row (.isIn (.column c) (members.map fun m => str (value m))) = true := by
  have hmem : (enumOf members value (row c)).isSome ↔ ∃ m ∈ members, str (value m) = row c := by
    simp [enumOf, List.find?_isSome]
  rw [hmem]
  by_cases hnull : row c = .null
  · simp [hnull, str]
  · obtain ⟨t, ht⟩ := text_of_store h hnull
    rw [passes_isIn hnull, ht]
    simp [order_text_eq]

theorem isSome_last {α β : Type} {x : Option α} {f : α → β} : (x >>= fun a => some (f a)).isSome ↔ x.isSome := by
  cases x <;> simp

/-- One field after another. -/
theorem isSome_seq {α β : Type} {x : Option α} {f : α → Option β} {p : Prop} (h : ∀ a, (f a).isSome ↔ p) :
    (x >>= f).isSome ↔ x.isSome ∧ p := by
  cases x <;> simp [h]

end

/-! ## Rows -/

structure User where
  id : Int
  slackUserId : Name
  isActive : Bool
  role : UserRole

def User.ofRow (r : Record) : Option User := do
  let slackUserId ← nameOf (r.get "slack_user_id")
  let isActive ← boolOf (r.get "is_active")
  let role ← enumOf UserRole.all UserRole.value (r.get "role")
  return ⟨r.id, slackUserId, isActive, role⟩

/-- A row of `table_policies`. -/
structure Policy (E : Engine) where
  id : Int
  role : UserRole
  schemaName : Name
  tableName : Name
  allowedColumns : Columns E

def Policy.ofRow (E : Engine) (r : Record) : Option (Policy E) := do
  let role ← enumOf UserRole.all UserRole.value (r.get "role")
  let schemaName ← nameOf (r.get "schema_name")
  let tableName ← nameOf (r.get "table_name")
  let allowedColumns ← columnsOf E (r.get "allowed_columns")
  return ⟨r.id, role, schemaName, tableName, allowedColumns⟩

structure AuditLog where
  id : Int
  correlationId : Name
  workflowStep : Name
  depth : Depth
  status : AuditStatus
  isRetry : Bool
  occurredAt : Sqlite.Value

def AuditLog.ofRow (r : Record) : Option AuditLog := do
  let correlationId ← nameOf (r.get "correlation_id")
  let workflowStep ← nameOf (r.get "workflow_step")
  let depth ← depthOf (r.get "depth")
  let status ← enumOf AuditStatus.all AuditStatus.value (r.get "status")
  let isRetry ← boolOf (r.get "is_retry")
  if r.get "occurred_at" = .null then none
  else return ⟨r.id, correlationId, workflowStep, depth, status, isRetry, r.get "occurred_at"⟩

structure ErrorReport where
  id : Int
  correlationId : Name
  auditLogId : Option Int

/-- The id of an audit log, or null. -/
def referenceOf : Sqlite.Value → Option (Option Int)
  | .null => some none
  | .int i => some (some i)
  | _ => none

def ErrorReport.ofRow (r : Record) : Option ErrorReport := do
  let correlationId ← nameOf (r.get "correlation_id")
  let auditLogId ← referenceOf (r.get "audit_log_id")
  return ⟨r.id, correlationId, auditLogId⟩

section
variable {E : Engine} {r : Record}

theorem store_get {d : TableDef} (h : Typed E d r) (c : String) {column : Column} (hcolumn : d.column c = some column)
    (hid : c ≠ "id") : column.affinity.store E (r.get c) = r.get c := by
  rw [Record.get, if_neg hid]
  exact h c column hcolumn

theorem User.ofRow_isSome_iff (h : Typed E users r) :
    (User.ofRow r).isSome ↔ rowError (adminSchema E) users r = none := by
  have hfields : (User.ofRow r).isSome ↔ (nameOf (r.get "slack_user_id")).isSome ∧
      (boolOf (r.get "is_active")).isSome ∧ (enumOf UserRole.all UserRole.value (r.get "role")).isSome :=
    isSome_seq fun _ => isSome_seq fun _ => isSome_last
  rw [hfields, nameOf_isSome_iff (E := E) (store_get h "slack_user_id" rfl (by decide)),
    boolOf_isSome_iff (E := E) (store_get h "is_active" rfl (by decide)),
    enumOf_isSome_iff (E := E) (store_get h "role" rfl (by decide)), rowError_eq_none]
  simp only [users, text, numeric, List.forall_mem_cons, List.not_mem_nil, false_imp_iff, implies_true, and_true,
    true_imp_iff]
  constructor
  · rintro ⟨⟨hslack, hslackName⟩, ⟨hactive, hbool⟩, hrole, hmember⟩
    exact ⟨⟨hslack, hactive, hrole⟩, hslackName, hbool, hmember⟩
  · rintro ⟨⟨hslack, hactive, hrole⟩, hslackName, hbool, hmember⟩
    exact ⟨⟨hslack, hslackName⟩, ⟨hactive, hbool⟩, hrole, hmember⟩

theorem Policy.ofRow_isSome_iff (h : Typed E tablePolicies r) :
    (Policy.ofRow E r).isSome ↔ rowError (adminSchema E) tablePolicies r = none := by
  have hfields : (Policy.ofRow E r).isSome ↔ (enumOf UserRole.all UserRole.value (r.get "role")).isSome ∧
      (nameOf (r.get "schema_name")).isSome ∧ (nameOf (r.get "table_name")).isSome ∧
      (columnsOf E (r.get "allowed_columns")).isSome :=
    isSome_seq fun _ => isSome_seq fun _ => isSome_seq fun _ => isSome_last
  rw [hfields, enumOf_isSome_iff (E := E) (store_get h "role" rfl (by decide)),
    nameOf_isSome_iff (E := E) (store_get h "schema_name" rfl (by decide)),
    nameOf_isSome_iff (E := E) (store_get h "table_name" rfl (by decide)), columnsOf_isSome_iff, rowError_eq_none]
  simp only [tablePolicies, text, numeric, List.forall_mem_cons, List.not_mem_nil, false_imp_iff, implies_true,
    and_true, true_imp_iff]
  constructor
  · rintro ⟨⟨hrole, hmember⟩, ⟨hschema, hschemaName⟩, ⟨htable, htableName⟩, hcolumns, harray⟩
    exact ⟨⟨hrole, hschema, htable, hcolumns⟩, hmember, hschemaName, htableName, harray⟩
  · rintro ⟨⟨hrole, hschema, htable, hcolumns⟩, hmember, hschemaName, htableName, harray⟩
    exact ⟨⟨hrole, hmember⟩, ⟨hschema, hschemaName⟩, ⟨htable, htableName⟩, hcolumns, harray⟩

theorem AuditLog.ofRow_isSome_iff (h : Typed E auditLogs r) :
    (AuditLog.ofRow r).isSome ↔ rowError (adminSchema E) auditLogs r = none := by
  have hfields : (AuditLog.ofRow r).isSome ↔ (nameOf (r.get "correlation_id")).isSome ∧
      (nameOf (r.get "workflow_step")).isSome ∧ (depthOf (r.get "depth")).isSome ∧
      (enumOf AuditStatus.all AuditStatus.value (r.get "status")).isSome ∧ (boolOf (r.get "is_retry")).isSome ∧
      r.get "occurred_at" ≠ .null := by
    refine isSome_seq fun _ => isSome_seq fun _ => isSome_seq fun _ => isSome_seq fun _ => isSome_seq fun _ => ?_
    split <;> simp_all
  rw [hfields, nameOf_isSome_iff (E := E) (store_get h "correlation_id" rfl (by decide)),
    nameOf_isSome_iff (E := E) (store_get h "workflow_step" rfl (by decide)),
    depthOf_isSome_iff (E := E), enumOf_isSome_iff (E := E) (store_get h "status" rfl (by decide)),
    boolOf_isSome_iff (E := E) (store_get h "is_retry" rfl (by decide)), rowError_eq_none]
  simp only [auditLogs, text, numeric, List.forall_mem_cons, List.not_mem_nil, false_imp_iff, implies_true, and_true,
    true_imp_iff]
  constructor
  · rintro ⟨⟨hid, hidName⟩, ⟨hstep, hstepName⟩, ⟨hdepth, hrange⟩, ⟨hstatus, hmember⟩, ⟨hretry, hbool⟩, hoccurred⟩
    exact ⟨⟨hid, hstep, hdepth, hstatus, hretry, hoccurred⟩, hidName, hstepName, hrange, hmember, hbool⟩
  · rintro ⟨⟨hid, hstep, hdepth, hstatus, hretry, hoccurred⟩, hidName, hstepName, hrange, hmember, hbool⟩
    exact ⟨⟨hid, hidName⟩, ⟨hstep, hstepName⟩, ⟨hdepth, hrange⟩, ⟨hstatus, hmember⟩, ⟨hretry, hbool⟩, hoccurred⟩

theorem ErrorReport.ofRow_isSome_iff (h : Typed E errorReports r) : (ErrorReport.ofRow r).isSome ↔
    rowError (adminSchema E) errorReports r = none ∧ (referenceOf (r.get "audit_log_id")).isSome := by
  have hfields : (ErrorReport.ofRow r).isSome ↔ (nameOf (r.get "correlation_id")).isSome ∧
      (referenceOf (r.get "audit_log_id")).isSome := isSome_seq fun _ => isSome_last
  rw [hfields, nameOf_isSome_iff (E := E) (store_get h "correlation_id" rfl (by decide)), rowError_eq_none]
  simp only [errorReports, text, List.forall_mem_cons, List.not_mem_nil, false_imp_iff, implies_true, and_true,
    true_imp_iff, reduceCtorEq]
  rfl

/-! ## From an object to its row -/

theorem nameOf_eq_some {v : Sqlite.Value} {n : Name} (h : nameOf v = some n) : v = .text n := by
  cases v with
  | text t =>
    simp only [nameOf] at h
    split at h
    · rw [← Option.some.inj h]
    · simp at h
  | _ => simp [nameOf] at h

theorem enumOf_eq_some {α : Type} {members : List α} {value : α → String} {v : Sqlite.Value} {m : α}
    (h : enumOf members value v = some m) : v = str (value m) := by
  unfold enumOf at h
  have hm : str (value m) = v := by simpa using List.find?_some h
  exact hm.symm

theorem User.ofRow_eq_some {u : User} (h : User.ofRow r = some u) :
    r.get "slack_user_id" = .text u.slackUserId := by
  simp only [User.ofRow, Option.bind_eq_bind, Option.bind_eq_some_iff] at h
  obtain ⟨n, hn, b, -, m, -, h⟩ := h
  obtain rfl := Option.some.inj h
  exact nameOf_eq_some hn

theorem Policy.ofRow_eq_some {p : Policy E} (h : Policy.ofRow E r = some p) :
    r.get "role" = str p.role.value ∧ r.get "schema_name" = .text p.schemaName ∧
      r.get "table_name" = .text p.tableName := by
  simp only [Policy.ofRow, Option.bind_eq_bind, Option.bind_eq_some_iff] at h
  obtain ⟨m, hm, schemaName, hschema, tableName, htable, columns, -, h⟩ := h
  obtain rfl := Option.some.inj h
  exact ⟨enumOf_eq_some hm, nameOf_eq_some hschema, nameOf_eq_some htable⟩

theorem AuditLog.ofRow_eq_some {a : AuditLog} (h : AuditLog.ofRow r = some a) :
    a.id = r.id ∧ r.get "correlation_id" = .text a.correlationId := by
  simp only [AuditLog.ofRow, Option.bind_eq_bind, Option.bind_eq_some_iff] at h
  obtain ⟨n, hn, step, -, depth, -, status, -, retry, -, h⟩ := h
  split at h
  · simp at h
  · obtain rfl := Option.some.inj h
    exact ⟨rfl, nameOf_eq_some hn⟩

theorem ErrorReport.ofRow_eq_some {e : ErrorReport} (h : ErrorReport.ofRow r = some e) :
    e.id = r.id ∧ r.get "correlation_id" = .text e.correlationId ∧
      r.get "audit_log_id" = e.auditLogId.elim .null .int := by
  simp only [ErrorReport.ofRow, Option.bind_eq_bind, Option.bind_eq_some_iff] at h
  obtain ⟨n, hn, reference, hreference, h⟩ := h
  obtain rfl := Option.some.inj h
  refine ⟨rfl, nameOf_eq_some hn, ?_⟩
  cases hv : r.get "audit_log_id" with
  | null =>
    rw [hv, referenceOf, Option.some.injEq] at hreference
    rw [← hreference, Option.elim_none]
  | int i =>
    rw [hv, referenceOf, Option.some.injEq] at hreference
    rw [← hreference, Option.elim_some]
  | _ => simp [hv, referenceOf] at hreference

end

/-! ## The store as a whole -/

/-- What the admin database says. -/
structure Contents (E : Engine) where
  users : List User
  policies : List (Policy E)
  events : List AuditLog
  reports : List ErrorReport
  slackIds : (users.map (·.slackUserId)).Nodup
  scopes : (policies.map fun p => (p.role, p.schemaName, p.tableName)).Nodup
  ids : (events.map (·.id)).Nodup
  /-- A report that names an event has the correlation id of the event. -/
  references : ∀ e ∈ reports, ∀ i, e.auditLogId = some i → ∃ a ∈ events, a.id = i ∧ a.correlationId = e.correlationId

section
variable {E : Engine} {db : Database}

/-- The rows of the database are those objects. -/
structure Stores (db : Database) (c : Contents E) : Prop where
  users : (db "users").rows.map User.ofRow = c.users.map some
  policies : (db "table_policies").rows.map (Policy.ofRow E) = c.policies.map some
  events : (db "audit_logs").rows.map AuditLog.ofRow = c.events.map some
  reports : (db "error_reports").rows.map ErrorReport.ofRow = c.reports.map some

theorem exists_objects {α : Type} {f : Record → Option α} {rows : List Record} (h : ∀ r ∈ rows, (f r).isSome) :
    ∃ xs : List α, rows.map f = xs.map some := by
  induction rows with
  | nil => exact ⟨[], rfl⟩
  | cons r rows ih =>
    obtain ⟨hr, hrows⟩ := List.forall_mem_cons.mp h
    obtain ⟨xs, hxs⟩ := ih hrows
    obtain ⟨x, hx⟩ := Option.isSome_iff_exists.mp hr
    exact ⟨x :: xs, by rw [List.map_cons, hx, hxs, List.map_cons]⟩

theorem mem_objects {α : Type} {f : Record → Option α} {rows : List Record} {xs : List α}
    (h : rows.map f = xs.map some) {x : α} : x ∈ xs ↔ ∃ r ∈ rows, f r = some x := by
  rw [← List.mem_map_of_injective (Option.some_injective α), ← h, List.mem_map]

theorem map_objects {α β : Type} {f : Record → Option α} {g : α → β} {k : Record → β} {rows : List Record} {xs : List α}
    (h : rows.map f = xs.map some) (hk : ∀ r x, f r = some x → k r = g x) : rows.map k = xs.map g := by
  induction rows generalizing xs with
  | nil =>
    obtain rfl : xs = [] := by simpa using h.symm
    rfl
  | cons r rows ih =>
    cases xs with
    | nil => simp at h
    | cons x xs =>
      rw [List.map_cons, List.map_cons, List.cons.injEq] at h
      rw [List.map_cons, List.map_cons, hk r x h.1, ih h.2]

theorem nodup_objects {α β : Type} {f : Record → Option α} {g : α → β} {rows : List Record} {xs : List α}
    (h : rows.map f = xs.map some) (hnodup : (rows.map fun r => (f r).map g).Nodup) : (xs.map g).Nodup := by
  have hmap : rows.map (fun r => (f r).map g) = xs.map fun x => some (g x) :=
    map_objects h fun r x hx => by rw [hx, Option.map_some]
  rw [hmap] at hnodup
  exact List.Nodup.of_map some (by rwa [List.map_map])

theorem key_eq_some_iff {r : Record} {columns : List String} {values : List Sqlite.Value} :
    r.key columns = some values ↔ columns.map r.get = values ∧ Sqlite.Value.null ∉ values := by
  rw [Record.key]
  split
  · refine iff_of_false (by simp) ?_
    rintro ⟨rfl, hnull⟩
    exact hnull ‹_›
  · rw [Option.some.injEq]
    exact ⟨fun h => ⟨h, h ▸ ‹_›⟩, And.left⟩

variable (h : Consistent (adminSchema E) db)
include h

theorem users_isSome : ∀ r ∈ (db "users").rows, (User.ofRow r).isSome := fun r hr =>
  (User.ofRow_isSome_iff (h.typed users (by simp [adminSchema]) r hr)).mpr
    (h.rows users (by simp [adminSchema]) r hr)

theorem policies_isSome : ∀ r ∈ (db "table_policies").rows, (Policy.ofRow E r).isSome := fun r hr =>
  (Policy.ofRow_isSome_iff (h.typed tablePolicies (by simp [adminSchema]) r hr)).mpr
    (h.rows tablePolicies (by simp [adminSchema]) r hr)

theorem events_isSome : ∀ r ∈ (db "audit_logs").rows, (AuditLog.ofRow r).isSome := fun r hr =>
  (AuditLog.ofRow_isSome_iff (h.typed auditLogs (by simp [adminSchema]) r hr)).mpr
    (h.rows auditLogs (by simp [adminSchema]) r hr)

/-- The event that a report refers to. -/
theorem referenced {r : Record} (hr : r ∈ (db "error_reports").rows) {key : List Sqlite.Value}
    (hkey : r.key ["audit_log_id", "correlation_id"] = some key) :
    ∃ p ∈ (db "audit_logs").rows, p.key ["id", "correlation_id"] = some key :=
  h.references errorReports (by simp [adminSchema]) _ (List.mem_singleton_self _) r hr key hkey

theorem reports_isSome : ∀ r ∈ (db "error_reports").rows, (ErrorReport.ofRow r).isSome := by
  intro r hr
  have hrow := h.rows errorReports (by simp [adminSchema]) r hr
  refine (ErrorReport.ofRow_isSome_iff (h.typed errorReports (by simp [adminSchema]) r hr)).mpr ⟨hrow, ?_⟩
  by_cases hreference : r.get "audit_log_id" = .null
  · simp [hreference, referenceOf]
  have hnull : r.get "correlation_id" ≠ .null :=
    (rowError_eq_none.mp hrow).1 (text "correlation_id") (by simp [errorReports]) rfl
  -- what refers to an event is the id of one
  have hkey : r.key ["audit_log_id", "correlation_id"] = some [r.get "audit_log_id", r.get "correlation_id"] :=
    key_eq_some_iff.mpr ⟨rfl, by simpa using ⟨Ne.symm hreference, hnull.symm⟩⟩
  obtain ⟨p, -, hp⟩ := referenced h hr hkey
  obtain ⟨hid, -⟩ := List.cons.inj (key_eq_some_iff.mp hp).1
  rw [← hid]
  rfl

omit h

/-- **What the declarations say of the rows is what makes them the objects of the store.** -/
theorem contents_of_consistent (h : Consistent (adminSchema E) db) : ∃ c : Contents E, Stores db c := by
  obtain ⟨us, hus⟩ := exists_objects (users_isSome h)
  obtain ⟨ps, hps⟩ := exists_objects (policies_isSome h)
  obtain ⟨es, hes⟩ := exists_objects (events_isSome h)
  obtain ⟨rs, hrs⟩ := exists_objects (reports_isSome h)
  refine ⟨⟨us, ps, es, rs, ?_, ?_, ?_, ?_⟩, hus, hps, hes, hrs⟩
  · have hd : users ∈ (adminSchema E).tables := by simp [adminSchema]
    refine nodup_objects hus (h.nodup_map hd (List.mem_singleton_self _) ?_)
    intro r hr x hx heq
    obtain ⟨u, hu⟩ := Option.isSome_iff_exists.mp (users_isSome h r hr)
    obtain ⟨v, hv⟩ := Option.isSome_iff_exists.mp (users_isSome h x hx)
    rw [hu, hv, Option.map_some, Option.map_some, Option.some.injEq] at heq
    refine ⟨[.text u.slackUserId], key_eq_some_iff.mpr ⟨?_, by simp⟩, key_eq_some_iff.mpr ⟨?_, by simp⟩⟩
    · simp [User.ofRow_eq_some hu]
    · simp [User.ofRow_eq_some hv, heq]
  · have hd : tablePolicies ∈ (adminSchema E).tables := by simp [adminSchema]
    refine nodup_objects hps (h.nodup_map hd (List.mem_singleton_self _) ?_)
    intro r hr x hx heq
    obtain ⟨p, hp⟩ := Option.isSome_iff_exists.mp (policies_isSome h r hr)
    obtain ⟨q, hq⟩ := Option.isSome_iff_exists.mp (policies_isSome h x hx)
    rw [hp, hq, Option.map_some, Option.map_some, Option.some.injEq] at heq
    obtain ⟨hrole, hschema, htable⟩ := Policy.ofRow_eq_some hp
    obtain ⟨hrole', hschema', htable'⟩ := Policy.ofRow_eq_some hq
    simp only [Prod.mk.injEq] at heq
    refine ⟨[str p.role.value, .text p.schemaName, .text p.tableName], key_eq_some_iff.mpr ⟨?_, by simp [str]⟩,
      key_eq_some_iff.mpr ⟨?_, by simp [str]⟩⟩
    · simp [hrole, hschema, htable]
    · simp [hrole', hschema', htable', heq]
  · have hd : auditLogs ∈ (adminSchema E).tables := by simp [adminSchema]
    rw [← map_objects hes fun r x hx => (AuditLog.ofRow_eq_some hx).1.symm]
    exact h.ids auditLogs hd
  · intro e he i hi
    obtain ⟨r, hr, hre⟩ := (mem_objects hrs).mp he
    obtain ⟨-, hcorrelation, hreference⟩ := ErrorReport.ofRow_eq_some hre
    rw [hi, Option.elim_some] at hreference
    have hrkey : r.key ["audit_log_id", "correlation_id"] = some [.int i, .text e.correlationId] :=
      key_eq_some_iff.mpr ⟨by simp [hcorrelation, hreference], by simp⟩
    obtain ⟨p, hp, hkey⟩ := referenced h hr hrkey
    obtain ⟨a, ha⟩ := Option.isSome_iff_exists.mp (events_isSome h p hp)
    obtain ⟨hid, hcorr⟩ := AuditLog.ofRow_eq_some ha
    have hvalues := (key_eq_some_iff.mp hkey).1
    simp only [List.map_cons, List.map_nil, List.cons.injEq, and_true, hcorr] at hvalues
    refine ⟨a, (mem_objects hes).mpr ⟨p, hp, ha⟩, ?_, ?_⟩
    · rw [hid]
      exact Sqlite.Value.int.inj hvalues.1
    · exact Subtype.ext (Sqlite.Value.text.inj hvalues.2)

end

end DataAgent.Models
