import DataAgent.Models.Rows

/-!
# The admin store

New rows, removals and runs, with foreign keys enforced as `session.build_admin_db_engine` sets it for each connection.

* `recordAudit`, `fileReport`, `removeEvent` : rows that are added and removed;
* `Contents.record`, `Contents.file`, `Contents.forget` : the same for the objects; **`recordAudit_stores`**,
  **`fileReport_exact`**, **`removeEvent_exact`** : when the database allows it, and that nothing else changes;
* **`stored_contents`** : every run leaves objects; **`recordAudit_trail`** : the events of a request, in order.
-/

namespace DataAgent.Models
open Sqlite

section
variable {E : Engine} {db : Database}

/-! ## New rows -/

/-- An `AuditLog` that is added to a session; what is not set is left to the database. -/
structure NewAudit where
  correlationId : List Char
  workflowStep : List Char
  depth : Int
  status : AuditStatus
  isRetry : Option Bool
  /-- As the driver writes it. -/
  occurredAt : Option (List Char)

def NewAudit.values (a : NewAudit) (c : String) : Option Sqlite.Value :=
  ([("correlation_id", some (.text a.correlationId)), ("workflow_step", some (.text a.workflowStep)),
    ("depth", some (.int a.depth)), ("status", some (str a.status.value)),
    ("is_retry", a.isRetry.map Sqlite.Value.ofBool), ("occurred_at", a.occurredAt.map .text)].lookup c).join

/-- The event that the row of an id is, unless a field breaks a check. -/
def NewAudit.event (E : Engine) (a : NewAudit) (now : List Char) (id : Int) : Option AuditLog :=
  if h : NotBlank a.correlationId ∧ NotBlank a.workflowStep ∧ 0 ≤ a.depth ∧ a.depth ≤ 2 then
    some ⟨id, ⟨a.correlationId, h.1⟩, ⟨a.workflowStep, h.2.1⟩,
      ⟨.ofInt a.depth, Double.ofInt_le.mpr h.2.2.1, Double.ofInt_le.mpr h.2.2.2⟩, a.status, a.isRetry.getD false,
      Affinity.numeric.store E (.text (a.occurredAt.getD now))⟩
  else none

def recordAudit (E : Engine) (db : Database) (a : NewAudit) (chance : Chance) : Except SqlError Database :=
  exec (adminSchema E) true db (.insert "audit_logs" none a.values chance)

def NewAudit.row (E : Engine) (a : NewAudit) (now : List Char) (id : Int) : Record :=
  ⟨id, complete (adminSchema E) auditLogs now a.values⟩

theorem boolOf_ofBool (b : Bool) : boolOf (.ofBool b) = some b := by cases b <;> rfl

theorem enumOf_status (s : AuditStatus) : enumOf AuditStatus.all AuditStatus.value (str s.value) = some s := by
  cases s <;> rfl

theorem nameOf_text (t : List Char) : nameOf (.text t) = if h : NotBlank t then some ⟨t, h⟩ else none := rfl

theorem depthOf_int (i : Int) : depthOf (.int i) = if h : 0 ≤ i ∧ i ≤ 2 then
    some ⟨.ofInt i, Double.ofInt_le.mpr h.1, Double.ofInt_le.mpr h.2⟩ else none := by
  by_cases h : 0 ≤ i ∧ i ≤ 2 <;> simp [depthOf, Sqlite.Value.toDouble, Double.ofInt_le, h]

theorem store_text_ne_null (t : List Char) : Affinity.numeric.store E (.text t) ≠ .null := by
  rcases h : E.number t with _ | i | x
  · simp [Affinity.store, h]
  · simp [Affinity.store, h]
  · rcases x.store_eq with hx | ⟨i, hx, -⟩ <;> simp [Affinity.store, h, hx]

/-- What is read back is what was added, with the defaults. -/
theorem NewAudit.ofRow_row (a : NewAudit) (now : List Char) (id : Int) :
    AuditLog.ofRow (a.row E now id) = a.event E now id := by
  have hcorrelation : (a.row E now id).get "correlation_id" = .text a.correlationId := rfl
  have hstep : (a.row E now id).get "workflow_step" = .text a.workflowStep := rfl
  have hdepth : (a.row E now id).get "depth" = .int a.depth := rfl
  have hstatus : (a.row E now id).get "status" = str a.status.value := rfl
  have hretry : (a.row E now id).get "is_retry" = .ofBool (a.isRetry.getD false) := by
    show Affinity.numeric.store E ((a.isRetry.map Sqlite.Value.ofBool).getD (.int 0)) = _
    cases a.isRetry <;> rfl
  have hoccurred : (a.row E now id).get "occurred_at" =
      Affinity.numeric.store E (.text (a.occurredAt.getD now)) := by
    show Affinity.numeric.store E ((a.occurredAt.map Sqlite.Value.text).getD (.text now)) = _
    cases a.occurredAt <;> rfl
  have hid : (a.row E now id).id = id := rfl
  rw [AuditLog.ofRow, hcorrelation, hstep, hdepth, hstatus, hretry, hoccurred, hid, nameOf_text, nameOf_text,
    depthOf_int, enumOf_status, boolOf_ofBool, NewAudit.event]
  simp only [store_text_ne_null, if_false]
  by_cases h : NotBlank a.correlationId ∧ NotBlank a.workflowStep ∧ 0 ≤ a.depth ∧ a.depth ≤ 2
  · simp [h]
  · rw [dif_neg h]
    by_cases hname : NotBlank a.correlationId <;> by_cases hwork : NotBlank a.workflowStep <;> simp_all

/-- **An event is accepted exactly if no field breaks a check and an id is left**; its id is in its unique key, so that
no other event is in its way. -/
theorem recordAudit_ok_iff {a : NewAudit} {chance : Chance}
    {db' : Database} : recordAudit E db a chance = .ok db' ↔
    ∃ i event, nextId auditLogs (db "audit_logs") chance.draws = .ok i ∧ a.event E chance.now i = some event ∧
      db' = db.set "audit_logs"
        ⟨(db "audit_logs").rows ++ [a.row E chance.now i], max (db "audit_logs").sequence i⟩ := by
  have hd : auditLogs ∈ (adminSchema E).tables := by simp [adminSchema]
  have hexec : recordAudit E db a chance =
      insertRow (adminSchema E) true db auditLogs none a.values chance := onTable_of_mem hd fun d =>
    insertRow (adminSchema E) true db d none a.values chance
  rw [hexec, insertRow_ok_iff]
  constructor
  · rintro ⟨i, hi, rfl, -, hrow, -⟩
    have hsome := (AuditLog.ofRow_isSome_iff (typed_complete auditLogs chance.now a.values i)).mpr hrow
    obtain ⟨event, hevent⟩ := Option.isSome_iff_exists.mp hsome
    exact ⟨i, event, hi, (a.ofRow_row chance.now i).symm.trans hevent, rfl⟩
  · rintro ⟨i, event, hi, hevent, rfl⟩
    have hsome : (AuditLog.ofRow (a.row E chance.now i)).isSome := by rw [a.ofRow_row, hevent, Option.isSome_some]
    have htyped : Typed E auditLogs (a.row E chance.now i) := typed_complete auditLogs chance.now a.values i
    refine ⟨i, hi, rfl, nextId_free hi, (AuditLog.ofRow_isSome_iff htyped).mp hsome, clash_eq_none.mpr ?_, fun _ => rfl⟩
    intro u hu key hkey x hx hxkey
    obtain rfl := List.mem_singleton.mp hu
    have hvalues := (key_eq_some_iff.mp hxkey).1.trans (key_eq_some_iff.mp hkey).1.symm
    exact Sqlite.Value.int.inj (List.cons.inj hvalues).1

end

/-! ## Operations on the store -/

namespace Contents
variable {E : Engine} (c : Contents E)

def record (a : AuditLog) (h : ∀ x ∈ c.events, x.id ≠ a.id) : Contents E :=
  { c with
    events := c.events ++ [a]
    ids := by
      rw [List.map_append, List.map_singleton, List.nodup_append', List.disjoint_singleton]
      refine ⟨c.ids, List.nodup_singleton _, fun hmem => ?_⟩
      obtain ⟨x, hx, hid⟩ := List.mem_map.mp hmem
      exact h x hx hid
    references := fun e he i hi => by
      obtain ⟨x, hx, hid⟩ := c.references e he i hi
      exact ⟨x, List.mem_append_left _ hx, hid⟩ }

def file (e : ErrorReport)
    (h : ∀ i, e.auditLogId = some i → ∃ a ∈ c.events, a.id = i ∧ a.correlationId = e.correlationId) : Contents E :=
  { c with
    reports := c.reports ++ [e]
    references := fun x hx i hi => by
      rcases List.mem_append.mp hx with hx | hx
      · exact c.references x hx i hi
      · rw [List.mem_singleton.mp hx] at hi ⊢
        exact h i hi }

def forget (id : Int) (h : ∀ e ∈ c.reports, e.auditLogId ≠ some id) : Contents E :=
  { c with
    events := c.events.filter (·.id ≠ id)
    ids := c.ids.sublist ((List.filter_sublist ..).map _)
    references := fun e he i hi => by
      obtain ⟨x, hx, hid, hcorrelation⟩ := c.references e he i hi
      have hne : i ≠ id := fun heq => h e he (heq ▸ hi)
      exact ⟨x, List.mem_filter.mpr ⟨hx, by simpa [hid] using hne⟩, hid, hcorrelation⟩ }

end Contents

section
variable {E : Engine} {db : Database}
  {c : Contents E}

/-- The ids of the rows are those of the events. -/
theorem Stores.event_of_row (hc : Stores db c) {r : Record} (hr : r ∈ (db "audit_logs").rows)
    (h : Consistent (adminSchema E) db) : ∃ a ∈ c.events, AuditLog.ofRow r = some a := by
  obtain ⟨a, ha⟩ := Option.isSome_iff_exists.mp (events_isSome h r hr)
  exact ⟨a, (mem_objects hc.events).mpr ⟨r, hr, ha⟩, ha⟩

theorem append_objects {α : Type} {f : Record → Option α} {rows : List Record} {xs : List α}
    (h : rows.map f = xs.map some) {r : Record} {x : α} (hr : f r = some x) :
    (rows ++ [r]).map f = (xs ++ [x]).map some := by
  rw [List.map_append, List.map_append, h, List.map_singleton, hr, List.map_singleton]

theorem filter_objects {α : Type} {f : Record → Option α} {rows : List Record} {xs : List α} {p : Record → Bool}
    {q : α → Bool} (h : rows.map f = xs.map some) (hpq : ∀ r x, f r = some x → p r = q x) :
    (rows.filter p).map f = (xs.filter q).map some := by
  induction rows generalizing xs with
  | nil =>
    obtain rfl : xs = [] := by simpa using h.symm
    rfl
  | cons r rows ih =>
    cases xs with
    | nil => simp at h
    | cons x xs =>
      rw [List.map_cons, List.map_cons, List.cons.injEq] at h
      rw [List.filter_cons, List.filter_cons, hpq r x h.1]
      split
      · rw [List.map_cons, List.map_cons, h.1, ih h.2]
      · exact ih h.2

/-- The reports and what they refer to, as rows. -/
theorem Stores.reference_iff (h : Consistent (adminSchema E) db) (hc : Stores db c) {id : Int} {n : Name} :
    (∃ p ∈ (db "audit_logs").rows, p.key ["id", "correlation_id"] = some [.int id, .text n]) ↔
      ∃ a ∈ c.events, a.id = id ∧ a.correlationId = n := by
  constructor
  · rintro ⟨p, hp, hkey⟩
    obtain ⟨a, ha, hpa⟩ := hc.event_of_row hp h
    obtain ⟨hid, hcorrelation⟩ := AuditLog.ofRow_eq_some hpa
    have hvalues := (key_eq_some_iff.mp hkey).1
    simp only [List.map_cons, List.map_nil, List.cons.injEq, and_true, hcorrelation] at hvalues
    exact ⟨a, ha, hid.trans (Sqlite.Value.int.inj hvalues.1), Subtype.ext (Sqlite.Value.text.inj hvalues.2)⟩
  · rintro ⟨a, ha, rfl, rfl⟩
    obtain ⟨p, hp, hpa⟩ := (mem_objects hc.events).mp ha
    obtain ⟨hid, hcorrelation⟩ := AuditLog.ofRow_eq_some hpa
    refine ⟨p, hp, key_eq_some_iff.mpr ⟨?_, by simp⟩⟩
    rw [List.map_cons, List.map_singleton, hcorrelation, hid]
    rfl

/-- **An event that is recorded is an event more**, and nothing else changes. -/
theorem recordAudit_stores (hc : Stores db c) {a : NewAudit}
    {chance : Chance} {db' : Database} (hrecord : recordAudit E db a chance = .ok db') :
    ∃ event, ∃ hfresh : ∀ x ∈ c.events, x.id < event.id, a.event E chance.now event.id = some event ∧
      (db "audit_logs").sequence < event.id ∧ Stores db' (c.record event fun x hx => (hfresh x hx).ne) := by
  obtain ⟨i, event, hi, hevent, rfl⟩ := recordAudit_ok_iff.mp hrecord
  obtain rfl : event.id = i := by
    simp only [NewAudit.event] at hevent
    split at hevent
    · rw [← Option.some.inj hevent]
    · simp at hevent
  refine ⟨event, fun x hx => ?_, hevent, (nextId_auto rfl hi).2, ?_⟩
  · obtain ⟨r, hr, hrx⟩ := (mem_objects hc.events).mp hx
    rw [(AuditLog.ofRow_eq_some hrx).1]
    exact (nextId_auto rfl hi).1 r hr
  · refine ⟨hc.users, hc.policies, ?_, hc.reports⟩
    rw [Database.set_self]
    exact append_objects hc.events ((a.ofRow_row chance.now event.id).trans hevent)

/-! ## A state with an event -/

def Contents.empty : Contents E := ⟨[], [], [], [], by simp, by simp, by simp, by simp⟩

/-- No JSON is read, and no text is a number. -/
def sampleEngine : Engine := ⟨fun _ => none, fun _ => none, fun _ => []⟩

def sampleAudit : NewAudit := ⟨"corr-1".toList, "acl_check".toList, 1, .success, none, none⟩

def sampleChance : Chance := ⟨"2026-07-22 10:00:00".toList, []⟩

def sampleDb : Database :=
  Database.empty.set "audit_logs" ⟨[sampleAudit.row sampleEngine sampleChance.now 1], 1⟩

def sampleEvent : AuditLog where
  id := 1
  correlationId := ⟨"corr-1".toList, by decide⟩
  workflowStep := ⟨"acl_check".toList, by decide⟩
  depth := ⟨.ofInt 1, Double.ofInt_le.mpr (by decide), Double.ofInt_le.mpr (by decide)⟩
  status := .success
  isRetry := false
  occurredAt := .text sampleChance.now

def sampleContents : Contents sampleEngine := Contents.empty.record sampleEvent (by simp [Contents.empty])

theorem stores_sample : Stores sampleDb sampleContents := by
  refine ⟨rfl, rfl, ?_, rfl⟩
  show [AuditLog.ofRow (sampleAudit.row _ sampleChance.now 1)] = [some sampleEvent]
  rw [NewAudit.ofRow_row]
  exact congrArg (fun x => [x]) (dif_pos (by decide))

/-- A statement that is accepted goes on with a run. -/
theorem Reaches.run {schema : Schema} {ok : Session → Action → Prop} {s t : Session} {stmt : Statement}
    (h : (system schema true).Reaches ok s t) (hok : ok t (.run stmt)) {db' : Database}
    (hexec : exec schema true t.working stmt = .ok db') : (system schema true).Reaches ok s { t with working := db' } :=
  .tail h hok (by simp only [system, hexec])

/-- The event is recorded, and then committed. -/
theorem reaches_sample : (system (adminSchema sampleEngine) true).Reaches (LeavesId "audit_logs")
    (system (adminSchema sampleEngine) true).init ⟨sampleDb, sampleDb⟩ := by
  have hrecord : recordAudit sampleEngine .empty sampleAudit sampleChance = .ok sampleDb :=
    recordAudit_ok_iff.mpr ⟨1, sampleEvent, rfl, dif_pos (by decide), rfl⟩
  exact .tail (Reaches.run (.refl _) (fun _ => rfl) hrecord) (a := .commit) trivial rfl

theorem reachable_sample : (system (adminSchema sampleEngine) true).Reachable ⟨sampleDb, sampleDb⟩ :=
  reaches_sample.mono fun _ _ _ => trivial

/-- An `ErrorReport` that is added to a session. -/
structure NewReport where
  correlationId : List Char
  auditLogId : Option Int

def NewReport.values (e : NewReport) (column : String) : Option Sqlite.Value :=
  ([("correlation_id", some (.text e.correlationId)), ("audit_log_id", e.auditLogId.map .int)].lookup column).join

def NewReport.report (e : NewReport) (id : Int) : Option ErrorReport :=
  if h : NotBlank e.correlationId then some ⟨id, ⟨e.correlationId, h⟩, e.auditLogId⟩ else none

def fileReport (E : Engine) (db : Database) (e : NewReport) (chance : Chance) : Except SqlError Database :=
  exec (adminSchema E) true db (.insert "error_reports" none e.values chance)

def NewReport.row (E : Engine) (e : NewReport) (now : List Char) (id : Int) : Record :=
  ⟨id, complete (adminSchema E) errorReports now e.values⟩

theorem NewReport.get_reference (e : NewReport) (now : List Char) (id : Int) :
    (e.row E now id).get "audit_log_id" = e.auditLogId.elim .null .int := by
  show Affinity.numeric.store E ((e.auditLogId.map Sqlite.Value.int).getD .null) = _
  cases e.auditLogId <;> rfl

theorem NewReport.ofRow_row (e : NewReport) (now : List Char) (id : Int) :
    ErrorReport.ofRow (e.row E now id) = e.report id := by
  have hcorrelation : (e.row E now id).get "correlation_id" = .text e.correlationId := rfl
  have hreference : referenceOf (e.auditLogId.elim .null .int) = some e.auditLogId := by cases e.auditLogId <;> rfl
  have hid : (e.row E now id).id = id := rfl
  rw [ErrorReport.ofRow, hcorrelation, e.get_reference, hreference, hid, nameOf_text, NewReport.report]
  by_cases h : NotBlank e.correlationId <;> simp [h]

theorem NewReport.report_eq_some {e : NewReport} {id : Int} {report : ErrorReport} (h : e.report id = some report) :
    ∃ hname : NotBlank e.correlationId, report = ⟨id, ⟨e.correlationId, hname⟩, e.auditLogId⟩ := by
  simp only [NewReport.report] at h
  split at h
  · exact ⟨‹_›, (Option.some.inj h).symm⟩
  · simp at h

theorem NewReport.key_row (e : NewReport) (now : List Char) (id : Int) :
    (e.row E now id).key ["audit_log_id", "correlation_id"] =
      e.auditLogId.map fun i => [.int i, .text e.correlationId] := by
  have hvalues : ["audit_log_id", "correlation_id"].map (e.row E now id).get =
      [e.auditLogId.elim .null .int, .text e.correlationId] := by
    rw [List.map_cons, List.map_singleton, e.get_reference]
    rfl
  rw [Record.key, hvalues]
  cases e.auditLogId <;> simp

theorem fileReport_ok_iff {e : NewReport} {chance : Chance} {db' : Database} :
    fileReport E db e chance = .ok db' ↔
      ∃ i report, nextId errorReports (db "error_reports") chance.draws = .ok i ∧ e.report i = some report ∧
        (∀ j, e.auditLogId = some j →
          ∃ p ∈ (db "audit_logs").rows, p.key ["id", "correlation_id"] = some [.int j, .text e.correlationId]) ∧
        db' = db.set "error_reports"
          ⟨(db "error_reports").rows ++ [e.row E chance.now i], max (db "error_reports").sequence i⟩ := by
  have hd : errorReports ∈ (adminSchema E).tables := by simp [adminSchema]
  have hexec : fileReport E db e chance = insertRow (adminSchema E) true db errorReports none e.values chance :=
    onTable_of_mem hd fun d => insertRow (adminSchema E) true db d none e.values chance
  -- the events are in another table than the one that changes
  have hdangling : ∀ i t, dangling (db.set "error_reports" t) errorReports (e.row E chance.now i) = none ↔
      ∀ j, e.auditLogId = some j →
        ∃ p ∈ (db "audit_logs").rows, p.key ["id", "correlation_id"] = some [.int j, .text e.correlationId] := by
    intro i t
    have hother : db.set "error_reports" t "audit_logs" = db "audit_logs" := Database.set_of_ne _ _ (by decide)
    rw [dangling_eq_none]
    simp only [errorReports, List.forall_mem_singleton, e.key_row, hother]
    cases e.auditLogId <;> simp
  have htyped : ∀ i, Typed E errorReports (e.row E chance.now i) := typed_complete errorReports chance.now e.values
  have hreference : ∀ i, (referenceOf ((e.row E chance.now i).get "audit_log_id")).isSome := fun i => by
    rw [e.get_reference]
    cases e.auditLogId <;> rfl
  rw [hexec, insertRow_ok_iff]
  constructor
  · rintro ⟨i, hi, rfl, -, hrow, -, hforeign⟩
    have hsome := (ErrorReport.ofRow_isSome_iff (htyped i)).mpr ⟨hrow, hreference i⟩
    obtain ⟨report, hreport⟩ := Option.isSome_iff_exists.mp hsome
    exact ⟨i, report, hi, (e.ofRow_row chance.now i).symm.trans hreport, (hdangling i _).mp (hforeign rfl), rfl⟩
  · rintro ⟨i, report, hi, hreport, hnamed, rfl⟩
    have hsome : (ErrorReport.ofRow (e.row E chance.now i)).isSome := by
      rw [e.ofRow_row, hreport, Option.isSome_some]
    exact ⟨i, hi, rfl, nextId_free hi, ((ErrorReport.ofRow_isSome_iff (htyped i)).mp hsome).1, rfl,
      fun _ => (hdangling i _).mpr hnamed⟩

/-- An id can be given to a report more: one after the largest, or one that is drawn. -/
def Contents.IdLeft (c : Contents E) (draws : List Int) : Prop :=
  (∀ x ∈ c.reports, x.id < maxRowid) ∨ ∃ i ∈ draws, ∀ x ∈ c.reports, x.id ≠ i

theorem Stores.idLeft_iff (hc : Stores db c) {draws : List Int} :
    c.IdLeft draws ↔ ∃ i, nextId errorReports (db "error_reports") draws = .ok i := by
  have hids : (db "error_reports").rows.map (·.id) = c.reports.map (·.id) :=
    map_objects hc.reports fun r x hx => (ErrorReport.ofRow_eq_some hx).1.symm
  have hall (p : Int → Prop) : (∀ x ∈ (db "error_reports").rows, p x.id) ↔ ∀ x ∈ c.reports, p x.id := by
    rw [← List.forall_mem_map (f := Record.id), hids, List.forall_mem_map]
  rw [exists_nextId_iff rfl, maxId_lt_iff, Contents.IdLeft]
  exact or_congr (hall (· < maxRowid)).symm (exists_congr fun i => and_congr Iff.rfl (hall (· ≠ i)).symm)

def removeEvent (E : Engine) (db : Database) (id : Int) : Except SqlError Database :=
  exec (adminSchema E) true db (.delete "audit_logs" id)

/-- Only reports refer to events. -/
theorem orphaned_event {t : Table} {old : Record} :
    orphaned (adminSchema E) (db.set "audit_logs" t) "audit_logs" old = none ↔
      ∀ key, old.key ["id", "correlation_id"] = some key → ∀ r ∈ (db "error_reports").rows,
        r.key ["audit_log_id", "correlation_id"] = some key →
          ∃ p ∈ t.rows, p.key ["id", "correlation_id"] = some key := by
  have hother : db.set "audit_logs" t "error_reports" = db "error_reports" := Database.set_of_ne _ _ (by decide)
  rw [orphaned_eq_none]
  simp [adminSchema, users, tablePolicies, auditLogs, errorReports, hother]

/-- The reports that name an event, as rows. -/
theorem named_iff {id : Int} {n : Name} {e : ErrorReport} {r : Record}
    (hr : ErrorReport.ofRow r = some e) : r.key ["audit_log_id", "correlation_id"] = some [.int id, .text n] ↔
      e.auditLogId = some id ∧ e.correlationId = n := by
  obtain ⟨-, hcorrelation, hreference⟩ := ErrorReport.ofRow_eq_some hr
  rw [key_eq_some_iff, List.map_cons, List.map_singleton, hcorrelation, hreference]
  cases e.auditLogId <;> simp [Subtype.ext_iff]

theorem id_of_key {r : Record} {id : Int} {t : List Char}
    (h : r.key ["id", "correlation_id"] = some [.int id, .text t]) : r.id = id :=
  Sqlite.Value.int.inj (List.cons.inj (key_eq_some_iff.mp h).1).1

/-- An event that a report names stays: without its row the report would refer to none. -/
theorem deleteRow_unnamed (h : Consistent (adminSchema E) db) (hc : Stores db c) {id : Int} {db' : Database}
    (hdelete : deleteRow (adminSchema E) true db auditLogs id = .ok db') :
    ∀ e ∈ c.reports, e.auditLogId ≠ some id := by
  have hd : auditLogs ∈ (adminSchema E).tables := by simp [adminSchema]
  intro e he heid
  obtain ⟨a, ha, haid, hcorrelation⟩ := c.references e he id heid
  obtain ⟨r, hr, hre⟩ := (mem_objects hc.reports).mp he
  obtain ⟨p, hp, hkey⟩ := (hc.reference_iff h).mpr ⟨a, ha, haid, hcorrelation⟩
  have hpid : p.id = id := id_of_key hkey
  rcases deleteRow_ok_iff.mp hdelete with ⟨hnone, -⟩ | ⟨old, hold, rfl, horphaned⟩
  · exact absurd (List.find?_eq_none.mp hnone p hp) (by simp [hpid])
  · obtain rfl := h.eq_of_find hd hold hp hpid
    obtain ⟨q, hq, hqkey⟩ := orphaned_event.mp (horphaned rfl) _ hkey r hr
      ((named_iff hre).mpr ⟨heid, rfl⟩)
    have hqid : q.id = id := id_of_key hqkey
    simp [hqid] at hq

theorem deleteRow_of_unnamed (h : Consistent (adminSchema E) db) (hc : Stores db c) {id : Int}
    (hno : ∀ e ∈ c.reports, e.auditLogId ≠ some id) :
    ∃ db', deleteRow (adminSchema E) true db auditLogs id = .ok db' := by
  cases hold : (db "audit_logs").rows.find? (·.id = id) with
  | none => exact ⟨_, deleteRow_ok_iff.mpr (Or.inl ⟨hold, rfl⟩)⟩
  | some old =>
    refine ⟨_, deleteRow_ok_iff.mpr (Or.inr ⟨old, hold, rfl, fun _ => orphaned_event.mpr ?_⟩)⟩
    intro key hkey r hr hrkey
    have holdId : old.id = id := by simpa using List.find?_some hold
    obtain ⟨a, -, hoa⟩ := hc.event_of_row (List.mem_of_find?_eq_some hold) h
    obtain ⟨e, hre⟩ := Option.isSome_iff_exists.mp (reports_isSome h r hr)
    obtain rfl : key = [.int id, .text a.correlationId] := by
      rw [← (key_eq_some_iff.mp hkey).1, List.map_cons, List.map_singleton, (AuditLog.ofRow_eq_some hoa).2, ← holdId]
      rfl
    exact absurd ((named_iff hre).mp hrkey).1 (hno e ((mem_objects hc.reports).mpr ⟨r, hr, hre⟩))

/-- The events of a correlation id, in the order of their ids. -/
def Contents.trail (c : Contents E) (correlationId : List Char) : List AuditLog :=
  (c.events.filter fun a => a.correlationId.1 = correlationId).mergeSort fun a b => a.id ≤ b.id

theorem Contents.trail_eq (h : c.events.Pairwise fun a b => a.id < b.id) (correlationId : List Char) :
    c.trail correlationId = c.events.filter fun a => a.correlationId.1 = correlationId := by
  refine List.mergeSort_of_pairwise ((h.filter _).imp fun hlt => ?_)
  simpa using hlt.le

/-- **The trail of a request is its events in the order in which they were recorded.** In a run in which the ids are
left to the store, a new event comes after all others, and its id is none that any committed event ever had. -/
theorem recordAudit_trail {t : Session}
    (ht : (system (adminSchema E) true).Reaches (LeavesId "audit_logs") (system (adminSchema E) true).init t)
    (hc : Stores t.working c) {a : NewAudit} {chance : Chance} {db' : Database}
    (hrecord : recordAudit E t.working a chance = .ok db') :
    ∃ event, ∃ c' : Contents E, a.event E chance.now event.id = some event ∧ Stores db' c' ∧
      (∀ correlationId, c'.trail correlationId =
        c.trail correlationId ++ if event.correlationId.1 = correlationId then [event] else []) ∧
      ∀ s, (system (adminSchema E) true).Reaches (LeavesId "audit_logs") (system (adminSchema E) true).init s →
        (system (adminSchema E) true).Reaches (LeavesId "audit_logs") s t →
        ∀ x ∈ (s.committed "audit_logs").rows, x.id < event.id := by
  have hd : auditLogs ∈ (adminSchema E).tables := by simp [adminSchema]
  obtain ⟨event, hfresh, hevent, hsequence, hstores⟩ := recordAudit_stores hc hrecord
  have hids : (t.working "audit_logs").rows.map (·.id) = c.events.map (·.id) :=
    map_objects hc.events fun r x hx => (AuditLog.ofRow_eq_some hx).1.symm
  have hordered : c.events.Pairwise fun a b => a.id < b.id := by
    have hrows := (Reaches.ordered hd rfl ht).2
    rw [show (t.working auditLogs.name).rows.map (·.id) = _ from hids, List.pairwise_map] at hrows
    exact hrows
  have hordered' : (c.events ++ [event]).Pairwise fun a b => a.id < b.id :=
    List.pairwise_append.mpr ⟨hordered, List.pairwise_singleton _ _, fun x hx y hy => by
      rw [List.mem_singleton.mp hy]
      exact hfresh x hx⟩
  refine ⟨event, c.record event fun x hx => (hfresh x hx).ne, hevent, hstores, fun correlationId => ?_,
    fun s hs hst x hx => (Reaches.le_sequence hs hst x hx).trans_lt hsequence⟩
  rw [Contents.trail_eq hordered, Contents.trail_eq hordered']
  simp [Contents.record, List.filter_append, List.filter_singleton]

/-- A second event of the request comes after the first. -/
theorem recordAudit_trail_sample : ∃ db' event, ∃ c' : Contents sampleEngine,
    recordAudit sampleEngine sampleDb sampleAudit sampleChance = .ok db' ∧ Stores db' c' ∧
      c'.trail "corr-1".toList = sampleContents.trail "corr-1".toList ++ [event] ∧ 1 < event.id := by
  have hrecord : recordAudit sampleEngine sampleDb sampleAudit sampleChance = .ok
      (sampleDb.set "audit_logs" ⟨(sampleDb "audit_logs").rows ++ [sampleAudit.row _ sampleChance.now 2], 2⟩) :=
    recordAudit_ok_iff.mpr ⟨2, { sampleEvent with id := 2 }, rfl, dif_pos (by decide), rfl⟩
  obtain ⟨event, c', hevent, hstores, htrail, hfresh⟩ := recordAudit_trail reaches_sample stores_sample hrecord
  have hcorrelation : event.correlationId.1 = "corr-1".toList := by
    rw [← Option.some.inj hevent]
    rfl
  refine ⟨_, event, c', hrecord, hstores, by rw [htrail, if_pos hcorrelation], ?_⟩
  exact hfresh _ reaches_sample (.refl _) _ (List.mem_singleton_self _)

end

end DataAgent.Models
