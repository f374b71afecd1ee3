import DataAgent.Relational
import DataAgent.Server.Inspect

/-!
# The catalog views

The views of SQL Server that the queries of `inspect_schema` read, and the queries on them. `ORDER BY` is left open:
what is proved holds for the rows in every order.

* `SystemCatalog`, `WellFormed` : the views, and what SQL Server keeps of them;
* `columnsQuery`, `primaryKeyQuery`, `foreignKeyQuery`, `descriptionQuery`;
* **`complete_iff`** : the inspection loses no column exactly if no included table has a column of a CLR type.
-/

namespace DataAgent.Server
open Python Relational

/-! ## Views -/

/-- `sys.schemas`. -/
structure SysSchema where
  schemaId : Int
  name : Text
  deriving DecidableEq

/-- `sys.tables`. -/
structure SysTable where
  objectId : Int
  schemaId : Int
  name : Text
  isMsShipped : Bool
  deriving DecidableEq

/-- `sys.columns`. -/
structure SysColumn where
  objectId : Int
  columnId : Int
  name : Text
  systemTypeId : Int
  userTypeId : Int
  maxLength : Int
  precision : Int
  scale : Int
  isNullable : Bool
  deriving DecidableEq

/-- `sys.types`. -/
structure SysType where
  name : Text
  systemTypeId : Int
  userTypeId : Int
  deriving DecidableEq

inductive ConstraintType where
  | pk | uq
  deriving DecidableEq

/-- `sys.key_constraints`. -/
structure SysKeyConstraint where
  parentObjectId : Int
  type : ConstraintType
  uniqueIndexId : Int
  deriving DecidableEq

/-- `sys.index_columns`. -/
structure SysIndexColumn where
  objectId : Int
  indexId : Int
  columnId : Int
  keyOrdinal : Int
  deriving DecidableEq

/-- `sys.foreign_keys`. -/
structure SysForeignKey where
  objectId : Int
  name : Text
  deriving DecidableEq

/-- `sys.foreign_key_columns`. -/
structure SysForeignKeyColumn where
  constraintObjectId : Int
  constraintColumnId : Int
  parentObjectId : Int
  parentColumnId : Int
  referencedObjectId : Int
  referencedColumnId : Int
  deriving DecidableEq

/-- `sys.extended_properties`; `value` is what the cast to a text makes of it. -/
structure SysExtendedProperty where
  propertyClass : Int
  majorId : Int
  minorId : Int
  name : Text
  value : Option Text
  deriving DecidableEq

structure SystemCatalog where
  schemas : List SysSchema
  tables : List SysTable
  columns : List SysColumn
  types : List SysType
  keyConstraints : List SysKeyConstraint
  indexColumns : List SysIndexColumn
  foreignKeys : List SysForeignKey
  foreignKeyColumns : List SysForeignKeyColumn
  extendedProperties : List SysExtendedProperty
  /-- How the collation of the database reads a character of a name. -/
  fold : Char → Char

/-- The `system_type_id` of the CLR types. -/
def clrTypeId : Int := 240

/-- What SQL Server keeps of the views. -/
structure WellFormed (cat : SystemCatalog) : Prop where
  schemaId : Unique SysSchema.schemaId cat.schemas
  schemaName : Unique SysSchema.name cat.schemas
  objectId : Unique SysTable.objectId cat.tables
  tableName : Unique (fun t : SysTable => (t.schemaId, t.name)) cat.tables
  tableSchema : ∀ t ∈ cat.tables, ∃ s ∈ cat.schemas, t.schemaId = s.schemaId
  columnName : Unique (fun c : SysColumn => (c.objectId, c.name)) cat.columns
  userTypeId : Unique SysType.userTypeId cat.types
  /-- A column has a type, which may be an alias; a type that is no CLR type has a base type of its own id. -/
  columnType : ∀ c ∈ cat.columns, ∃ ty ∈ cat.types, ty.userTypeId = c.userTypeId ∧ ty.systemTypeId = c.systemTypeId
  baseType : ∀ c ∈ cat.columns, c.systemTypeId ≠ clrTypeId →
    ∃ ty ∈ cat.types, ty.userTypeId = c.systemTypeId ∧ ty.systemTypeId = c.systemTypeId
  /-- The CLR types (`hierarchyid`, `geometry`, `geography` and those of users) have no base type. -/
  clrType : ∀ ty ∈ cat.types, ty.systemTypeId = clrTypeId → ty.userTypeId ≠ clrTypeId
  /-- A foreign key goes from one table to one table. -/
  foreignKey : ∀ x ∈ cat.foreignKeyColumns, ∀ y ∈ cat.foreignKeyColumns, x.constraintObjectId = y.constraintObjectId →
    x.parentObjectId = y.parentObjectId ∧ x.referencedObjectId = y.referencedObjectId

/-! ## Queries -/

section
variable (cat : SystemCatalog)

/-- Two names are equal to the server. -/
def SystemCatalog.sameName (a b : Text) : Bool := a.map cat.fold == b.map cat.fold

/-- `_SCHEMA_EXCLUSION_CLAUSE`, negated. -/
def SystemCatalog.excluded (name : Text) : Bool :=
  ["sys", "INFORMATION_SCHEMA", "guest"].any (fun s => cat.sameName name s.toList) ||
    ("db_".toList.map cat.fold).isPrefixOf (name.map cat.fold)

/-- The tables with their schemas, as far as they are inspected. -/
def SystemCatalog.included (p : SysTable × SysSchema) : Bool := !p.1.isMsShipped && !cat.excluded p.2.name

def withSchema : List (SysTable × SysSchema) := innerJoin cat.tables cat.schemas fun t s => t.schemaId = s.schemaId

def columnTuples : List (((SysTable × SysSchema) × SysColumn) × SysType) :=
  let joined := innerJoin (withSchema cat) cat.columns fun ts c => c.objectId = ts.1.objectId
  let typed := innerJoin joined cat.types fun tsc ty =>
    tsc.2.systemTypeId = ty.systemTypeId && ty.userTypeId = ty.systemTypeId
  typed.filter fun x => cat.included x.1.1

/-- `_COLUMNS_QUERY`. -/
def columnsQuery : List ColumnRow :=
  (columnTuples cat).map fun (((t, s), c), ty) =>
    ⟨s.name, t.name, t.objectId, c.columnId, c.name, ty.name, c.maxLength, c.precision, c.scale, c.isNullable⟩

/-- `_PRIMARY_KEY_QUERY`. -/
def primaryKeyQuery : List PrimaryKeyRow :=
  let joined := innerJoin cat.keyConstraints (withSchema cat) fun kc ts => kc.parentObjectId = ts.1.objectId
  let indexed := innerJoin joined cat.indexColumns fun x ic =>
    x.1.parentObjectId = ic.objectId && x.1.uniqueIndexId = ic.indexId
  let named := innerJoin indexed cat.columns fun x c => x.2.objectId = c.objectId && x.2.columnId = c.columnId
  (named.filter fun (((kc, ts), _), _) => kc.type = .pk && cat.included ts).map fun (((_, (t, s)), ic), c) =>
    ⟨s.name, t.name, c.name, ic.keyOrdinal⟩

/-- `_FOREIGN_KEY_QUERY`. -/
def foreignKeyQuery : List ForeignKeyRow :=
  let keys := innerJoin cat.foreignKeys cat.foreignKeyColumns fun fk fkc => fk.objectId = fkc.constraintObjectId
  let parents := innerJoin keys (withSchema cat) fun x p => x.2.parentObjectId = p.1.objectId
  let parentColumns := innerJoin parents cat.columns fun x pc =>
    x.1.2.parentObjectId = pc.objectId && x.1.2.parentColumnId = pc.columnId
  let references := innerJoin parentColumns (withSchema cat) fun x r => x.1.1.2.referencedObjectId = r.1.objectId
  let named := innerJoin references cat.columns fun x rc =>
    x.1.1.1.2.referencedObjectId = rc.objectId && x.1.1.1.2.referencedColumnId = rc.columnId
  (named.filter fun (((((_, _), p), _), r), _) => cat.included p && cat.included r).map
    fun (((((fk, fkc), (pt, ps)), pc), (rt, rs)), rc) =>
      ⟨fk.objectId, fk.name, ps.name, pt.name, pc.name, rs.name, rt.name, rc.name, fkc.constraintColumnId⟩

/-- `_DESCRIPTION_QUERY`. -/
def descriptionQuery : List DescriptionRow :=
  let joined := innerJoin cat.extendedProperties (withSchema cat) fun ep ts => ep.majorId = ts.1.objectId
  (joined.filter fun (ep, ts) =>
      ep.propertyClass = 1 && cat.sameName ep.name "MS_Description".toList && cat.included ts).map
    fun (ep, (t, s)) => ⟨s.name, t.name, ep.minorId, ep.value⟩

/-- The rows that the four queries bring, in any order. -/
structure Evaluates (rows : CatalogRows) : Prop where
  columns : rows.columns.Perm (columnsQuery cat)
  primaryKeys : rows.primaryKeys.Perm (primaryKeyQuery cat)
  foreignKeys : rows.foreignKeys.Perm (foreignKeyQuery cat)
  descriptions : rows.descriptions.Perm (descriptionQuery cat)

/-! ## Completeness -/

/-- A table that is inspected, with its schema. -/
structure Included (t : SysTable) (s : SysSchema) : Prop where
  table : t ∈ cat.tables
  schema : s ∈ cat.schemas
  same : t.schemaId = s.schemaId
  included : cat.included (t, s) = true

/-- The table of a result that has these names. -/
def TableAt (r : InspectResult) (schemaName tableName : Text) (e : TableEntry) : Prop :=
  e.tableName = tableName ∧ ∃ sch ∈ r.schemas, sch.schemaName = schemaName ∧ e ∈ sch.tables

def TableEntry.columnNames (e : TableEntry) : List Text := e.columns.map (·.columnName)

/-- The inspection has lost no column. -/
structure Complete (r : InspectResult) : Prop where
  tables : ∀ t s, Included cat t s → (∃ c ∈ cat.columns, c.objectId = t.objectId) → ∃ e, TableAt r s.name t.name e
  columns : ∀ t s, Included cat t s → ∀ c ∈ cat.columns, c.objectId = t.objectId →
    ∃ e, TableAt r s.name t.name e ∧ e.columnNames.count c.name = 1
  primaryKeys : ∀ sch ∈ r.schemas, ∀ e ∈ sch.tables, ∀ names, e.primaryKey = some names →
    ∀ n ∈ names, n ∈ e.columnNames
  sourceColumns : ∀ fk ∈ r.foreignKeys, ∀ n ∈ fk.sourceColumns,
    ∃ e, TableAt r fk.sourceSchema fk.sourceTable e ∧ n ∈ e.columnNames
  targetColumns : ∀ fk ∈ r.foreignKeys, ∀ n ∈ fk.targetColumns,
    ∃ e, TableAt r fk.targetSchema fk.targetTable e ∧ n ∈ e.columnNames

/-- No column of an inspected table has a CLR type. -/
def NoClrColumn : Prop :=
  ∀ t s, Included cat t s → ∀ c ∈ cat.columns, c.objectId = t.objectId → c.systemTypeId ≠ clrTypeId

end

/-! ## The rows of the queries -/

section
variable {cat : SystemCatalog}

theorem mem_withSchema {p : SysTable × SysSchema} :
    p ∈ withSchema cat ∧ cat.included p = true ↔ Included cat p.1 p.2 := by
  rw [withSchema, mem_innerJoin, decide_eq_true_eq]
  exact ⟨fun ⟨⟨⟨ht, hs⟩, he⟩, hi⟩ => ⟨ht, hs, he, hi⟩, fun h => ⟨⟨⟨h.table, h.schema⟩, h.same⟩, h.included⟩⟩

theorem mem_columnTuples {t : SysTable} {s : SysSchema} {c : SysColumn} {ty : SysType} :
    (((t, s), c), ty) ∈ columnTuples cat ↔ Included cat t s ∧ (c ∈ cat.columns ∧ c.objectId = t.objectId) ∧
      ty ∈ cat.types ∧ c.systemTypeId = ty.systemTypeId ∧ ty.userTypeId = ty.systemTypeId := by
  have hts : (t, s) ∈ withSchema cat ∧ cat.included (t, s) = true ↔ Included cat t s := mem_withSchema
  simp only [columnTuples, List.mem_filter, mem_innerJoin, decide_eq_true_eq, Bool.and_eq_true]
  tauto

/-- The join keeps a column exactly if its type is no CLR type. -/
theorem hasBaseType_iff (hwf : WellFormed cat) {c : SysColumn} (hc : c ∈ cat.columns) :
    (∃ ty ∈ cat.types, c.systemTypeId = ty.systemTypeId ∧ ty.userTypeId = ty.systemTypeId) ↔
      c.systemTypeId ≠ clrTypeId := by
  constructor
  · rintro ⟨ty, hty, h1, h2⟩ hclr
    have h3 : ty.systemTypeId = clrTypeId := h1 ▸ hclr
    exact hwf.clrType ty hty h3 (h2.trans h3)
  · intro hclr
    obtain ⟨ty, hty, h1, h2⟩ := hwf.baseType c hc hclr
    exact ⟨ty, hty, h2.symm, h1.trans h2.symm⟩

/-- The names of an inspected table tell it apart. -/
theorem Included.unique (hwf : WellFormed cat) {t t' : SysTable} {s s' : SysSchema} (h : Included cat t s)
    (h' : Included cat t' s') (hs : s.name = s'.name) (ht : t.name = t'.name) : t = t' ∧ s = s' := by
  obtain rfl := hwf.schemaName.eq h.schema h'.schema hs
  have hid : t.schemaId = t'.schemaId := h.same.trans h'.same.symm
  exact ⟨hwf.tableName.eq h.table h'.table (by rw [hid, ht]), rfl⟩

/-- No column comes twice. -/
theorem unique_columnsQuery (hwf : WellFormed cat) :
    Unique (fun r : ColumnRow => (r.key, r.columnName)) (columnsQuery cat) := by
  refine Unique.map ?_ ?_
  · have htables : (withSchema cat).Nodup := nodup_innerJoin hwf.objectId.nodup hwf.schemaId.nodup
    exact (nodup_innerJoin (nodup_innerJoin htables hwf.columnName.nodup) hwf.userTypeId.nodup).filter _
  · rintro ⟨⟨⟨t, s⟩, c⟩, ty⟩ hp ⟨⟨⟨t', s'⟩, c'⟩, ty'⟩ hq he
    obtain ⟨h, ⟨hc, hct⟩, hty, h1, h2⟩ := mem_columnTuples.mp hp
    obtain ⟨h', ⟨hc', hct'⟩, hty', h1', h2'⟩ := mem_columnTuples.mp hq
    simp only [ColumnRow.key, Prod.mk.injEq] at he
    obtain ⟨rfl, rfl⟩ := h.unique hwf h' he.1.1 he.1.2
    obtain rfl := hwf.columnName.eq hc hc' (by rw [hct, hct', he.2])
    obtain rfl := hwf.userTypeId.eq hty hty' (by rw [h2, h2', ← h1, h1'])
    rfl

/-- A column of an inspected table is in the rows exactly if its type is no CLR type. -/
theorem mem_columnsQuery_iff (hwf : WellFormed cat) {t : SysTable} {s : SysSchema} (h : Included cat t s)
    {c : SysColumn} (hc : c ∈ cat.columns) (hct : c.objectId = t.objectId) :
    (∃ r ∈ columnsQuery cat, r.key = (s.name, t.name) ∧ r.columnName = c.name) ↔ c.systemTypeId ≠ clrTypeId := by
  rw [← hasBaseType_iff hwf hc]
  constructor
  · rintro ⟨r, hr, hkey, hname⟩
    obtain ⟨⟨⟨⟨t', s'⟩, c'⟩, ty⟩, hp, rfl⟩ := List.mem_map.mp hr
    obtain ⟨h', ⟨hc', hct'⟩, hty, h1, h2⟩ := mem_columnTuples.mp hp
    simp only [ColumnRow.key, Prod.mk.injEq] at hkey
    obtain ⟨rfl, rfl⟩ := h'.unique hwf h hkey.1 hkey.2
    obtain rfl := hwf.columnName.eq hc' hc (by rw [hct', hct, ← hname])
    exact ⟨ty, hty, h1, h2⟩
  · rintro ⟨ty, hty, h1, h2⟩
    exact ⟨_, List.mem_map.mpr ⟨(((t, s), c), ty), mem_columnTuples.mpr ⟨h, ⟨hc, hct⟩, hty, h1, h2⟩, rfl⟩, rfl, rfl⟩

/-- A column of an inspected table, by its names and the id of its table. -/
def NamedColumn (cat : SystemCatalog) (objectId : Int) (schemaName tableName columnName : Text) : Prop :=
  ∃ t s c, Included cat t s ∧ t.objectId = objectId ∧ c ∈ cat.columns ∧ c.objectId = t.objectId ∧
    s.name = schemaName ∧ t.name = tableName ∧ c.name = columnName

/-- One table has one pair of names. -/
theorem NamedColumn.table_eq (hwf : WellFormed cat) {id : Int} {s s' n n' c c' : Text} (h : NamedColumn cat id s n c)
    (h' : NamedColumn cat id s' n' c') : s = s' ∧ n = n' := by
  obtain ⟨t, sch, col, h1, h2, -, -, rfl, rfl, -⟩ := h
  obtain ⟨t', sch', col', h1', h2', -, -, rfl, rfl, -⟩ := h'
  obtain rfl := hwf.objectId.eq h1.table h1'.table (h2.trans h2'.symm)
  obtain rfl := hwf.schemaId.eq h1.schema h1'.schema (h1.same.symm.trans h1'.same)
  exact ⟨rfl, rfl⟩

theorem namedColumn_of_primaryKey {r : PrimaryKeyRow} (h : r ∈ primaryKeyQuery cat) :
    ∃ id, NamedColumn cat id r.schemaName r.tableName r.columnName := by
  obtain ⟨⟨⟨⟨kc, t, s⟩, ic⟩, c⟩, hp, rfl⟩ := List.mem_map.mp h
  simp only [List.mem_filter, mem_innerJoin, decide_eq_true_eq, Bool.and_eq_true] at hp
  obtain ⟨⟨⟨⟨⟨⟨⟨-, hts⟩, h1⟩, -⟩, h2, -⟩, hc⟩, h3, -⟩, -, hi⟩ := hp
  exact ⟨t.objectId, t, s, c, mem_withSchema.mp ⟨hts, hi⟩, rfl, hc, by rw [← h3, ← h2, h1], rfl, rfl, rfl⟩

theorem namedColumn_of_foreignKey {r : ForeignKeyRow} (h : r ∈ foreignKeyQuery cat) :
    ∃ x ∈ cat.foreignKeyColumns, x.constraintObjectId = r.fkObjectId ∧
      NamedColumn cat x.parentObjectId r.sourceSchema r.sourceTable r.sourceColumn ∧
      NamedColumn cat x.referencedObjectId r.targetSchema r.targetTable r.targetColumn := by
  obtain ⟨⟨⟨⟨⟨⟨fk, fkc⟩, pt, ps⟩, pc⟩, rt, rs⟩, rc⟩, hp, rfl⟩ := List.mem_map.mp h
  simp only [List.mem_filter, mem_innerJoin, decide_eq_true_eq, Bool.and_eq_true] at hp
  obtain ⟨⟨⟨⟨⟨⟨⟨⟨⟨⟨⟨-, hfkc⟩, h1⟩, hps⟩, h2⟩, hpc⟩, h3, -⟩, hrs⟩, h4⟩, hrc⟩, h5, -⟩, hi1, hi2⟩ := hp
  refine ⟨fkc, hfkc, h1.symm,
    ⟨pt, ps, pc, mem_withSchema.mp ⟨hps, hi1⟩, h2.symm, hpc, by rw [← h3, h2], rfl, rfl, rfl⟩, ?_⟩
  exact ⟨rt, rs, rc, mem_withSchema.mp ⟨hrs, hi2⟩, h4.symm, hrc, by rw [← h5, h4], rfl, rfl, rfl⟩

end

/-! ## The result -/

section
variable {cat : SystemCatalog} {U : Unicode} {correlationId : Text} {rows : CatalogRows}

theorem tableAt_iff {s n : Text} {e : TableEntry} : TableAt (assemble U correlationId rows) s n e ↔
    rowsOf rows.columns (s, n) ≠ [] ∧ e = tableOf U rows (s, n) := by
  constructor
  · rintro ⟨hn, hmem⟩
    obtain ⟨n', hne, rfl⟩ := mem_tables_iff.mp hmem
    obtain rfl : n' = n := hn
    exact ⟨hne, rfl⟩
  · rintro ⟨hne, rfl⟩
    exact ⟨rfl, mem_tables_iff.mpr ⟨n, hne, rfl⟩⟩

theorem columnNames_tableOf (k : TableKey) :
    (tableOf U rows k).columnNames = (rowsOf rows.columns k).map (·.columnName) :=
  columnNames_columnsOf (rowsOf rows.columns k)

/-- No table has a column twice. -/
theorem nodup_columnNames (hwf : WellFormed cat) (h : Evaluates cat rows) (k : TableKey) :
    (tableOf U rows k).columnNames.Nodup := by
  rw [columnNames_tableOf]
  have hunique := ((unique_columnsQuery hwf).perm h.columns).filter fun r => decide (r.key = k)
  refine List.Nodup.map_on (fun r hr r' hr' he => hunique.eq hr hr' ?_) hunique.nodup
  have h1 : r.key = k := by simpa using (List.mem_filter.mp hr).2
  have h2 : r'.key = k := by simpa using (List.mem_filter.mp hr').2
  rw [h1, h2, he]

/-- A column is listed exactly if its type is no CLR type. -/
theorem listed_iff (hwf : WellFormed cat) (he : Evaluates cat rows) {t : SysTable} {s : SysSchema}
    (h : Included cat t s) {c : SysColumn} (hc : c ∈ cat.columns) (hct : c.objectId = t.objectId) :
    (∃ e, TableAt (assemble U correlationId rows) s.name t.name e ∧ c.name ∈ e.columnNames) ↔
      c.systemTypeId ≠ clrTypeId := by
  rw [← mem_columnsQuery_iff hwf h hc hct]
  constructor
  · rintro ⟨e, hat, hmem⟩
    obtain ⟨-, rfl⟩ := tableAt_iff.mp hat
    rw [columnNames_tableOf, List.mem_map] at hmem
    obtain ⟨r, hr, hname⟩ := hmem
    obtain ⟨hr1, hr2⟩ := List.mem_filter.mp hr
    exact ⟨r, he.columns.mem_iff.mp hr1, by simpa using hr2, hname⟩
  · rintro ⟨r, hr, hkey, hname⟩
    have hmem : r ∈ rowsOf rows.columns (s.name, t.name) :=
      List.mem_filter.mpr ⟨he.columns.mem_iff.mpr hr, by simpa using hkey⟩
    refine ⟨_, tableAt_iff.mpr ⟨List.ne_nil_of_mem hmem, rfl⟩, ?_⟩
    rw [columnNames_tableOf, ← hname]
    exact List.mem_map_of_mem hmem

theorem listed_of_named (hwf : WellFormed cat) (he : Evaluates cat rows) (hclr : NoClrColumn cat) {id : Int}
    {s n c : Text} (h : NamedColumn cat id s n c) :
    ∃ e, TableAt (assemble U correlationId rows) s n e ∧ c ∈ e.columnNames := by
  obtain ⟨t, sch, col, hi, -, hc, hct, rfl, rfl, rfl⟩ := h
  exact (listed_iff hwf he hi hc hct).mpr (hclr t sch hi col hc hct)

/-- Every row of a key object is about the tables of the first one. -/
theorem foreignKey_sides (hwf : WellFormed cat) (he : Evaluates cat rows) {id : Int} {r : ForeignKeyRow}
    {rs : List ForeignKeyRow} (hrows : (rows.foreignKeys.filter fun r => r.fkObjectId = id) = r :: rs) :
    ∀ r' ∈ r :: rs, (∃ i, NamedColumn cat i r.sourceSchema r.sourceTable r'.sourceColumn) ∧
      ∃ i, NamedColumn cat i r.targetSchema r.targetTable r'.targetColumn := by
  have hmem : ∀ r' ∈ r :: rs, r' ∈ foreignKeyQuery cat ∧ r'.fkObjectId = id := by
    intro r' hr'
    rw [← hrows, List.mem_filter, decide_eq_true_eq] at hr'
    exact ⟨he.foreignKeys.mem_iff.mp hr'.1, hr'.2⟩
  intro r' hr'
  obtain ⟨hq, hid⟩ := hmem r List.mem_cons_self
  obtain ⟨hq', hid'⟩ := hmem r' hr'
  obtain ⟨x, hx, hxid, hsource, htarget⟩ := namedColumn_of_foreignKey hq
  obtain ⟨x', hx', hxid', hsource', htarget'⟩ := namedColumn_of_foreignKey hq'
  obtain ⟨hparent, hreferenced⟩ := hwf.foreignKey x' hx' x hx (by rw [hxid', hxid, hid, hid'])
  rw [hparent] at hsource'
  rw [hreferenced] at htarget'
  obtain ⟨h1, h2⟩ := hsource.table_eq hwf hsource'
  obtain ⟨h3, h4⟩ := htarget.table_eq hwf htarget'
  exact ⟨⟨_, h1 ▸ h2 ▸ hsource'⟩, ⟨_, h3 ▸ h4 ▸ htarget'⟩⟩

theorem complete_of_noClr (hwf : WellFormed cat) (he : Evaluates cat rows) (hclr : NoClrColumn cat) :
    Complete cat (assemble U correlationId rows) := by
  have hcolumns : ∀ t s, Included cat t s → ∀ c ∈ cat.columns, c.objectId = t.objectId →
      ∃ e, TableAt (assemble U correlationId rows) s.name t.name e ∧ e.columnNames.count c.name = 1 := by
    intro t s hi c hc hct
    obtain ⟨e, hat, hmem⟩ := (listed_iff hwf he hi hc hct).mpr (hclr t s hi c hc hct)
    obtain ⟨-, rfl⟩ := tableAt_iff.mp hat
    exact ⟨_, hat, List.count_eq_one_of_mem (nodup_columnNames hwf he _) hmem⟩
  refine ⟨fun t s hi ⟨c, hc, hct⟩ => ?_, hcolumns, fun sch hsch e hmem names hnames n hn => ?_, fun fk hfk n hn => ?_,
    fun fk hfk n hn => ?_⟩
  · obtain ⟨e, hat, -⟩ := hcolumns t s hi c hc hct
    exact ⟨e, hat⟩
  · obtain ⟨name, hne, rfl⟩ := mem_tables_iff.mp ⟨sch, hsch, rfl, hmem⟩
    have hpk : primaryKeyOf rows.primaryKeys (sch.schemaName, name) = some names := hnames
    rw [primaryKeyOf] at hpk
    split at hpk
    · simp at hpk
    · rw [← Option.some.inj hpk, List.mem_map] at hn
      obtain ⟨r, hr, rfl⟩ := hn
      obtain ⟨hr, hkey⟩ := List.mem_filter.mp hr
      obtain ⟨id, hnamed⟩ := namedColumn_of_primaryKey (he.primaryKeys.mem_iff.mp hr)
      obtain ⟨e, hat, hmem⟩ : ∃ e, TableAt (assemble U correlationId rows) r.schemaName r.tableName e ∧
          r.columnName ∈ e.columnNames := listed_of_named hwf he hclr hnamed
      obtain ⟨-, rfl⟩ := tableAt_iff.mp hat
      rw [decide_eq_true_eq] at hkey
      rwa [← hkey]
  · obtain ⟨id, r, rs, hrows, rfl⟩ := mem_foreignKeys_iff.mp hfk
    obtain ⟨r', hr', rfl⟩ := List.mem_map.mp hn
    obtain ⟨⟨i, hnamed⟩, -⟩ := foreignKey_sides hwf he hrows r' hr'
    exact listed_of_named hwf he hclr hnamed
  · obtain ⟨id, r, rs, hrows, rfl⟩ := mem_foreignKeys_iff.mp hfk
    obtain ⟨r', hr', rfl⟩ := List.mem_map.mp hn
    obtain ⟨-, i, hnamed⟩ := foreignKey_sides hwf he hrows r' hr'
    exact listed_of_named hwf he hclr hnamed

end

/-- **No column is lost exactly if no inspected table has a column of a CLR type.** -/
theorem complete_iff (U : Unicode) (correlationId : Text) {cat : SystemCatalog} {rows : CatalogRows}
    (hwf : WellFormed cat) (he : Evaluates cat rows) :
    Complete cat (assemble U correlationId rows) ↔ NoClrColumn cat := by
  refine ⟨fun h t s hi c hc hct => ?_, complete_of_noClr hwf he⟩
  obtain ⟨e, hat, hcount⟩ := h.columns t s hi c hc hct
  exact (listed_iff hwf he hi hc hct).mp ⟨e, hat, List.count_pos_iff.mp (by omega)⟩

/-- `Production.Document` with its key and its title. -/
def documentCatalog : SystemCatalog where
  schemas := [⟨5, "Production".toList⟩]
  tables := [⟨100, 5, "Document".toList, false⟩]
  columns := [⟨100, 1, "DocumentNode".toList, 240, 128, 892, 0, 0, false⟩,
    ⟨100, 2, "Title".toList, 231, 231, 100, 0, 0, false⟩]
  types := [⟨"hierarchyid".toList, 240, 128⟩, ⟨"nvarchar".toList, 231, 231⟩]
  keyConstraints := [⟨100, .pk, 1⟩]
  indexColumns := [⟨100, 1, 1, 1⟩]
  foreignKeys := []
  foreignKeyColumns := []
  extendedProperties := []
  fold := Char.toLower

def SystemCatalog.rows (cat : SystemCatalog) : CatalogRows :=
  ⟨columnsQuery cat, primaryKeyQuery cat, foreignKeyQuery cat, descriptionQuery cat⟩

theorem evaluates_rows (cat : SystemCatalog) : Evaluates cat cat.rows := ⟨.refl _, .refl _, .refl _, .refl _⟩

theorem wellFormed_document : WellFormed documentCatalog :=
  ⟨by decide, by decide, by decide, by decide, by decide, by decide, by decide, by decide, by decide, by decide,
    by decide⟩

theorem included_document :
    Included documentCatalog ⟨100, 5, "Document".toList, false⟩ ⟨5, "Production".toList⟩ :=
  ⟨by decide, by decide, rfl, by decide⟩

theorem not_complete_document : ¬ Complete documentCatalog (assemble .small [] documentCatalog.rows) := by
  have h := complete_iff .small [] wellFormed_document (evaluates_rows documentCatalog)
  intro hcomplete
  exact h.mp hcomplete _ _ included_document ⟨100, 1, "DocumentNode".toList, 240, 128, 892, 0, 0, false⟩
    (by decide) rfl rfl

/-- The key of `Production.Document` is lost. -/
theorem hierarchyid_lost : ¬ ∀ (cat : SystemCatalog) (rows : CatalogRows), WellFormed cat → Evaluates cat rows →
    Complete cat (assemble .small [] rows) := by
  intro hall
  have hc : ⟨100, 1, "DocumentNode".toList, 240, 128, 892, 0, 0, false⟩ ∈ documentCatalog.columns := by decide
  have he := evaluates_rows documentCatalog
  obtain ⟨e, hat, hcount⟩ :=
    (hall _ _ wellFormed_document he).columns _ _ included_document _ hc rfl
  have hmem : "DocumentNode".toList ∈ e.columnNames := List.count_pos_iff.mp (by rw [hcount]; decide)
  exact (listed_iff wellFormed_document he included_document hc rfl).mp ⟨e, hat, hmem⟩ rfl

end DataAgent.Server
