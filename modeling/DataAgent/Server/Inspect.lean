import DataAgent.Python.Dict
import DataAgent.Server.Driver

/-!
# Schema inspection

`inspect_schema._inspect_schema_sync`: four queries on one connection, and the assembly of their rows.

* `assemble` : tables, primary keys, schemas and foreign keys, each by one grouping loop;
* **`mem_tables_iff`** : the tables of the result, from the rows of the column query;
* **`mem_foreignKeys_iff`** : the foreign keys of the result, one for each key object.
-/

namespace DataAgent.Server
open Python

/-! ## Rows -/

structure ColumnRow where
  schemaName : Text
  tableName : Text
  objectId : Int
  columnId : Int
  columnName : Text
  typeName : Text
  maxLength : Int
  precision : Int
  scale : Int
  isNullable : Bool
  deriving DecidableEq

structure PrimaryKeyRow where
  schemaName : Text
  tableName : Text
  columnName : Text
  keyOrdinal : Int
  deriving DecidableEq

structure ForeignKeyRow where
  fkObjectId : Int
  fkName : Text
  sourceSchema : Text
  sourceTable : Text
  sourceColumn : Text
  targetSchema : Text
  targetTable : Text
  targetColumn : Text
  constraintColumnId : Int
  deriving DecidableEq

structure DescriptionRow where
  schemaName : Text
  tableName : Text
  minorId : Int
  /-- `None` where the property has no value. -/
  description : Option Text
  deriving DecidableEq

/-- The rows that the four queries bring. -/
structure CatalogRows where
  columns : List ColumnRow
  primaryKeys : List PrimaryKeyRow
  foreignKeys : List ForeignKeyRow
  descriptions : List DescriptionRow

/-! ## The result -/

structure ColumnEntry where
  columnName : Text
  dataType : Text
  isNullable : Bool
  ordinalPosition : Nat
  description : Option Text
  deriving DecidableEq

structure TableEntry where
  tableName : Text
  description : Option Text
  columns : List ColumnEntry
  primaryKey : Option (List Text)
  deriving DecidableEq

structure SchemaEntry where
  schemaName : Text
  tables : List TableEntry
  deriving DecidableEq

structure ForeignKeyEntry where
  foreignKeyName : Text
  sourceSchema : Text
  sourceTable : Text
  sourceColumns : List Text
  targetSchema : Text
  targetTable : Text
  targetColumns : List Text
  deriving DecidableEq

structure InspectResult where
  correlationId : Text
  schemas : List SchemaEntry
  foreignKeys : List ForeignKeyEntry
  schemaCount : Nat
  tableCount : Nat

/-! ## Assembly -/

def decimalText (n : Int) : Text := (toString n).toList

/-- `f"{type_name}({arguments})"`. -/
def sized (typeName arguments : Text) : Text := typeName ++ ['('] ++ arguments ++ [')']

def formatDataType (U : Unicode) (typeName : Text) (maxLength precision scale : Int) : Text :=
  let lname := U.lower typeName
  if ["nvarchar", "nchar"].any (lname = ·.toList) then
    if maxLength = -1 then sized typeName "max".toList else sized typeName (decimalText (maxLength / 2))
  else if ["varchar", "char", "binary", "varbinary"].any (lname = ·.toList) then
    if maxLength = -1 then sized typeName "max".toList else sized typeName (decimalText maxLength)
  else if ["decimal", "numeric"].any (lname = ·.toList) then
    sized typeName (decimalText precision ++ [','] ++ decimalText scale)
  else if ["datetime2", "time", "datetimeoffset"].any (lname = ·.toList) then sized typeName (decimalText scale)
  else typeName

/-- A table is keyed by the names of its schema and of itself. -/
abbrev TableKey := Text × Text

def ColumnRow.key (r : ColumnRow) : TableKey := (r.schemaName, r.tableName)
def PrimaryKeyRow.key (r : PrimaryKeyRow) : TableKey := (r.schemaName, r.tableName)
def DescriptionRow.key (r : DescriptionRow) : TableKey := (r.schemaName, r.tableName)

/-- `table_descriptions`; the last row wins. -/
def tableDescriptions (rows : List DescriptionRow) : Dict TableKey (Option Text) :=
  Dict.group DescriptionRow.key (fun r _ => r.description) (rows.filter (·.minorId = 0))

def columnDescriptions (rows : List DescriptionRow) : Dict (TableKey × Int) (Option Text) :=
  Dict.group (fun r => (r.key, r.minorId)) (fun r _ => r.description) (rows.filter (·.minorId ≠ 0))

section
variable (U : Unicode) (descriptions : List DescriptionRow)

def columnEntry (row : ColumnRow) (ordinalPosition : Nat) : ColumnEntry where
  columnName := row.columnName
  dataType := formatDataType U row.typeName row.maxLength row.precision row.scale
  isNullable := row.isNullable
  ordinalPosition := ordinalPosition
  description := ((columnDescriptions descriptions).get? (row.key, row.columnId)).join

/-- A table that has no columns yet. -/
def newTable (row : ColumnRow) : TableEntry where
  tableName := row.tableName
  description := ((tableDescriptions descriptions).get? row.key).join
  columns := []
  primaryKey := none

/-- One step of the loop over the column rows. -/
def addColumn (row : ColumnRow) (o : Option TableEntry) : TableEntry :=
  let table := o.getD (newTable descriptions row)
  { table with columns := table.columns ++ [columnEntry U descriptions row (table.columns.length + 1)] }

/-- `tables`; its keys in their order are `table_order`. -/
def groupTables (rows : List ColumnRow) : Dict TableKey TableEntry :=
  Dict.group ColumnRow.key (addColumn U descriptions) rows

end

def groupPrimaryKeys (rows : List PrimaryKeyRow) : Dict TableKey (List Text) :=
  Dict.group PrimaryKeyRow.key (fun r => Dict.append r.columnName) rows

/-- One step of the loop over the primary keys. -/
def setPrimaryKey (tables : Dict TableKey TableEntry) (pk : TableKey × List Text) : Dict TableKey TableEntry :=
  match tables.get? pk.1 with
  | some table => tables.alter pk.1 fun _ => { table with primaryKey := some pk.2 }
  | none => tables

def withPrimaryKeys (tables : Dict TableKey TableEntry) (pks : Dict TableKey (List Text)) : Dict TableKey TableEntry :=
  pks.entries.foldl setPrimaryKey tables

def groupSchemas (tables : Dict TableKey TableEntry) : Dict Text (List TableEntry) :=
  Dict.group (fun x => x.1.1) (fun x => Dict.append x.2) tables.entries

/-- One step of the loop over the foreign key rows. -/
def addForeignKey (row : ForeignKeyRow) (o : Option ForeignKeyEntry) : ForeignKeyEntry :=
  let fk := o.getD ⟨row.fkName, row.sourceSchema, row.sourceTable, [], row.targetSchema, row.targetTable, []⟩
  { fk with
    sourceColumns := fk.sourceColumns ++ [row.sourceColumn]
    targetColumns := fk.targetColumns ++ [row.targetColumn] }

def groupForeignKeys (rows : List ForeignKeyRow) : Dict Int ForeignKeyEntry :=
  Dict.group ForeignKeyRow.fkObjectId addForeignKey rows

/-- The part of `_inspect_schema_sync` after the queries. -/
def assemble (U : Unicode) (correlationId : Text) (rows : CatalogRows) : InspectResult :=
  let tables := withPrimaryKeys (groupTables U rows.descriptions rows.columns) (groupPrimaryKeys rows.primaryKeys)
  let schemas := (groupSchemas tables).entries.map fun x => (⟨x.1, x.2⟩ : SchemaEntry)
  { correlationId := correlationId
    schemas := schemas
    foreignKeys := (groupForeignKeys rows.foreignKeys).values
    schemaCount := schemas.length
    tableCount := (schemas.map fun s => s.tables.length).sum }

/-! ## The queries -/

/-- How the steps of the inspection end: an `execute` and a `fetchall` for each query. -/
structure SchemaDriver extends Driver where
  executeColumns : Except Fault Unit
  fetchColumns : Except Fault (List ColumnRow)
  executePrimaryKeys : Except Fault Unit
  fetchPrimaryKeys : Except Fault (List PrimaryKeyRow)
  executeForeignKeys : Except Fault Unit
  fetchForeignKeys : Except Fault (List ForeignKeyRow)
  executeDescriptions : Except Fault Unit
  fetchDescriptions : Except Fault (List DescriptionRow)

/-- `cursor.fetchall()`. -/
def fetchall {α : Type} (x : Except Fault (List α)) : RawStep (List α) :=
  match x with
  | .ok rows => .perform (.fetched rows.length) (.ok rows)
  | .error f => .raise f

def catalogQueries (d : SchemaDriver) : RawStep CatalogRows := do
  Run.lift d.setTimeout
  Run.lift d.cursor
  Run.lift d.executeColumns
  let columnRows ← fetchall d.fetchColumns
  Run.lift d.executePrimaryKeys
  let pkRows ← fetchall d.fetchPrimaryKeys
  Run.lift d.executeForeignKeys
  let fkRows ← fetchall d.fetchForeignKeys
  Run.lift d.executeDescriptions
  let descriptionRows ← fetchall d.fetchDescriptions
  return ⟨columnRows, pkRows, fkRows, descriptionRows⟩

def inspectionTimeoutMessage : String := "Schema inspection timeout exceeded"
def inspectionFailure : String := "Schema inspection failed"

/-- `_inspect_schema_sync`. -/
def inspectSchema (U : Unicode) (d : SchemaDriver) (correlationId : Text) : Step InspectResult := do
  let rows ← withConnection d.toDriver
    ((catalogQueries d).reraise (sanitise U inspectionTimeoutMessage inspectionFailure))
  return assemble U correlationId rows

/-! ## Tables -/

section Spec
variable {U : Unicode} {descriptions : List DescriptionRow}

/-- The rows of a table. -/
def rowsOf (rows : List ColumnRow) (k : TableKey) : List ColumnRow := rows.filter (·.key = k)

/-- The columns of a table: its rows in order, numbered from 1. -/
def columnsOf (U : Unicode) (descriptions : List DescriptionRow) (rows : List ColumnRow) : List ColumnEntry :=
  rows.mapIdx fun i row => columnEntry U descriptions row (i + 1)

theorem mem_rowsOf {columns : List ColumnRow} {s name : Text} {r : ColumnRow} :
    r ∈ rowsOf columns (s, name) ↔ r ∈ columns ∧ r.schemaName = s ∧ r.tableName = name := by
  rw [rowsOf, List.mem_filter, decide_eq_true_eq, ColumnRow.key, Prod.mk.injEq]

theorem columnNames_columnsOf (columns : List ColumnRow) :
    (columnsOf U descriptions columns).map (·.columnName) = columns.map (·.columnName) := by
  refine List.ext_getElem (by simp [columnsOf]) fun i h1 h2 => ?_
  simp [columnsOf, columnEntry]

theorem foldl_addColumn (rows : List ColumnRow) (h : rows ≠ []) :
    rows.foldl (fun o r => some (addColumn U descriptions r o)) none =
      some { newTable descriptions (rows.head h) with columns := columnsOf U descriptions rows } := by
  induction rows using List.reverseRecOn with
  | nil => exact absurd rfl h
  | append_singleton rows r ih =>
    rw [List.foldl_append, List.foldl_cons, List.foldl_nil]
    cases rows with
    | nil => rfl
    | cons r' rows =>
      rw [ih (by simp), addColumn, Option.getD_some]
      simp [columnsOf, List.mapIdx_append]

/-- The tables of the first loop. -/
theorem get?_groupTables (rows : List ColumnRow) (k : TableKey) : (groupTables U descriptions rows).get? k =
    if h : rowsOf rows k = [] then none
    else some { newTable descriptions ((rowsOf rows k).head h) with
      columns := columnsOf U descriptions (rowsOf rows k) } := by
  rw [groupTables, Dict.get?_group]
  split
  · rename_i h
    rw [show (rows.filter fun r => r.key = k) = [] from h]
    rfl
  · rename_i h
    exact foldl_addColumn _ h

/-- The key columns of a table, if it has a primary key. -/
def primaryKeyOf (rows : List PrimaryKeyRow) (k : TableKey) : Option (List Text) :=
  if (rows.filter (·.key = k)) = [] then none else some ((rows.filter (·.key = k)).map (·.columnName))

theorem get?_setPrimaryKey (tables : Dict TableKey TableEntry) (pk : TableKey × List Text) (k : TableKey) :
    (setPrimaryKey tables pk).get? k =
      (tables.get? k).map fun t => if k = pk.1 then { t with primaryKey := some pk.2 } else t := by
  unfold setPrimaryKey
  split
  · rename_i table h
    rw [Dict.get?_alter]
    by_cases hk : k = pk.1
    · rw [hk, if_pos rfl, h]
      simp
    · simp [hk]
  · rename_i h
    by_cases hk : k = pk.1
    · rw [hk, h]
      rfl
    · simp [hk]

theorem get?_withPrimaryKeys (tables : Dict TableKey TableEntry) (pks : Dict TableKey (List Text)) (k : TableKey) :
    (withPrimaryKeys tables pks).get? k = (tables.get? k).map fun t =>
      match pks.get? k with
      | some columns => { t with primaryKey := some columns }
      | none => t := by
  have h : ∀ (l : List (TableKey × List Text)) (tables : Dict TableKey TableEntry), (l.map Prod.fst).Nodup →
      (l.foldl setPrimaryKey tables).get? k = (tables.get? k).map fun t =>
        match Dict.lookup k l with
        | some columns => { t with primaryKey := some columns }
        | none => t := by
    intro l
    induction l with
    | nil => intro tables _; simp [Dict.lookup]
    | cons pk l ih =>
      intro tables hl
      rw [List.map_cons, List.nodup_cons] at hl
      rw [List.foldl_cons, ih _ hl.2, get?_setPrimaryKey, Option.map_map]
      obtain ⟨a, columns⟩ := pk
      refine congrArg (fun f => Option.map f (tables.get? k)) (funext fun t => ?_)
      rw [Dict.lookup]
      by_cases hk : k = a
      · subst hk
        rw [Dict.lookup_eq_none hl.1]
        simp
      · simp [hk]
  exact h pks.entries tables pks.nodup

/-- All of the loops over tables. -/
def finalTables (U : Unicode) (rows : CatalogRows) : Dict TableKey TableEntry :=
  withPrimaryKeys (groupTables U rows.descriptions rows.columns) (groupPrimaryKeys rows.primaryKeys)

/-- The entry of a table, from its rows. -/
def tableOf (U : Unicode) (rows : CatalogRows) (k : TableKey) : TableEntry where
  tableName := k.2
  description := ((tableDescriptions rows.descriptions).get? k).join
  columns := columnsOf U rows.descriptions (rowsOf rows.columns k)
  primaryKey := primaryKeyOf rows.primaryKeys k

theorem get?_finalTables (rows : CatalogRows) (k : TableKey) : (finalTables U rows).get? k =
    if rowsOf rows.columns k = [] then none else some (tableOf U rows k) := by
  rw [finalTables, get?_withPrimaryKeys, get?_groupTables]
  by_cases h : rowsOf rows.columns k = []
  · rw [dif_pos h, if_pos h]
    rfl
  · have hkey : ((rowsOf rows.columns k).head h).key = k := by
      simpa using (List.mem_filter.mp (List.head_mem h)).2
    have hname : ((rowsOf rows.columns k).head h).tableName = k.2 := congrArg Prod.snd hkey
    rw [dif_neg h, if_neg h, Option.map_some, groupPrimaryKeys, Dict.get?_group_append, tableOf, primaryKeyOf]
    by_cases hpk : (rows.primaryKeys.filter fun r => r.key = k) = []
    · simp [hpk, newTable, hkey, hname]
    · simp [hpk, newTable, hkey, hname]

variable {rows : CatalogRows} {correlationId : Text}

theorem mem_schemas {sch : SchemaEntry} : sch ∈ (assemble U correlationId rows).schemas ↔
    (groupSchemas (finalTables U rows)).get? sch.schemaName = some sch.tables := by
  rw [← Dict.mem_entries]
  show sch ∈ (groupSchemas (finalTables U rows)).entries.map _ ↔ _
  rw [List.mem_map]
  constructor
  · rintro ⟨x, hx, rfl⟩
    exact hx
  · intro h
    exact ⟨_, h, rfl⟩

/-- The tables of a schema. -/
theorem tables_of_mem_schemas {sch : SchemaEntry} (h : sch ∈ (assemble U correlationId rows).schemas) :
    sch.tables = ((finalTables U rows).entries.filter fun x => x.1.1 = sch.schemaName).map Prod.snd := by
  rw [mem_schemas, groupSchemas, Dict.get?_group_append] at h
  split at h
  · simp at h
  · exact (Option.some.inj h).symm

/-- **The tables of the result are those that have column rows.** -/
theorem mem_tables_iff {s : Text} {t : TableEntry} :
    (∃ sch ∈ (assemble U correlationId rows).schemas, sch.schemaName = s ∧ t ∈ sch.tables) ↔
      ∃ name, rowsOf rows.columns (s, name) ≠ [] ∧ t = tableOf U rows (s, name) := by
  have hentry : ∀ k t, (k, t) ∈ (finalTables U rows).entries ↔ rowsOf rows.columns k ≠ [] ∧ t = tableOf U rows k := by
    intro k t
    rw [Dict.mem_entries, get?_finalTables]
    by_cases h : rowsOf rows.columns k = [] <;> simp [h, eq_comm]
  constructor
  · rintro ⟨sch, hsch, rfl, ht⟩
    rw [tables_of_mem_schemas hsch, List.mem_map] at ht
    obtain ⟨⟨k, t⟩, hk, rfl⟩ := ht
    rw [List.mem_filter, hentry, decide_eq_true_eq] at hk
    obtain ⟨⟨hne, rfl⟩, hs⟩ := hk
    exact ⟨k.2, by rwa [← hs], by rw [← hs]⟩
  · rintro ⟨name, hne, rfl⟩
    have hmem : ((s, name), tableOf U rows (s, name)) ∈ (finalTables U rows).entries.filter fun x => x.1.1 = s :=
      List.mem_filter.mpr ⟨(hentry _ _).mpr ⟨hne, rfl⟩, by simp⟩
    refine ⟨⟨s, ((finalTables U rows).entries.filter fun x => x.1.1 = s).map Prod.snd⟩, ?_, rfl,
      List.mem_map.mpr ⟨_, hmem, rfl⟩⟩
    rw [mem_schemas, groupSchemas, Dict.get?_group_append, if_neg (List.ne_nil_of_mem hmem)]

/-! ## Foreign keys -/

/-- The entry of a foreign key, from its rows. -/
def foreignKeyOf (r : ForeignKeyRow) (rs : List ForeignKeyRow) : ForeignKeyEntry :=
  ⟨r.fkName, r.sourceSchema, r.sourceTable, (r :: rs).map (·.sourceColumn), r.targetSchema, r.targetTable,
    (r :: rs).map (·.targetColumn)⟩

theorem foldl_addForeignKey (r : ForeignKeyRow) (rs : List ForeignKeyRow) :
    (r :: rs).foldl (fun o r => some (addForeignKey r o)) none = some (foreignKeyOf r rs) := by
  induction rs using List.reverseRecOn with
  | nil => rfl
  | append_singleton rs r' ih =>
    rw [← List.cons_append, List.foldl_append, ih, List.foldl_cons, List.foldl_nil, addForeignKey, Option.getD_some]
    simp [foreignKeyOf]

/-- **The foreign keys of the result**: one for each key object that has rows. -/
theorem mem_foreignKeys_iff {fk : ForeignKeyEntry} : fk ∈ (assemble U correlationId rows).foreignKeys ↔
    ∃ id r rs, (rows.foreignKeys.filter fun r => r.fkObjectId = id) = r :: rs ∧ fk = foreignKeyOf r rs := by
  show fk ∈ (groupForeignKeys rows.foreignKeys).entries.map Prod.snd ↔ _
  rw [List.mem_map]
  constructor
  · rintro ⟨⟨id, fk⟩, h, rfl⟩
    rw [Dict.mem_entries, groupForeignKeys, Dict.get?_group] at h
    cases hrows : rows.foreignKeys.filter fun r => r.fkObjectId = id with
    | nil => simp [hrows] at h
    | cons r rs =>
      rw [hrows, foldl_addForeignKey] at h
      exact ⟨id, r, rs, hrows, (Option.some.inj h).symm⟩
  · rintro ⟨id, r, rs, hrows, rfl⟩
    refine ⟨(id, foreignKeyOf r rs), Dict.mem_entries.mpr ?_, rfl⟩
    rw [groupForeignKeys, Dict.get?_group, hrows, foldl_addForeignKey]

end Spec

end DataAgent.Server
