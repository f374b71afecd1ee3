import DataAgent.Server.Inspect

/-!
# The rows and the result of the inspection

What `_inspect_schema_sync` makes of any lists of rows, in any order.

* `Regrouped` : every row is in the result once, in its group and in its place;
* `serving` : a database that answers the four queries with the given rows;
* **`regrouped`** : the result of the inspection, with the descriptions of `describe`.
-/

namespace DataAgent.Server
open Python

/-! ## What is expected -/

/-- The description of the last of the rows about a column. -/
def lastDescription (rows : List DescriptionRow) (k : TableKey) (columnId : Int) : Option Text :=
  ((rows.filter fun r => r.key = k ∧ r.minorId = columnId).getLast?).bind (·.description)

/-- `minor_id` 0 is the table itself. -/
def describe (rows : List DescriptionRow) (row : ColumnRow) : Option Text :=
  if row.columnId = 0 then none else lastDescription rows row.key row.columnId

/-- The rows of a foreign key and its entry. -/
structure KeyEntry (rows : List ForeignKeyRow) (id : Int) (fk : ForeignKeyEntry) : Prop where
  sourceColumns : fk.sourceColumns = (rows.filter (·.fkObjectId = id)).map (·.sourceColumn)
  targetColumns : fk.targetColumns = (rows.filter (·.fkObjectId = id)).map (·.targetColumn)
  /-- The rest is that of the first row. -/
  names : ∃ r ∈ rows, r.fkObjectId = id ∧ fk.foreignKeyName = r.fkName ∧
    (fk.sourceSchema, fk.sourceTable) = (r.sourceSchema, r.sourceTable) ∧
    (fk.targetSchema, fk.targetTable) = (r.targetSchema, r.targetTable)

/-- The rows, regrouped; `firsts` keeps the first of each. -/
structure Regrouped (U : Unicode) (describe : ColumnRow → Option Text) (rows : CatalogRows) (result : InspectResult) :
    Prop where
  schemaNames : result.schemas.map (·.schemaName) = firsts (rows.columns.map (·.schemaName))
  tableNames : ∀ sch ∈ result.schemas, sch.tables.map (·.tableName) =
    firsts ((rows.columns.filter (·.schemaName = sch.schemaName)).map (·.tableName))
  columns : ∀ sch ∈ result.schemas, ∀ t ∈ sch.tables, t.columns =
    (rowsOf rows.columns (sch.schemaName, t.tableName)).mapIdx fun i row =>
      { columnName := row.columnName
        dataType := formatDataType U row.typeName row.maxLength row.precision row.scale
        isNullable := row.isNullable
        ordinalPosition := i + 1
        description := describe row }
  /-- No key without rows. -/
  primaryKeys : ∀ sch ∈ result.schemas, ∀ t ∈ sch.tables,
    t.primaryKey = primaryKeyOf rows.primaryKeys (sch.schemaName, t.tableName)
  foreignKeys : List.Forall₂ (KeyEntry rows.foreignKeys) (firsts (rows.foreignKeys.map (·.fkObjectId)))
    result.foreignKeys
  schemaCount : result.schemaCount = result.schemas.length
  tableCount : result.tableCount = (result.schemas.flatMap (·.tables)).length

theorem KeyEntry.length_eq {rows : List ForeignKeyRow} {id : Int} {fk : ForeignKeyEntry} (h : KeyEntry rows id fk) :
    fk.sourceColumns.length = fk.targetColumns.length := by
  rw [h.sourceColumns, h.targetColumns, List.length_map, List.length_map]

/-- No schema comes twice, and no table of a schema. -/
theorem Regrouped.names_nodup {U : Unicode} {describe : ColumnRow → Option Text} {rows : CatalogRows}
    {result : InspectResult} (h : Regrouped U describe rows result) : (result.schemas.map (·.schemaName)).Nodup ∧
    ∀ sch ∈ result.schemas, (sch.tables.map (·.tableName)).Nodup := by
  refine ⟨h.schemaNames ▸ nodup_firsts _, fun sch hsch => ?_⟩
  rw [h.tableNames sch hsch]
  exact nodup_firsts _

/-! ## Descriptions -/

theorem get?_columnDescriptions (rows : List DescriptionRow) (k : TableKey) (columnId : Int) :
    ((columnDescriptions rows).get? (k, columnId)).join =
      if columnId = 0 then none else lastDescription rows k columnId := by
  rw [columnDescriptions, Dict.get?_group_last, List.filter_filter, lastDescription]
  by_cases h : columnId = 0
  · -- a row about the table is filed elsewhere
    have hnone : (rows.filter fun r => decide ((r.key, r.minorId) = (k, columnId)) && decide (r.minorId ≠ 0)) = [] := by
      rw [List.filter_eq_nil_iff]
      intro r _
      simp [h]
    rw [hnone, if_pos h]
    rfl
  · have hsame : (rows.filter fun r => decide ((r.key, r.minorId) = (k, columnId)) && decide (r.minorId ≠ 0)) =
        rows.filter fun r => decide (r.key = k ∧ r.minorId = columnId) := by
      refine List.filter_congr fun r _ => ?_
      by_cases hr : r.minorId = columnId <;> simp [hr, h]
    rw [hsame, if_neg h]
    cases (rows.filter fun r => decide (r.key = k ∧ r.minorId = columnId)).getLast? <;> rfl

/-! ## Names -/

section
variable {U : Unicode} {rows : CatalogRows} {correlationId : Text}

theorem keys_setPrimaryKey (tables : Dict TableKey TableEntry) (pk : TableKey × List Text) :
    (setPrimaryKey tables pk).keys = tables.keys := by
  unfold setPrimaryKey
  split
  · rename_i table h
    rw [Dict.keys_alter, if_pos (Dict.mem_keys.mpr (by rw [h]; rfl))]
  · rfl

theorem keys_withPrimaryKeys (tables : Dict TableKey TableEntry) (pks : Dict TableKey (List Text)) :
    (withPrimaryKeys tables pks).keys = tables.keys := by
  unfold withPrimaryKeys
  generalize pks.entries = l
  induction l generalizing tables with
  | nil => rfl
  | cons pk l ih => rw [List.foldl_cons, ih, keys_setPrimaryKey]

/-- The keys of the tables, in the order of their first rows. -/
theorem keys_finalTables : (finalTables U rows).keys = firsts (rows.columns.map ColumnRow.key) := by
  rw [finalTables, keys_withPrimaryKeys, groupTables, Dict.keys_group]

theorem tableOf_of_mem_entries {x : TableKey × TableEntry} (hx : x ∈ (finalTables U rows).entries) :
    x.2 = tableOf U rows x.1 := by
  have h := Dict.mem_entries.mp hx
  rw [get?_finalTables] at h
  split at h
  · simp at h
  · exact (Option.some.inj h).symm

/-- A table that is listed under a schema is that of its two names. -/
theorem eq_tableOf {sch : SchemaEntry} (hsch : sch ∈ (assemble U correlationId rows).schemas) {t : TableEntry}
    (ht : t ∈ sch.tables) : t = tableOf U rows (sch.schemaName, t.tableName) := by
  rw [tables_of_mem_schemas hsch, List.mem_map] at ht
  obtain ⟨⟨⟨s, n⟩, t⟩, hx, rfl⟩ := ht
  obtain ⟨hx, hs⟩ := List.mem_filter.mp hx
  obtain rfl : s = sch.schemaName := by simpa using hs
  obtain rfl : t = tableOf U rows (sch.schemaName, n) := tableOf_of_mem_entries hx
  rfl

theorem schemaNames_assemble :
    (assemble U correlationId rows).schemas.map (·.schemaName) = firsts (rows.columns.map (·.schemaName)) := by
  calc (assemble U correlationId rows).schemas.map (·.schemaName)
      = (groupSchemas (finalTables U rows)).keys := by
        show ((groupSchemas (finalTables U rows)).entries.map _).map _ = _
        rw [List.map_map]
        rfl
    _ = firsts ((finalTables U rows).keys.map Prod.fst) := by
        rw [groupSchemas, Dict.keys_group, Dict.keys, List.map_map]
        rfl
    _ = firsts (rows.columns.map (·.schemaName)) := by
        rw [keys_finalTables, firsts_map_firsts, List.map_map]
        rfl

theorem tableNames_assemble {sch : SchemaEntry} (hsch : sch ∈ (assemble U correlationId rows).schemas) :
    sch.tables.map (·.tableName) =
      firsts ((rows.columns.filter (·.schemaName = sch.schemaName)).map (·.tableName)) := by
  let own (k : TableKey) : Bool := decide (k.1 = sch.schemaName)
  have hnames : sch.tables.map (·.tableName) = ((finalTables U rows).keys.filter own).map Prod.snd := by
    rw [tables_of_mem_schemas hsch, Dict.keys, List.filter_map, List.map_map, List.map_map]
    refine List.map_congr_left fun x hx => ?_
    rw [Function.comp_apply, tableOf_of_mem_entries (List.mem_filter.mp hx).1]
    rfl
  have hinj : ∀ a ∈ (rows.columns.map ColumnRow.key).filter own, ∀ b ∈ (rows.columns.map ColumnRow.key).filter own,
      a.2 = b.2 → a = b := by
    intro a ha b hb he
    have ha : a.1 = sch.schemaName := by simpa [own] using (List.mem_filter.mp ha).2
    have hb : b.1 = sch.schemaName := by simpa [own] using (List.mem_filter.mp hb).2
    exact Prod.ext (ha.trans hb.symm) he
  rw [hnames, keys_finalTables, filter_firsts, map_firsts_of_injOn hinj, List.filter_map, List.map_map]
  rfl

theorem keyEntry_foreignKeyOf {id : Int} {r : ForeignKeyRow} {rs : List ForeignKeyRow}
    (h : (rows.foreignKeys.filter fun r => r.fkObjectId = id) = r :: rs) :
    KeyEntry rows.foreignKeys id (foreignKeyOf r rs) where
  sourceColumns := by rw [h]; rfl
  targetColumns := by rw [h]; rfl
  names := by
    have hr : r ∈ rows.foreignKeys.filter fun r => r.fkObjectId = id := by simp [h]
    obtain ⟨hr, hid⟩ := List.mem_filter.mp hr
    exact ⟨r, hr, by simpa using hid, rfl, rfl, rfl⟩

theorem foreignKeys_assemble : List.Forall₂ (KeyEntry rows.foreignKeys)
    (firsts (rows.foreignKeys.map (·.fkObjectId))) (assemble U correlationId rows).foreignKeys := by
  have hkeys : (groupForeignKeys rows.foreignKeys).keys = firsts (rows.foreignKeys.map (·.fkObjectId)) :=
    Dict.keys_group _ _ _
  rw [← hkeys]
  refine (Dict.forall₂_entries (groupForeignKeys rows.foreignKeys)).imp fun id fk h => ?_
  rw [groupForeignKeys, Dict.get?_group] at h
  cases hrows : rows.foreignKeys.filter fun r => r.fkObjectId = id with
  | nil => simp [hrows] at h
  | cons r rs =>
    rw [hrows, foldl_addForeignKey] at h
    exact Option.some.inj h ▸ keyEntry_foreignKeyOf hrows

theorem regrouped_assemble (U : Unicode) (correlationId : Text) (rows : CatalogRows) :
    Regrouped U (describe rows.descriptions) rows (assemble U correlationId rows) where
  schemaNames := schemaNames_assemble
  tableNames sch hsch := tableNames_assemble hsch
  columns sch hsch t ht := by
    have hentry : ∀ (row : ColumnRow) (i : ℕ), columnEntry U rows.descriptions row i =
        ⟨row.columnName, formatDataType U row.typeName row.maxLength row.precision row.scale, row.isNullable, i,
          describe rows.descriptions row⟩ := by
      intro row i
      rw [columnEntry, get?_columnDescriptions, describe]
    have hcolumns : t.columns = columnsOf U rows.descriptions (rowsOf rows.columns (sch.schemaName, t.tableName)) :=
      congrArg TableEntry.columns (eq_tableOf hsch ht)
    rw [hcolumns, columnsOf]
    simp only [hentry]
  primaryKeys sch hsch t ht := congrArg TableEntry.primaryKey (eq_tableOf hsch ht)
  foreignKeys := foreignKeys_assemble
  schemaCount := rfl
  tableCount := by
    rw [List.length_flatMap]
    rfl

end

/-! ## The inspection -/

/-- A database that answers with the given rows, and raises nothing. -/
def serving (rows : CatalogRows) : SchemaDriver where
  settingsValid := true
  connect := .ok ()
  setTimeout := .ok ()
  cursor := .ok ()
  close := .ok ()
  executeColumns := .ok ()
  fetchColumns := .ok rows.columns
  executePrimaryKeys := .ok ()
  fetchPrimaryKeys := .ok rows.primaryKeys
  executeForeignKeys := .ok ()
  fetchForeignKeys := .ok rows.foreignKeys
  executeDescriptions := .ok ()
  fetchDescriptions := .ok rows.descriptions

theorem inspectSchema_serving (U : Unicode) (rows : CatalogRows) (correlationId : Text) :
    (inspectSchema U (serving rows) correlationId).result = .ok (assemble U correlationId rows) := rfl

/-- **Regrouping keeps every row**: for all lists of rows the inspection returns a result in which they are
regrouped. -/
theorem regrouped (U : Unicode) (rows : CatalogRows) (correlationId : Text) :
    ∃ result, (inspectSchema U (serving rows) correlationId).result = .ok result ∧
      Regrouped U (describe rows.descriptions) rows result :=
  ⟨_, inspectSchema_serving U rows correlationId, regrouped_assemble U correlationId rows⟩

/-- A column of number 0, and a description with `minor_id` 0. -/
def zeroRows : CatalogRows where
  columns := [⟨"s".toList, "t".toList, 1, 0, "c".toList, "int".toList, 4, 10, 0, false⟩]
  primaryKeys := []
  foreignKeys := []
  descriptions := [⟨"s".toList, "t".toList, 0, some "d".toList⟩]

/-- Its entry, and that of its schema. -/
def zeroTable : TableEntry :=
  ⟨"t".toList, some "d".toList, [⟨"c".toList, "int".toList, false, 1, none⟩], none⟩

def zeroSchema : SchemaEntry := ⟨"s".toList, [zeroTable]⟩

/-- The description is that of the table, and not also of the column. -/
theorem zero_undescribed : ¬ ∀ (U : Unicode) (rows : CatalogRows) (correlationId : Text),
    ∃ result, (inspectSchema U (serving rows) correlationId).result = .ok result ∧
      Regrouped U (fun row => lastDescription rows.descriptions row.key row.columnId) rows result := by
  intro h
  obtain ⟨result, hresult, hrows⟩ := h .small zeroRows []
  rw [inspectSchema_serving, Except.ok.injEq] at hresult
  subst hresult
  have hlisted : zeroSchema ∈ (assemble .small [] zeroRows).schemas := by decide +kernel
  have hcolumns := hrows.columns zeroSchema hlisted zeroTable (by decide +kernel)
  exact absurd hcolumns (by decide +kernel)

/-- The keys of the tables, as they come in the result. -/
def InspectResult.tableKeys (result : InspectResult) : List TableKey :=
  result.schemas.flatMap fun sch => sch.tables.map fun t => (sch.schemaName, t.tableName)

/-- A table of the schema `a`, one of `b`, and another one of `a`. -/
def interleavedRows : CatalogRows where
  columns := [⟨"a".toList, "t".toList, 1, 1, "c".toList, "int".toList, 4, 10, 0, false⟩,
    ⟨"b".toList, "u".toList, 2, 1, "c".toList, "int".toList, 4, 10, 0, false⟩,
    ⟨"a".toList, "v".toList, 3, 1, "c".toList, "int".toList, 4, 10, 0, false⟩]
  primaryKeys := []
  foreignKeys := []
  descriptions := []

/-- The tables of one schema come together, so that `v` is before `u`. -/
theorem interleaved_regrouped : ¬ ∀ (U : Unicode) (rows : CatalogRows) (correlationId : Text),
    ∃ result, (inspectSchema U (serving rows) correlationId).result = .ok result ∧
      result.tableKeys = firsts (rows.columns.map (·.key)) := by
  intro h
  obtain ⟨result, hresult, hkeys⟩ := h .small interleavedRows []
  rw [inspectSchema_serving, Except.ok.injEq] at hresult
  subst hresult
  exact absurd hkeys (by decide +kernel)

/-- **Neither the description of column 0 nor the order of tables of several schemas is that of the rows.** -/
theorem not_lossless :
    (¬ ∀ (U : Unicode) (rows : CatalogRows) (correlationId : Text),
      ∃ result, (inspectSchema U (serving rows) correlationId).result = .ok result ∧
        Regrouped U (fun row => lastDescription rows.descriptions row.key row.columnId) rows result) ∧
    ¬ ∀ (U : Unicode) (rows : CatalogRows) (correlationId : Text),
      ∃ result, (inspectSchema U (serving rows) correlationId).result = .ok result ∧
        result.tableKeys = firsts (rows.columns.map (·.key)) :=
  ⟨zero_undescribed, interleaved_regrouped⟩

end DataAgent.Server
