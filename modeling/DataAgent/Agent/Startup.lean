import DataAgent.Agent.Catalog
import DataAgent.Server.Inspect

/-!
# The decision at startup

From the rows of the four catalog queries to the end of `validate_physical_mapping`, through both processes.

* `InspectResult.json` : the dictionary that `_inspect_schema_sync` returns; `json_eq_dump` : it is what the client
  would dump;
* `startup` : assembly, contract check, dump, catalog, mapping check;
* **`startup_ok_iff`** : the rows that let the application start.
-/

namespace DataAgent.Agent
open Python Server

/-! ## The result as a value -/

def columnJson (c : ColumnEntry) : Json :=
  object [("column_name", text c.columnName), ("data_type", text c.dataType), ("is_nullable", .bool c.isNullable),
    ("ordinal_position", .int c.ordinalPosition), ("description", orNull text c.description)]

def primaryKeyJson (columns : List Text) : Json := object [("columns", listOf text columns)]

def tableJson (t : TableEntry) : Json :=
  object [("table_name", text t.tableName), ("description", orNull text t.description),
    ("columns", listOf columnJson t.columns), ("primary_key", orNull primaryKeyJson t.primaryKey)]

def schemaJson (s : SchemaEntry) : Json :=
  object [("schema_name", text s.schemaName), ("tables", listOf tableJson s.tables)]

def foreignKeyJson (k : ForeignKeyEntry) : Json :=
  object [("foreign_key_name", text k.foreignKeyName), ("source_schema", text k.sourceSchema),
    ("source_table", text k.sourceTable), ("source_columns", listOf text k.sourceColumns),
    ("target_schema", text k.targetSchema), ("target_table", text k.targetTable),
    ("target_columns", listOf text k.targetColumns)]

/-- The return value of `_inspect_schema_sync`. -/
def inspectJson (r : InspectResult) : Json :=
  object [("correlation_id", text r.correlationId), ("schemas", listOf schemaJson r.schemas),
    ("foreign_keys", listOf foreignKeyJson r.foreignKeys),
    ("summary", object [("schema_count", .int r.schemaCount), ("table_count", .int r.tableCount)])]

/-! ## What the client has of it -/

def columnOf (c : ColumnEntry) : ColumnMetadata :=
  ⟨c.columnName, c.dataType, c.isNullable, c.ordinalPosition, c.description⟩

def tableMetadataOf (t : TableEntry) : TableMetadata :=
  ⟨t.tableName, t.description, t.columns.map columnOf, t.primaryKey.map PrimaryKeyMetadata.mk⟩

def schemaOf (s : SchemaEntry) : SchemaMetadata := ⟨s.schemaName, s.tables.map tableMetadataOf⟩

def foreignKeyMetadataOf (k : ForeignKeyEntry) : ForeignKeyMetadata :=
  ⟨k.foreignKeyName, k.sourceSchema, k.sourceTable, k.sourceColumns, k.targetSchema, k.targetTable, k.targetColumns⟩

def toolResultOf (r : InspectResult) : InspectSchemaToolResult where
  correlationId := r.correlationId
  schemas := r.schemas.map schemaOf
  foreignKeys := r.foreignKeys.map foreignKeyMetadataOf
  summary := [("schema_count".toList, r.schemaCount), ("table_count".toList, r.tableCount)]

theorem listOf_map {α β : Type} {f : α → Json} {g : β → Json} {h : α → β} (hf : ∀ a, f a = g (h a)) (xs : List α) :
    listOf f xs = listOf g (xs.map h) := by
  rw [listOf, listOf, List.map_map]
  congr 1
  exact List.map_congr_left fun a _ => hf a

theorem tableJson_eq_dump (t : TableEntry) : tableJson t = (tableMetadataOf t).dump := by
  have hcolumns := listOf_map (f := columnJson) (g := ColumnMetadata.dump) (h := columnOf) (fun _ => rfl) t.columns
  have hkey : orNull primaryKeyJson t.primaryKey = orNull PrimaryKeyMetadata.dump (t.primaryKey.map .mk) := by
    cases t.primaryKey <;> rfl
  rw [tableJson, hcolumns, hkey]
  rfl

theorem schemaJson_eq_dump (s : SchemaEntry) : schemaJson s = (schemaOf s).dump := by
  rw [schemaJson, listOf_map tableJson_eq_dump]
  rfl

/-- **The two processes mean the same by a result.** -/
theorem inspectJson_eq_dump (r : InspectResult) : inspectJson r = (toolResultOf r).dump := by
  have hkeys := listOf_map (f := foreignKeyJson) (g := ForeignKeyMetadata.dump) (h := foreignKeyMetadataOf)
    (fun _ => rfl) r.foreignKeys
  rw [inspectJson, listOf_map schemaJson_eq_dump, hkeys]
  rfl

/-! ## The run -/

inductive StartupError where
  /-- `MCPToolExecutionError` of reason `invalid_result_contract`. -/
  | invalidResultContract
  /-- `ValidationError` of the catalog. -/
  | validation
  | businessMetadataMapping (message : String)
  deriving DecidableEq, Repr

/-- `MCPClientManager.inspect_schema` on a structured result. -/
def parseInspectSchema (structured : Json) : Except StartupError Json :=
  match inspectSchemaToolResult structured with
  | none => .error .invalidResultContract
  | some validated => .ok validated.dump

/-- `build_physical_metadata_catalog` and the check of the catalog. -/
def checkCatalog (inspectSchemaResult : Json) : Except StartupError Unit :=
  match buildPhysicalMetadataCatalog inspectSchemaResult with
  | none => .error .validation
  | some catalog => (validatePhysicalMapping catalog).mapError .businessMetadataMapping

/-- What `lifespan` does with the rows of the catalog. -/
def startup (U : Unicode) (correlationId : Text) (rows : CatalogRows) : Except StartupError Unit := do
  let inspectSchemaResult ← parseInspectSchema (inspectJson (assemble U correlationId rows))
  checkCatalog inspectSchemaResult

/-- The catalog that is checked. -/
def catalogOf (U : Unicode) (correlationId : Text) (rows : CatalogRows) : PhysicalMetadataCatalog :=
  ⟨(assemble U correlationId rows).schemas.map schemaOf,
    (assemble U correlationId rows).foreignKeys.map foreignKeyMetadataOf⟩

section
variable {U : Unicode} {correlationId : Text} {rows : CatalogRows}

/-- Nothing is lost or refused on the way to the mapping check. -/
theorem startup_eq : startup U correlationId rows =
    (validatePhysicalMapping (catalogOf U correlationId rows)).mapError .businessMetadataMapping := by
  have hparse : parseInspectSchema (inspectJson (assemble U correlationId rows)) =
      .ok (toolResultOf (assemble U correlationId rows)).dump := by
    rw [parseInspectSchema, inspectJson_eq_dump, inspectSchemaToolResult_dump]
  rw [startup, hparse]
  show checkCatalog (toolResultOf (assemble U correlationId rows)).dump = _
  rw [checkCatalog, buildPhysicalMetadataCatalog_dump]
  rfl

/-! ## The mapping, from the rows -/

/-- A table is found exactly if it has column rows. -/
theorem getTable_catalogOf (s name : Text) : (catalogOf U correlationId rows).getTable s name =
    if rowsOf rows.columns (s, name) = [] then none else some (tableMetadataOf (tableOf U rows (s, name))) := by
  have hfound : ∀ table, (catalogOf U correlationId rows).getTable s name = some table →
      rowsOf rows.columns (s, name) ≠ [] ∧ table = tableMetadataOf (tableOf U rows (s, name)) := by
    intro table h
    obtain ⟨schema, hschema, htable⟩ := List.exists_of_findSome?_eq_some h
    obtain ⟨sch, hsch, rfl⟩ := List.mem_map.mp hschema
    split at htable
    · rename_i hs
      obtain ⟨t, ht, rfl⟩ := List.mem_map.mp (List.mem_of_find?_eq_some htable)
      have hname : (tableMetadataOf t).tableName = name := by simpa using List.find?_some htable
      obtain ⟨name', hne, rfl⟩ := mem_tables_iff.mp ⟨sch, hsch, hs, ht⟩
      obtain rfl : name' = name := hname
      exact ⟨hne, rfl⟩
    · simp at htable
  cases h : (catalogOf U correlationId rows).getTable s name with
  | some table =>
    obtain ⟨hne, rfl⟩ := hfound table h
    rw [if_neg hne]
  | none =>
    rw [if_pos]
    by_contra hne
    obtain ⟨sch, hsch, hs, ht⟩ : ∃ sch ∈ (assemble U correlationId rows).schemas, sch.schemaName = s ∧
        tableOf U rows (s, name) ∈ sch.tables := mem_tables_iff.mpr ⟨name, hne, rfl⟩
    have hnone := List.findSome?_eq_none_iff.mp h (schemaOf sch) (List.mem_map_of_mem hsch)
    rw [if_pos (show (schemaOf sch).schemaName = s from hs), List.find?_eq_none] at hnone
    have := hnone _ (List.mem_map_of_mem (f := tableMetadataOf) ht)
    simp [tableMetadataOf, tableOf] at this

/-- The rows have these columns of a table. -/
def RowsHave (columns : List ColumnRow) (schemaName tableName : Text) (required : List Text) : Prop :=
  ∀ c ∈ required, ∃ r ∈ columns, r.schemaName = schemaName ∧ r.tableName = tableName ∧ r.columnName = c

/-- The column names of a table of the catalog. -/
theorem columnNames_tableOf (s name : Text) :
    (tableMetadataOf (tableOf U rows (s, name))).columns.map (·.columnName) =
      (rowsOf rows.columns (s, name)).map (·.columnName) := by
  rw [← @columnNames_columnsOf U rows.descriptions]
  exact List.map_map

theorem hasColumns_catalogOf {s name : Text} {required : List Text} (hne : required ≠ []) :
    (catalogOf U correlationId rows).HasColumns (s, name) required ↔ RowsHave rows.columns s name required := by
  have hmem : ∀ c, c ∈ (rowsOf rows.columns (s, name)).map (·.columnName) ↔
      ∃ r ∈ rows.columns, r.schemaName = s ∧ r.tableName = name ∧ r.columnName = c := by
    intro c
    simp only [List.mem_map, mem_rowsOf, and_assoc]
  unfold PhysicalMetadataCatalog.HasColumns RowsHave
  rw [getTable_catalogOf]
  by_cases h : rowsOf rows.columns (s, name) = []
  · -- without rows there is no table, and a required column is missing
    obtain ⟨c, hc⟩ := List.exists_mem_of_ne_nil _ hne
    refine iff_of_false (by simp [h]) fun hall => ?_
    have := (hmem c).mpr (hall c hc)
    simp [h] at this
  · simp only [if_neg h, Option.some.injEq, exists_eq_left', columnNames_tableOf, hmem]

/-- Some key object has one row, and it links the two columns. -/
def RowsLink (foreignKeys : List ForeignKeyRow) : Prop :=
  ∃ id r, (foreignKeys.filter fun r => r.fkObjectId = id) = [r] ∧
    r.sourceSchema = "Production".toList ∧ r.sourceTable = "ProductInventory".toList ∧
    r.sourceColumn = "ProductID".toList ∧ r.targetSchema = "Production".toList ∧ r.targetTable = "Product".toList ∧
    r.targetColumn = "ProductID".toList

theorem isRequiredForeignKey_iff {r : ForeignKeyRow} {rs : List ForeignKeyRow} :
    isRequiredForeignKey (foreignKeyMetadataOf (foreignKeyOf r rs)) = true ↔ rs = [] ∧
      r.sourceSchema = "Production".toList ∧ r.sourceTable = "ProductInventory".toList ∧
      r.sourceColumn = "ProductID".toList ∧ r.targetSchema = "Production".toList ∧ r.targetTable = "Product".toList ∧
      r.targetColumn = "ProductID".toList := by
  simp only [isRequiredForeignKey, foreignKeyMetadataOf, foreignKeyOf, Bool.and_eq_true, decide_eq_true_eq,
    List.map_cons, List.cons.injEq, List.map_eq_nil_iff]
  tauto

theorem foreignKey_catalogOf : (∃ fk ∈ (catalogOf U correlationId rows).foreignKeys, isRequiredForeignKey fk = true) ↔
    RowsLink rows.foreignKeys := by
  constructor
  · rintro ⟨fk, hfk, hrequired⟩
    obtain ⟨k, hk, rfl⟩ := List.mem_map.mp hfk
    obtain ⟨id, r, rs, hrows, rfl⟩ := mem_foreignKeys_iff.mp hk
    obtain ⟨rfl, h⟩ := isRequiredForeignKey_iff.mp hrequired
    exact ⟨id, r, hrows, h⟩
  · rintro ⟨id, r, hrows, h⟩
    refine ⟨foreignKeyMetadataOf (foreignKeyOf r []), List.mem_map_of_mem ?_, isRequiredForeignKey_iff.mpr ⟨rfl, h⟩⟩
    exact mem_foreignKeys_iff.mpr ⟨id, r, [], hrows, rfl⟩

end

/-- **The application starts exactly if the rows have the required columns and the required key**: one key object with
a single row, from `ProductInventory.ProductID` to `Product.ProductID`. -/
theorem startup_ok_iff (U : Unicode) (correlationId : Text) (rows : CatalogRows) :
    startup U correlationId rows = .ok () ↔
      RowsHave rows.columns "Production".toList "Product".toList
          (["ProductID", "Name", "SafetyStockLevel"].map String.toList) ∧
        RowsHave rows.columns "Production".toList "ProductInventory".toList
          (["ProductID", "Quantity"].map String.toList) ∧
        RowsLink rows.foreignKeys := by
  have hok : startup U correlationId rows = .ok () ↔
      validatePhysicalMapping (catalogOf U correlationId rows) = .ok () := by
    rw [startup_eq]
    cases validatePhysicalMapping (catalogOf U correlationId rows) <;> simp [Except.mapError]
  rw [hok, validatePhysicalMapping_eq_ok, foreignKey_catalogOf, requiredTableColumns, List.forall_mem_cons,
    List.forall_mem_singleton, hasColumns_catalogOf (by simp), hasColumns_catalogOf (by simp), and_assoc]

end DataAgent.Agent
