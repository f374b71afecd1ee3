import DataAgent.Agent.Decode

/-!
# The physical metadata catalog

`schema_collector` and `metadata_service.validate_physical_mapping`: what the client reads out of the result of
`inspect_schema`, and the check of it at startup.

* the models, each with its reading of a value (`model_validate`, where undeclared fields are ignored) and its dump
  (`model_dump`); **`inspectSchemaToolResult_dump`** : a dump is read back;
* `buildPhysicalMetadataCatalog`, `getTable`, `validatePhysicalMapping`.
-/

namespace DataAgent.Agent
open Python Decode

/-! ## Objects -/

/-- The fields with literal keys. -/
def literals (fs : List (String × Json)) : Fields := fs.map fun f => (f.1.toList, f.2)

/-- A dictionary with literal keys. -/
def object (fs : List (String × Json)) : Json := .obj (literals fs)

def text (t : Text) : Json := .str t

def orNull {α : Type} (f : α → Json) : Option α → Json
  | some a => f a
  | none => .null

def listOf {α : Type} (f : α → Json) (xs : List α) : Json := .arr (xs.map f)

/-- The fields of an object, undeclared ones included. -/
def fields : Json → Option Fields
  | .obj fs => some fs
  | _ => none

theorem fields_object (fs : List (String × Json)) : fields (object fs) = some (literals fs) := rfl

theorem get_literals_cons (name : String) (f : String × Json) (fs : List (String × Json)) :
    get (literals (f :: fs)) name = if name = f.1 then some f.2 else get (literals fs) name := by
  rw [Decode.get, literals, List.map_cons, List.lookup_cons]
  by_cases h : name = f.1
  · simp [h]
  · have hne : (name.toList == f.1.toList) = false := by simpa [String.toList_inj] using h
    rw [hne, if_neg h]
    rfl

theorem str_text (t : Text) : str (text t) = some t := rfl

theorem nullable_orNull {α : Type} {f : Json → Option α} {g : α → Json} (h : ∀ a, f (g a) = some a)
    (hg : ∀ a, g a ≠ .null) (o : Option α) : nullable f (orNull g o) = some o := by
  cases o with
  | none => rfl
  | some a =>
    rw [orNull, nullable]
    · rw [h, Option.map_some]
    · exact hg a

theorem list_listOf {α : Type} {f : Json → Option α} {g : α → Json} (h : ∀ a, f (g a) = some a) (xs : List α) :
    Decode.list f (listOf g xs) = some xs := by
  show (xs.map g).mapM f = some xs
  induction xs with
  | nil => rfl
  | cons x xs ih => rw [List.map_cons, List.mapM_cons, h, ih]; rfl

/-! ## The models -/

structure ColumnMetadata where
  columnName : Text
  dataType : Text
  isNullable : Bool
  ordinalPosition : Int
  description : Option Text
  deriving DecidableEq

structure PrimaryKeyMetadata where
  columns : List Text
  deriving DecidableEq

structure TableMetadata where
  tableName : Text
  description : Option Text
  columns : List ColumnMetadata
  primaryKey : Option PrimaryKeyMetadata
  deriving DecidableEq

structure SchemaMetadata where
  schemaName : Text
  tables : List TableMetadata
  deriving DecidableEq

structure ForeignKeyMetadata where
  foreignKeyName : Text
  sourceSchema : Text
  sourceTable : Text
  sourceColumns : List Text
  targetSchema : Text
  targetTable : Text
  targetColumns : List Text
  deriving DecidableEq

/-- `_InspectSchemaToolResult`. -/
structure InspectSchemaToolResult where
  correlationId : Text
  schemas : List SchemaMetadata
  foreignKeys : List ForeignKeyMetadata
  summary : List (Text × Int)

structure PhysicalMetadataCatalog where
  schemas : List SchemaMetadata
  foreignKeys : List ForeignKeyMetadata

/-! ## `model_validate` -/

def columnMetadata (j : Json) : Option ColumnMetadata := do
  let fs ← fields j
  return {
    columnName := ← str (← get fs "column_name")
    dataType := ← str (← get fs "data_type")
    isNullable := ← bool (← get fs "is_nullable")
    ordinalPosition := ← int (← get fs "ordinal_position")
    description := ← nullable str ((get fs "description").getD .null) }

def primaryKeyMetadata (j : Json) : Option PrimaryKeyMetadata := do
  let fs ← fields j
  return { columns := ← Decode.list str (← get fs "columns") }

def tableMetadata (j : Json) : Option TableMetadata := do
  let fs ← fields j
  return {
    tableName := ← str (← get fs "table_name")
    description := ← nullable str ((get fs "description").getD .null)
    columns := ← Decode.list columnMetadata (← get fs "columns")
    primaryKey := ← nullable primaryKeyMetadata ((get fs "primary_key").getD .null) }

def schemaMetadata (j : Json) : Option SchemaMetadata := do
  let fs ← fields j
  return { schemaName := ← str (← get fs "schema_name"), tables := ← Decode.list tableMetadata (← get fs "tables") }

def foreignKeyMetadata (j : Json) : Option ForeignKeyMetadata := do
  let fs ← fields j
  return {
    foreignKeyName := ← str (← get fs "foreign_key_name")
    sourceSchema := ← str (← get fs "source_schema")
    sourceTable := ← str (← get fs "source_table")
    sourceColumns := ← Decode.list str (← get fs "source_columns")
    targetSchema := ← str (← get fs "target_schema")
    targetTable := ← str (← get fs "target_table")
    targetColumns := ← Decode.list str (← get fs "target_columns") }

def inspectSchemaToolResult (j : Json) : Option InspectSchemaToolResult := do
  let fs ← fields j
  return {
    correlationId := ← str (← get fs "correlation_id")
    schemas := ← Decode.list schemaMetadata (← get fs "schemas")
    foreignKeys := ← Decode.list foreignKeyMetadata (← get fs "foreign_keys")
    summary := ← dict int (← get fs "summary") }

/-- `PhysicalMetadataCatalog(schemas=result.get("schemas", []), foreign_keys=result.get("foreign_keys", []))`. -/
def buildPhysicalMetadataCatalog (inspectSchemaResult : Json) : Option PhysicalMetadataCatalog := do
  let fs ← fields inspectSchemaResult
  return {
    schemas := ← Decode.list schemaMetadata ((get fs "schemas").getD (.arr []))
    foreignKeys := ← Decode.list foreignKeyMetadata ((get fs "foreign_keys").getD (.arr [])) }

/-! ## `model_dump` -/

def ColumnMetadata.dump (c : ColumnMetadata) : Json :=
  object [("column_name", text c.columnName), ("data_type", text c.dataType), ("is_nullable", .bool c.isNullable),
    ("ordinal_position", .int c.ordinalPosition), ("description", orNull text c.description)]

def PrimaryKeyMetadata.dump (k : PrimaryKeyMetadata) : Json := object [("columns", listOf text k.columns)]

def TableMetadata.dump (t : TableMetadata) : Json :=
  object [("table_name", text t.tableName), ("description", orNull text t.description),
    ("columns", listOf ColumnMetadata.dump t.columns), ("primary_key", orNull PrimaryKeyMetadata.dump t.primaryKey)]

def SchemaMetadata.dump (s : SchemaMetadata) : Json :=
  object [("schema_name", text s.schemaName), ("tables", listOf TableMetadata.dump s.tables)]

def ForeignKeyMetadata.dump (k : ForeignKeyMetadata) : Json :=
  object [("foreign_key_name", text k.foreignKeyName), ("source_schema", text k.sourceSchema),
    ("source_table", text k.sourceTable), ("source_columns", listOf text k.sourceColumns),
    ("target_schema", text k.targetSchema), ("target_table", text k.targetTable),
    ("target_columns", listOf text k.targetColumns)]

def InspectSchemaToolResult.dump (r : InspectSchemaToolResult) : Json :=
  object [("correlation_id", text r.correlationId), ("schemas", listOf SchemaMetadata.dump r.schemas),
    ("foreign_keys", listOf ForeignKeyMetadata.dump r.foreignKeys),
    ("summary", .obj (r.summary.map fun x => (x.1, .int x.2)))]

/-! ## A dump is read back -/

theorem text_ne_null (t : Text) : text t ≠ .null := by simp [text]

theorem columnMetadata_dump (c : ColumnMetadata) : columnMetadata c.dump = some c := by
  rw [columnMetadata, ColumnMetadata.dump, fields_object]
  simp only [get_literals_cons, String.reduceEq, reduceIte, Option.bind_eq_bind, Option.bind_some, str_text,
    nullable_orNull str_text text_ne_null, Option.pure_def, Decode.bool, Decode.int, Option.getD_some]

theorem primaryKeyMetadata_dump (k : PrimaryKeyMetadata) : primaryKeyMetadata k.dump = some k := by
  rw [primaryKeyMetadata, PrimaryKeyMetadata.dump, fields_object]
  simp [get_literals_cons, list_listOf str_text]

theorem tableMetadata_dump (t : TableMetadata) : tableMetadata t.dump = some t := by
  have hkey := nullable_orNull primaryKeyMetadata_dump (fun k => by simp [PrimaryKeyMetadata.dump, object]) t.primaryKey
  rw [tableMetadata, TableMetadata.dump, fields_object]
  simp [get_literals_cons, str_text, nullable_orNull str_text text_ne_null, list_listOf columnMetadata_dump, hkey]

theorem schemaMetadata_dump (s : SchemaMetadata) : schemaMetadata s.dump = some s := by
  rw [schemaMetadata, SchemaMetadata.dump, fields_object]
  simp [get_literals_cons, str_text, list_listOf tableMetadata_dump]

theorem foreignKeyMetadata_dump (k : ForeignKeyMetadata) : foreignKeyMetadata k.dump = some k := by
  rw [foreignKeyMetadata, ForeignKeyMetadata.dump, fields_object]
  simp only [get_literals_cons, String.reduceEq, reduceIte, Option.bind_eq_bind, Option.bind_some, str_text,
    list_listOf str_text, Option.pure_def]

theorem dict_int (xs : List (Text × Int)) : dict int (.obj (xs.map fun x => (x.1, .int x.2))) = some xs := by
  show (xs.map _).mapM _ = some xs
  induction xs with
  | nil => rfl
  | cons x xs ih => rw [List.map_cons, List.mapM_cons, ih]; rfl

/-- **What is dumped is read back as it was.** -/
theorem inspectSchemaToolResult_dump (r : InspectSchemaToolResult) : inspectSchemaToolResult r.dump = some r := by
  rw [inspectSchemaToolResult, InspectSchemaToolResult.dump, fields_object]
  simp [get_literals_cons, str_text, list_listOf schemaMetadata_dump, list_listOf foreignKeyMetadata_dump, dict_int]

theorem buildPhysicalMetadataCatalog_dump (r : InspectSchemaToolResult) :
    buildPhysicalMetadataCatalog r.dump = some ⟨r.schemas, r.foreignKeys⟩ := by
  rw [buildPhysicalMetadataCatalog, InspectSchemaToolResult.dump, fields_object]
  simp [get_literals_cons, list_listOf schemaMetadata_dump, list_listOf foreignKeyMetadata_dump]

/-! ## The required mapping -/

/-- The first table of this name in a schema of this name. -/
def PhysicalMetadataCatalog.getTable (catalog : PhysicalMetadataCatalog) (schemaName tableName : Text) :
    Option TableMetadata :=
  catalog.schemas.findSome? fun schema =>
    if schema.schemaName = schemaName then schema.tables.find? (·.tableName = tableName) else none

def requiredTableColumns : List ((Text × Text) × List Text) :=
  [(("Production".toList, "Product".toList), ["ProductID", "Name", "SafetyStockLevel"].map String.toList),
    (("Production".toList, "ProductInventory".toList), ["ProductID", "Quantity"].map String.toList)]

/-- `_REQUIRED_FK` against a foreign key. -/
def isRequiredForeignKey (fk : ForeignKeyMetadata) : Bool :=
  fk.sourceSchema = "Production".toList && fk.sourceTable = "ProductInventory".toList &&
    fk.sourceColumns = ["ProductID".toList] && fk.targetSchema = "Production".toList &&
    fk.targetTable = "Product".toList && fk.targetColumns = ["ProductID".toList]

/-- The message of `BusinessMetadataMappingError`. -/
abbrev MappingCheck := Except String

def qualified (key : Text × Text) : String := String.ofList key.1 ++ "." ++ String.ofList key.2

/-- The loop over the required tables. -/
def checkTableColumns (catalog : PhysicalMetadataCatalog) : List ((Text × Text) × List Text) → MappingCheck Unit
  | [] => .ok ()
  | (key, requiredColumns) :: rest =>
    match catalog.getTable key.1 key.2 with
    | none => .error ("Required table not found in Physical Metadata Catalog: " ++ qualified key)
    | some table => do
      let actualColumns := table.columns.map (·.columnName)
      let missingColumns := requiredColumns.filter fun c => !actualColumns.contains c
      raiseUnless missingColumns.isEmpty
        ("Required columns not found in " ++ qualified key ++ ": " ++ reprList missingColumns)
      checkTableColumns catalog rest

def validatePhysicalMapping (catalog : PhysicalMetadataCatalog) : MappingCheck Unit := do
  checkTableColumns catalog requiredTableColumns
  raiseUnless (catalog.foreignKeys.any isRequiredForeignKey) ("Required physical foreign key not found: " ++
    "Production.ProductInventory.ProductID -> Production.Product.ProductID")

/-- A table that is found, with the required columns. -/
def PhysicalMetadataCatalog.HasColumns (catalog : PhysicalMetadataCatalog) (key : Text × Text) (columns : List Text) :
    Prop :=
  ∃ table, catalog.getTable key.1 key.2 = some table ∧ ∀ c ∈ columns, c ∈ table.columns.map (·.columnName)

theorem checkTableColumns_eq_ok {catalog : PhysicalMetadataCatalog} {required : List ((Text × Text) × List Text)}
    {u : Unit} : checkTableColumns catalog required = .ok u ↔ ∀ x ∈ required, catalog.HasColumns x.1 x.2 := by
  induction required with
  | nil => simp [checkTableColumns]
  | cons x required ih =>
    rw [checkTableColumns, List.forall_mem_cons]
    cases h : catalog.getTable x.1.1 x.1.2 with
    | none => simp [PhysicalMetadataCatalog.HasColumns, h]
    | some table =>
      have hcolumns : (x.2.filter fun c => !(table.columns.map (·.columnName)).contains c).isEmpty = true ↔
          catalog.HasColumns x.1 x.2 := by
        rw [List.isEmpty_iff, List.filter_eq_nil_iff]
        simp [PhysicalMetadataCatalog.HasColumns, h]
      rw [← ih, ← hcolumns]
      exact raiseUnless_bind

theorem validatePhysicalMapping_eq_ok {catalog : PhysicalMetadataCatalog} {u : Unit} :
    validatePhysicalMapping catalog = .ok u ↔ (∀ x ∈ requiredTableColumns, catalog.HasColumns x.1 x.2) ∧
      ∃ fk ∈ catalog.foreignKeys, isRequiredForeignKey fk = true := by
  rw [validatePhysicalMapping, bind_eq_ok]
  simp only [checkTableColumns_eq_ok, raiseUnless_eq_ok, List.any_eq_true, exists_const]

end DataAgent.Agent
