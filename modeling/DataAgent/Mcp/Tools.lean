import DataAgent.Python.Json

/-!
# The tools of the server

`contracts.verify_tool_contracts`: the tools that discovery reported against the two that the client calls. Their
input schemas are whatever the server sent, so a check may also end in a `TypeError` or an `AttributeError`.

* `setOf`, `sortable` : `set(value)` and when `sorted` of a set does not raise;
* `verifyTool` : one tool; `Conforms` : what it accepts;
* `verifyToolContracts`, **`verifyToolContracts_exact`** : the tools that pass, and those refused as missing.
-/

namespace DataAgent.Mcp
open Python

/-- A dictionary of decoded values. -/
abbrev Schema := List (Text × Json)

def Schema.get (s : Schema) (key : Text) : Option Json := s.lookup key

/-- A tool as it was reported. -/
structure Tool where
  name : Text
  /-- `None` counts as an empty schema. -/
  inputSchema : Option Schema

/-- An entry of `_EXPECTED_TOOLS`: the types of the properties, and the required ones. -/
structure ToolContract where
  name : Text
  properties : List (Text × Text)
  required : List Text

def contractOf (name : String) (properties : List (String × String)) : ToolContract :=
  ⟨name.toList, properties.map fun p => (p.1.toList, p.2.toList), properties.map fun p => p.1.toList⟩

def expectedTools : List ToolContract :=
  [contractOf "inspect_schema" [("correlation_id", "string")],
    contractOf "execute_readonly_query" [("sql", "string"), ("parameters", "array"), ("correlation_id", "string"),
      ("query_timeout_seconds", "integer"), ("maximum_returned_rows", "integer")]]

inductive ToolError where
  /-- `MCPStartupError` of reason `tool_missing`. -/
  | toolMissing (names : List Text)
  /-- The following are of reason `tool_contract_mismatch`. -/
  | propertiesMismatch (tool : Text) (expected : List Text) (actual : List Json)
  | requiredMismatch (tool : Text) (expected : List Text) (actual : List Json)
  | typeMismatch (tool field expected : Text) (actual : Option Json)
  /-- A `TypeError` or an `AttributeError`. -/
  | raised

/-- The reasons of an `MCPStartupError`. -/
inductive StartupReason where
  | startupTimeout | startupFailed | toolMissing | toolContractMismatch
  deriving DecidableEq, Repr

/-- The reason with which a check raises; nothing for another exception. -/
def ToolError.reason : ToolError → Option StartupReason
  | toolMissing _ => some .toolMissing
  | propertiesMismatch _ _ _ | requiredMismatch _ _ _ | typeMismatch _ _ _ _ => some .toolContractMismatch
  | raised => none

/-! ## Sets -/

def hashable : Json → Bool
  | .arr _ | .obj _ => false
  | _ => true

/-- `set(value)`, in some order and with repetitions; nothing for a `TypeError`. -/
def setOf : Json → Option (List Json)
  | .obj fields => some (fields.map fun f => .str f.1)
  | .arr xs => if xs.all hashable then some xs else none
  | .str s => some (s.map fun c => .str [c])
  | _ => none

def isName (name : Text) : Json → Bool
  | .str s => s = name
  | _ => false

/-- The set has these names and nothing else. -/
def sameSet (actual : List Json) (expected : List Text) : Bool :=
  actual.all (fun x => expected.any fun name => isName name x) &&
    expected.all fun name => actual.any fun x => isName name x

def isNumber : Json → Bool
  | .int _ | .float _ | .bool _ => true
  | _ => false

/-- `x < y` does not raise, or is not asked. -/
def comparable : Json → Json → Bool
  | .str _, .str _ => true
  | .null, .null => true
  | x, y => isNumber x && isNumber y

/-- `sorted` of the set does not raise. -/
def sortable (xs : List Json) : Bool := xs.all fun x => xs.all fun y => comparable x y

theorem isName_iff {name : Text} {x : Json} : isName name x = true ↔ x = .str name := by
  unfold isName
  split
  · simp
  · rename_i h
    refine iff_of_false (by simp) fun hx => h name hx

theorem sameSet_iff {actual : List Json} {expected : List Text} :
    sameSet actual expected = true ↔ ∀ x, x ∈ actual ↔ ∃ name ∈ expected, x = .str name := by
  simp only [sameSet, Bool.and_eq_true, List.all_eq_true, List.any_eq_true, isName_iff]
  constructor
  · rintro ⟨h1, h2⟩ x
    refine ⟨h1 x, ?_⟩
    rintro ⟨name, hname, rfl⟩
    obtain ⟨y, hy, rfl⟩ := h2 name hname
    exact hy
  · intro h
    exact ⟨fun x hx => (h x).mp hx, fun name hname => ⟨_, (h _).mpr ⟨name, hname, rfl⟩, rfl⟩⟩

/-! ## The checks -/

/-- A mismatch of two sets; its message shows the actual one, sorted. -/
def mismatch (actual : List Json) (e : ToolError) : ToolError := if sortable actual then e else .raised

/-- `set(value)` is one of these names. -/
def verifyNames (value : Json) (expected : List Text) (e : List Json → ToolError) : Except ToolError Unit :=
  match setOf value with
  | none => .error .raised
  | some actual => raiseUnless (sameSet actual expected) (mismatch actual (e actual))

/-- `properties.get(name, {}).get("type")` is the expected one. -/
def verifyType (tool : Text) (properties : Json) (p : Text × Text) : Except ToolError Unit :=
  match properties with
  | .obj fields =>
    match (Schema.get fields p.1).getD (.obj []) with
    | .obj field =>
      let actual := Schema.get field "type".toList
      raiseUnless (actual.any (isName p.2)) (.typeMismatch tool p.1 p.2 actual)
    | _ => .error .raised
  | _ => .error .raised

/-- The loop over the types of a tool. -/
def verifyTypes (tool : Text) (properties : Json) : List (Text × Text) → Except ToolError Unit
  | [] => .ok ()
  | p :: ps => do
    verifyType tool properties p
    verifyTypes tool properties ps

def verifyTool (c : ToolContract) (schema : Schema) : Except ToolError Unit := do
  let properties := (schema.get "properties".toList).getD (.obj [])
  let expectedNames := c.properties.map Prod.fst
  verifyNames properties expectedNames (.propertiesMismatch c.name (sorted expectedNames))
  verifyNames ((schema.get "required".toList).getD (.arr [])) c.required (.requiredMismatch c.name (sorted c.required))
  verifyTypes c.name properties c.properties

/-- `tools_by_name.get(name)`: the last tool of a name. -/
def toolNamed (name : Text) (tools : List Tool) : Option Tool := tools.reverse.find? (·.name = name)

/-- The loop over the expected tools. -/
def verifyEach (tools : List Tool) : List ToolContract → Except ToolError Unit
  | [] => .ok ()
  | c :: cs =>
    match toolNamed c.name tools with
    -- a `KeyError`, ruled out by the check before
    | none => .error .raised
    | some tool => do
      verifyTool c (tool.inputSchema.getD [])
      verifyEach tools cs

def missingTools (tools : List Tool) : List Text :=
  sorted ((expectedTools.map (·.name)).filter fun name => !(tools.any fun tool => tool.name = name))

def verifyToolContracts (tools : List Tool) : Except ToolError Unit := do
  raiseUnless (missingTools tools).isEmpty (.toolMissing (missingTools tools))
  verifyEach tools expectedTools

/-! ## What is accepted -/

/-- The properties are those of the contract and of its types, and the required ones are those of the contract. -/
def Conforms (c : ToolContract) (schema : Schema) : Prop :=
  ∃ fields required, schema.get "properties".toList = some (.obj fields) ∧
    (∀ key, key ∈ fields.map Prod.fst ↔ ∃ p ∈ c.properties, key = p.1) ∧
    setOf ((schema.get "required".toList).getD (.arr [])) = some required ∧
    (∀ x, x ∈ required ↔ ∃ name ∈ c.required, x = .str name) ∧
    ∀ p ∈ c.properties, ∃ field, Schema.get fields p.1 = some (.obj field) ∧
      Schema.get field "type".toList = some (.str p.2)

theorem verifyNames_ok {value : Json} {expected : List Text} {e : List Json → ToolError} {u : Unit} :
    verifyNames value expected e = .ok u ↔
      ∃ actual, setOf value = some actual ∧ ∀ x, x ∈ actual ↔ ∃ name ∈ expected, x = .str name := by
  unfold verifyNames
  split
  · rename_i h
    simp [h]
  · rename_i actual h
    simp [h, raiseUnless_eq_ok, sameSet_iff]

theorem seq_eq_ok {ε α : Type} {m : Except ε Unit} {f : Unit → Except ε α} {x : α} :
    (m >>= f) = .ok x ↔ m = .ok () ∧ f () = .ok x := by
  rw [bind_eq_ok]
  exact ⟨fun ⟨(), h⟩ => h, fun h => ⟨(), h⟩⟩

theorem verifyTypes_ok {tool : Text} {properties : Json} {ps : List (Text × Text)} :
    verifyTypes tool properties ps = .ok () ↔ ∀ p ∈ ps, verifyType tool properties p = .ok () := by
  induction ps with
  | nil => simp [verifyTypes]
  | cons p ps ih => rw [verifyTypes, seq_eq_ok, ih, List.forall_mem_cons]

/-- A list passes the check of the names, but has no `get`. -/
theorem verifyType_ok {tool : Text} {properties : Json} {p : Text × Text} :
    verifyType tool properties p = .ok () ↔ ∃ fields field, properties = .obj fields ∧
      Schema.get fields p.1 = some (.obj field) ∧ Schema.get field "type".toList = some (.str p.2) := by
  unfold verifyType
  split
  · rename_i fields
    have hfields : ∀ {fs : Schema}, Json.obj fields = .obj fs → fs = fields := fun h => (Json.obj.inj h).symm
    cases hget : Schema.get fields p.1 with
    | none =>
      -- the default has no type
      refine iff_of_false (by simp [raiseUnless, Schema.get]) ?_
      rintro ⟨fs, field, hf, hfield, -⟩
      rw [hfields hf, hget] at hfield
      simp at hfield
    | some value =>
      rw [Option.getD_some]
      split
      · rename_i field
        simp only [raiseUnless_eq_ok, Option.any_eq_true, isName_iff, exists_eq_right]
        constructor
        · exact fun h => ⟨fields, field, rfl, hget, h⟩
        · rintro ⟨fs, field', hf, hfield, h⟩
          rw [hfields hf, hget] at hfield
          rwa [Json.obj.inj (Option.some.inj hfield)]
      · rename_i hvalue
        refine iff_of_false (by simp) ?_
        rintro ⟨fs, field, hf, hfield, -⟩
        rw [hfields hf, hget] at hfield
        exact hvalue field (Option.some.inj hfield)
  · rename_i h
    refine iff_of_false (by simp) ?_
    rintro ⟨fields, -, hf, -⟩
    exact h fields hf

/-- The set of an object is that of its keys. -/
theorem keys_iff {fields : Schema} {names : List (Text × Text)} :
    (∀ x, x ∈ fields.map (fun f => Json.str f.1) ↔ ∃ p ∈ names, x = .str p.1) ↔
      ∀ key, key ∈ fields.map Prod.fst ↔ ∃ p ∈ names, key = p.1 := by
  have hmem : ∀ key, Json.str key ∈ fields.map (fun f => Json.str f.1) ↔ key ∈ fields.map Prod.fst := by
    simp
  constructor
  · intro h key
    rw [← hmem, h]
    simp
  · intro h x
    constructor
    · intro hx
      obtain ⟨f, hf, rfl⟩ := List.mem_map.mp hx
      obtain ⟨p, hp, hkey⟩ := (h f.1).mp (List.mem_map_of_mem hf)
      exact ⟨p, hp, by rw [hkey]⟩
    · rintro ⟨p, hp, rfl⟩
      exact (hmem _).mpr ((h _).mpr ⟨p, hp, rfl⟩)

theorem verifyTool_ok {c : ToolContract} {schema : Schema} (hc : c.properties ≠ []) :
    verifyTool c schema = .ok () ↔ Conforms c schema := by
  have hnames : ∀ {x : Json}, (∃ name ∈ c.properties.map Prod.fst, x = .str name) ↔
      ∃ p ∈ c.properties, x = .str p.1 := by
    simp
  unfold verifyTool
  simp only [seq_eq_ok, verifyNames_ok, verifyTypes_ok, verifyType_ok, hnames]
  constructor
  · rintro ⟨⟨actual, hactual, hset⟩, ⟨required, hrequired, hreq⟩, htypes⟩
    -- a property that is read shows that the properties are an object
    obtain ⟨p, hp⟩ := List.exists_mem_of_ne_nil _ hc
    obtain ⟨fields, field, hfields, hfield, -⟩ := htypes p hp
    rw [hfields] at hactual htypes
    obtain rfl := Option.some.inj hactual
    refine ⟨fields, required, ?_, keys_iff.mp hset, hrequired, hreq, fun q hq => ?_⟩
    · cases hget : schema.get "properties".toList with
      | none =>
        rw [hget, Option.getD_none] at hfields
        obtain rfl := Json.obj.inj hfields
        simp [Schema.get] at hfield
      | some value => rw [← hfields, hget, Option.getD_some]
    · obtain ⟨fs, field', hf, h⟩ := htypes q hq
      rw [Json.obj.inj hf]
      exact ⟨field', h⟩
  · rintro ⟨fields, required, hfields, hkeys, hrequired, hreq, htypes⟩
    rw [hfields, Option.getD_some]
    refine ⟨⟨_, rfl, keys_iff.mpr hkeys⟩, ⟨required, hrequired, hreq⟩, fun q hq => ?_⟩
    obtain ⟨field, h⟩ := htypes q hq
    exact ⟨fields, field, rfl, h⟩

theorem toolNamed_isSome {name : Text} {tools : List Tool} :
    (toolNamed name tools).isSome = true ↔ ∃ tool ∈ tools, tool.name = name := by
  simp [toolNamed, List.find?_isSome]

theorem missingTools_eq_nil {tools : List Tool} :
    missingTools tools = [] ↔ ∀ c ∈ expectedTools, ∃ tool ∈ tools, tool.name = c.name := by
  have hsorted : ∀ ts : List Text, sorted ts = [] ↔ ts = [] := fun ts =>
    ⟨fun h => List.perm_nil.mp (h ▸ (List.perm_insertionSort _ ts).symm), fun h => by rw [h]; rfl⟩
  rw [missingTools, hsorted, List.filter_eq_nil_iff, List.forall_mem_map]
  simp

theorem verifyEach_ok {tools : List Tool} {cs : List ToolContract} (hcs : ∀ c ∈ cs, c.properties ≠ []) :
    verifyEach tools cs = .ok () ↔
      ∀ c ∈ cs, ∃ tool, toolNamed c.name tools = some tool ∧ Conforms c (tool.inputSchema.getD []) := by
  induction cs with
  | nil => simp [verifyEach]
  | cons c cs ih =>
    have ih := ih fun d hd => hcs d (List.mem_cons_of_mem c hd)
    rw [verifyEach, List.forall_mem_cons, ← ih]
    cases h : toolNamed c.name tools with
    | none => simp
    | some tool => simp [seq_eq_ok, verifyTool_ok (hcs c (by simp))]

/-! ## What is refused -/

theorem seq_error {α : Type} {m : Except ToolError Unit} {f : Unit → Except ToolError α} {e : ToolError}
    (h : (m >>= f) = .error e) : m = .error e ∨ f () = .error e := by
  cases m with
  | ok u => exact Or.inr h
  | error e' => exact Or.inl (by simpa [bind, Except.bind] using h)

theorem raiseUnless_error {ok : Bool} {e e' : ToolError} (h : raiseUnless ok e = .error e') : e' = e := by
  cases ok with
  | true => simp [raiseUnless] at h
  | false => exact (Except.error.inj h).symm

theorem verifyNames_error {value : Json} {expected : List Text} {e : List Json → ToolError} {e' : ToolError}
    (h : verifyNames value expected e = .error e') : e' = .raised ∨ ∃ actual, e' = e actual := by
  unfold verifyNames at h
  split at h
  · exact Or.inl (Except.error.inj h).symm
  · rename_i actual _
    rw [raiseUnless_error h, mismatch]
    split
    · exact Or.inr ⟨actual, rfl⟩
    · exact Or.inl rfl

theorem verifyTypes_error {tool : Text} {properties : Json} {ps : List (Text × Text)} {e : ToolError}
    (h : verifyTypes tool properties ps = .error e) : e.reason ≠ some .toolMissing := by
  induction ps with
  | nil => simp [verifyTypes] at h
  | cons p ps ih =>
    rcases seq_error h with h | h
    · unfold verifyType at h
      split at h
      · split at h
        · rw [raiseUnless_error h]
          simp [ToolError.reason]
        · rw [← Except.error.inj h]
          simp [ToolError.reason]
      · rw [← Except.error.inj h]
        simp [ToolError.reason]
    · exact ih h

/-- A tool that is there is not missing. -/
theorem verifyEach_error {tools : List Tool} {cs : List ToolContract} {e : ToolError}
    (h : verifyEach tools cs = .error e) : e.reason ≠ some .toolMissing := by
  induction cs with
  | nil => simp [verifyEach] at h
  | cons c cs ih =>
    rw [verifyEach] at h
    split at h
    · rw [← Except.error.inj h]
      simp [ToolError.reason]
    · rcases seq_error h with h | h
      · rcases seq_error h with h | h
        · rcases verifyNames_error h with rfl | ⟨actual, rfl⟩ <;> simp [ToolError.reason]
        · rcases seq_error h with h | h
          · rcases verifyNames_error h with rfl | ⟨actual, rfl⟩ <;> simp [ToolError.reason]
          · exact verifyTypes_error h
      · exact ih h

theorem verifyToolContracts_ok {tools : List Tool} : verifyToolContracts tools = .ok () ↔
    ∀ c ∈ expectedTools, ∃ tool, toolNamed c.name tools = some tool ∧ Conforms c (tool.inputSchema.getD []) := by
  rw [verifyToolContracts, seq_eq_ok, raiseUnless_eq_ok, List.isEmpty_iff, missingTools_eq_nil,
    verifyEach_ok (by decide), and_iff_right_iff_imp]
  intro h c hc
  obtain ⟨tool, htool, -⟩ := h c hc
  exact toolNamed_isSome.mp (by rw [htool]; rfl)

/-- **The tools are accepted exactly if the last one of either name conforms to its contract**, and refused as missing
exactly if a name is not there. Other tools are not looked at, a list of properties is refused, and the required ones
may be any value with this set. -/
theorem verifyToolContracts_exact (tools : List Tool) :
    (verifyToolContracts tools = .ok () ↔ ∀ c ∈ expectedTools, ∃ tool, toolNamed c.name tools = some tool ∧
      Conforms c (tool.inputSchema.getD [])) ∧
    ((∃ e, verifyToolContracts tools = .error e ∧ e.reason = some .toolMissing) ↔
      ∃ c ∈ expectedTools, ∀ tool ∈ tools, tool.name ≠ c.name) := by
  refine ⟨verifyToolContracts_ok, ?_⟩
  have hmissing : (∃ c ∈ expectedTools, ∀ tool ∈ tools, tool.name ≠ c.name) ↔ missingTools tools ≠ [] := by
    rw [Ne, missingTools_eq_nil]
    push Not
    rfl
  rw [hmissing]
  constructor
  · rintro ⟨e, h, hreason⟩ hnil
    rcases seq_error h with h | h
    · simp [hnil, raiseUnless] at h
    · exact verifyEach_error h hreason
  · intro hne
    refine ⟨.toolMissing (missingTools tools), ?_, rfl⟩
    rw [verifyToolContracts, raiseUnless, if_neg (by simpa using hne)]
    rfl

end DataAgent.Mcp
