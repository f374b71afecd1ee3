import DataAgent.Agent.Catalog
import DataAgent.Agent.Scope
import DataAgent.Python.Dumps

/-!
# The user prompts

What the language model is shown when it is asked for a plan and for a statement: the JSON text of an intent or of a
plan, with the metadata context.

* `registry` : the entries of the demo scope with their texts; `asPromptDict` : a context of them;
* `IntentFields.dump`, `PlanFields.dump` : `model_dump`, which is read back (`intentFields_dump`, `planFields_dump`);
* `planPrompt`, `sqlPrompt` : the texts; **`sqlPrompt_exact`** : they can be read back, and that of an accepted plan
  is always there; **`encodable_planPrompt`**, **`encodable_sqlPrompt`** : when they can be encoded.
-/

namespace DataAgent.Agent
open Python Decode

/-! ## The metadata context -/

/-- A `MetadataEntry` with all its fields. -/
structure RegistryEntry extends MetadataEntry where
  description : Text
  sqlHint : Text

def registry : List RegistryEntry :=
  [⟨⟨"product".toList, .entity⟩, "제품(Production.Product 1건 = 결과 1행)".toList, "Production.Product".toList⟩,
    ⟨⟨"product_id".toList, .dimension⟩, "제품 ID".toList, "p.ProductID AS ProductID".toList⟩,
    ⟨⟨"product_name".toList, .dimension⟩, "제품명".toList, "p.Name AS Name".toList⟩,
    ⟨⟨"current_inventory".toList, .metric⟩,
      ("제품별 현재 재고. Production.ProductInventory에 재고 행이 하나 이상 있는 " ++
        "제품만 대상으로 위치별 Quantity를 ProductID 단위로 합산한 값이다. 행이 없는 " ++
        "제품은 모집단에서 제외하며 재고 0 값을 생성하거나 비교하지 않는다.").toList,
      "SUM(pi.Quantity) AS CurrentInventory".toList⟩,
    ⟨⟨"safety_stock_level".toList, .metric⟩, "안전재고 기준(Production.Product.SafetyStockLevel)".toList,
      "p.SafetyStockLevel AS SafetyStockLevel".toList⟩,
    ⟨⟨"below_safety_stock".toList, .filter⟩, "현재 재고 합계가 안전재고보다 부족한 제품만 남긴다".toList,
      "HAVING SUM(pi.Quantity) < p.SafetyStockLevel".toList⟩,
    ⟨⟨"product".toList, .grain⟩, "결과 1행 = 제품 1건".toList,
      "GROUP BY p.ProductID, p.Name, p.SafetyStockLevel".toList⟩,
    ⟨⟨"product_to_product_inventory".toList, .join⟩,
      "Product와 ProductInventory 사이의 승인된 Physical FK Join".toList,
      ("Production.Product AS p INNER JOIN Production.ProductInventory AS pi " ++
        "ON p.ProductID = pi.ProductID").toList⟩]

theorem registry_entries : registry.map (·.toMetadataEntry) = allEntries := rfl

/-- An entry of the registry with its texts. -/
def MetadataEntry.withTexts (entry : MetadataEntry) : RegistryEntry :=
  (registry.find? (·.toMetadataEntry = entry)).getD ⟨entry, [], []⟩

def RegistryEntry.summary (entry : RegistryEntry) : Json :=
  object [("id", text entry.id), ("description", text entry.description), ("sql_hint", text entry.sqlHint)]

def Group.summary (g : Group) : Json := listOf (fun x => x.2.withTexts.summary) g

/-- `as_prompt_dict`. -/
def MetadataContext.asPromptDict (context : MetadataContext) : Json :=
  object [("entities", context.entities.summary), ("dimensions", context.dimensions.summary),
    ("metrics", context.metrics.summary), ("filters", context.filters.summary), ("grains", context.grains.summary),
    ("joins", context.joins.summary)]

/-! ## The models -/

def Scalar.dump : Scalar → Json
  | str s => .str s
  | int n => .int n
  | float digits => .float digits
  | bool b => .bool b

def dumpParameters (parameters : List (Text × Scalar)) : Json := .obj (parameters.map fun x => (x.1, x.2.dump))

def RequestType.name : RequestType → String
  | lookup => "lookup"
  | aggregation => "aggregation"
  | comparison => "comparison"
  | ranking => "ranking"
  | complexInvestigation => "complex_investigation"

def RequestedOutput.name : RequestedOutput → String
  | list => "list"
  | summary => "summary"
  | ranking => "ranking"
  | investigation => "investigation"

def Direction.name : Direction → String
  | asc => "asc"
  | desc => "desc"

def IntentFields.dump (f : IntentFields) : Json :=
  object [("request_type", text f.requestType.name.toList), ("subject", text f.subject),
    ("requested_concepts", listOf text f.requestedConcepts),
    ("requested_output", text f.requestedOutput.name.toList),
    ("explicit_parameters", dumpParameters f.explicitParameters),
    ("requires_clarification", .bool f.requiresClarification),
    ("clarification_reason", orNull text f.clarificationReason)]

def QueryPlanFilter.dump (f : QueryPlanFilter) : Json :=
  object [("filter_id", text f.filterId), ("parameters", dumpParameters f.parameters)]

def QueryPlanOrderBy.dump (o : QueryPlanOrderBy) : Json :=
  object [("field_id", text o.fieldId), ("direction", text o.direction.name.toList)]

def PlanFields.dump (f : PlanFields) : Json :=
  object [("purpose", text f.purpose), ("entity_id", text f.entityId), ("dimension_ids", listOf text f.dimensionIds),
    ("metric_ids", listOf text f.metricIds), ("filters", listOf QueryPlanFilter.dump f.filters),
    ("time_policy_id", orNull text f.timePolicyId), ("grain_id", text f.grainId), ("join_ids", listOf text f.joinIds),
    ("order_by", listOf QueryPlanOrderBy.dump f.orderBy), ("limit", .int f.limit), ("depth", .int f.depth)]

theorem declared_object {names : List String} {fs : List (String × Json)}
    (h : ∀ f ∈ fs, f.1 ∈ names) : declared names (object fs) = some (literals fs) := by
  rw [object, declared, if_pos]
  rw [literals, List.all_map, List.all_eq_true]
  intro f hf
  simpa using ⟨f.1, h f hf, rfl⟩

/-- Every field is found under its key. -/
theorem get_literals {l : List (String × Json)} (h : (l.map Prod.fst).Nodup) :
    ∀ f ∈ l, get (literals l) f.1 = some f.2 := by
  induction l with
  | nil => simp
  | cons g l ih =>
    rw [List.map_cons, List.nodup_cons] at h
    intro f hf
    rw [get_literals_cons]
    rcases List.mem_cons.mp hf with rfl | hf
    · rw [if_pos rfl]
    · have hne : f.1 ≠ g.1 := fun he => h.1 (he ▸ List.mem_map_of_mem hf)
      rw [if_neg hne, ih h.2 f hf]

theorem bind_of_eq_some {α β : Type} {o : Option α} {k : α → Option β} {a : α} {b : β} (h : o = some a)
    (hk : k a = some b) : (o >>= k) = some b := by
  rw [h]
  exact hk

/-- A field is read, and then the others. -/
theorem read_field {α β : Type} {fs : Fields} {name : String} {j : Json} {read : Json → Option α} {a : α}
    {k : α → Option β} {b : β} (h : get fs name = some j) (hr : read j = some a) (hk : k a = some b) :
    (get fs name >>= fun j => read j >>= k) = some b :=
  bind_of_eq_some h (bind_of_eq_some hr hk)

theorem scalar_dump (s : Scalar) : scalar s.dump = some s := by cases s <;> rfl

theorem dict_dumpParameters (ps : List (Text × Scalar)) : dict scalar (dumpParameters ps) = some ps := by
  show (ps.map fun x => (x.1, x.2.dump)).mapM _ = some ps
  induction ps with
  | nil => rfl
  | cons p ps ih => rw [List.map_cons, List.mapM_cons, ih, scalar_dump]; rfl

theorem intentFields_dump (f : IntentFields) : intentFields f.dump = some f := by
  have htype : literal [("lookup", .lookup), ("aggregation", .aggregation), ("comparison", .comparison),
      ("ranking", .ranking), ("complex_investigation", .complexInvestigation)] (text f.requestType.name.toList) =
      some f.requestType := by
    cases f.requestType <;> rfl
  have houtput : literal [("list", .list), ("summary", .summary), ("ranking", .ranking),
      ("investigation", .investigation)] (text f.requestedOutput.name.toList) = some f.requestedOutput := by
    cases f.requestedOutput <;> rfl
  have hget := get_literals (l := [("request_type", text f.requestType.name.toList), ("subject", text f.subject),
    ("requested_concepts", listOf text f.requestedConcepts),
    ("requested_output", text f.requestedOutput.name.toList),
    ("explicit_parameters", dumpParameters f.explicitParameters),
    ("requires_clarification", .bool f.requiresClarification),
    ("clarification_reason", orNull text f.clarificationReason)]) (by simp)
  simp only [List.forall_mem_cons] at hget
  obtain ⟨h1, h2, h3, h4, h5, h6, h7, -⟩ := hget
  unfold intentFields
  refine bind_of_eq_some (declared_object (by simp)) ?_
  refine read_field h1 htype (read_field h2 (str_text _) (read_field h3 (list_listOf str_text _) ?_))
  refine read_field h4 houtput (bind_of_eq_some (by rw [h5]; exact dict_dumpParameters _) ?_)
  exact read_field h6 rfl (read_field h7 (nullable_orNull str_text text_ne_null _) rfl)

theorem queryPlanFilter_dump (f : QueryPlanFilter) : queryPlanFilter f.dump = some f := by
  rw [queryPlanFilter, QueryPlanFilter.dump, declared_object (by simp)]
  simp [get_literals_cons, str_text, dict_dumpParameters]

theorem queryPlanOrderBy_dump (o : QueryPlanOrderBy) : queryPlanOrderBy o.dump = some o := by
  have hdirection : literal [("asc", .asc), ("desc", .desc)] (text o.direction.name.toList) = some o.direction := by
    cases o.direction <;> rfl
  rw [queryPlanOrderBy, QueryPlanOrderBy.dump, declared_object (by simp)]
  simp [get_literals_cons, str_text, hdirection]

theorem planFields_dump (f : PlanFields) : planFields f.dump = some f := by
  have hget := get_literals (l := [("purpose", text f.purpose), ("entity_id", text f.entityId),
    ("dimension_ids", listOf text f.dimensionIds), ("metric_ids", listOf text f.metricIds),
    ("filters", listOf QueryPlanFilter.dump f.filters), ("time_policy_id", orNull text f.timePolicyId),
    ("grain_id", text f.grainId), ("join_ids", listOf text f.joinIds),
    ("order_by", listOf QueryPlanOrderBy.dump f.orderBy), ("limit", .int f.limit), ("depth", .int f.depth)]) (by simp)
  simp only [List.forall_mem_cons] at hget
  obtain ⟨h1, h2, h3, h4, h5, h6, h7, h8, h9, h10, h11, -⟩ := hget
  unfold planFields
  refine bind_of_eq_some (declared_object (by simp)) ?_
  refine read_field h1 (str_text _) (read_field h2 (str_text _) (read_field h3 (list_listOf str_text _) ?_))
  refine read_field h4 (list_listOf str_text _) (read_field h5 (list_listOf queryPlanFilter_dump _) ?_)
  refine read_field h6 (nullable_orNull str_text text_ne_null _) (read_field h7 (str_text _) ?_)
  refine read_field h8 (list_listOf str_text _) (read_field h9 (list_listOf queryPlanOrderBy_dump _) ?_)
  exact read_field h10 rfl (read_field h11 rfl rfl)

/-! ## Writing -/

section
variable (F : Json.FloatFormat)

/-- The value can be written with these levels of nesting. -/
def Writable (depth : Nat) (j : Json) : Prop := (Json.dumps F j depth).isSome = true

variable {F}

theorem writable_text (depth : Nat) (t : Text) : Writable F depth (text t) := rfl

theorem writable_object {depth : Nat} {fs : List (String × Json)} (h : ∀ f ∈ fs, Writable F depth f.2) :
    Writable F (depth + 1) (object fs) := by
  rw [Writable, object, Json.dumps, Option.isSome_map, Json.dumpsMembers_isSome, literals]
  exact List.forall_mem_map.mpr h

theorem writable_listOf {α : Type} {depth : Nat} {f : α → Json} {xs : List α} (h : ∀ x ∈ xs, Writable F depth (f x)) :
    Writable F (depth + 1) (listOf f xs) := by
  rw [Writable, listOf, Json.dumps, Option.isSome_map, Json.dumpsElements_isSome]
  exact List.forall_mem_map.mpr h

theorem writable_texts (depth : Nat) (ts : List Text) : Writable F (depth + 1) (listOf text ts) :=
  writable_listOf fun t _ => writable_text depth t

theorem writable_int (depth : Nat) {n : Int} (h : n.natAbs < 10 ^ Python.maxStrDigits) : Writable F depth (.int n) := by
  have hlen := Json.length_decimal_le h (by decide)
  rw [Writable, Json.dumps, if_neg (by omega)]
  rfl

theorem distinctKeys_object {fs : List (String × Json)} (hn : (fs.map Prod.fst).Nodup)
    (h : ∀ f ∈ fs, f.2.distinctKeys = true) : (object fs).distinctKeys = true := by
  have hkeys : ((literals fs).map Prod.fst).Nodup := by
    have hmap : (literals fs).map Prod.fst = (fs.map Prod.fst).map String.toList := by
      simp [literals]
    rw [hmap]
    exact hn.map fun a b hab => String.toList_inj.mp hab
  rw [object, Json.distinctKeys, Bool.and_eq_true, decide_eq_true_eq, Json.distinctMembers_iff, literals]
  exact ⟨hkeys, List.forall_mem_map.mpr h⟩

theorem distinctKeys_listOf {α : Type} {f : α → Json} {xs : List α} (h : ∀ x ∈ xs, (f x).distinctKeys = true) :
    (listOf f xs).distinctKeys = true := by
  rw [listOf, Json.distinctKeys, Json.distinctElements_iff]
  exact List.forall_mem_map.mpr h

theorem distinctKeys_texts (ts : List Text) : (listOf text ts).distinctKeys = true :=
  distinctKeys_listOf fun _ _ => rfl

theorem distinctKeys_orNull (o : Option Text) : (orNull text o).distinctKeys = true := by cases o <;> rfl

theorem distinctKeys_parameters {ps : List (Text × Scalar)} (h : (ps.map Prod.fst).Nodup) :
    (dumpParameters ps).distinctKeys = true := by
  have hkeys : (ps.map fun x => (x.1, x.2.dump)).map Prod.fst = ps.map Prod.fst := by
    rw [List.map_map]
    rfl
  rw [dumpParameters, Json.distinctKeys, Bool.and_eq_true, decide_eq_true_eq, hkeys, Json.distinctMembers_iff]
  refine ⟨h, List.forall_mem_map.mpr fun p _ => ?_⟩
  cases p.2 <;> rfl

/-! ## The prompts -/

/-- What is written for the model: a value under its name, and the context. -/
def promptDocument (name : String) (value : Json) (context : MetadataContext) : Json :=
  object [(name, value), ("metadata_context", context.asPromptDict)]

variable (F) in
/-- The user prompt of `generate_query_plan`, with `depth` levels of nesting before the recursion limit; nothing if
`json.dumps` raises. -/
def planPrompt (depth : Nat) (intent : IntentFields) (context : MetadataContext) : Option Text :=
  Json.dumps F (promptDocument "runtime_intent" intent.dump context) depth

variable (F) in
/-- `_build_user_prompt` of the SQL generator. -/
def sqlPrompt (depth : Nat) (plan : PlanFields) (context : MetadataContext) : Option Text :=
  Json.dumps F (promptDocument "query_plan" plan.dump context) depth

theorem distinctKeys_summary (g : Group) : g.summary.distinctKeys = true :=
  distinctKeys_listOf fun _ _ => distinctKeys_object (by simp) (by simp [text, Json.distinctKeys])

theorem distinctKeys_asPromptDict (context : MetadataContext) : context.asPromptDict.distinctKeys = true :=
  distinctKeys_object (by simp) (by simp [distinctKeys_summary])

theorem distinctKeys_promptDocument {name : String} {value : Json} (hname : name ≠ "metadata_context")
    (h : value.distinctKeys = true) (context : MetadataContext) :
    (promptDocument name value context).distinctKeys = true :=
  distinctKeys_object (by simpa using hname) (by simp [h, distinctKeys_asPromptDict])

theorem writable_asPromptDict (depth : Nat) (context : MetadataContext) :
    Writable F (depth + 3) context.asPromptDict := by
  have hgroup : ∀ g : Group, Writable F (depth + 2) g.summary := fun g =>
    writable_listOf fun x _ => writable_object (by simp [writable_text])
  exact writable_object (by simp [hgroup])

theorem writable_promptDocument {depth : Nat} {value : Json} (h : Writable F (depth + 3) value) (name : String)
    (context : MetadataContext) : Writable F (depth + 4) (promptDocument name value context) :=
  writable_object (by simp [h, writable_asPromptDict])

/-- The parameters of every filter are a dictionary. -/
def PlanFields.Dicts (f : PlanFields) : Prop := ∀ x ∈ f.filters, (x.parameters.map Prod.fst).Nodup

theorem distinctKeys_intent {f : IntentFields} (h : (f.explicitParameters.map Prod.fst).Nodup) :
    f.dump.distinctKeys = true :=
  distinctKeys_object (by simp)
    (by simp [distinctKeys_texts, distinctKeys_orNull, distinctKeys_parameters h, text, Json.distinctKeys])

theorem distinctKeys_plan {f : PlanFields} (h : f.Dicts) : f.dump.distinctKeys = true := by
  have hfilters : (listOf QueryPlanFilter.dump f.filters).distinctKeys = true :=
    distinctKeys_listOf fun x hx => distinctKeys_object (by simp)
      (by simp [distinctKeys_parameters (h x hx), text, Json.distinctKeys])
  have horder : (listOf QueryPlanOrderBy.dump f.orderBy).distinctKeys = true :=
    distinctKeys_listOf fun _ _ => distinctKeys_object (by simp) (by simp [text, Json.distinctKeys])
  exact distinctKeys_object (by simp)
    (by simp [distinctKeys_texts, distinctKeys_orNull, hfilters, horder, text, Json.distinctKeys])

theorem floatFree_object {fs : List (String × Json)} (h : ∀ f ∈ fs, f.2.floatFree = true) :
    (object fs).floatFree = true := by
  rw [object, Json.floatFree, Json.floatFreeMembers_iff, literals]
  exact List.forall_mem_map.mpr h

theorem floatFree_listOf {α : Type} {f : α → Json} {xs : List α} (h : ∀ x ∈ xs, (f x).floatFree = true) :
    (listOf f xs).floatFree = true := by
  rw [listOf, Json.floatFree, Json.floatFreeElements_iff]
  exact List.forall_mem_map.mpr h

theorem floatFree_texts (ts : List Text) : (listOf text ts).floatFree = true := floatFree_listOf fun _ _ => rfl

theorem floatFree_asPromptDict (context : MetadataContext) : context.asPromptDict.floatFree = true := by
  have hgroup : ∀ g : Group, g.summary.floatFree = true := fun g =>
    floatFree_listOf fun x _ => floatFree_object (by simp [text, Json.floatFree])
  exact floatFree_object (by simp [hgroup])

theorem rewritten_promptDocument (name : String) (value : Json) (context : MetadataContext) :
    Json.rewritten F (promptDocument name value context) = promptDocument name (Json.rewritten F value) context := by
  simp [promptDocument, object, literals, Json.rewritten, Json.rewrittenMembers_eq,
    Json.rewritten_of_floatFree _ (floatFree_asPromptDict context)]

theorem promptDocument_inj {name : String} {v w : Json} {c d : MetadataContext}
    (h : promptDocument name v c = promptDocument name w d) : v = w ∧ c.asPromptDict = d.asPromptDict := by
  simpa [promptDocument, object, literals] using h

/-- The prompt for a plan reads back as the intent and the context with the floats as they are written, and only
intents that are written in the same way have it. -/
theorem planPrompt_exact {f : IntentFields} {context : MetadataContext} {depth : Nat} {t : Text}
    (hf : (f.explicitParameters.map Prod.fst).Nodup) (h : planPrompt F depth f context = some t) :
    Json.loads depth t = .ok (Json.rewritten F (promptDocument "runtime_intent" f.dump context)) ∧
      ∀ g : IntentFields, (g.explicitParameters.map Prod.fst).Nodup → planPrompt F depth g context = some t →
        Json.rewritten F g.dump = Json.rewritten F f.dump := by
  have hk : ∀ g : IntentFields, (g.explicitParameters.map Prod.fst).Nodup →
      (promptDocument "runtime_intent" g.dump context).distinctKeys = true := fun g hg =>
    distinctKeys_promptDocument (by decide) (distinctKeys_intent hg) context
  refine ⟨Json.loads_dumps h (hk f hf), fun g hg hgt => ?_⟩
  have hdump := Json.dumps_injective hgt h (hk g hg) (hk f hf)
  rw [rewritten_promptDocument, rewritten_promptDocument] at hdump
  exact (promptDocument_inj hdump).1

theorem retrieve_ok {U : Unicode} {subject : Text} {requestedConcepts : List Text} {entries : List MetadataEntry}
    (h : retrieve U subject requestedConcepts = .ok entries) : entries = allEntries := by
  unfold retrieve at h
  dsimp only at h
  repeat
    split at h
    · simp at h
  exact (Except.ok.inj h).symm

/-- A plan of the demo scope can be written. -/
theorem writable_demoScope {f : PlanFields} (h : DemoScope f) (depth : Nat) : Writable F (depth + 4) f.dump := by
  have hsmall : ∀ n : Int, 1 ≤ n → n ≤ 100 → n.natAbs < 10 ^ Python.maxStrDigits := by
    intro n h1 h2
    calc n.natAbs < 10 ^ 3 := by omega
      _ ≤ 10 ^ Python.maxStrDigits := Nat.pow_le_pow_right (by norm_num) (by decide)
  have hfilters : Writable F (depth + 3) (listOf QueryPlanFilter.dump f.filters) := by
    rw [h.filters]
    exact writable_listOf fun x hx => by
      obtain rfl := List.mem_singleton.mp hx
      have hparameters : Writable F (depth + 1) (dumpParameters []) := rfl
      exact writable_object (by simp [writable_text, hparameters])
  have horder : Writable F (depth + 3) (listOf QueryPlanOrderBy.dump f.orderBy) :=
    writable_listOf fun o _ => writable_object (by simp [writable_text])
  have hlimit : Writable F (depth + 3) (.int f.limit) := writable_int _ (hsmall _ h.limit.1 h.limit.2)
  have hdepth : Writable F (depth + 3) (.int f.depth) := by
    rw [h.depth]
    exact writable_int _ (hsmall 1 le_rfl (by norm_num))
  have hnull : Writable F (depth + 3) (orNull text f.timePolicyId) := by
    rw [h.timePolicy]
    rfl
  exact writable_object (by simp [writable_text, writable_texts, hfilters, horder, hlimit, hdepth, hnull])

theorem floatFree_demoScope {f : PlanFields} (h : DemoScope f) : f.dump.floatFree = true := by
  have hfilters : (listOf QueryPlanFilter.dump f.filters).floatFree = true := by
    rw [h.filters]
    rfl
  have horder : (listOf QueryPlanOrderBy.dump f.orderBy).floatFree = true :=
    floatFree_listOf fun _ _ => floatFree_object (by simp [text, Json.floatFree])
  have hnull : (orNull text f.timePolicyId).floatFree = true := by
    rw [h.timePolicy]
    rfl
  exact floatFree_object (by simp [floatFree_texts, hfilters, horder, hnull, text, Json.floatFree])

end

/-- **The prompt for an accepted plan reads back as the plan and the context, and no other plan has it.** -/
theorem sqlPrompt_exact (F : Json.FloatFormat) {U : Unicode} {subject : Text} {requestedConcepts : List Text}
    {entries : List MetadataEntry} {plan : QueryPlan} {depth : Nat}
    (hentries : retrieve U subject requestedConcepts = .ok entries)
    (hplan : validateQueryPlan plan (build entries) = .ok plan) (hdepth : 5 ≤ depth) :
    ∃ t, sqlPrompt F depth plan.toPlanFields (build entries) = some t ∧
      Json.loads depth t = .ok (promptDocument "query_plan" plan.dump (build entries)) ∧
      ∀ f : PlanFields, f.Dicts → sqlPrompt F depth f (build entries) = some t → f = plan.toPlanFields := by
  obtain rfl := retrieve_ok hentries
  obtain ⟨k, rfl⟩ : ∃ k, depth = k + 5 := ⟨depth - 5, by omega⟩
  have hscope := wellFormed_and_required_iff.mp ⟨violation_eq_none.mp plan.valid, validateQueryPlan_ok_iff.mp hplan⟩
  have hwrite : Writable F (k + 5) (promptDocument "query_plan" plan.dump (build allEntries)) :=
    writable_promptDocument (writable_demoScope hscope k) _ _
  obtain ⟨t, ht⟩ := Option.isSome_iff_exists.mp hwrite
  have hk : ∀ f : PlanFields, f.Dicts →
      (promptDocument "query_plan" f.dump (build allEntries)).distinctKeys = true := fun f hf =>
    distinctKeys_promptDocument (by decide) (distinctKeys_plan hf) _
  have hdicts : plan.Dicts := by
    rw [PlanFields.Dicts, hscope.filters]
    simp
  have hsame : Json.rewritten F plan.dump = plan.dump := Json.rewritten_of_floatFree _ (floatFree_demoScope hscope)
  refine ⟨t, ht, ?_, fun f hf hft => ?_⟩
  · rw [Json.loads_dumps ht (hk _ hdicts), rewritten_promptDocument, hsame]
  · have hdump := Json.dumps_injective hft ht (hk f hf) (hk _ hdicts)
    rw [rewritten_promptDocument, rewritten_promptDocument, hsame] at hdump
    -- what is written of the other plan has no float, so the plan has none
    have hfree : f.dump.floatFree = true := by
      rw [← Json.floatFree_rewritten (F := F), (promptDocument_inj hdump).1]
      exact floatFree_demoScope hscope
    rw [Json.rewritten_of_floatFree _ hfree] at hdump
    have hfields := planFields_dump f
    rw [(promptDocument_inj hdump).1] at hfields
    exact Option.some.inj (hfields.symm.trans (planFields_dump plan.toPlanFields))

/-- A plan of the demo scope, with quotes and a line break in its purpose. -/
def quotedPlan : QueryPlan where
  purpose := ['\x22', '\x7d', ',', '\n', '\\']
  entityId := "product".toList
  dimensionIds := ["product_name", "product_id"].map String.toList
  metricIds := ["current_inventory", "safety_stock_level"].map String.toList
  filters := [⟨"below_safety_stock".toList, []⟩]
  timePolicyId := none
  grainId := "product".toList
  joinIds := ["product_to_product_inventory".toList]
  orderBy := [⟨"product_id".toList, .asc⟩, ⟨"product_name".toList, .desc⟩]
  limit := 100
  depth := 1
  valid := by decide +kernel

theorem sqlPrompt_quotedPlan : ∃ t, sqlPrompt .half 5 quotedPlan.toPlanFields (build allEntries) = some t ∧
    Json.loads 5 t = .ok (promptDocument "query_plan" quotedPlan.dump (build allEntries)) ∧
    ∀ f : PlanFields, f.Dicts → sqlPrompt .half 5 f (build allEntries) = some t → f = quotedPlan.toPlanFields :=
  sqlPrompt_exact .half
    (show retrieve .small "product".toList (["재고", "안전재고"].map String.toList) = .ok allEntries by decide +kernel)
    (show validateQueryPlan quotedPlan (build allEntries) = .ok quotedPlan from
      validateQueryPlan_ok_iff.mpr (wellFormed_and_required_iff.mpr
        ⟨by decide +kernel, rfl, rfl, .swap _ _ _, .refl _, rfl, rfl, rfl, by decide, by decide, rfl, by decide,
          rfl⟩).2)
    le_rfl

/-! ## Encoding -/

theorem encodable_asPromptDict : (build allEntries).asPromptDict.encodable = true := by decide +kernel

theorem encodable_promptDocument {F : Json.FloatFormat} {name : String} {value : Json} {depth : Nat} {t : Text}
    (hname : encodable name.toList = true)
    (h : Json.dumps F (promptDocument name value (build allEntries)) depth = some t) :
    encodable t = value.encodable := by
  have hcontext : encodable "metadata_context".toList = true := by decide
  rw [Json.encodable_dumps _ h, promptDocument, object, Json.encodable, literals, List.map_cons, List.map_singleton,
    Json.encodableMembers, Json.encodableMembers, Json.encodableMembers, hname, hcontext, encodable_asPromptDict]
  simp

/-- **The prompt for a plan can be encoded exactly if the intent has no lone surrogate.** -/
theorem encodable_planPrompt {F : Json.FloatFormat} {f : IntentFields} {depth : Nat} {t : Text}
    (h : planPrompt F depth f (build allEntries) = some t) : encodable t = f.dump.encodable :=
  encodable_promptDocument (by decide) h

/-- **And that for a statement exactly if the plan has none.** -/
theorem encodable_sqlPrompt {F : Json.FloatFormat} {f : PlanFields} {depth : Nat} {t : Text}
    (h : sqlPrompt F depth f (build allEntries) = some t) : encodable t = f.dump.encodable :=
  encodable_promptDocument (by decide) h

end DataAgent.Agent
