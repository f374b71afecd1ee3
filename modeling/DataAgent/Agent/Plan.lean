import DataAgent.Agent.Intent
import DataAgent.Agent.Metadata

/-!
# Query plans

`query_planner`, the QueryPlan contract and the stage that asks the model for one, and `plan_validator`, which
holds a plan against the metadata context and the demo scope.
-/

namespace DataAgent.Agent
open Python

inductive Direction where
  | asc | desc
  deriving DecidableEq, Repr

structure QueryPlanFilter where
  filterId : Text
  parameters : List (Text × Scalar)
  deriving DecidableEq, Repr

structure QueryPlanOrderBy where
  fieldId : Text
  direction : Direction
  deriving DecidableEq, Repr

structure PlanFields where
  purpose : Text
  entityId : Text
  dimensionIds : List Text
  metricIds : List Text
  filters : List QueryPlanFilter
  timePolicyId : Option Text
  grainId : Text
  joinIds : List Text
  orderBy : List QueryPlanOrderBy
  limit : Int
  depth : Int
  deriving DecidableEq, Repr

/-- `len(values) != len(set(values))`. -/
def hasDuplicate (values : List Text) : Bool := values.length != values.dedup.length

/-- The validators of `QueryPlan` and of its parts: the message of the first `ValueError`, if there is one. -/
def PlanFields.violation (f : PlanFields) : Option String :=
  if f.filters.any (isBlank ·.filterId) then some "filter_id must not be blank"
  else if f.orderBy.any (isBlank ·.fieldId) then some "field_id must not be blank"
  else if isBlank f.purpose then some "purpose must not be blank"
  else if isBlank f.entityId then some "entity_id must not be blank"
  else if isBlank f.grainId then some "grain_id must not be blank"
  else if hasDuplicate f.dimensionIds then some "dimension_ids must not contain duplicate ids"
  else if hasDuplicate f.metricIds then some "metric_ids must not contain duplicate ids"
  else if hasDuplicate f.joinIds then some "join_ids must not contain duplicate ids"
  else if f.metricIds.isEmpty then some "metric_ids must contain at least 1 entry"
  else if hasDuplicate (f.filters.map (·.filterId)) then some "filters must not contain duplicate filter_id"
  else if f.orderBy.isEmpty then some "order_by must contain at least 1 entry"
  else if hasDuplicate (f.orderBy.map (·.fieldId)) then some "order_by must not contain duplicate field_id"
  else
    match f.orderBy.find? fun o => !(f.dimensionIds ++ f.metricIds).contains o.fieldId with
    | some o => some ("order_by field_id '" ++ String.ofList o.fieldId ++ "' must be in dimension_ids or metric_ids")
    | none => if f.limit < 1 then some "limit must be >= 1" else none

/-- A plan that meets the contract. -/
structure QueryPlan extends PlanFields where
  valid : toPlanFields.violation = none

/-- What pydantic makes of a value of type `V`, up to the validators of the two models. -/
structure Pydantic (V : Type) where
  intentFields : V → Except Exc IntentFields
  planFields : V → Except Exc PlanFields

/-- `generate_query_plan`, from the outcome of the call. -/
def generateQueryPlan {V : Type} (fields : V → Except Exc PlanFields) (call : Except Exc V) : Except Exc QueryPlan :=
  match call with
  | .error .jsonDecode => .error (.queryPlanInvalid "LLM response is not valid JSON")
  | .error e => .error e
  | .ok raw =>
    match fields raw with
    | .error .validation => .error (.queryPlanInvalid "QueryPlan Contract violation")
    | .error e => .error e
    | .ok f =>
      if h : f.violation = none then .ok { toPlanFields := f, valid := h }
      else .error (.queryPlanInvalid "QueryPlan Contract violation")

/-! ## The plan validator -/

def maximumReturnedRows : Int := 100

def requiredEntityId : Text := "product".toList
def requiredGrainId : Text := "product".toList
def requiredDimensionIds : List Text := ["product_id", "product_name"].map String.toList
def requiredMetricIds : List Text := ["current_inventory", "safety_stock_level"].map String.toList
def requiredFilterId : Text := "below_safety_stock".toList
def requiredJoinIds : List Text := ["product_to_product_inventory"].map String.toList
def requiredFirstOrderBy : QueryPlanOrderBy := ⟨"product_id".toList, .asc⟩

/-- `if not ok: raise QueryPlanInvalidError(message)`. -/
def requirePlan (ok : Bool) (message : String) : Except Exc Unit := raiseUnless ok (.queryPlanInvalid message)

/-- `_check_kind`. -/
def checkKind (ids : List Text) (allowed : Group) (kindLabel : String) : Except Exc Unit :=
  let unknown := ids.dedup.filter fun i => !allowed.keys.contains i
  requirePlan unknown.isEmpty
    ("QueryPlan references ids outside the " ++ kindLabel ++ " Metadata Context group: " ++ reprList (sorted unknown))

/-- The kinds of the ids. -/
def checkKinds (plan : QueryPlan) (context : MetadataContext) : Except Exc Unit := do
  checkKind [plan.entityId] context.entities "entity"
  checkKind plan.dimensionIds context.dimensions "dimension"
  checkKind plan.metricIds context.metrics "metric"
  checkKind (plan.filters.map (·.filterId)) context.filters "filter"
  checkKind [plan.grainId] context.grains "grain"
  checkKind plan.joinIds context.joins "join"
  requirePlan plan.timePolicyId.isNone "time_policy_id must be null; no Time Policy is registered in this Demo Scope"

/-- The required filter, without parameters. The ids of the filters are unique, so the dictionary of the source
by id has the only filter with this one. -/
def checkFilters (plan : QueryPlan) : Except Exc Unit :=
  match plan.filters.find? (·.filterId = requiredFilterId) with
  | none => .error (.queryPlanInvalid "filters must include exactly one \"below_safety_stock\" filter")
  | some f =>
    requirePlan f.parameters.isEmpty "\"below_safety_stock\" filter parameters must be empty in this Demo Scope"

def checkFirstOrder (plan : QueryPlan) : Except Exc Unit :=
  match plan.orderBy with
  -- `order_by[0]` of an empty list
  | [] => .error .other
  | firstOrder :: _ =>
    requirePlan (firstOrder = requiredFirstOrderBy) "order_by[0] must be product_id ascending"

/-- `plan_validator.validate`. -/
def validateQueryPlan (plan : QueryPlan) (context : MetadataContext) : Except Exc QueryPlan := do
  checkKinds plan context
  requirePlan (plan.entityId = requiredEntityId) "entity_id must be \"product\""
  requirePlan (requiredDimensionIds.all plan.dimensionIds.contains)
    "dimension_ids must include ['product_id', 'product_name']"
  requirePlan (requiredMetricIds.all plan.metricIds.contains)
    "metric_ids must include ['current_inventory', 'safety_stock_level']"
  checkFilters plan
  requirePlan (requiredJoinIds.all plan.joinIds.contains) "join_ids must include ['product_to_product_inventory']"
  requirePlan (plan.grainId = requiredGrainId) "grain_id must be \"product\""
  requirePlan (plan.depth = 1) "depth must be 1"
  checkFirstOrder plan
  requirePlan (1 ≤ plan.limit && plan.limit ≤ maximumReturnedRows) "limit must be between 1 and 100"
  return plan

theorem violation_ite_eq_none {c : Prop} [Decidable c] {message : String} {rest : Option String} :
    (if c then some message else rest) = none ↔ ¬ c ∧ rest = none := by
  by_cases h : c <;> simp [h]

theorem QueryPlan.orderBy_ne_nil (plan : QueryPlan) : plan.orderBy ≠ [] := by
  have hv := plan.valid
  unfold PlanFields.violation at hv
  simp only [violation_ite_eq_none] at hv
  obtain ⟨-, -, -, -, -, -, -, -, -, -, h, -⟩ := hv
  simpa using h

theorem requirePlan_error {ok : Bool} {message : String} {e : Exc} (h : requirePlan ok message = .error e) :
    ∃ message, e = .queryPlanInvalid message := by
  cases ok with
  | true => simp [requirePlan, raiseUnless] at h
  | false => exact ⟨message, (Except.error.inj h).symm⟩

theorem bind_error {α β : Type} {m : Except Exc α} {f : α → Except Exc β} {e : Exc} (h : (m >>= f) = .error e) :
    m = .error e ∨ ∃ a, f a = .error e := by
  cases m with
  | error e' => exact Or.inl (by simpa [bind, Except.bind] using h)
  | ok a => exact Or.inr ⟨a, h⟩

theorem checkKinds_error {plan : QueryPlan} {context : MetadataContext} {e : Exc}
    (h : checkKinds plan context = .error e) : ∃ message, e = .queryPlanInvalid message := by
  unfold checkKinds at h
  iterate 6 rcases bind_error h with h | ⟨-, h⟩; exact requirePlan_error h
  exact requirePlan_error h

theorem checkFilters_error {plan : QueryPlan} {e : Exc} (h : checkFilters plan = .error e) :
    ∃ message, e = .queryPlanInvalid message := by
  unfold checkFilters at h
  split at h
  · exact ⟨_, (Except.error.inj h).symm⟩
  · exact requirePlan_error h

/-- The first key of the order is there to be read. -/
theorem checkFirstOrder_error {plan : QueryPlan} {e : Exc} (h : checkFirstOrder plan = .error e) :
    ∃ message, e = .queryPlanInvalid message := by
  unfold checkFirstOrder at h
  split at h
  · rename_i hnil
    exact absurd hnil plan.orderBy_ne_nil
  · exact requirePlan_error h

/-- **The plan validator fails in one way only.** -/
theorem validateQueryPlan_error {plan : QueryPlan} {context : MetadataContext} {e : Exc}
    (h : validateQueryPlan plan context = .error e) : ∃ message, e = .queryPlanInvalid message := by
  unfold validateQueryPlan at h
  rcases bind_error h with h | ⟨-, h⟩
  · exact checkKinds_error h
  iterate 3 rcases bind_error h with h | ⟨-, h⟩; exact requirePlan_error h
  rcases bind_error h with h | ⟨-, h⟩
  · exact checkFilters_error h
  iterate 3 rcases bind_error h with h | ⟨-, h⟩; exact requirePlan_error h
  rcases bind_error h with h | ⟨-, h⟩
  · exact checkFirstOrder_error h
  rcases bind_error h with h | ⟨-, h⟩
  · exact requirePlan_error h
  · simp [pure, Except.pure] at h

/-- A plan that passes is returned as it is. -/
theorem validateQueryPlan_ok {plan plan' : QueryPlan} {context : MetadataContext}
    (h : validateQueryPlan plan context = .ok plan') : plan' = plan := by
  unfold validateQueryPlan at h
  iterate 10 obtain ⟨-, -, h⟩ := bind_eq_ok.mp h
  exact (Except.ok.inj h).symm

end DataAgent.Agent
