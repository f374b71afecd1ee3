import DataAgent.Agent.Plan

/-!
# The demo scope

What the QueryPlan contract and `plan_validator.validate` leave of the typed fields, in the context of all registry
entries.

* `WellFormed`, `violation_eq_none` : the contract;
* `Required`, `validateQueryPlan_ok_iff` : the validator, in any context;
* **`accepted_iff_demoScope`** : a plan is accepted exactly if it is in the `DemoScope`.
-/

namespace DataAgent.Agent
open Python

/-! ## The contract -/

theorem hasDuplicate_eq_false {values : List Text} : hasDuplicate values = false ↔ values.Nodup := by
  rw [hasDuplicate, bne_eq_false_iff_eq]
  constructor
  · intro h
    rw [← (List.dedup_sublist values).eq_of_length h.symm]
    exact List.nodup_dedup values
  · intro h
    rw [h.dedup]

structure WellFormed (f : PlanFields) : Prop where
  purpose : isBlank f.purpose = false
  entity : isBlank f.entityId = false
  grain : isBlank f.grainId = false
  filterIds : ∀ x ∈ f.filters, isBlank x.filterId = false
  fieldIds : ∀ o ∈ f.orderBy, isBlank o.fieldId = false
  dimensions : f.dimensionIds.Nodup
  metrics : f.metricIds.Nodup
  joins : f.joinIds.Nodup
  filters : (f.filters.map (·.filterId)).Nodup
  orderBy : (f.orderBy.map (·.fieldId)).Nodup
  metric : f.metricIds ≠ []
  order : f.orderBy ≠ []
  allowed : ∀ o ∈ f.orderBy, o.fieldId ∈ f.dimensionIds ++ f.metricIds
  limit : 1 ≤ f.limit

/-- Every key of the order is a dimension or a metric exactly if no other one is found. -/
theorem find_foreign_eq_none {f : PlanFields} :
    (f.orderBy.find? fun o => !(f.dimensionIds ++ f.metricIds).contains o.fieldId) = none ↔
      ∀ o ∈ f.orderBy, o.fieldId ∈ f.dimensionIds ++ f.metricIds := by
  rw [List.find?_eq_none]
  refine forall₂_congr fun o _ => ?_
  rw [Bool.not_eq_true, Bool.not_eq_false', List.contains_iff_mem]

theorem violation_eq_none {f : PlanFields} : f.violation = none ↔ WellFormed f := by
  have hforeign := find_foreign_eq_none (f := f)
  unfold PlanFields.violation
  cases hfind : f.orderBy.find? fun o => !(f.dimensionIds ++ f.metricIds).contains o.fieldId with
  | some o =>
    rw [hfind] at hforeign
    have hno : ¬ WellFormed f := fun h => absurd (hforeign.mpr h.allowed) (by simp)
    simp only [violation_ite_eq_none, reduceCtorEq, and_false, hno]
  | none =>
    have hallowed := hforeign.mp hfind
    simp only [violation_ite_eq_none, Bool.not_eq_true, hasDuplicate_eq_false, List.any_eq_false,
      List.isEmpty_eq_false_iff, not_lt, and_true]
    constructor
    · rintro ⟨h1, h2, h3, h4, h5, h6, h7, h8, h9, h10, h11, h12, h13⟩
      exact ⟨h3, h4, h5, h1, h2, h6, h7, h8, h10, h12, h9, h11, hallowed, h13⟩
    · intro h
      exact ⟨h.filterIds, h.fieldIds, h.purpose, h.entity, h.grain, h.dimensions, h.metrics, h.joins, h.metric,
        h.filters, h.order, h.orderBy, h.limit⟩

/-! ## The validator -/

theorem requirePlan_eq_ok {ok : Bool} {message : String} {u : Unit} : requirePlan ok message = .ok u ↔ ok = true :=
  raiseUnless_eq_ok

theorem checkKind_eq_ok {ids : List Text} {allowed : Group} {kindLabel : String} {u : Unit} :
    checkKind ids allowed kindLabel = .ok u ↔ ∀ i ∈ ids, i ∈ allowed.keys := by
  unfold checkKind
  rw [requirePlan_eq_ok, List.isEmpty_iff, List.filter_eq_nil_iff]
  simp

theorem checkFilters_eq_ok {plan : QueryPlan} {u : Unit} : checkFilters plan = .ok u ↔
    ∃ f, plan.filters.find? (·.filterId = requiredFilterId) = some f ∧ f.parameters = [] := by
  unfold checkFilters
  cases plan.filters.find? (·.filterId = requiredFilterId) <;> simp [requirePlan_eq_ok]

theorem checkFirstOrder_eq_ok {plan : QueryPlan} {u : Unit} :
    checkFirstOrder plan = .ok u ↔ plan.orderBy.head? = some requiredFirstOrderBy := by
  unfold checkFirstOrder
  split
  · rename_i h
    simp [h]
  · rename_i o os h
    rw [requirePlan_eq_ok, h]
    simp

/-- The required parts of a plan, and its ids of the right kinds. -/
structure Required (f : PlanFields) (context : MetadataContext) : Prop where
  entityKind : f.entityId ∈ context.entities.keys
  dimensionKind : ∀ i ∈ f.dimensionIds, i ∈ context.dimensions.keys
  metricKind : ∀ i ∈ f.metricIds, i ∈ context.metrics.keys
  filterKind : ∀ x ∈ f.filters, x.filterId ∈ context.filters.keys
  grainKind : f.grainId ∈ context.grains.keys
  joinKind : ∀ i ∈ f.joinIds, i ∈ context.joins.keys
  timePolicy : f.timePolicyId = none
  entity : f.entityId = requiredEntityId
  dimensions : ∀ i ∈ requiredDimensionIds, i ∈ f.dimensionIds
  metrics : ∀ i ∈ requiredMetricIds, i ∈ f.metricIds
  filter : ∃ x, f.filters.find? (·.filterId = requiredFilterId) = some x ∧ x.parameters = []
  joins : ∀ i ∈ requiredJoinIds, i ∈ f.joinIds
  grain : f.grainId = requiredGrainId
  depth : f.depth = 1
  order : f.orderBy.head? = some requiredFirstOrderBy
  limit : 1 ≤ f.limit ∧ f.limit ≤ maximumReturnedRows

theorem checkKinds_eq_ok {plan : QueryPlan} {context : MetadataContext} {u : Unit} : checkKinds plan context = .ok u ↔
    plan.entityId ∈ context.entities.keys ∧ (∀ i ∈ plan.dimensionIds, i ∈ context.dimensions.keys) ∧
      (∀ i ∈ plan.metricIds, i ∈ context.metrics.keys) ∧ (∀ x ∈ plan.filters, x.filterId ∈ context.filters.keys) ∧
      plan.grainId ∈ context.grains.keys ∧ (∀ i ∈ plan.joinIds, i ∈ context.joins.keys) ∧
      plan.timePolicyId = none := by
  unfold checkKinds
  simp only [bind_eq_ok, checkKind_eq_ok, requirePlan_eq_ok, List.mem_singleton, forall_eq, List.forall_mem_map,
    Option.isNone_iff_eq_none, exists_const]

theorem validateQueryPlan_ok_iff {plan : QueryPlan} {context : MetadataContext} :
    validateQueryPlan plan context = .ok plan ↔ Required plan.toPlanFields context := by
  unfold validateQueryPlan
  simp only [bind_eq_ok, checkKinds_eq_ok, checkFilters_eq_ok, checkFirstOrder_eq_ok, requirePlan_eq_ok, exists_const,
    decide_eq_true_eq, List.all_eq_true, List.contains_iff_mem, Bool.and_eq_true]
  constructor
  · rintro ⟨⟨h1, h2, h3, h4, h5, h6, h7⟩, h8, h9, h10, h11, h12, h13, h14, h15, h16, -⟩
    exact ⟨h1, h2, h3, h4, h5, h6, h7, h8, h9, h10, h11, h12, h13, h14, h15, h16⟩
  · intro h
    exact ⟨⟨h.entityKind, h.dimensionKind, h.metricKind, h.filterKind, h.grainKind, h.joinKind, h.timePolicy⟩, h.entity,
      h.dimensions, h.metrics, h.filter, h.joins, h.grain, h.depth, h.order, h.limit, rfl⟩

/-! ## The scope -/

/-- The plan for the representative question. -/
structure DemoScope (f : PlanFields) : Prop where
  purpose : isBlank f.purpose = false
  entity : f.entityId = "product".toList
  grain : f.grainId = "product".toList
  dimensions : f.dimensionIds.Perm ["product_id".toList, "product_name".toList]
  metrics : f.metricIds.Perm ["current_inventory".toList, "safety_stock_level".toList]
  filters : f.filters = [⟨"below_safety_stock".toList, []⟩]
  timePolicy : f.timePolicyId = none
  joins : f.joinIds = ["product_to_product_inventory".toList]
  orderDistinct : (f.orderBy.map (·.fieldId)).Nodup
  orderFields : ∀ o ∈ f.orderBy, o.fieldId ∈
    ["product_id".toList, "product_name".toList, "current_inventory".toList, "safety_stock_level".toList]
  orderFirst : f.orderBy.head? = some ⟨"product_id".toList, .asc⟩
  limit : 1 ≤ f.limit ∧ f.limit ≤ 100
  depth : f.depth = 1

/-- Each kind has just the entries that are required of it. -/
theorem keys_build : (build allEntries).entities.keys = [requiredEntityId] ∧
    (build allEntries).dimensions.keys = requiredDimensionIds ∧ (build allEntries).metrics.keys = requiredMetricIds ∧
    (build allEntries).filters.keys = [requiredFilterId] ∧ (build allEntries).grains.keys = [requiredGrainId] ∧
    (build allEntries).joins.keys = requiredJoinIds := by decide

/-- Nothing but the required ids, all of them, and none twice. -/
theorem perm_iff_of_required {ids required : List Text} (hr : required.Nodup) : ids.Perm required ↔
    ids.Nodup ∧ (∀ i ∈ ids, i ∈ required) ∧ ∀ i ∈ required, i ∈ ids := by
  constructor
  · intro h
    exact ⟨h.nodup_iff.mpr hr, fun i => h.mem_iff.mp, fun i => h.mem_iff.mpr⟩
  · rintro ⟨hn, h1, h2⟩
    exact (List.perm_ext_iff_of_nodup hn hr).mpr fun i => ⟨h1 i, h2 i⟩

/-- The filters: nothing but the required one, which has no parameters. -/
theorem filters_iff {filters : List QueryPlanFilter} : filters = [⟨requiredFilterId, []⟩] ↔
    (filters.map (·.filterId)).Nodup ∧ (∀ x ∈ filters, x.filterId ∈ [requiredFilterId]) ∧
      ∃ x, filters.find? (·.filterId = requiredFilterId) = some x ∧ x.parameters = [] := by
  constructor
  · rintro rfl
    exact ⟨by simp, by simp, ⟨requiredFilterId, []⟩, by simp, rfl⟩
  · rintro ⟨hn, hall, x, hx, hp⟩
    have hids : filters.map (·.filterId) = [requiredFilterId] := by
      refine List.perm_singleton.mp ((perm_iff_of_required (by simp)).mpr ⟨hn, ?_, ?_⟩)
      · simpa using hall
      · intro i hi
        obtain rfl := List.mem_singleton.mp hi
        exact List.mem_map.mpr ⟨x, List.mem_of_find?_eq_some hx, by simpa using List.find?_some hx⟩
    obtain ⟨y, hy⟩ := List.length_eq_one_iff.mp (by simpa using congrArg List.length hids)
    subst hy
    have hid : y.filterId = requiredFilterId := by simpa using hids
    obtain rfl : y = x := by simpa [hid] using hx
    cases y
    simp_all

/-- **The contract and the validator together leave the demo scope.** -/
theorem wellFormed_and_required_iff {f : PlanFields} :
    WellFormed f ∧ Required f (build allEntries) ↔ DemoScope f := by
  obtain ⟨he, hd, hm, hf, hg, hj⟩ := keys_build
  have hdim : f.dimensionIds.Perm requiredDimensionIds ↔ _ := perm_iff_of_required (by decide)
  have hmet : f.metricIds.Perm requiredMetricIds ↔ _ := perm_iff_of_required (by decide)
  have hjoin : f.joinIds.Perm requiredJoinIds ↔ _ := perm_iff_of_required (by decide)
  constructor
  · rintro ⟨hw, hr⟩
    have hdims := hdim.mpr ⟨hw.dimensions, hd ▸ hr.dimensionKind, hr.dimensions⟩
    have hmets := hmet.mpr ⟨hw.metrics, hm ▸ hr.metricKind, hr.metrics⟩
    have hjoins := hjoin.mpr ⟨hw.joins, hj ▸ hr.joinKind, hr.joins⟩
    refine ⟨hw.purpose, hr.entity, hr.grain, hdims, hmets, ?_, hr.timePolicy, List.perm_singleton.mp hjoins, hw.orderBy,
      fun o ho => ?_, hr.order, hr.limit, hr.depth⟩
    · exact filters_iff.mpr ⟨hw.filters, hf ▸ hr.filterKind, hr.filter⟩
    · exact (hdims.append hmets).mem_iff.mp (hw.allowed o ho)
  · intro h
    obtain ⟨hd1, hd2, hd3⟩ := hdim.mp h.dimensions
    obtain ⟨hm1, hm2, hm3⟩ := hmet.mp h.metrics
    obtain ⟨hj1, hj2, hj3⟩ := hjoin.mp (by rw [h.joins]; exact List.Perm.refl _)
    obtain ⟨hf1, hf2, hf3⟩ := filters_iff.mp h.filters
    have hallowed : ∀ o ∈ f.orderBy, o.fieldId ∈ f.dimensionIds ++ f.metricIds := fun o ho =>
      (h.dimensions.append h.metrics).mem_iff.mpr (h.orderFields o ho)
    refine ⟨⟨h.purpose, by rw [h.entity]; decide, by rw [h.grain]; decide, ?_, ?_, hd1, hm1, hj1, hf1, h.orderDistinct,
      ?_, ?_, hallowed, h.limit.1⟩, ?_⟩
    · rw [h.filters]
      decide
    · intro o ho
      have hne : ∀ i ∈ ["product_id".toList, "product_name".toList, "current_inventory".toList,
        "safety_stock_level".toList], isBlank i = false := by decide
      exact hne _ (h.orderFields o ho)
    · exact List.ne_nil_of_mem (hm3 _ (List.mem_cons_self))
    · intro hnil
      have := h.orderFirst
      simp [hnil] at this
    · refine ⟨by rw [he, h.entity]; decide, hd ▸ hd2, hm ▸ hm2, hf ▸ hf2, by rw [hg, h.grain]; decide, hj ▸ hj2,
        h.timePolicy, h.entity, hd3, hm3, hf3, hj3, h.grain, h.depth, h.orderFirst, h.limit⟩

/-- **A plan is accepted exactly if it is in the demo scope**, and the validator raises nothing but its own error. -/
theorem accepted_iff_demoScope (f : PlanFields) :
    ((∃ plan : QueryPlan, plan.toPlanFields = f ∧ validateQueryPlan plan (build allEntries) = .ok plan) ↔ DemoScope f) ∧
    ∀ (plan : QueryPlan) (context : MetadataContext), validateQueryPlan plan context = .ok plan ∨
      ∃ message, validateQueryPlan plan context = .error (.queryPlanInvalid message) := by
  constructor
  · rw [← wellFormed_and_required_iff]
    constructor
    · rintro ⟨plan, rfl, h⟩
      exact ⟨violation_eq_none.mp plan.valid, validateQueryPlan_ok_iff.mp h⟩
    · rintro ⟨hw, hr⟩
      exact ⟨⟨f, violation_eq_none.mpr hw⟩, rfl, validateQueryPlan_ok_iff.mpr hr⟩
  · intro plan context
    cases h : validateQueryPlan plan context with
    | ok plan' =>
      rw [validateQueryPlan_ok h]
      exact Or.inl rfl
    | error e =>
      obtain ⟨message, rfl⟩ := validateQueryPlan_error h
      exact Or.inr ⟨message, rfl⟩

end DataAgent.Agent
