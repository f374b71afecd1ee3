import DataAgent.Agent.Plan

/-!
# Values of the declared types

What pydantic makes of a decoded JSON value that has the declared types, without the conversions it tries between
types: an object with the declared fields and no others (`extra="forbid"`), each of its type.
-/

namespace DataAgent.Agent
open Python

namespace Decode

variable {α : Type}

abbrev Fields := List (Text × Json)

def get (fields : Fields) (name : String) : Option Json := fields.lookup name.toList

/-- The fields of an object without undeclared ones. -/
def declared (names : List String) : Json → Option Fields
  | .obj fields => if fields.all fun f => names.any fun n => f.1 = n.toList then some fields else none
  | _ => none

def str : Json → Option Text
  | .str s => some s
  | _ => none

def int : Json → Option Int
  | .int n => some n
  | _ => none

def bool : Json → Option Bool
  | .bool b => some b
  | _ => none

def nullable (f : Json → Option α) : Json → Option (Option α)
  | .null => some none
  | j => (f j).map some

def list (f : Json → Option α) : Json → Option (List α)
  | .arr xs => xs.mapM f
  | _ => none

def scalar : Json → Option Scalar
  | .str s => some (.str s)
  | .int n => some (.int n)
  | .float t => some (.float t)
  | .bool b => some (.bool b)
  | _ => none

def dict (f : Json → Option α) : Json → Option (List (Text × α))
  | .obj fields => fields.mapM fun x => do return (x.1, ← f x.2)
  | _ => none

/-- A member of an enumeration, by its name. -/
def literal (members : List (String × α)) (j : Json) : Option α := do
  let s ← str j
  (members.find? fun m => m.1.toList = s).map Prod.snd

end Decode

open Decode

def intentFields (j : Json) : Option IntentFields := do
  let fs ← declared ["request_type", "subject", "requested_concepts", "requested_output", "explicit_parameters",
    "requires_clarification", "clarification_reason"] j
  return {
    requestType := ← literal [("lookup", .lookup), ("aggregation", .aggregation), ("comparison", .comparison),
      ("ranking", .ranking), ("complex_investigation", .complexInvestigation)] (← get fs "request_type")
    subject := ← str (← get fs "subject")
    requestedConcepts := ← list str (← get fs "requested_concepts")
    requestedOutput := ← literal [("list", .list), ("summary", .summary), ("ranking", .ranking),
      ("investigation", .investigation)] (← get fs "requested_output")
    explicitParameters := ← dict scalar ((get fs "explicit_parameters").getD (.obj []))
    requiresClarification := ← bool (← get fs "requires_clarification")
    clarificationReason := ← nullable str (← get fs "clarification_reason") }

def queryPlanFilter (j : Json) : Option QueryPlanFilter := do
  let fs ← declared ["filter_id", "parameters"] j
  return {
    filterId := ← str (← get fs "filter_id")
    parameters := ← dict scalar ((get fs "parameters").getD (.obj [])) }

def queryPlanOrderBy (j : Json) : Option QueryPlanOrderBy := do
  let fs ← declared ["field_id", "direction"] j
  return { fieldId := ← str (← get fs "field_id"),
           direction := ← literal [("asc", .asc), ("desc", .desc)] (← get fs "direction") }

def planFields (j : Json) : Option PlanFields := do
  let fs ← declared ["purpose", "entity_id", "dimension_ids", "metric_ids", "filters", "time_policy_id", "grain_id",
    "join_ids", "order_by", "limit", "depth"] j
  return {
    purpose := ← str (← get fs "purpose")
    entityId := ← str (← get fs "entity_id")
    dimensionIds := ← list str (← get fs "dimension_ids")
    metricIds := ← list str (← get fs "metric_ids")
    filters := ← list queryPlanFilter (← get fs "filters")
    timePolicyId := ← nullable str (← get fs "time_policy_id")
    grainId := ← str (← get fs "grain_id")
    joinIds := ← list str (← get fs "join_ids")
    orderBy := ← list queryPlanOrderBy (← get fs "order_by")
    limit := ← int (← get fs "limit")
    depth := ← int (← get fs "depth") }

/-- A missing field, an undeclared one or one of another type is a `ValidationError`. -/
def orInvalid {α : Type} (o : Option α) : Except Exc α :=
  match o with
  | some a => .ok a
  | none => .error .validation

def Pydantic.exact : Pydantic Json where
  intentFields j := orInvalid (Agent.intentFields j)
  planFields j := orInvalid (Agent.planFields j)

end DataAgent.Agent
