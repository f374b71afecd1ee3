import DataAgent.Python.Text

/-!
# Business metadata of the demo scope

The static registry (`allEntries`), the context built from its entries (`build`), and the search that a
structured question goes through (`retrieve`). The entries' descriptions and SQL hints only fill prompts and
are left out.
-/

namespace DataAgent.Agent
open Python

/-- The kinds of a registry entry; each has its own group of the context. -/
inductive Kind where
  | entity | dimension | metric | filter | grain | join
  deriving DecidableEq, Repr

structure MetadataEntry where
  id : Text
  kind : Kind
  deriving DecidableEq, Repr

/-- A dictionary keyed by entry id, in insertion order. -/
abbrev Group := List (Text × MetadataEntry)

/-- `d[k] = v`: the value is replaced in place, or added last. -/
def Group.set (g : Group) (k : Text) (v : MetadataEntry) : Group :=
  if g.any (·.1 = k) then g.map fun x => if x.1 = k then (k, v) else x else g ++ [(k, v)]

def Group.keys (g : Group) : List Text := g.map Prod.fst

structure MetadataContext where
  entities : Group := []
  dimensions : Group := []
  metrics : Group := []
  filters : Group := []
  grains : Group := []
  joins : Group := []
  deriving DecidableEq, Repr

/-- One step of `build`: an entry goes to the group of its kind. -/
def MetadataContext.add (context : MetadataContext) (entry : MetadataEntry) : MetadataContext :=
  match entry.kind with
  | .entity => { context with entities := context.entities.set entry.id entry }
  | .dimension => { context with dimensions := context.dimensions.set entry.id entry }
  | .metric => { context with metrics := context.metrics.set entry.id entry }
  | .filter => { context with filters := context.filters.set entry.id entry }
  | .grain => { context with grains := context.grains.set entry.id entry }
  | .join => { context with joins := context.joins.set entry.id entry }

def build (entries : List MetadataEntry) : MetadataContext := entries.foldl MetadataContext.add {}

/-! ## The registry -/

def entityAliases : List Text := ["product", "제품", "품목", "상품"].map String.toList

def inventoryConceptAliases : List Text :=
  ["inventory", "stock", "재고", "현재 재고", "재고량"].map String.toList

def safetyStockConceptAliases : List Text :=
  ["safety_stock", "safety stock", "안전재고", "안전 재고", "최소 재고"].map String.toList

def allEntries : List MetadataEntry :=
  [⟨"product".toList, .entity⟩, ⟨"product_id".toList, .dimension⟩, ⟨"product_name".toList, .dimension⟩,
    ⟨"current_inventory".toList, .metric⟩, ⟨"safety_stock_level".toList, .metric⟩,
    ⟨"below_safety_stock".toList, .filter⟩, ⟨"product".toList, .grain⟩,
    ⟨"product_to_product_inventory".toList, .join⟩]

/-! ## Retrieval -/

inductive MetadataError where
  | notFound (message : String)
  deriving DecidableEq, Repr

variable (U : Unicode)

def normalize (value : Text) : Text := U.lower (strip value)

/-- `retrieve`, on the two fields of the intent that it reads. -/
def retrieve (subject : Text) (requestedConcepts : List Text) : Except MetadataError (List MetadataEntry) :=
  let concepts := requestedConcepts.map (normalize U)
  if normalize U subject ∉ entityAliases then
    .error (.notFound "질문의 대상이 고정 Demo Scope의 제품 Entity와 일치하지 않습니다.")
  else if ¬ concepts.any (· ∈ inventoryConceptAliases) then
    .error (.notFound "재고 개념을 고정 Demo Scope에서 찾을 수 없습니다.")
  else if ¬ concepts.any (· ∈ safetyStockConceptAliases) then
    .error (.notFound "안전재고 개념을 고정 Demo Scope에서 찾을 수 없습니다.")
  else .ok allEntries

end DataAgent.Agent
