import DataAgent.Agent.Decode
import Mathlib.Algebra.Order.Field.Rat
import Mathlib.Algebra.Order.Field.Power

/-!
# What pydantic makes of an intent

`RuntimeIntent.model_validate` on a decoded JSON value, with the conversions of pydantic's lax mode, against the
documented contract.

* `laxBool` : `0`, `1`, `0.0`, `1.0` and a few words are read as a boolean;
* `Meets` : the contract, for given readings of the two fields that pydantic treats more freely;
* **`accepts_iff`** : a value is accepted exactly if it meets the contract under the lax readings;
* **`acceptance_exact_iff`** : when that is the documented contract itself.
-/

namespace DataAgent.Agent
open Python Decode

/-! ## Lax readings -/

def laxStr : Json → Option Text
  | .str s => some s
  | _ => none

/-- The words for a boolean, in any letter case. -/
def boolWords : List (String × Bool) :=
  [("0", false), ("f", false), ("n", false), ("no", false), ("off", false), ("false", false),
    ("1", true), ("t", true), ("y", true), ("yes", true), ("on", true), ("true", true)]

/-- The digits of a number without a sign, as a fraction: `12.5e-1` is `125 * 10 ^ (-2)`. -/
def decimalValue (digits : Text) : ℚ :=
  let whole := digits.takeWhile Char.isDigit
  let fraction := Json.fraction (digits.drop whole.length)
  let exponent := (digits.drop (whole.length + fraction.length)).drop 1
  let power : Int := match exponent with
    | '-' :: e => -Json.natOf e
    | '+' :: e => Json.natOf e
    | e => Json.natOf e
  Json.natOf (whole ++ fraction.drop 1) * 10 ^ (power - (fraction.drop 1).length)

/-- `0.0` and `1.0` as booleans: the texts that round to one of these. -/
def floatBool (digits : Text) : Option Bool :=
  match digits with
  | ['n', 'a', 'n'] | ['i', 'n', 'f'] | ['-', 'i', 'n', 'f'] => none
  | '-' :: digits => if decimalValue digits ≤ 1 / 2 ^ 1075 then some false else none
  | digits =>
    if decimalValue digits ≤ 1 / 2 ^ 1075 then some false
    else if 1 - 1 / 2 ^ 54 ≤ decimalValue digits ∧ decimalValue digits ≤ 1 + 1 / 2 ^ 53 then some true
    else none

def laxBool : Json → Option Bool
  | .bool b => some b
  | .str t => (boolWords.find? fun w => w.1.toList = t.map Char.toLower).map Prod.snd
  | .int n => if n = 0 then some false else if n = 1 then some true else none
  | .float digits => floatBool digits
  | _ => none

/-- A value of the union `str | int | float | bool`, each read as its own type. -/
def laxScalar : Json → Option Scalar
  | .str s => some (.str s)
  | .int n => some (.int n)
  | .float digits => some (.float digits)
  | .bool b => some (.bool b)
  | _ => none

def laxDict : Json → Option (List (Text × Scalar))
  | .obj fs => fs.mapM fun f => (laxScalar f.2).map fun v => (f.1, v)
  | _ => none

def requestTypes : List (String × RequestType) :=
  [("lookup", .lookup), ("aggregation", .aggregation), ("comparison", .comparison), ("ranking", .ranking),
    ("complex_investigation", .complexInvestigation)]

def requestedOutputs : List (String × RequestedOutput) :=
  [("list", .list), ("summary", .summary), ("ranking", .ranking), ("investigation", .investigation)]

def intentFieldNames : List String :=
  ["request_type", "subject", "requested_concepts", "requested_output", "explicit_parameters",
    "requires_clarification", "clarification_reason"]

/-- `RuntimeIntent.model_validate` up to the model's own validator. -/
def laxIntentFields (j : Json) : Option IntentFields := do
  let fs ← declared intentFieldNames j
  return {
    requestType := ← literal requestTypes (← get fs "request_type")
    subject := ← laxStr (← get fs "subject")
    requestedConcepts := ← Decode.list laxStr (← get fs "requested_concepts")
    requestedOutput := ← literal requestedOutputs (← get fs "requested_output")
    explicitParameters := ← laxDict ((get fs "explicit_parameters").getD (.obj []))
    requiresClarification := ← laxBool (← get fs "requires_clarification")
    clarificationReason := ← nullable laxStr (← get fs "clarification_reason") }

/-- `generate_runtime_intent` on a decoded answer. -/
def runtimeIntentOf (j : Json) : Except Exc RuntimeIntent :=
  generateRuntimeIntent (fun j => orInvalid (laxIntentFields j)) (.ok j)

/-! ## The contract -/

/-- The contract on the fields of an object, with what is read of `explicit_parameters` and of
`requires_clarification`. -/
structure Meets (fs : Fields) (parameters : Option Json) (requires : Option Bool) : Prop where
  declared : ∀ f ∈ fs, ∃ n ∈ intentFieldNames, f.1 = n.toList
  requestType : ∃ m ∈ requestTypes, get fs "request_type" = some (.str m.1.toList)
  subject : ∃ s, get fs "subject" = some (.str s)
  requestedConcepts : ∃ xs, get fs "requested_concepts" = some (.arr xs) ∧ ∀ x ∈ xs, ∃ s, x = .str s
  requestedOutput : ∃ m ∈ requestedOutputs, get fs "requested_output" = some (.str m.1.toList)
  explicitParameters : ∃ ps, parameters = some (.obj ps) ∧ ∀ p ∈ ps,
    (∃ s, p.2 = .str s) ∨ (∃ n, p.2 = .int n) ∨ (∃ digits, p.2 = .float digits) ∨ ∃ b, p.2 = .bool b
  clarification :
    requires = some true ∧ (∃ s, get fs "clarification_reason" = some (.str s) ∧ isBlank s = false) ∨
    requires = some false ∧ get fs "clarification_reason" = some .null ∧ get fs "requested_concepts" ≠ some (.arr []) ∧
      ∀ s, get fs "subject" = some (.str s) → isBlank s = false

/-- The documented contract: seven fields, each of its type. -/
def Contract (j : Json) : Prop :=
  ∃ fs, j = .obj fs ∧ Meets fs (get fs "explicit_parameters") ((get fs "requires_clarification").bind bool)

/-- The contract under the readings of pydantic: a default for a field that is missing, and lax booleans. -/
def LaxContract (fs : Fields) : Prop :=
  Meets fs (some ((get fs "explicit_parameters").getD (.obj []))) ((get fs "requires_clarification").bind laxBool)

/-- The two fields are there as documented. -/
def AsDocumented (fs : Fields) : Prop :=
  (get fs "explicit_parameters").isSome ∧ ∃ b, get fs "requires_clarification" = some (.bool b)

/-! ## Readings that succeed -/

theorem mapM_isSome_iff {α β : Type} {f : α → Option β} {xs : List α} :
    (∃ ys, xs.mapM f = some ys) ↔ ∀ x ∈ xs, ∃ y, f x = some y := by
  induction xs with
  | nil => simp
  | cons x xs ih =>
    rw [List.mapM_cons, List.forall_mem_cons, ← ih]
    cases f x with
    | none => simp
    | some y => cases xs.mapM f <;> simp

theorem mapM_eq_nil {α β : Type} {f : α → Option β} {xs : List α} {ys : List β} (h : xs.mapM f = some ys) :
    ys = [] ↔ xs = [] := by
  cases xs with
  | nil =>
    obtain rfl : [] = ys := by simpa using h
    simp
  | cons x xs =>
    rw [List.mapM_cons, Option.bind_eq_bind, Option.bind_eq_some_iff] at h
    obtain ⟨y, -, h⟩ := h
    obtain ⟨zs, -, h⟩ := Option.bind_eq_some_iff.mp h
    obtain rfl : y :: zs = ys := Option.some.inj h
    simp

theorem laxStr_eq_some {j : Json} {t : Text} : laxStr j = some t ↔ j = .str t := by
  cases j <;> simp [laxStr]

theorem list_laxStr_eq_some {j : Json} {ts : List Text} :
    Decode.list laxStr j = some ts ↔ ∃ xs, j = .arr xs ∧ xs.mapM laxStr = some ts := by
  cases j <;> simp [Decode.list]

theorem nullable_laxStr_eq_some {j : Json} {o : Option Text} : nullable laxStr j = some o ↔
    j = .null ∧ o = none ∨ ∃ s, j = .str s ∧ o = some s := by
  cases j <;> simp [nullable, laxStr, eq_comm]

theorem laxDict_eq_some {j : Json} : (∃ d, laxDict j = some d) ↔ ∃ ps, j = .obj ps ∧ ∀ p ∈ ps,
    (∃ s, p.2 = .str s) ∨ (∃ n, p.2 = .int n) ∨ (∃ digits, p.2 = .float digits) ∨ ∃ b, p.2 = .bool b := by
  cases j with
  | obj ps =>
    have hscalar : ∀ p : Text × Json, (∃ y, ((laxScalar p.2).map fun v => (p.1, v)) = some y) ↔
        (∃ s, p.2 = .str s) ∨ (∃ n, p.2 = .int n) ∨ (∃ digits, p.2 = .float digits) ∨ ∃ b, p.2 = .bool b := by
      rintro ⟨k, v⟩
      cases v <;> simp [laxScalar]
    simp only [laxDict, mapM_isSome_iff, hscalar, Json.obj.injEq, exists_eq_left']
  | _ => simp [laxDict]

theorem literal_eq_some {α : Type} {members : List (String × α)} {j : Json} :
    (∃ a, literal members j = some a) ↔ ∃ m ∈ members, j = .str m.1.toList := by
  have hstr : ∀ t : Text, (∃ a, literal members (.str t) = some a) ↔ ∃ m ∈ members, t = m.1.toList := by
    intro t
    show (∃ a, (members.find? fun m => m.1.toList = t).map Prod.snd = some a) ↔ _
    rw [← Option.isSome_iff_exists, Option.isSome_map, List.find?_isSome]
    simp [eq_comm]
  cases j with
  | str t => simpa using hstr t
  | _ => simp [literal, str]

theorem declared_eq_some {names : List String} {j : Json} {fs : Fields} :
    Decode.declared names j = some fs ↔ j = .obj fs ∧ ∀ f ∈ fs, ∃ n ∈ names, f.1 = n.toList := by
  cases j with
  | obj gs =>
    rw [Decode.declared]
    by_cases h : (gs.all fun f => names.any fun n => f.1 = n.toList) = true
    · rw [if_pos h, Option.some.injEq, Json.obj.injEq]
      refine ⟨fun he => ⟨he, ?_⟩, And.left⟩
      subst he
      simpa [List.all_eq_true, List.any_eq_true] using h
    · rw [if_neg h]
      refine iff_of_false (by simp) ?_
      rintro ⟨he, hall⟩
      rw [Json.obj.injEq] at he
      subst he
      exact h (by simpa [List.all_eq_true, List.any_eq_true] using hall)
  | _ => simp [Decode.declared]

/-! ## Acceptance -/

/-- The parts of an intent, each read from its field. -/
structure Reads (fs : Fields) (f : IntentFields) : Prop where
  declared : ∀ x ∈ fs, ∃ n ∈ intentFieldNames, x.1 = n.toList
  requestType : (get fs "request_type").bind (literal requestTypes) = some f.requestType
  subject : (get fs "subject").bind laxStr = some f.subject
  requestedConcepts : (get fs "requested_concepts").bind (Decode.list laxStr) = some f.requestedConcepts
  requestedOutput : (get fs "requested_output").bind (literal requestedOutputs) = some f.requestedOutput
  explicitParameters : laxDict ((get fs "explicit_parameters").getD (.obj [])) = some f.explicitParameters
  requiresClarification : (get fs "requires_clarification").bind laxBool = some f.requiresClarification
  clarificationReason : (get fs "clarification_reason").bind (nullable laxStr) = some f.clarificationReason

theorem laxIntentFields_eq_some {j : Json} {f : IntentFields} :
    laxIntentFields j = some f ↔ ∃ fs, j = .obj fs ∧ Reads fs f := by
  unfold laxIntentFields
  simp only [Option.bind_eq_bind, Option.bind_eq_some_iff, Option.pure_def, Option.some.injEq, declared_eq_some]
  constructor
  · rintro ⟨fs, ⟨rfl, hd⟩, v1, h1, a1, g1, v2, h2, a2, g2, v3, h3, a3, g3, v4, h4, a4, g4, a5, g5, v6, h6, a6, g6, v7,
      h7, a7, g7, rfl⟩
    exact ⟨fs, rfl, hd, by rw [h1]; exact g1, by rw [h2]; exact g2, by rw [h3]; exact g3, by rw [h4]; exact g4, g5,
      by rw [h6]; exact g6, by rw [h7]; exact g7⟩
  · rintro ⟨fs, rfl, h⟩
    obtain ⟨v1, h1, g1⟩ := Option.bind_eq_some_iff.mp h.requestType
    obtain ⟨v2, h2, g2⟩ := Option.bind_eq_some_iff.mp h.subject
    obtain ⟨v3, h3, g3⟩ := Option.bind_eq_some_iff.mp h.requestedConcepts
    obtain ⟨v4, h4, g4⟩ := Option.bind_eq_some_iff.mp h.requestedOutput
    obtain ⟨v6, h6, g6⟩ := Option.bind_eq_some_iff.mp h.requiresClarification
    obtain ⟨v7, h7, g7⟩ := Option.bind_eq_some_iff.mp h.clarificationReason
    exact ⟨fs, ⟨rfl, h.declared⟩, v1, h1, _, g1, v2, h2, _, g2, v3, h3, _, g3, v4, h4, _, g4, _, h.explicitParameters,
      v6, h6, _, g6, v7, h7, _, g7, rfl⟩

theorem intentViolation_eq_none {f : IntentFields} : f.violation = none ↔
    f.requiresClarification = true ∧ (∃ r, f.clarificationReason = some r ∧ isBlank r = false) ∨
      f.requiresClarification = false ∧ f.clarificationReason = none ∧ f.requestedConcepts ≠ [] ∧
        isBlank f.subject = false := by
  unfold IntentFields.violation
  cases f.requiresClarification <;> cases f.clarificationReason <;> simp
  split_ifs <;> simp_all

theorem runtimeIntentOf_eq_ok {j : Json} : (∃ i, runtimeIntentOf j = .ok i) ↔
    ∃ f, laxIntentFields j = some f ∧ f.violation = none := by
  unfold runtimeIntentOf generateRuntimeIntent
  cases h : laxIntentFields j with
  | none => simp [orInvalid, h]
  | some f => by_cases hv : f.violation = none <;> simp [orInvalid, h, hv]

/-- A refusal is a violation of the contract. -/
theorem runtimeIntentOf_refused (j : Json) : (∃ i, runtimeIntentOf j = .ok i) ∨
    runtimeIntentOf j = .error (.intentContractViolation "RuntimeIntent Contract violation") := by
  unfold runtimeIntentOf generateRuntimeIntent
  cases h : laxIntentFields j with
  | none => simp [orInvalid, h]
  | some f => by_cases hv : f.violation = none <;> simp [orInvalid, h, hv]

theorem laxContract_of_reads {fs : Fields} {f : IntentFields} (h : Reads fs f) (hv : f.violation = none) :
    LaxContract fs := by
  obtain ⟨v1, h1, g1⟩ := Option.bind_eq_some_iff.mp h.requestType
  obtain ⟨v2, h2, g2⟩ := Option.bind_eq_some_iff.mp h.subject
  obtain ⟨v3, h3, g3⟩ := Option.bind_eq_some_iff.mp h.requestedConcepts
  obtain ⟨v4, h4, g4⟩ := Option.bind_eq_some_iff.mp h.requestedOutput
  obtain ⟨v7, h7, g7⟩ := Option.bind_eq_some_iff.mp h.clarificationReason
  obtain ⟨m, hm, rfl⟩ := literal_eq_some.mp ⟨_, g1⟩
  obtain ⟨m', hm', rfl⟩ := literal_eq_some.mp ⟨_, g4⟩
  obtain rfl := laxStr_eq_some.mp g2
  obtain ⟨xs, rfl, hxs⟩ := list_laxStr_eq_some.mp g3
  obtain ⟨ps, hps, hscalar⟩ := laxDict_eq_some.mp ⟨_, h.explicitParameters⟩
  refine ⟨h.declared, ⟨m, hm, h1⟩, ⟨_, h2⟩, ⟨xs, h3, fun x hx => ?_⟩, ⟨m', hm', h4⟩,
    ⟨ps, congrArg some hps, hscalar⟩, ?_⟩
  · obtain ⟨t, ht⟩ := mapM_isSome_iff.mp ⟨_, hxs⟩ x hx
    exact ⟨t, laxStr_eq_some.mp ht⟩
  · rw [h.requiresClarification]
    rcases intentViolation_eq_none.mp hv with ⟨hr, r, hreason, hblank⟩ | ⟨hr, hreason, hconcepts, hblank⟩
    · refine Or.inl ⟨congrArg some hr, ?_⟩
      rcases nullable_laxStr_eq_some.mp g7 with ⟨-, ho⟩ | ⟨s, rfl, ho⟩
      · simp [hreason] at ho
      · obtain rfl : r = s := by simpa [hreason] using ho
        exact ⟨_, h7, hblank⟩
    · refine Or.inr ⟨congrArg some hr, ?_, ?_, ?_⟩
      · rcases nullable_laxStr_eq_some.mp g7 with ⟨rfl, -⟩ | ⟨s, -, ho⟩
        · exact h7
        · simp [hreason] at ho
      · intro hnil
        obtain rfl : xs = [] := by simpa [h3] using hnil
        exact hconcepts ((mapM_eq_nil hxs).mpr rfl)
      · intro s' hs'
        obtain rfl : f.subject = s' := by simpa [h2] using hs'
        exact hblank

theorem reads_of_laxContract {fs : Fields} (h : LaxContract fs) : ∃ f, Reads fs f ∧ f.violation = none := by
  obtain ⟨hd, ⟨m, hm, h1⟩, ⟨s, h2⟩, ⟨xs, h3, hxs⟩, ⟨m', hm', h4⟩, ⟨ps, hps, hscalar⟩, hclar⟩ := h
  obtain ⟨a1, g1⟩ := literal_eq_some.mpr ⟨m, hm, rfl⟩
  obtain ⟨a4, g4⟩ := literal_eq_some.mpr ⟨m', hm', rfl⟩
  obtain ⟨a5, g5⟩ := laxDict_eq_some.mpr ⟨ps, Option.some.inj hps, hscalar⟩
  obtain ⟨ts, hts⟩ : ∃ ts, xs.mapM laxStr = some ts := by
    refine mapM_isSome_iff.mpr fun x hx => ?_
    obtain ⟨s, rfl⟩ := hxs x hx
    exact ⟨_, rfl⟩
  have g2 : (get fs "subject").bind laxStr = some s := by rw [h2]; rfl
  have g3 : (get fs "requested_concepts").bind (Decode.list laxStr) = some ts := by
    rw [h3]
    exact list_laxStr_eq_some.mpr ⟨xs, rfl, hts⟩
  rcases hclar with ⟨hr, s7, h7, hblank⟩ | ⟨hr, h7, hconcepts, hblank⟩
  · refine ⟨⟨a1, s, ts, a4, a5, true, some s7⟩, ⟨hd, by rw [h1]; exact g1, g2, g3,
      by rw [h4]; exact g4, g5, hr, by rw [h7]; rfl⟩, ?_⟩
    exact intentViolation_eq_none.mpr (Or.inl ⟨rfl, _, rfl, hblank⟩)
  · refine ⟨⟨a1, s, ts, a4, a5, false, none⟩, ⟨hd, by rw [h1]; exact g1, g2, g3,
      by rw [h4]; exact g4, g5, hr, by rw [h7]; rfl⟩, ?_⟩
    refine intentViolation_eq_none.mpr (Or.inr ⟨rfl, rfl, fun hnil => ?_, hblank s h2⟩)
    rw [mapM_eq_nil hts] at hnil
    exact hconcepts (by rw [h3, hnil])

/-- **A value is accepted exactly if it meets the contract under the lax readings.** -/
theorem accepts_iff {j : Json} : (∃ i, runtimeIntentOf j = .ok i) ↔ ∃ fs, j = .obj fs ∧ LaxContract fs := by
  rw [runtimeIntentOf_eq_ok]
  simp only [laxIntentFields_eq_some]
  constructor
  · rintro ⟨f, ⟨fs, rfl, hr⟩, hv⟩
    exact ⟨fs, rfl, laxContract_of_reads hr hv⟩
  · rintro ⟨fs, rfl, h⟩
    obtain ⟨f, hr, hv⟩ := reads_of_laxContract h
    exact ⟨f, ⟨fs, rfl, hr⟩, hv⟩

/-- A boolean is read as itself. -/
theorem laxContract_of_contract {fs : Fields}
    (h : Meets fs (get fs "explicit_parameters") ((get fs "requires_clarification").bind bool)) :
    LaxContract fs ∧ AsDocumented fs := by
  obtain ⟨hd, h1, h2, h3, h4, ⟨ps, hps, hscalar⟩, hclar⟩ := h
  have hbool : ∀ b, (get fs "requires_clarification").bind bool = some b →
      get fs "requires_clarification" = some (.bool b) := by
    intro b hb
    obtain ⟨v, hv, hb⟩ := Option.bind_eq_some_iff.mp hb
    cases v <;> simp_all [Decode.bool]
  have hread : ∃ b, get fs "requires_clarification" = some (.bool b) := by
    rcases hclar with ⟨hb, -⟩ | ⟨hb, -⟩
    · exact ⟨true, hbool true hb⟩
    · exact ⟨false, hbool false hb⟩
  obtain ⟨b, hb⟩ := hread
  refine ⟨⟨hd, h1, h2, h3, h4, ⟨ps, by rw [hps]; rfl, hscalar⟩, ?_⟩, by rw [hps]; rfl, b, hb⟩
  rw [hb] at hclar ⊢
  exact hclar

/-- With the two fields as documented, the readings make no difference. -/
theorem contract_of_laxContract {fs : Fields} (h : LaxContract fs) (ha : AsDocumented fs) :
    Meets fs (get fs "explicit_parameters") ((get fs "requires_clarification").bind bool) := by
  obtain ⟨hsome, b, hb⟩ := ha
  obtain ⟨v, hv⟩ := Option.isSome_iff_exists.mp hsome
  unfold LaxContract at h
  rw [hv, hb] at h ⊢
  exact h

/-- **The code accepts exactly the documented values, and raises its own error on the others, if and only if a value
that meets the contract under the lax readings has the two fields as documented.** -/
theorem acceptance_exact_iff (j : Json) :
    (((∃ i, runtimeIntentOf j = .ok i) ↔ Contract j) ∧
      (¬ Contract j → runtimeIntentOf j = .error (.intentContractViolation "RuntimeIntent Contract violation"))) ↔
    ∀ fs, j = .obj fs → LaxContract fs → AsDocumented fs := by
  constructor
  · rintro ⟨h, -⟩ fs rfl hlax
    obtain ⟨fs', he, hmeets⟩ := h.mp (accepts_iff.mpr ⟨fs, rfl, hlax⟩)
    obtain rfl : fs = fs' := by simpa using he
    exact (laxContract_of_contract hmeets).2
  · intro h
    have hiff : (∃ i, runtimeIntentOf j = .ok i) ↔ Contract j := by
      rw [accepts_iff]
      constructor
      · rintro ⟨fs, rfl, hlax⟩
        exact ⟨fs, rfl, contract_of_laxContract hlax (h fs rfl hlax)⟩
      · rintro ⟨fs, rfl, hmeets⟩
        exact ⟨fs, rfl, (laxContract_of_contract hmeets).1⟩
    refine ⟨hiff, fun hno => ?_⟩
    rcases runtimeIntentOf_refused j with hok | hrefused
    · exact absurd (hiff.mp hok) hno
    · exact hrefused

/-- An intent without parameters, and with a word for the boolean. -/
def looseIntent : Json :=
  .obj [("request_type".toList, .str "lookup".toList),
    ("subject".toList, .str "product".toList),
    ("requested_concepts".toList, .arr [.str "inventory".toList]),
    ("requested_output".toList, .str "list".toList),
    ("requires_clarification".toList, .str "No".toList), ("clarification_reason".toList, .null)]

/-- A missing field and a word for a boolean are let through. -/
theorem loose_intent_accepted : ¬ ∀ j : Json, (∃ i, runtimeIntentOf j = .ok i) ↔ Contract j := by
  intro hall
  have hok : (runtimeIntentOf looseIntent).toOption.isSome = true := by decide +kernel
  obtain ⟨i, hi⟩ := Option.isSome_iff_exists.mp hok
  have haccepted : ∃ i, runtimeIntentOf looseIntent = .ok i := by
    cases h : runtimeIntentOf looseIntent with
    | ok i => exact ⟨i, rfl⟩
    | error e => simp [h, Except.toOption] at hi
  obtain ⟨fs, he, hmeets⟩ := (hall looseIntent).mp haccepted
  obtain ⟨ps, hps, -⟩ := hmeets.explicitParameters
  have hmissing : (get fs "explicit_parameters").isNone = true := by
    obtain rfl := Json.obj.inj he
    decide
  simp [hps] at hmissing

end DataAgent.Agent
