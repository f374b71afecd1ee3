import DataAgent.Python.Text

/-!
# Table policies

`models.table_policy.TablePolicy`: the validator of `allowed_columns`, which the ORM calls on every assignment.

* `checkColumns` : the loop over the elements; **`checkColumns_ok`** : what it lets pass;
* `TablePolicy.assign` : an assignment; what the validator refuses is not stored;
* **`names_iff`** : the accepted values are the sets of names exactly where no name is spelled in two ways.
-/

namespace DataAgent.Models
open Python

/-- An element of a list given for `allowed_columns`. -/
inductive Element where
  | str (s : Text)
  /-- A value that is no `str`. -/
  | other
  deriving DecidableEq, Repr

/-- A value given for `allowed_columns`. -/
inductive Value where
  | list (elements : List Element)
  /-- A value that is no `list`. -/
  | other
  deriving DecidableEq, Repr

/-- A row of `table_policies`, as far as the validator is concerned; the column may not be set yet. -/
structure TablePolicy where
  allowedColumns : Option Value
  deriving DecidableEq, Repr

/-- The loop of `validate_allowed_columns`, with the names seen so far; an error is the text of a `ValueError`. -/
def checkColumns : List Text → List Element → Except String Unit
  | _, [] => .ok ()
  | _, .other :: _ => .error "allowed_columns elements must be strings"
  | seen, .str columnName :: rest => do
    let trimmed := strip columnName
    raiseUnless (!trimmed.isEmpty) "allowed_columns elements must not be blank"
    raiseUnless (trimmed != ['*']) "allowed_columns must not contain the wildcard '*'"
    raiseUnless (!seen.contains columnName)
      ("allowed_columns contains a duplicate column: " ++ String.ofList columnName)
    checkColumns (columnName :: seen) rest

def validateAllowedColumns : Value → Except String Value
  | .other => .error "allowed_columns must be a JSON array"
  | .list value => do
    checkColumns [] value
    return .list value

/-- `policy.allowed_columns = value`: the policy afterwards, and how the assignment ends. -/
def TablePolicy.assign (policy : TablePolicy) (value : Value) : TablePolicy × Except String Unit :=
  match validateAllowedColumns value with
  | .ok stored => ({ policy with allowedColumns := some stored }, .ok ())
  | .error e => (policy, .error e)

/-! ## Names -/

/-- The text names a column: it is not blank, and not the wildcard. -/
def IsName (t : Text) : Prop := strip t ≠ [] ∧ strip t ≠ ['*']

/-- A list of names, none of them twice once they are trimmed. -/
def Names (value : Value) : Prop :=
  ∃ ts : List Text, value = .list (ts.map .str) ∧ (∀ t ∈ ts, IsName t) ∧ (ts.map strip).Nodup

/-- The only defect of the value is not that one name is spelled with and without whitespace around it. -/
def OneSpelling (value : Value) : Prop :=
  ∀ ts : List Text, value = .list (ts.map .str) → (∀ t ∈ ts, IsName t) → ts.Nodup →
    ∀ x ∈ ts, ∀ y ∈ ts, strip x = strip y → x = y

theorem str_injective : Function.Injective (List.map Element.str) :=
  List.map_injective_iff.mpr fun _ _ h => Element.str.inj h

/-- **The loop lets distinct names pass**: its set has the names as they are written. -/
theorem checkColumns_ok {seen : List Text} {xs : List Element} {u : Unit} : checkColumns seen xs = .ok u ↔
    ∃ ts : List Text, xs = ts.map .str ∧ (∀ t ∈ ts, IsName t) ∧ ts.Nodup ∧ ∀ t ∈ ts, t ∉ seen := by
  induction xs generalizing seen with
  | nil =>
    simp only [checkColumns, true_iff]
    exact ⟨[], rfl, by simp, List.nodup_nil, by simp⟩
  | cons x xs ih =>
    cases x with
    | other =>
      refine iff_of_false (by simp [checkColumns]) ?_
      rintro ⟨ts, hts, -⟩
      cases ts <;> simp at hts
    | str t =>
      have hname : (strip t).isEmpty = false ∧ (strip t != ['*']) = true ↔ IsName t := by
        rw [IsName, bne_iff_ne, List.isEmpty_eq_false_iff]
      simp only [checkColumns, raiseUnless_bind, Bool.not_eq_true', List.contains_eq_mem, decide_eq_false_iff_not, ih]
      constructor
      · rintro ⟨h1, h2, h3, ts, rfl, hts, hnodup, hseen⟩
        refine ⟨t :: ts, rfl, List.forall_mem_cons.mpr ⟨hname.mp ⟨h1, h2⟩, hts⟩, ?_, ?_⟩
        · exact List.nodup_cons.mpr ⟨fun ht => hseen t ht (by simp), hnodup⟩
        · exact List.forall_mem_cons.mpr ⟨h3, fun y hy hmem => hseen y hy (List.mem_cons_of_mem _ hmem)⟩
      · rintro ⟨ts, heq, hts, hnodup, hseen⟩
        cases ts with
        | nil => simp at heq
        | cons t' ts =>
          obtain ⟨rfl, rfl⟩ : t = t' ∧ xs = ts.map .str := by simpa using heq
          obtain ⟨h1, h2⟩ := hname.mpr (hts t (by simp))
          rw [List.nodup_cons] at hnodup
          refine ⟨h1, h2, hseen t (by simp), ts, rfl, fun y hy => hts y (by simp [hy]), hnodup.2, fun y hy hmem => ?_⟩
          rcases List.mem_cons.mp hmem with rfl | hmem
          · exact hnodup.1 hy
          · exact hseen y (by simp [hy]) hmem

theorem validateAllowedColumns_ok {value stored : Value} : validateAllowedColumns value = .ok stored ↔
    stored = value ∧ ∃ ts : List Text, value = .list (ts.map .str) ∧ (∀ t ∈ ts, IsName t) ∧ ts.Nodup := by
  cases value with
  | other => simp [validateAllowedColumns]
  | list xs =>
    simp only [validateAllowedColumns, bind_eq_ok, checkColumns_ok]
    constructor
    · rintro ⟨-, ⟨ts, rfl, hts, hnodup, -⟩, hstored⟩
      exact ⟨(Except.ok.inj hstored).symm, ts, rfl, hts, hnodup⟩
    · rintro ⟨rfl, ts, heq, hts, hnodup⟩
      obtain rfl : xs = ts.map .str := by simpa using heq
      exact ⟨(), ⟨ts, rfl, hts, hnodup, by simp⟩, rfl⟩

/-- An assignment that is refused leaves the policy as it was. -/
theorem TablePolicy.assign_error {policy : TablePolicy} {value : Value} {e : String}
    (h : validateAllowedColumns value = .error e) : policy.assign value = (policy, .error e) := by
  rw [TablePolicy.assign, h]

/-- **The accepted values are the sets of names, and any other is refused and not stored, exactly where no name is
spelled in two ways.** -/
theorem names_iff (policy : TablePolicy) (value : Value) :
    ((∀ stored, validateAllowedColumns value = .ok stored → Names stored) ∧
      (¬ Names value → (∃ e, validateAllowedColumns value = .error e) ∧ (policy.assign value).1 = policy)) ↔
      OneSpelling value := by
  constructor
  · rintro ⟨haccepted, -⟩ ts rfl hts hnodup
    obtain ⟨ts', heq, -, hstrip⟩ := haccepted _ (validateAllowedColumns_ok.mpr ⟨rfl, ts, rfl, hts, hnodup⟩)
    obtain rfl := str_injective (Value.list.inj heq)
    exact fun x hx y hy hxy => List.inj_on_of_nodup_map hstrip hx hy hxy
  · intro hone
    have hnames : ∀ stored, validateAllowedColumns value = .ok stored → Names stored := by
      intro stored h
      obtain ⟨rfl, ts, rfl, hts, hnodup⟩ := validateAllowedColumns_ok.mp h
      exact ⟨ts, rfl, hts, hnodup.map_on (hone ts rfl hts hnodup)⟩
    refine ⟨hnames, fun hno => ?_⟩
    cases h : validateAllowedColumns value with
    | ok stored =>
      obtain ⟨rfl, -⟩ := validateAllowedColumns_ok.mp h
      exact absurd (hnames _ h) hno
    | error e => exact ⟨⟨e, rfl⟩, by rw [TablePolicy.assign_error h]⟩

/-- A column twice, the second time with a blank before it, is accepted and stored. -/
theorem two_spellings : ¬ ∀ (policy : TablePolicy) (value : Value),
    (∀ stored, validateAllowedColumns value = .ok stored → Names stored) ∧
      (¬ Names value → (∃ e, validateAllowedColumns value = .error e) ∧ (policy.assign value).1 = policy) := by
  intro hall
  let names : List Text := ["Name".toList, " Name".toList]
  have h : validateAllowedColumns (.list (names.map .str)) = .ok (.list (names.map .str)) := by decide
  obtain ⟨ts, heq, -, hnodup⟩ := (hall ⟨none⟩ _).1 _ h
  obtain rfl := str_injective (Value.list.inj heq)
  exact absurd hnodup (by decide)

end DataAgent.Models
