import DataAgent.Guardrail.Validate

/-!
# What `validate` raises

Apart from its own rejections `validate` raises one thing: the `ValueError` of `int` on a count with too many
digits (**`validate_error`**). The aliases of the two tables are there when they are looked up.
-/

namespace DataAgent.Guardrail
open Python Regex
open Agent (MetadataContext)

variable {U : Unicode}

/-- A rejection. -/
def Rejects (e : GuardError) : Prop := ∃ message, e = .sqlRejected message

theorem require_error {ok : Bool} {message : String} {e : GuardError} (h : require ok message = .error e) :
    Rejects e := by
  cases ok with
  | true => simp [require, raiseUnless] at h
  | false => exact ⟨message, (Except.error.inj h).symm⟩

theorem bind_error {α β : Type} {m : Guard α} {f : α → Guard β} {e : GuardError} (h : (m >>= f) = .error e) :
    m = .error e ∨ ∃ a, m = .ok a ∧ f a = .error e := by
  cases m with
  | error e' => exact Or.inl (by simpa [bind, Except.bind] using h)
  | ok a => exact Or.inr ⟨a, rfl, h⟩

/-- A guard fails with a rejection, or what follows it fails. -/
theorem require_bind_error {α : Type} {ok : Bool} {message : String} {f : Unit → Guard α} {e : GuardError}
    (h : (require ok message >>= f) = .error e) : Rejects e ∨ f () = .error e := by
  rcases bind_error h with h | ⟨u, -, h⟩
  · exact Or.inl (require_error h)
  · exact Or.inr h

theorem clean_error {sql : Text} {e : GuardError} (h : clean sql = .error e) : Rejects e := by
  unfold clean at h
  iterate 4 rcases require_bind_error h with h | h; exact h
  simp [pure, Except.pure] at h

theorem checkSelect_error {cleaned : Text} {e : GuardError} (h : checkSelect U cleaned = .error e) : Rejects e := by
  unfold checkSelect at h
  iterate 2 rcases require_bind_error h with h | h; exact h
  split at h
  · exact ⟨_, (Except.error.inj h).symm⟩
  · simp [pure, Except.pure] at h

/-- The count after `TOP` has more digits than `int` converts. -/
def OverlongTop (U : Unicode) (cleaned : Text) : Prop :=
  ∃ m, matchStart (isWord U) (topPattern U) cleaned = some m ∧ maxStrDigits < ((m.group 1).getD []).length

theorem checkTop_error {cleaned : Text} {e : GuardError} (h : checkTop U cleaned = .error e) :
    Rejects e ∨ (e = .valueError ∧ OverlongTop U cleaned) := by
  unfold checkTop at h
  split at h
  · exact Or.inl ⟨_, (Except.error.inj h).symm⟩
  rename_i m hm
  split at h
  · rename_i hint
    refine Or.inr ⟨(Except.error.inj h).symm, m, hm, ?_⟩
    simpa [intOf] using hint
  · iterate 2 rcases require_bind_error h with h | h; exact Or.inl h
    simp [pure, Except.pure] at h

theorem checkTop_of_overlong {cleaned : Text} (h : OverlongTop U cleaned) :
    checkTop U cleaned = .error .valueError := by
  obtain ⟨m, hm, hlen⟩ := h
  simp [checkTop, hm, intOf, Nat.not_le.mpr hlen]

theorem collectTableRefs_error {d : AliasMap} {ms : List Match} {e : GuardError}
    (h : collectTableRefs U d ms = .error e) : Rejects e := by
  induction ms generalizing d with
  | nil => simp [collectTableRefs] at h
  | cons m ms ih =>
    rw [collectTableRefs] at h
    rcases require_bind_error h with h | h
    · exact h
    split at h
    · exact ⟨_, (Except.error.inj h).symm⟩
    · iterate 2 rcases require_bind_error h with h | h; exact h
      exact ih h

theorem collectOutputAliases_error {spans : List (Nat × Nat)} {ms : List Match} {e : GuardError}
    (h : collectOutputAliases spans ms = .error e) : Rejects e := by
  induction ms with
  | nil => simp [collectOutputAliases] at h
  | cons m ms ih =>
    rw [collectOutputAliases] at h
    split at h
    · exact ih h
    · rcases require_bind_error h with h | h
      · exact h
      rcases bind_error h with h | ⟨a, -, h⟩
      · exact ih h
      · simp [pure, Except.pure] at h

theorem checkIdentifiers_error {allowed : List Text} {ms : List Match} {e : GuardError}
    (h : checkIdentifiers U allowed ms = .error e) : Rejects e := by
  induction ms with
  | nil => simp [checkIdentifiers] at h
  | cons m ms ih =>
    rw [checkIdentifiers] at h
    rcases require_bind_error h with h | h
    · exact h
    · exact ih h

theorem checkOrderBy_error {cleaned : Text} {e : GuardError} (h : checkOrderBy U cleaned = .error e) : Rejects e := by
  unfold checkOrderBy at h
  rcases require_bind_error h with h | h
  · exact h
  · exact require_error h

/-- Both tables have an alias once `checkBothTables` lets the map pass. -/
theorem nextAlias_ok {d : AliasMap} (h : checkBothTables d = .ok ()) {name : Text} (hname : name ∈ allowedTables) :
    ∃ a, nextAlias d name = .ok a := by
  unfold checkBothTables require at h
  rw [raiseUnless_eq_ok, List.isEmpty_iff, List.filter_eq_nil_iff] at h
  have hmem : name ∈ d.map Prod.snd := by simpa using h name hname
  obtain ⟨x, hx, hxn⟩ := List.mem_map.mp hmem
  unfold nextAlias
  cases hf : d.find? (fun a => decide (a.2 = name)) with
  | some a => exact ⟨a.1, rfl⟩
  | none =>
    rw [List.find?_eq_none] at hf
    exact absurd (by simpa using hxn) (hf x hx)

theorem checkOn_error {p i cleaned : Text} {e : GuardError} (h : checkOn U p i cleaned = .error e) : Rejects e := by
  unfold checkOn at h
  split at h
  · exact ⟨_, (Except.error.inj h).symm⟩
  · exact require_error h

theorem checkGroupKeys_error {d : AliasMap} {seen items : List Text} {e : GuardError}
    (h : checkGroupKeys U d seen items = .error e) : Rejects e := by
  induction items generalizing seen with
  | nil => simp [checkGroupKeys] at h
  | cons item items ih =>
    rw [checkGroupKeys] at h
    split at h
    · exact ⟨_, (Except.error.inj h).symm⟩
    · iterate 3 rcases require_bind_error h with h | h; exact h
      exact ih h

theorem checkGroupBy_error {d : AliasMap} {cleaned : Text} {e : GuardError} (h : checkGroupBy U d cleaned = .error e) :
    Rejects e := by
  unfold checkGroupBy at h
  iterate 3 rcases require_bind_error h with h | h; exact h
  rcases bind_error h with h | ⟨seen, -, h⟩
  · exact checkGroupKeys_error h
  · exact require_error h

theorem checkHaving_error {p i cleaned : Text} {e : GuardError} (h : checkHaving U p i cleaned = .error e) :
    Rejects e := by
  unfold checkHaving at h
  split at h
  · exact ⟨_, (Except.error.inj h).symm⟩
  · exact require_error h

theorem checkSelectItems_error {expected : List (Text × Text)} {seen items : List Text} {e : GuardError}
    (h : checkSelectItems U expected seen items = .error e) : Rejects e := by
  induction items generalizing seen with
  | nil => simp [checkSelectItems] at h
  | cons item items ih =>
    rw [checkSelectItems] at h
    split at h
    · exact ⟨_, (Except.error.inj h).symm⟩
    simp only at h
    split at h
    · exact ⟨_, (Except.error.inj h).symm⟩
    · iterate 2 rcases require_bind_error h with h | h; exact h
      exact ih h

theorem checkSelectList_error {p i : Text} {m : Match} {e : GuardError} (h : checkSelectList U p i m = .error e) :
    Rejects e := by
  unfold checkSelectList at h
  rcases require_bind_error h with h | h
  · exact h
  rcases bind_error h with h | ⟨seen, -, h⟩
  · exact checkSelectItems_error h
  · exact require_error h

/-- The checks of the demo scope reject, and raise nothing else. -/
theorem validate_error {sql : Text} {context : MetadataContext} {e : GuardError}
    (h : validate U sql context = .error e) :
    Rejects e ∨ (e = .valueError ∧ ∃ cleaned, clean sql = .ok cleaned ∧ checkSelect U cleaned = .ok () ∧
      OverlongTop U cleaned) := by
  unfold validate at h
  rcases bind_error h with h | ⟨cleaned, hclean, h⟩
  · exact Or.inl (clean_error h)
  rcases bind_error h with h | ⟨u, hselect, h⟩
  · exact Or.inl (checkSelect_error h)
  rcases bind_error h with h | ⟨topMatch, -, h⟩
  · exact (checkTop_error h).imp_right fun ⟨he, ht⟩ => ⟨he, cleaned, hclean, hselect, ht⟩
  left
  rcases bind_error h with h | ⟨d, -, h⟩
  · exact collectTableRefs_error h
  rcases require_bind_error h with h | h
  · exact h
  rcases bind_error h with h | ⟨outputAliases, -, h⟩
  · exact collectOutputAliases_error h
  rcases bind_error h with h | ⟨u, -, h⟩
  · exact checkIdentifiers_error h
  rcases bind_error h with h | ⟨u, -, h⟩
  · exact checkOrderBy_error h
  rcases bind_error h with h | ⟨u, hboth, h⟩
  · exact require_error h
  obtain ⟨p, hp⟩ := nextAlias_ok hboth (show tblProduct ∈ allowedTables by simp [allowedTables])
  obtain ⟨i, hi⟩ := nextAlias_ok hboth (show tblProductInventory ∈ allowedTables by simp [allowedTables])
  rcases bind_error h with h | ⟨p', hp', h⟩
  · rw [hp] at h
    simp at h
  rcases bind_error h with h | ⟨i', hi', h⟩
  · rw [hi] at h
    simp at h
  rcases bind_error h with h | ⟨u, -, h⟩
  · exact checkOn_error h
  rcases bind_error h with h | ⟨u, -, h⟩
  · exact checkGroupBy_error h
  rcases bind_error h with h | ⟨u, -, h⟩
  · exact checkHaving_error h
  rcases bind_error h with h | ⟨u, -, h⟩
  · exact checkSelectList_error h
  · simp [pure, Except.pure] at h

/-- **`validate` raises the `ValueError` of `int` exactly on an overlong count that the rules before let pass.** -/
theorem validate_valueError {sql : Text} {context : MetadataContext} :
    validate U sql context = .error .valueError ↔
      ∃ cleaned, clean sql = .ok cleaned ∧ checkSelect U cleaned = .ok () ∧ OverlongTop U cleaned := by
  constructor
  · intro h
    rcases validate_error h with ⟨message, hr⟩ | ⟨-, ht⟩
    · simp at hr
    · exact ht
  · rintro ⟨cleaned, hclean, hselect, htop⟩
    simp [validate, hclean, hselect, checkTop_of_overlong htop, bind, Except.bind]

end DataAgent.Guardrail
