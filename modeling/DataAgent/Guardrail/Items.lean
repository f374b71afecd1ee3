import DataAgent.Guardrail.Accepts
import DataAgent.Guardrail.Clauses
import DataAgent.Python.Strip

/-!
# Lists of items

How the guardrail splits a list at its commas and compares the items.

* `Balanced` : texts that the split leaves whole; `splitLoop_join` : items joined by commas are split into them;
* **`normalize_items`** : the normal forms of the items are the split of the normal form;
* **`aliasColumn_sound`** : what the pattern of a group key finds.
-/

namespace DataAgent.Guardrail
open Python Regex Pattern
open TSql (Name plainStart plainPart fold)

variable {U : Unicode}

/-! ## Lists between separators -/

theorem mem_intercalate {α : Type} {x : α} {sep : List α} {ls : List (List α)} (h : x ∈ sep.intercalate ls) :
    x ∈ sep ∨ ∃ l ∈ ls, x ∈ l := by
  induction ls with
  | nil => simp at h
  | cons l ls ih =>
    cases ls with
    | nil => exact Or.inr ⟨l, by simp, by simpa using h⟩
    | cons l' ls =>
      rw [List.intercalate_cons_cons, List.mem_append, List.mem_append] at h
      rcases h with (h | h) | h
      · exact Or.inr ⟨l, by simp, h⟩
      · exact Or.inl h
      · exact (ih h).imp_right fun ⟨k, hk, hx⟩ => ⟨k, List.mem_cons_of_mem _ hk, hx⟩

theorem mem_intercalate_of_mem {α : Type} {x : α} {l sep : List α} {ls : List (List α)} (hl : l ∈ ls) (hx : x ∈ l) :
    x ∈ sep.intercalate ls := by
  induction ls with
  | nil => simp at hl
  | cons k ls ih =>
    cases ls with
    | nil =>
      obtain rfl := List.mem_singleton.mp hl
      simpa using hx
    | cons k' ls =>
      rw [List.intercalate_cons_cons, List.mem_append, List.mem_append]
      rcases List.mem_cons.mp hl with rfl | hl
      · exact Or.inl (Or.inl hx)
      · exact Or.inr (ih hl)

theorem flatMap_intercalate {α β : Type} (f : α → List β) (sep : List α) (ls : List (List α)) :
    (sep.intercalate ls).flatMap f = (sep.flatMap f).intercalate (ls.map fun l => l.flatMap f) := by
  induction ls with
  | nil => simp
  | cons l ls ih =>
    cases ls with
    | nil => simp
    | cons l' ls =>
      rw [List.intercalate_cons_cons, List.flatMap_append, List.flatMap_append, ih]
      simp only [List.map_cons, List.intercalate_cons_cons]

/-! ## Splitting -/

/-- From depth `k` on, the split reads the text as a part of one item. -/
def Balanced (k : Int) (w : Text) : Prop :=
  ∀ (d : Int) (cur t : Text), k ≤ d → splitLoop d cur (w ++ t) = splitLoop d (cur ++ w) t

/-- A character that ends no item and opens or closes nothing. -/
def inert (c : Char) : Bool := c != '(' && c != ')' && c != ','

theorem splitLoop_inert {c : Char} (h : inert c = true) (d : Int) (cur t : Text) :
    splitLoop d cur (c :: t) = splitLoop d (cur ++ [c]) t := by
  simp only [inert, Bool.and_eq_true, bne_iff_ne] at h
  simp [splitLoop, h]

theorem balanced_of_inert {w : Text} (h : ∀ c ∈ w, inert c = true) (k : Int) : Balanced k w := by
  intro d cur t _
  induction w generalizing cur with
  | nil => simp
  | cons c w ih =>
    rw [List.cons_append, splitLoop_inert (h c (by simp)), ih fun e he => h e (List.mem_cons_of_mem _ he)]
    simp

theorem splitLoop_join {x : Text} {xs : List Text} (h : ∀ w ∈ x :: xs, Balanced 0 w) :
    splitLoop 0 [] ([','].intercalate (x :: xs)) = x :: xs := by
  have hx := h x (by simp)
  induction xs generalizing x with
  | nil => simpa [splitLoop] using hx 0 [] [] le_rfl
  | cons y xs ih =>
    have ih := ih (fun w hw => h w (List.mem_cons_of_mem _ hw)) (h y (by simp))
    rw [List.intercalate_cons_cons, List.append_assoc, hx 0 [] _ le_rfl, List.nil_append, List.singleton_append]
    rw [splitLoop, if_neg (by decide), if_neg (by decide), if_pos (by simp), ih]

/-! ## Normal forms -/

/-- What is left of a character in a normal form. -/
def normalChar (c : Char) : Text := if c = '[' ∨ c = ']' ∨ isSpace c = true then [] else [c.toUpper]

def normal (t : Text) : Text := t.flatMap normalChar

theorem normalize_ascii {t : Text} (h : ∀ c ∈ t, c.toNat < 128 ∨ isSpace c = true) :
    normalizePredicate U t = normal t := by
  induction t with
  | nil => rfl
  | cons c t ih =>
    rw [← List.singleton_append, normalize_append, ih fun d hd => h d (List.mem_cons_of_mem _ hd), normal, normal,
      List.flatMap_append, List.flatMap_singleton]
    congr 1
    unfold normalChar
    split
    · rename_i hc
      have hnil : normalizePredicate U [c] = upper U [] := by
        rcases hc with rfl | rfl | hc
        · rfl
        · rfl
        · by_cases h1 : c = '[' <;> by_cases h2 : c = ']' <;> simp [normalizePredicate, h1, h2, hc]
      rw [hnil]
      rfl
    · rename_i hc
      push Not at hc
      have hascii : c.toNat < 128 := (h c (by simp)).resolve_right (by simp [hc.2.2])
      rw [normalize_of_neutral (by simpa using hc), upper_ascii (by simpa using hascii)]
      rfl

theorem inert_toUpper {c : Char} (h : inert c = true) : inert c.toUpper = true := by
  by_cases hc : plainPart c = true
  · rw [← TSql.plainPart_toUpper] at hc
    simp only [inert, Bool.and_eq_true, bne_iff_ne]
    refine ⟨⟨?_, ?_⟩, ?_⟩ <;> intro he <;> rw [he] at hc <;> exact absurd hc (by decide)
  · rwa [toUpper_of_not_plain (by simpa using hc)]

/-- Whitespace, brackets and letter case do not move the commas. -/
theorem splitLoop_normal (d : Int) (cur t : Text) :
    (splitLoop d cur t).map normal = splitLoop d (normal cur) (normal t) := by
  have happend : ∀ x y : Text, normal (x ++ y) = normal x ++ normal y := fun x y => List.flatMap_append
  induction t generalizing d cur with
  | nil => rfl
  | cons c t ih =>
    have hcons : normal (c :: t) = normalChar c ++ normal t := rfl
    have hsingle : normal [c] = normalChar c := by simp [normal]
    by_cases hi : inert c = true
    · rw [splitLoop_inert hi, ih, happend, hcons, hsingle]
      unfold normalChar
      split
      · simp
      · rw [List.singleton_append, splitLoop_inert (inert_toUpper hi)]
    · -- a parenthesis or a comma
      have hchar : normalChar c = [c] := by
        simp only [inert, Bool.and_eq_true, bne_iff_ne, not_and_or, not_not] at hi
        rcases hi with (rfl | rfl) | rfl <;> rfl
      rw [hcons, hchar, List.singleton_append, splitLoop, splitLoop]
      split_ifs
      · rw [ih, happend, hsingle, hchar]
      · rw [ih, happend, hsingle, hchar]
      · rw [List.map_cons, ih]
        rfl
      · rw [ih, happend, hsingle, hchar]

theorem mem_of_mem_splitLoop {d : Int} {cur t w : Text} (hw : w ∈ splitLoop d cur t) : ∀ c ∈ w, c ∈ cur ++ t := by
  induction t generalizing d cur with
  | nil =>
    obtain rfl : w = cur := by simpa [splitLoop] using hw
    simp
  | cons e t ih =>
    have step : ∀ {d : Int}, w ∈ splitLoop d (cur ++ [e]) t → ∀ c ∈ w, c ∈ cur ++ e :: t := by
      intro d h c hc
      simpa using ih h c hc
    rw [splitLoop] at hw
    split_ifs at hw
    · exact step hw
    · exact step hw
    · rcases List.mem_cons.mp hw with rfl | hw
      · exact fun c hc => List.mem_append_left _ hc
      · exact fun c hc => List.mem_append_right _ (List.mem_cons_of_mem _ (by simpa using ih hw c hc))
    · exact step hw

/-- **The normal forms of the items are the split of the normal form.** -/
theorem normalize_items {t : Text} (h : ∀ c ∈ t, c.toNat < 128 ∨ isSpace c = true) :
    (splitTopLevelCommas (strip t)).map (normalizePredicate U) = splitLoop 0 [] (normalizePredicate U t) := by
  have hs : ∀ c ∈ strip t, c.toNat < 128 ∨ isSpace c = true := fun c hc => h c (mem_of_mem_strip hc)
  have hsplit := splitLoop_normal 0 [] (strip t)
  rw [← strip_normalize, normalize_ascii hs, splitTopLevelCommas, List.map_map]
  rw [show splitLoop 0 [] (normal (strip t)) = (splitLoop 0 [] (strip t)).map normal from hsplit.symm]
  refine List.map_congr_left fun w hw => ?_
  rw [Function.comp_apply, strip_normalize, normalize_ascii]
  exact fun c hc => hs c (by simpa using mem_of_mem_splitLoop hw c hc)

/-! ## Dotted columns -/

def upperStart (c : Char) : Bool := c.isUpper || c == '_'
def upperPart (c : Char) : Bool := c.isUpper || c.isDigit || c == '_'

/-- An identifier in upper case. -/
def UpperName (a : Text) : Prop := ∃ c w, a = c :: w ∧ upperStart c = true ∧ ∀ d ∈ w, upperPart d = true

/-- The part of the pattern for one identifier. -/
def upperPattern : Pattern := cat [char upperStart, many upperPart]

theorem normalizedAliasColumnPattern_eq : normalizedAliasColumnPattern =
    cat [begins, group 1 upperPattern, chr '.', group 2 upperPattern, ends] := rfl

theorem mem_run_upperPattern {i : Nat} {b t : Text} {u : Cursor} {g : Groups}
    (h : (u, g) ∈ run (isWord U) (group i upperPattern) ⟨b, t⟩) :
    ∃ a t', t = a ++ t' ∧ UpperName a ∧ u = ⟨a.reverse ++ b, t'⟩ ∧ g = [(i, a)] := by
  obtain ⟨g₀, h0, rfl⟩ := mem_run_group.mp h
  obtain ⟨v, g₁, k, hchar, h1, rfl⟩ := mem_run_seq.mp h0
  obtain ⟨c, t, rfl, hc, rfl, rfl⟩ := mem_run_char.mp hchar
  obtain ⟨v, g₂, k, hmany, h2, rfl⟩ := mem_run_seq.mp h1
  obtain ⟨x, t, rfl, hx, rfl, rfl⟩ := mem_run_many.mp hmany
  obtain ⟨rfl, rfl⟩ := mem_run_empty.mp h2
  refine ⟨c :: x, t, rfl, ⟨c, x, rfl, hc, hx⟩, by simp, ?_⟩
  have := consumed_append b (x.reverse ++ c :: b) (c :: x) t
  rw [List.cons_append] at this
  rw [this]
  rfl

theorem mem_run_ends {s u : Cursor} {g : Groups} (h : (u, g) ∈ run (isWord U) ends s) :
    (s.after = [] ∨ s.after = ['\n']) ∧ g = [] := by
  unfold run at h
  split at h
  · rename_i hs
    exact ⟨by simpa using hs, (Prod.mk.inj (List.mem_singleton.mp h)).2⟩
  · simp at h

/-- It finds nothing else. -/
theorem aliasColumn_sound {q : Text} (hq : '\n' ∉ q) {m : Match}
    (h : matchStart (isWord U) normalizedAliasColumnPattern q = some m) :
    ∃ a b, q = dot a b ∧ UpperName a ∧ UpperName b ∧ m.groups = [(2, b), (1, a)] := by
  have h0 := mem_run_of_matchAt h
  rw [normalizedAliasColumnPattern_eq, Cursor.start] at h0
  obtain ⟨v, g₁, k₁, hbegins, h1, hg₁⟩ := mem_run_seq.mp h0
  obtain ⟨rfl, rfl⟩ : v = ⟨[], q⟩ ∧ g₁ = [] := by simpa [run] using hbegins
  obtain ⟨v, g₂, k₂, hleft, h2, hg₂⟩ := mem_run_seq.mp h1
  obtain ⟨a, t, rfl, ha, rfl, rfl⟩ := mem_run_upperPattern hleft
  obtain ⟨v, g₃, k₃, hdot, h3, hg₃⟩ := mem_run_seq.mp h2
  obtain ⟨c, t, rfl, hc, rfl, rfl⟩ := mem_run_char.mp hdot
  obtain ⟨v, g₄, k₄, hright, h4, hg₄⟩ := mem_run_seq.mp h3
  obtain ⟨b, t, rfl, hb, rfl, rfl⟩ := mem_run_upperPattern hright
  obtain ⟨v, g₅, k₅, hends, h5, hg₅⟩ := mem_run_seq.mp h4
  obtain ⟨hend, rfl⟩ := mem_run_ends hends
  obtain ⟨-, rfl⟩ := mem_run_empty.mp h5
  obtain rfl : c = '.' := by simpa using hc
  have hgroups : m.groups = [(2, b), (1, a)] := by
    rw [hg₁, hg₂, hg₃, hg₄, hg₅]
    rfl
  rcases hend with rfl | rfl
  · exact ⟨a, b, by simp [dot], ha, hb, hgroups⟩
  · exact absurd hq (by simp)

end DataAgent.Guardrail
