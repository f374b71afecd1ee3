import DataAgent.Guardrail.Items

/-!
# The split at top-level commas

`_split_top_level_commas` on any text, with parentheses that need not match.

* `depth`, `topLevelCommas` : the running depth of parentheses, and the commas where it is 0;
* `intercalate_splitLoop`, `length_splitLoop` : the pieces give the text back, one more of them than such commas;
* **`split_exact`** : the two together, and the split of a list of items that the commas separate.
-/

namespace DataAgent.Guardrail
open Python

/-- The depth of parentheses after a text. -/
def depth (t : Text) : Int := t.count '(' - t.count ')'

/-- The commas before which the depth is 0. -/
def topLevelCommas (t : Text) : Nat :=
  (List.range t.length).countP fun i => t[i]? == some ',' && depth (t.take i) == 0

/-- Parentheses match in the text, and no comma stands outside of them. -/
structure TopLevelItem (w : Text) : Prop where
  nonneg : ∀ p, p <+: w → 0 ≤ depth p
  closed : depth w = 0
  comma : ∀ p, p ++ [','] <+: w → depth p ≠ 0

instance (w : Text) : Decidable (TopLevelItem w) :=
  decidable_of_iff ((∀ p ∈ w.inits, 0 ≤ depth p) ∧ depth w = 0 ∧ ∀ p ∈ w.inits, p ++ [','] <+: w → depth p ≠ 0)
    ⟨fun h => ⟨fun p hp => h.1 p ((List.mem_inits p w).mpr hp), h.2.1, fun p hp =>
      h.2.2 p ((List.mem_inits p w).mpr ((List.prefix_append p _).trans hp)) hp⟩,
    fun h => ⟨fun p hp => h.nonneg p ((List.mem_inits p w).mp hp), h.closed, fun p _ hp => h.comma p hp⟩⟩

theorem depth_append (s t : Text) : depth (s ++ t) = depth s + depth t := by
  simp only [depth, List.count_append, Nat.cast_add]
  omega

/-- One step of the loop: the depth moves with the character, and a comma at depth 0 ends a piece. -/
theorem splitLoop_cons (d : Int) (cur : Text) (c : Char) (t : Text) : splitLoop d cur (c :: t) =
    if c = ',' ∧ d = 0 then cur :: splitLoop d [] t else splitLoop (d + depth [c]) (cur ++ [c]) t := by
  by_cases h1 : c = '('
  · subst h1
    rw [splitLoop, if_pos rfl, if_neg (by simp), show depth ['('] = 1 from rfl]
  · by_cases h2 : c = ')'
    · subst h2
      rw [splitLoop, if_neg (by decide), if_pos rfl, if_neg (by simp), show depth [')'] = -1 from rfl]
      rfl
    · have hd : depth [c] = 0 := by simp [depth, h1, h2]
      rw [splitLoop, if_neg h1, if_neg h2, hd, add_zero]

theorem splitLoop_ne_nil (d : Int) (cur t : Text) : splitLoop d cur t ≠ [] := by
  induction t generalizing d cur with
  | nil => simp [splitLoop]
  | cons c t ih =>
    rw [splitLoop_cons]
    split
    · simp
    · exact ih _ _

/-- **The pieces give the text back.** -/
theorem intercalate_splitLoop (d : Int) (cur t : Text) : [','].intercalate (splitLoop d cur t) = cur ++ t := by
  induction t generalizing d cur with
  | nil => simp [splitLoop]
  | cons c t ih =>
    rw [splitLoop_cons]
    split
    · rename_i h
      obtain ⟨y, ys, hys⟩ := List.exists_cons_of_ne_nil (splitLoop_ne_nil d [] t)
      have ih := ih d []
      rw [hys] at ih ⊢
      rw [List.intercalate_cons_cons, ih, h.1]
      simp
    · rw [ih]
      simp

/-- There is one piece more than commas at depth 0; `pre` is what the loop has read. -/
theorem length_splitLoop (pre cur t : Text) : (splitLoop (depth pre) cur t).length =
    1 + (List.range t.length).countP fun i => t[i]? == some ',' && depth (pre ++ t.take i) == 0 := by
  induction t generalizing pre cur with
  | nil => rfl
  | cons c t ih =>
    have hshift : ((List.range t.length).map Nat.succ).countP
        (fun i => (c :: t)[i]? == some ',' && depth (pre ++ (c :: t).take i) == 0) =
        (List.range t.length).countP fun i => t[i]? == some ',' && depth ((pre ++ [c]) ++ t.take i) == 0 := by
      rw [List.countP_map]
      refine List.countP_congr fun i _ => ?_
      simp
    have hfirst : ((c :: t)[0]? == some ',' && depth (pre ++ (c :: t).take 0) == 0) = true ↔
        c = ',' ∧ depth pre = 0 := by
      simp
    rw [List.length_cons, List.range_succ_eq_map, List.countP_cons, hshift, splitLoop_cons]
    simp only [hfirst]
    split
    · rename_i h
      have hd : depth (pre ++ [c]) = depth pre := by
        rw [depth_append, h.1, show depth [','] = 0 from rfl, add_zero]
      rw [List.length_cons, ← hd, ih]
      omega
    · rw [← depth_append, ih]
      omega

/-- An item is read as a part of one piece. -/
theorem TopLevelItem.balanced {w : Text} (h : TopLevelItem w) : Balanced 0 w := by
  intro d cur t hd
  have hrun : ∀ rest pre cur : Text, w = pre ++ rest →
      splitLoop (d + depth pre) cur (rest ++ t) = splitLoop d (cur ++ rest) t := by
    intro rest
    induction rest with
    | nil =>
      intro pre cur hw
      have hclosed := h.closed
      rw [hw, List.append_nil] at hclosed
      rw [hclosed, add_zero, List.nil_append, List.append_nil]
    | cons c rest ih =>
      intro pre cur hw
      have hnot : ¬ (c = ',' ∧ d + depth pre = 0) := by
        rintro ⟨rfl, h0⟩
        have hpre := h.nonneg pre ⟨_, hw.symm⟩
        exact h.comma pre ⟨rest, by rw [hw]; simp⟩ (by omega)
      have hw' : w = (pre ++ [c]) ++ rest := by rw [hw]; simp
      rw [List.cons_append, splitLoop_cons, if_neg hnot, add_assoc, ← depth_append, ih _ _ hw']
      simp
  have h0 := hrun w [] cur rfl
  rwa [show depth [] = 0 from rfl, add_zero] at h0

/-- **The split is exact**: items between commas are found again, each stripped; and of any text the pieces, before
they are stripped, are the text cut at the commas at depth 0. -/
theorem split_exact :
    (∀ items : List Text, items ≠ [] → (∀ w ∈ items, TopLevelItem w) →
      splitTopLevelCommas ([','].intercalate items) = items.map strip) ∧
    ∀ t : Text, [','].intercalate (splitLoop 0 [] t) = t ∧ (splitLoop 0 [] t).length = 1 + topLevelCommas t := by
  constructor
  · intro items hne hitems
    obtain ⟨x, xs, rfl⟩ := List.exists_cons_of_ne_nil hne
    rw [splitTopLevelCommas, splitLoop_join fun w hw => (hitems w hw).balanced]
  · intro t
    refine ⟨by rw [intercalate_splitLoop, List.nil_append], ?_⟩
    have h := length_splitLoop [] [] t
    simpa [depth, topLevelCommas] using h

theorem split_exact_call : splitTopLevelCommas "a ,COUNT(b, c)".toList = ["a".toList, "COUNT(b, c)".toList] :=
  split_exact.1 ["a ".toList, "COUNT(b, c)".toList] (by decide) (by decide)

end DataAgent.Guardrail
