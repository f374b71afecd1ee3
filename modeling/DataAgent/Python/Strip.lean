import DataAgent.Python.Text

/-!
# Trims

What `str.strip` takes away and what it leaves.

* `Trimmed` : a text that every trim leaves alone; **`trimmed_strip`**, `Trimmed.strip_eq`;
* `strip_append_left`, `strip_append_right` : whitespace around a text does not matter; `strip_split` : there is
  nothing else that a trim takes away;
* `SolidUpper` : upper-casing brings in no whitespace.
-/

namespace DataAgent.Python

/-- No whitespace at either end. -/
def Trimmed (t : Text) : Prop := (t.head?.any isSpace = false) ∧ t.getLast?.any isSpace = false

theorem dropWhile_eq_self {p : Char → Bool} {t : Text} (h : t.head?.any p = false) : t.dropWhile p = t := by
  cases t with
  | nil => rfl
  | cons c t =>
    have hc : p c = false := by simpa using h
    rw [List.dropWhile_cons_of_neg (by simp [hc])]

theorem rdropWhile_eq_self {p : Char → Bool} {t : Text} (h : t.getLast?.any p = false) : t.rdropWhile p = t := by
  rw [List.rdropWhile, dropWhile_eq_self (by rwa [List.head?_reverse]), List.reverse_reverse]

theorem head_dropWhile (p : Char → Bool) (t : Text) : (t.dropWhile p).head?.any p = false := by
  induction t with
  | nil => rfl
  | cons c t ih =>
    by_cases hc : p c = true
    · rwa [List.dropWhile_cons_of_pos hc]
    · rw [List.dropWhile_cons_of_neg hc]
      simpa using hc

theorem last_rdropWhile (p : Char → Bool) (t : Text) : (t.rdropWhile p).getLast?.any p = false := by
  rw [List.rdropWhile, List.getLast?_reverse]
  exact head_dropWhile p _

theorem head_of_isPrefix {p : Char → Bool} {s t : Text} (hs : s <+: t) (h : t.head?.any p = false) :
    s.head?.any p = false := by
  obtain ⟨u, rfl⟩ := hs
  cases s with
  | nil => rfl
  | cons c s => simpa using h

theorem trimmed_strip (t : Text) : Trimmed (strip t) :=
  ⟨head_of_isPrefix (List.rdropWhile_prefix _ _) (head_dropWhile _ t), last_rdropWhile _ _⟩

theorem Trimmed.strip_eq {t : Text} (h : Trimmed t) : strip t = t := by
  rw [strip, rstrip, dropWhile_eq_self h.1, rdropWhile_eq_self h.2]

theorem mem_of_mem_strip {t : Text} {c : Char} (h : c ∈ strip t) : c ∈ t :=
  (List.dropWhile_suffix _).subset ((List.rdropWhile_prefix _ _).subset h)

theorem strip_append_left {g : Text} (hg : ∀ c ∈ g, isSpace c = true) (t : Text) : strip (g ++ t) = strip t := by
  rw [strip, List.dropWhile_append_of_pos hg, ← strip]

theorem strip_append_right {g : Text} (hg : ∀ c ∈ g, isSpace c = true) (t : Text) : strip (t ++ g) = strip t := by
  by_cases ht : ∀ c ∈ t, isSpace c = true
  · rw [strip_append_left ht, ← List.append_nil t, strip_append_left ht, ← List.append_nil g, strip_append_left hg]
  · rw [strip, strip, List.dropWhile_append, if_neg]
    · rw [rstrip, rstrip, List.rdropWhile, List.rdropWhile, List.reverse_append,
        List.dropWhile_append_of_pos fun c hc => hg c (List.mem_reverse.mp hc)]
    · rw [List.isEmpty_iff, List.dropWhile_eq_nil_iff]
      exact ht

/-- A text is its trim with whitespace around it. -/
theorem strip_split (t : Text) : ∃ g h, t = g ++ (strip t ++ h) ∧ (∀ c ∈ g, isSpace c = true) ∧
    ∀ c ∈ h, isSpace c = true := by
  refine ⟨t.takeWhile isSpace, (t.dropWhile isSpace).rtakeWhile isSpace, ?_, fun c hc => List.mem_takeWhile_imp hc,
    fun c hc => List.mem_rtakeWhile_imp hc⟩
  rw [strip, rstrip, List.rdropWhile_append_rtakeWhile, List.takeWhile_append_dropWhile]

theorem strip_eq_nil {t : Text} : strip t = [] ↔ ∀ c ∈ t, isSpace c = true := by
  constructor
  · intro h c hc
    obtain ⟨g, k, ht, hg, hk⟩ := strip_split t
    rw [h, List.nil_append] at ht
    rw [ht, List.mem_append] at hc
    rcases hc with hc | hc
    · exact hg c hc
    · exact hk c hc
  · intro h
    rw [← List.append_nil t, strip_append_left h]
    rfl

/-- A trim around a character that is no whitespace. -/
theorem strip_around {c : Char} (hc : isSpace c = false) (a b : Text) :
    strip (a ++ c :: b) = a.dropWhile isSpace ++ c :: b.rdropWhile isSpace := by
  have hsplit : a ++ c :: b = a.takeWhile isSpace ++ ((a.dropWhile isSpace ++ c :: b.rdropWhile isSpace) ++
      b.rtakeWhile isSpace) := by
    rw [List.append_assoc, List.cons_append, List.rdropWhile_append_rtakeWhile, ← List.append_assoc,
      List.takeWhile_append_dropWhile]
  have htrimmed : Trimmed (a.dropWhile isSpace ++ c :: b.rdropWhile isSpace) := by
    constructor
    · have hhead := head_dropWhile isSpace a
      cases h : a.dropWhile isSpace with
      | nil => simpa using hc
      | cons d a' =>
        rw [h] at hhead
        simpa using hhead
    · have hlast := last_rdropWhile isSpace b
      rw [List.getLast?_append_of_ne_nil _ (List.cons_ne_nil _ _), List.getLast?_cons]
      cases h : (b.rdropWhile isSpace).getLast? with
      | none => simpa using hc
      | some d =>
        rw [h] at hlast
        simpa using hlast
  rw [hsplit, strip_append_left fun d hd => List.mem_takeWhile_imp hd,
    strip_append_right fun d hd => List.mem_rtakeWhile_imp hd, htrimmed.strip_eq]

/-! ## Upper case -/

/-- No whitespace comes out of upper-casing, as in every version of Unicode. -/
def SolidUpper (U : Unicode) : Prop := ∀ c, isSpace c = false → ∀ d ∈ U.upper c, isSpace d = false

theorem isSpace_toUpper (c : Char) : isSpace c.toUpper = isSpace c := by
  by_cases hc : c.toNat < 128
  · exact forall_ascii (P := fun c => isSpace c.toUpper = isSpace c) (by decide) c hc
  · have hlower : ¬ (c.val ≥ 'a'.val ∧ c.val ≤ 'z'.val) := fun h => hc (Nat.lt_of_le_of_lt h.2 (by decide))
    rw [Char.toUpper, dif_neg hlower]

theorem solidUpper_small : SolidUpper .small := by
  intro c hc d hd
  have hd' : d ∈ (if c = '\u0131' then ['I'] else if c = '\u017f' then ['S'] else [c.toUpper]) := hd
  split_ifs at hd'
  · obtain rfl : d = 'I' := by simpa using hd'
    rfl
  · obtain rfl : d = 'S' := by simpa using hd'
    rfl
  · obtain rfl : d = c.toUpper := by simpa using hd'
    rwa [isSpace_toUpper]

end DataAgent.Python
