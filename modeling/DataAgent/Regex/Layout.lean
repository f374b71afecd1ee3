import DataAgent.Python.Strip
import DataAgent.Regex.Scan

/-!
# Texts that differ in their layout

Texts with the same characters up to a key, where any whitespace is as good as any other.

* `collapse κ` : a text with each run of whitespace a gap and each other character its key; `collapse_append`,
  `collapse_reverse`, `collapse_strip` : its parts, its reverse and its trim;
* `text_induction` : the induction over the characters and the runs of a text;
* `Aligned` : cursors of two such texts at the same place, not inside a run; **`order_congr`** : two of them come in
  the same order.
-/

namespace DataAgent.Regex
open Python (Text isSpace)
open Pattern

/-! ## Collapsed texts -/

section
variable (κ : Char → Char)

/-- Each run of whitespace is a gap, each other character its key. -/
def collapse : Text → List (Option Char)
  | [] => []
  | c :: t =>
    if isSpace c then (if t.head?.any isSpace then collapse t else none :: collapse t)
    else some (κ c) :: collapse t

end

/-- A nonempty run of whitespace. -/
structure Run (w : Text) : Prop where
  nonempty : w ≠ []
  space : ∀ c ∈ w, isSpace c = true

variable {κ : Char → Char} {b t t' x y w : Text} {c : Char}

theorem collapse_solid (hc : isSpace c = false) : collapse κ (c :: t) = some (κ c) :: collapse κ t := by
  rw [collapse, if_neg (by simp [hc])]

theorem collapse_run (hw : Run w) (hy : y.head?.any isSpace = false) : collapse κ (w ++ y) = none :: collapse κ y := by
  obtain ⟨hne, hspace⟩ := hw
  induction w with
  | nil => exact absurd rfl hne
  | cons c w ih =>
    have hc : isSpace c = true := hspace c (by simp)
    rw [List.cons_append, collapse, if_pos hc]
    cases w with
    | nil =>
      rw [List.nil_append, if_neg (by simp [hy])]
    | cons d w =>
      have hd : isSpace d = true := hspace d (by simp)
      rw [if_pos (by simp [hd])]
      exact ih (by simp) fun e he => hspace e (by simp [he])

theorem Run.reverse (hw : Run w) : Run w.reverse :=
  ⟨by simpa using hw.nonempty, fun c hc => hw.space c (by simpa using hc)⟩

theorem Run.head (hw : Run w) (y : Text) : (w ++ y).head?.any isSpace = true := by
  obtain ⟨c, w, rfl⟩ := List.exists_cons_of_ne_nil hw.nonempty
  simpa using hw.space c (by simp)

/-- A text is empty, begins with a character that is no whitespace, or with a whole run. -/
theorem text_cases (t : Text) : t = [] ∨ (∃ c u, t = c :: u ∧ isSpace c = false) ∨
    ∃ w y, t = w ++ y ∧ Run w ∧ y.head?.any isSpace = false := by
  cases t with
  | nil => exact Or.inl rfl
  | cons c u =>
    by_cases hc : isSpace c = true
    · refine Or.inr (Or.inr ⟨(c :: u).takeWhile isSpace, (c :: u).dropWhile isSpace, ?_, ⟨?_, ?_⟩, ?_⟩)
      · exact List.takeWhile_append_dropWhile.symm
      · simp [hc]
      · exact fun d hd => List.mem_takeWhile_imp hd
      · exact Python.head_dropWhile _ _
    · exact Or.inr (Or.inl ⟨c, u, rfl, by simpa using hc⟩)

/-- The induction over the characters and the runs of a text. -/
theorem text_induction {P : Text → Prop} (nil : P []) (solid : ∀ c u, isSpace c = false → P u → P (c :: u))
    (run : ∀ w y, Run w → y.head?.any isSpace = false → P y → P (w ++ y)) (t : Text) : P t := by
  induction hn : t.length using Nat.strong_induction_on generalizing t with
  | _ n ih =>
    subst hn
    rcases text_cases t with rfl | ⟨c, u, rfl, hc⟩ | ⟨w, y, rfl, hw, hy⟩
    · exact nil
    · exact solid c u hc (ih u.length (by simp) u rfl)
    · have hlen := List.length_pos_iff.mpr hw.nonempty
      exact run w y hw hy (ih y.length (by rw [List.length_append]; omega) y rfl)

theorem head_collapse (t : Text) :
    (collapse κ t).head? = t.head?.map fun c => if isSpace c then none else some (κ c) := by
  refine text_induction (P := fun t => (collapse κ t).head? = t.head?.map fun c => if isSpace c then none
    else some (κ c)) rfl ?_ ?_ t
  · intro c u hc _
    rw [collapse_solid hc]
    simp [hc]
  · intro w y hw hy _
    obtain ⟨c, w, rfl⟩ := List.exists_cons_of_ne_nil hw.nonempty
    rw [collapse_run hw hy]
    simp [hw.space c (by simp)]

theorem head_space_iff : t.head?.any isSpace = true ↔ (collapse κ t).head? = some none := by
  rw [head_collapse]
  cases t with
  | nil => simp
  | cons c t => by_cases hc : isSpace c = true <;> simp [hc]

theorem head_space_congr (h : collapse κ t = collapse κ t') : t.head?.any isSpace = t'.head?.any isSpace := by
  rw [Bool.eq_iff_iff, head_space_iff (κ := κ), head_space_iff (κ := κ), h]

theorem collapse_eq_nil : collapse κ t = [] ↔ t = [] := by
  rw [← List.head?_eq_none_iff, head_collapse, Option.map_eq_none_iff, List.head?_eq_none_iff]

/-! ### The other text -/

theorem solid_of_collapse (hc : isSpace c = false) (h : collapse κ (c :: t) = collapse κ t') :
    ∃ d u, t' = d :: u ∧ isSpace d = false ∧ κ c = κ d ∧ collapse κ t = collapse κ u := by
  rw [collapse_solid hc] at h
  rcases text_cases t' with rfl | ⟨d, u, rfl, hd⟩ | ⟨w, y, rfl, hw, hy⟩
  · simp [collapse] at h
  · rw [collapse_solid hd, List.cons.injEq, Option.some.injEq] at h
    exact ⟨d, u, rfl, hd, h.1, h.2⟩
  · rw [collapse_run hw hy] at h
    simp at h

theorem run_of_collapse (hw : Run w) (hy : y.head?.any isSpace = false) (h : collapse κ (w ++ y) = collapse κ t') :
    ∃ v z, t' = v ++ z ∧ Run v ∧ z.head?.any isSpace = false ∧ collapse κ y = collapse κ z := by
  rw [collapse_run hw hy] at h
  rcases text_cases t' with rfl | ⟨d, u, rfl, hd⟩ | ⟨v, z, rfl, hv, hz⟩
  · simp [collapse] at h
  · rw [collapse_solid hd] at h
    simp at h
  · rw [collapse_run hv hz, List.cons.injEq] at h
    exact ⟨v, z, rfl, hv, hz, h.2⟩

/-- The induction over two texts with the same collapsed text. -/
theorem collapse_induction {P : Text → Text → Prop} (nil : P [] [])
    (solid : ∀ c d u v, isSpace c = false → isSpace d = false → κ c = κ d → P u v → P (c :: u) (d :: v))
    (run : ∀ w v y z, Run w → Run v → y.head?.any isSpace = false → z.head?.any isSpace = false → P y z →
      P (w ++ y) (v ++ z)) (h : collapse κ t = collapse κ t') : P t t' := by
  revert t' h
  refine text_induction (P := fun t => ∀ {t'}, collapse κ t = collapse κ t' → P t t') ?_ ?_ ?_ t
  · intro t' h
    rw [collapse_eq_nil.mp h.symm]
    exact nil
  · intro c u hc ih t' h
    obtain ⟨d, v, rfl, hd, hkey, hrest⟩ := solid_of_collapse hc h
    exact solid c d u v hc hd hkey (ih hrest)
  · intro w y hw hy ih t' h
    obtain ⟨v, z, rfl, hv, hz, hrest⟩ := run_of_collapse hw hy h
    exact run w v y z hw hv hy hz (ih hrest)

/-! ### Parts -/

/-- A text that is not cut inside a run collapses part by part. -/
theorem collapse_append (h : ¬ (x.getLast?.any isSpace = true ∧ y.head?.any isSpace = true)) :
    collapse κ (x ++ y) = collapse κ x ++ collapse κ y := by
  induction x with
  | nil => rfl
  | cons c x ih =>
    rw [List.cons_append, collapse, collapse]
    cases x with
    | nil =>
      by_cases hc : isSpace c = true
      · have hy : ¬ y.head?.any isSpace = true := fun hy => h ⟨by simpa using hc, hy⟩
        simp [hc, hy, collapse]
      · simp [hc, collapse]
    | cons d x =>
      have ih := ih (by simpa using h)
      rw [ih]
      simp only [List.cons_append, List.head?_cons, Option.any_some]
      by_cases hc : isSpace c = true
      · by_cases hd : isSpace d = true <;> simp [hc, hd]
      · simp [hc]

/-- A run may have more whitespace after it. -/
theorem collapse_run_append (hw : Run w) (b : Text) :
    collapse κ (w ++ b) = none :: collapse κ (b.dropWhile isSpace) := by
  have hlong : Run (w ++ b.takeWhile isSpace) := by
    refine ⟨List.append_ne_nil_of_left_ne_nil hw.nonempty _, fun c hc => ?_⟩
    rcases List.mem_append.mp hc with hc | hc
    · exact hw.space c hc
    · exact List.mem_takeWhile_imp hc
  rw [← collapse_run hlong (Python.head_dropWhile isSpace b), List.append_assoc, List.takeWhile_append_dropWhile]

/-- Any run is as good as another. -/
theorem collapse_gap {v : Text} (hw : Run w) (hv : Run v) (a b : Text) :
    collapse κ (a ++ (w ++ b)) = collapse κ (a ++ (v ++ b)) := by
  induction a with
  | nil => rw [List.nil_append, List.nil_append, collapse_run_append hw, collapse_run_append hv]
  | cons c a ih =>
    have hhead : (a ++ (w ++ b)).head?.any isSpace = (a ++ (v ++ b)).head?.any isSpace := by
      cases a with
      | nil => rw [List.nil_append, List.nil_append, hw.head, hv.head]
      | cons d a => rfl
    rw [List.cons_append, List.cons_append, collapse, collapse, hhead, ih]

theorem collapse_of_solid (h : ∀ c ∈ t, isSpace c = false) : collapse κ t = (t.map κ).map some := by
  induction t with
  | nil => rfl
  | cons c t ih =>
    rw [List.forall_mem_cons] at h
    rw [collapse_solid h.1, ih h.2]
    rfl

theorem map_of_collapse (ht : ∀ c ∈ t, isSpace c = false) (ht' : ∀ c ∈ t', isSpace c = false)
    (h : collapse κ t = collapse κ t') : t.map κ = t'.map κ := by
  rw [collapse_of_solid ht, collapse_of_solid ht'] at h
  exact List.map_injective_iff.mpr (Option.some_injective _) h

theorem collapse_reverse (t : Text) : collapse κ t.reverse = (collapse κ t).reverse := by
  refine text_induction (P := fun t => collapse κ t.reverse = (collapse κ t).reverse) rfl ?_ ?_ t
  · intro c u hc ih
    rw [collapse_solid hc, List.reverse_cons, List.reverse_cons, collapse_append (by simp [hc]), ih]
    rw [collapse_solid hc]
    rfl
  · intro w y hw hy ih
    have hrun : collapse κ w.reverse = [none] := by
      have := collapse_run (κ := κ) hw.reverse (y := []) rfl
      rwa [List.append_nil] at this
    rw [collapse_run hw hy, List.reverse_append, collapse_append (by simp [hy]), ih, hrun, List.reverse_cons]

/-! ### Trims -/

theorem collapse_dropWhile (t : Text) : collapse κ (t.dropWhile isSpace) = (collapse κ t).dropWhile Option.isNone := by
  refine text_induction (P := fun t => collapse κ (t.dropWhile isSpace) = (collapse κ t).dropWhile Option.isNone)
    rfl ?_ ?_ t
  · intro c u hc _
    rw [List.dropWhile_cons_of_neg (by simp [hc]), collapse_solid hc, List.dropWhile_cons_of_neg (by simp)]
  · intro w y hw hy ih
    rw [List.dropWhile_append_of_pos hw.space, ih, collapse_run hw hy, List.dropWhile_cons_of_pos rfl]

theorem collapse_rstrip (t : Text) : collapse κ (Python.rstrip t) = (collapse κ t).rdropWhile Option.isNone := by
  rw [Python.rstrip, List.rdropWhile, collapse_reverse, collapse_dropWhile, collapse_reverse, List.rdropWhile]

theorem collapse_strip (t : Text) : collapse κ (Python.strip t) =
    ((collapse κ t).dropWhile Option.isNone).rdropWhile Option.isNone := by
  rw [Python.strip, collapse_rstrip, collapse_dropWhile]

/-! ## Aligned cursors -/

variable (κ) in
/-- Two cursors with alike texts on either side, neither inside a run of whitespace. -/
structure Aligned (s s' : Cursor) : Prop where
  before : collapse κ s.before = collapse κ s'.before
  after : collapse κ s.after = collapse κ s'.after
  edge : ¬ (s.before.head?.any isSpace = true ∧ s.after.head?.any isSpace = true)

theorem Aligned.symm {s s' : Cursor} (h : Aligned κ s s') : Aligned κ s' s where
  before := h.before.symm
  after := h.after.symm
  edge := by
    rw [← head_space_congr h.before, ← head_space_congr h.after]
    exact h.edge

theorem Aligned.start (h : collapse κ t = collapse κ t') : Aligned κ (.start t) (.start t') :=
  ⟨rfl, h, by simp [Cursor.start]⟩

theorem Aligned.nil {s' : Cursor} (h : Aligned κ ⟨b, []⟩ s') : s'.after = [] :=
  collapse_eq_nil.mp h.after.symm

/-- Over a character that is no whitespace. -/
theorem Aligned.solid {s' : Cursor} (h : Aligned κ ⟨b, c :: t⟩ s') (hc : isSpace c = false) :
    ∃ d u, s' = ⟨s'.before, d :: u⟩ ∧ isSpace d = false ∧ κ c = κ d ∧ Aligned κ ⟨c :: b, t⟩ ⟨d :: s'.before, u⟩ := by
  obtain ⟨d, u, hafter, hd, hkey, hrest⟩ := solid_of_collapse hc h.after
  have hbefore : collapse κ b = collapse κ s'.before := h.before
  refine ⟨d, u, by rw [← hafter], hd, hkey, ?_, hrest, by simp [hc]⟩
  rw [collapse_solid hc, collapse_solid hd, hkey, hbefore]

/-- Over a whole run. -/
theorem Aligned.run {s' : Cursor} (h : Aligned κ ⟨b, w ++ y⟩ s') (hw : Run w) (hy : y.head?.any isSpace = false) :
    ∃ v z, s' = ⟨s'.before, v ++ z⟩ ∧ Run v ∧ z.head?.any isSpace = false ∧
      Aligned κ ⟨w.reverse ++ b, y⟩ ⟨v.reverse ++ s'.before, z⟩ := by
  obtain ⟨v, z, hafter, hv, hz, hrest⟩ := run_of_collapse hw hy h.after
  have hb : b.head?.any isSpace = false := by
    rw [← Bool.not_eq_true]
    exact fun hb => h.edge ⟨hb, hw.head y⟩
  have hb' : s'.before.head?.any isSpace = false := by rw [← head_space_congr h.before, hb]
  refine ⟨v, z, by rw [← hafter], hv, hz, ?_, hrest, by simp [hy]⟩
  rw [collapse_run hw.reverse hb, collapse_run hv.reverse hb', show collapse κ b = collapse κ s'.before from h.before]

/-! ### The order of places -/

/-- A cursor of the text `t`. -/
def Cursor.On (s : Cursor) (t : Text) : Prop := s.before.reverse ++ s.after = t

variable (κ) in
theorem rank_le {u v : Cursor} (hu : u.On t) (hv : v.On t)
    (hedge : ¬ (u.before.head?.any isSpace = true ∧ u.after.head?.any isSpace = true))
    (h : u.before.length ≤ v.before.length) : ∃ x, v.before = x ++ u.before ∧
      (collapse κ v.before).length = (collapse κ x).length + (collapse κ u.before).length := by
  have heq : u.before.reverse ++ u.after = v.before.reverse ++ v.after := hu.trans hv.symm
  obtain ⟨y, hy, hafter⟩ : ∃ y, v.before.reverse = u.before.reverse ++ y ∧ u.after = y ++ v.after := by
    rcases List.append_eq_append_iff.mp heq with hy | ⟨y, hy, hafter⟩
    · exact hy
    · have hlen := congrArg List.length hy
      rw [List.length_append, List.length_reverse, List.length_reverse] at hlen
      obtain rfl : y = [] := List.eq_nil_of_length_eq_zero (by omega)
      exact ⟨[], by simpa using hy.symm, by simpa using hafter.symm⟩
  have hb : v.before = y.reverse ++ u.before := by
    rw [← List.reverse_reverse v.before, hy, List.reverse_append, List.reverse_reverse]
  refine ⟨y.reverse, hb, ?_⟩
  rw [hb, collapse_append, List.length_append]
  rintro ⟨hlast, hhead⟩
  rw [List.getLast?_reverse] at hlast
  refine hedge ⟨hhead, ?_⟩
  cases y with
  | nil => simp at hlast
  | cons c y => simpa [hafter] using hlast

variable (κ) in
/-- Places that are not inside a run are in the order of their collapsed texts. -/
theorem rank_iff {u v : Cursor} (hu : u.On t) (hv : v.On t)
    (hu' : ¬ (u.before.head?.any isSpace = true ∧ u.after.head?.any isSpace = true))
    (hv' : ¬ (v.before.head?.any isSpace = true ∧ v.after.head?.any isSpace = true)) :
    u.before.length ≤ v.before.length ↔ (collapse κ u.before).length ≤ (collapse κ v.before).length := by
  constructor
  · intro h
    obtain ⟨x, -, hrank⟩ := rank_le κ hu hv hu' h
    omega
  · intro h
    by_contra hlt
    obtain ⟨x, hx, hrank⟩ := rank_le κ hv hu hv' (by omega)
    have hlen := congrArg List.length hx
    rw [List.length_append] at hlen
    have hne : collapse κ x ≠ [] := by
      rw [Ne, collapse_eq_nil]
      rintro rfl
      simp at hlen
      omega
    have hpos := List.length_pos_iff.mpr hne
    omega

/-- **Aligned places are in the same order.** -/
theorem order_congr {u u' v v' : Cursor} (hu : u.On t) (hv : v.On t) (hu' : u'.On t') (hv' : v'.On t')
    (h : Aligned κ u u') (k : Aligned κ v v') :
    u.before.length ≤ v.before.length ↔ u'.before.length ≤ v'.before.length := by
  rw [rank_iff κ hu hv h.edge k.edge, rank_iff κ hu' hv' h.symm.edge k.symm.edge, h.before, k.before]

end DataAgent.Regex
