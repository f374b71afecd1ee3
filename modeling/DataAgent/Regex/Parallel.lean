import DataAgent.Regex.Layout

/-!
# Patterns on texts that differ in their layout

What a pattern makes of two texts with the same characters up to a key, where any whitespace is as good as any other.

* `Parallel` : a pattern that has the same successes from aligned cursors, built up along the pattern;
* `ParallelFirst` : one with the same first success; `Passes` : what succeeds before whitespace does after it;
* **`search_parallel`**, **`findIter_parallel`** : such a pattern is found at the same places.
-/

namespace DataAgent.Regex
open Python (Text isSpace)
open Pattern

variable {κ : Char → Char} {b t t' x y w : Text} {c : Char}

/-! ## Successes that correspond -/

variable (κ) in
/-- The same groups, their texts alike. -/
def SameGroups (g g' : Groups) : Prop := List.Forall₂ (fun a a' => a.1 = a'.1 ∧ a.2.map κ = a'.2.map κ) g g'

variable (κ) in
def Corr (x x' : Cursor × Groups) : Prop := Aligned κ x.1 x'.1 ∧ SameGroups κ x.2 x'.2

variable {W : Char → Bool} {r q : Pattern} {p : Char → Bool}

variable (κ W) in
/-- The successes from aligned cursors correspond one by one. -/
def Parallel (r : Pattern) : Prop :=
  ∀ s s', Aligned κ s s' → List.Forall₂ (Corr κ) (run W r s) (run W r s')

variable (κ) in
/-- A class of characters that are told apart by their keys. -/
def Respects (p : Char → Bool) : Prop :=
  ∀ c d, isSpace c = false → isSpace d = false → κ c = κ d → p c = p d

/-- A class without whitespace. -/
def Solid (p : Char → Bool) : Prop := ∀ c, p c = true → isSpace c = false

theorem Corr.refl_groups {s s' : Cursor} (h : Aligned κ s s') : Corr κ (s, []) (s', []) := ⟨h, .nil⟩

theorem Solid.not {c : Char} (hp : Solid p) (hc : isSpace c = true) : p c = false := by
  rw [← Bool.not_eq_true]
  exact fun h => by simp [hp c h] at hc

theorem run_char_cons (p : Char → Bool) (b t : Text) (c : Char) :
    run W (char p) ⟨b, c :: t⟩ = if p c then [(⟨c :: b, t⟩, [])] else [] := rfl

theorem Parallel.char (hp : Solid p) (hκ : Respects κ p) : Parallel κ W (char p) := by
  rintro ⟨b, t⟩ s' h
  rcases text_cases t with rfl | ⟨c, u, rfl, hc⟩ | ⟨w, y, rfl, hw, hy⟩
  · obtain ⟨b', t'⟩ := s'
    obtain rfl : t' = [] := h.nil
    exact .nil
  · obtain ⟨d, u', hs', hd, hkey, hrest⟩ := h.solid hc
    rw [hs', run_char_cons, run_char_cons, ← hκ c d hc hd hkey]
    split
    · exact .cons (Corr.refl_groups hrest) .nil
    · exact .nil
  · obtain ⟨v, z, hs', hv, -, -⟩ := h.run hw hy
    obtain ⟨c, w, rfl⟩ := List.exists_cons_of_ne_nil hw.nonempty
    obtain ⟨d, v, rfl⟩ := List.exists_cons_of_ne_nil hv.nonempty
    have hc : p c = false := hp.not (hw.space c (by simp))
    have hd : p d = false := hp.not (hv.space d (by simp))
    rw [hs', List.cons_append, List.cons_append, run_char_cons, run_char_cons, hc, hd]
    exact .nil

theorem stops_parallel (hp : Solid p) (hκ : Respects κ p) {s' : Cursor} (h : Aligned κ ⟨b, t⟩ s') :
    List.Forall₂ (Aligned κ) (stops p b t) (stops p s'.before s'.after) := by
  induction t generalizing b s' with
  | nil =>
    obtain ⟨b', t'⟩ := s'
    obtain rfl : t' = [] := h.nil
    exact .cons h .nil
  | cons c t ih =>
    by_cases hc : isSpace c = true
    · -- neither class goes on at whitespace
      have hstop : ∀ s' : Cursor, s'.after.head?.any isSpace = true → stops p s'.before s'.after = [s'] := by
        rintro ⟨b', t'⟩ hhead
        cases t' with
        | nil => simp at hhead
        | cons d t' => rw [stops, if_neg (by simp [hp.not (by simpa using hhead : isSpace d = true)])]
      have hhead : (c :: t).head?.any isSpace = true := by simpa using hc
      rw [hstop ⟨b, c :: t⟩ hhead, hstop s' (by rw [← head_space_congr h.after]; exact hhead)]
      exact .cons h .nil
    · obtain ⟨d, u, hs', hd, hkey, hrest⟩ := h.solid (by simpa using hc)
      rw [hs', stops, stops, ← hκ c d (by simpa using hc) hd hkey]
      rw [hs'] at h
      split
      · exact List.rel_append (ih hrest) (.cons h .nil)
      · exact .cons h .nil

theorem Parallel.many (hp : Solid p) (hκ : Respects κ p) : Parallel κ W (many p) := by
  intro s s' h
  rw [Regex.run, Regex.run, List.forall₂_map_left_iff, List.forall₂_map_right_iff]
  exact (stops_parallel hp hκ h).imp fun _ _ => Corr.refl_groups

theorem Parallel.empty : Parallel κ W empty := fun _ _ h => .cons (Corr.refl_groups h) .nil

theorem Parallel.seq (hr : Parallel κ W r) (hq : Parallel κ W q) : Parallel κ W (seq r q) := by
  intro s s' h
  refine List.rel_flatMap (hr s s' h) ?_
  rintro x x' ⟨hcursor, hgroups⟩
  refine List.rel_map ?_ (hq _ _ hcursor)
  exact fun y y' hy => ⟨hy.1, List.rel_append hy.2 hgroups⟩

theorem Parallel.alt (hr : Parallel κ W r) (hq : Parallel κ W q) : Parallel κ W (alt r q) :=
  fun s s' h => List.rel_append (hr s s' h) (hq s s' h)

theorem Parallel.oneOf {rs : List Pattern} (h : ∀ r ∈ rs, Parallel κ W r) : Parallel κ W (oneOf rs) := by
  induction rs with
  | nil => exact Parallel.char (by simp [Solid]) fun _ _ _ _ _ => rfl
  | cons r rs ih =>
    cases rs with
    | nil => exact h r (by simp)
    | cons q rs => exact (h r (by simp)).alt (ih fun q hq => h q (List.mem_cons_of_mem _ hq))

theorem Parallel.opt (hr : Parallel κ W r) : Parallel κ W (opt r) :=
  fun s s' h => List.rel_append (hr s s' h) (.cons (Corr.refl_groups h) .nil)

theorem Parallel.lit {eqv : Char → Char → Bool} {t : Text} (hp : ∀ a ∈ t, Solid (eqv a))
    (hκ : ∀ a ∈ t, Respects κ (eqv a)) : Parallel κ W (lit eqv t) := by
  induction t with
  | nil => exact Parallel.empty
  | cons a t ih =>
    rw [List.forall_mem_cons] at hp hκ
    exact (Parallel.char hp.1 hκ.1).seq (ih hp.2 hκ.2)

theorem atBoundary_congr (hW : Solid W) (hκ : Respects κ W) {s s' : Cursor} (h : Aligned κ s s') :
    atBoundary W s = atBoundary W s' := by
  have hside : ∀ {t t' : Text}, collapse κ t = collapse κ t' → t.head?.any W = t'.head?.any W := by
    intro t t' h
    rcases text_cases t with rfl | ⟨c, u, rfl, hc⟩ | ⟨w, y, rfl, hw, hy⟩
    · rw [collapse_eq_nil.mp h.symm]
    · obtain ⟨d, u', rfl, hd, hkey, -⟩ := solid_of_collapse hc h
      simpa using hκ c d hc hd hkey
    · obtain ⟨v, z, rfl, hv, -, -⟩ := run_of_collapse hw hy h
      obtain ⟨c, w, rfl⟩ := List.exists_cons_of_ne_nil hw.nonempty
      obtain ⟨d, v, rfl⟩ := List.exists_cons_of_ne_nil hv.nonempty
      simp [hW.not (hw.space c (by simp)), hW.not (hv.space d (by simp))]
  rw [atBoundary, atBoundary, hside h.before, hside h.after]

theorem Parallel.wordBoundary (hW : Solid W) (hκ : Respects κ W) : Parallel κ W wordBoundary := by
  intro s s' h
  rw [Regex.run, Regex.run, atBoundary_congr hW hκ h]
  split
  · exact .cons (Corr.refl_groups h) .nil
  · exact .nil

theorem Parallel.begins : Parallel κ W begins := by
  intro s s' h
  have hbefore : s.before.isEmpty = s'.before.isEmpty := by
    rw [Bool.eq_iff_iff, List.isEmpty_iff, List.isEmpty_iff, ← collapse_eq_nil (κ := κ), h.before, collapse_eq_nil]
  rw [Regex.run, Regex.run, hbefore]
  split
  · exact .cons (Corr.refl_groups h) .nil
  · exact .nil

/-! ### Groups -/

/-- The text read between aligned cursors. -/
theorem consumed_collapse {s s' u u' : Cursor} (hs : Aligned κ s s') (hu : Aligned κ u u') (h : Reads s u)
    (h' : Reads s' u') : collapse κ (consumed s u) = collapse κ (consumed s' u') := by
  have hcut : ∀ {s u : Cursor}, Reads s u → ¬ (u.before.head?.any isSpace = true ∧ u.after.head?.any isSpace = true) →
      collapse κ s.after = collapse κ (consumed s u) ++ collapse κ u.after := by
    intro s u h hedge
    obtain ⟨b, t⟩ := s
    obtain ⟨b', t'⟩ := u
    obtain ⟨w, hw, hb⟩ := h
    obtain rfl : t = w ++ t' := hw
    obtain rfl : b' = w.reverse ++ b := hb
    rw [consumed_append]
    refine collapse_append fun ⟨hw, ht⟩ => hedge ⟨?_, ht⟩
    rw [← List.head?_reverse] at hw
    cases hrev : w.reverse with
    | nil => simp [hrev] at hw
    | cons c v => simpa [hrev] using hw
  have hwhole := hs.after
  rw [hcut h hu.edge, hcut h' hu.symm.edge, hu.after] at hwhole
  exact List.append_cancel_right hwhole

variable (W) in
/-- The pattern reads no whitespace. -/
def ReadsSolid (r : Pattern) : Prop :=
  ∀ s x, x ∈ Regex.run W r s → ∃ w, s.after = w ++ x.1.after ∧ ∀ c ∈ w, isSpace c = false

theorem ReadsSolid.char (hp : Solid p) : ReadsSolid W (char p) := by
  rintro ⟨b, t⟩ ⟨u, g⟩ hx
  obtain ⟨c, t, rfl, hc, rfl, -⟩ := mem_run_char.mp hx
  exact ⟨[c], rfl, by simpa using hp c hc⟩

theorem ReadsSolid.many (hp : Solid p) : ReadsSolid W (many p) := by
  rintro ⟨b, t⟩ ⟨u, g⟩ hx
  obtain ⟨w, t, rfl, hw, rfl, -⟩ := mem_run_many.mp hx
  exact ⟨w, rfl, fun c hc => hp c (hw c hc)⟩

theorem ReadsSolid.empty : ReadsSolid W empty := by
  rintro s ⟨u, g⟩ hx
  obtain ⟨rfl, -⟩ := mem_run_empty.mp hx
  exact ⟨[], rfl, by simp⟩

theorem ReadsSolid.seq (hr : ReadsSolid W r) (hq : ReadsSolid W q) : ReadsSolid W (seq r q) := by
  rintro s ⟨u, g⟩ hx
  obtain ⟨v, h, k, hv, hu, -⟩ := mem_run_seq.mp hx
  obtain ⟨x, hx, hxs⟩ := hr s _ hv
  obtain ⟨y, hy, hys⟩ := hq v _ hu
  refine ⟨x ++ y, ?_, ?_⟩
  · rw [List.append_assoc, ← hy]
    exact hx
  · intro c hc
    rcases List.mem_append.mp hc with hc | hc
    · exact hxs c hc
    · exact hys c hc

theorem ReadsSolid.opt (hr : ReadsSolid W r) : ReadsSolid W (opt r) := by
  intro s x hx
  rcases List.mem_append.mp hx with hx | hx
  · exact hr s x hx
  · obtain rfl : x = (s, []) := List.mem_singleton.mp hx
    exact ⟨[], rfl, by simp⟩

theorem ReadsSolid.oneOf {rs : List Pattern} (h : ∀ r ∈ rs, ReadsSolid W r) : ReadsSolid W (oneOf rs) := by
  intro s x hx
  obtain ⟨r, hr, hx⟩ := mem_run_oneOf_iff.mp hx
  exact h r hr s x hx

theorem ReadsSolid.lit {eqv : Char → Char → Bool} {t : Text} (hp : ∀ a ∈ t, Solid (eqv a)) :
    ReadsSolid W (lit eqv t) := by
  induction t with
  | nil => exact ReadsSolid.empty
  | cons a t ih =>
    rw [List.forall_mem_cons] at hp
    exact (ReadsSolid.char hp.1).seq (ih hp.2)

theorem ReadsSolid.consumed (h : ReadsSolid W r) {s : Cursor} {x : Cursor × Groups} (hx : x ∈ Regex.run W r s) :
    ∀ c ∈ consumed s x.1, isSpace c = false := by
  obtain ⟨w, hw, hsolid⟩ := h s x hx
  rw [Regex.consumed, hw, List.length_append, Nat.add_sub_cancel, List.take_left]
  exact hsolid

theorem Parallel.group {i : Nat} (hr : Parallel κ W r) (hsolid : ReadsSolid W r) : Parallel κ W (group i r) := by
  intro s s' h
  rw [Regex.run, Regex.run, List.forall₂_map_left_iff, List.forall₂_map_right_iff]
  have hrel := List.forall₂_iff_zip.mp (hr s s' h)
  refine List.forall₂_iff_zip.mpr ⟨hrel.1, fun {x x'} hx => ?_⟩
  obtain ⟨hcursor, hgroups⟩ := hrel.2 hx
  obtain ⟨hx, hx'⟩ := List.of_mem_zip hx
  refine ⟨hcursor, .cons ⟨rfl, map_of_collapse (hsolid.consumed hx) (hsolid.consumed hx') ?_⟩ hgroups⟩
  exact consumed_collapse h hcursor (run_reads hx) (run_reads hx')

/-! ### Whitespace -/

/-- The cursors after any whitespace. -/
theorem Aligned.skip {s s' : Cursor} (h : Aligned κ s s') : ∃ w y v z, s.after = w ++ y ∧ s'.after = v ++ z ∧
    (∀ c ∈ w, isSpace c = true) ∧ (∀ c ∈ v, isSpace c = true) ∧ (w = [] ↔ v = []) ∧
    y.head?.any isSpace = false ∧ z.head?.any isSpace = false ∧
    Aligned κ ⟨w.reverse ++ s.before, y⟩ ⟨v.reverse ++ s'.before, z⟩ := by
  obtain ⟨b, t⟩ := s
  by_cases ht : t.head?.any isSpace = true
  · rcases text_cases t with rfl | ⟨c, u, rfl, hc⟩ | ⟨w, y, rfl, hw, hy⟩
    · simp at ht
    · simp [hc] at ht
    · obtain ⟨v, z, hs', hv, hz, hrest⟩ := h.run hw hy
      refine ⟨w, y, v, z, rfl, by rw [hs'], hw.space, hv.space, ?_, hy, hz, hrest⟩
      exact ⟨fun hnil => absurd hnil hw.nonempty, fun hnil => absurd hnil hv.nonempty⟩
  · have ht : t.head?.any isSpace = false := by simpa using ht
    refine ⟨[], t, [], s'.after, rfl, rfl, by simp, by simp, Iff.rfl, ht, ?_, h⟩
    rwa [← head_space_congr h.after]

theorem Parallel.spaces (hq : Parallel κ W q) (hrefuses : Refuses W q isSpace) :
    Parallel κ W (Pattern.seq (Pattern.many isSpace) q) := by
  intro s s' h
  obtain ⟨w, y, v, z, hs, hs', hw, hv, -, hy, hz, hrest⟩ := h.skip
  rw [show s = ⟨s.before, w ++ y⟩ by rw [← hs], show s' = ⟨s'.before, v ++ z⟩ by rw [← hs'],
    run_many_seq hrefuses hw hy, run_many_seq hrefuses hv hz]
  exact hq _ _ hrest

theorem Parallel.gap (hq : Parallel κ W q) (hrefuses : Refuses W q isSpace) :
    Parallel κ W (Pattern.seq (plus isSpace) q) := by
  intro s s' h
  obtain ⟨w, y, v, z, hs, hs', hw, hv, hnil, hy, hz, hrest⟩ := h.skip
  rw [show s = ⟨s.before, w ++ y⟩ by rw [← hs], show s' = ⟨s'.before, v ++ z⟩ by rw [← hs']]
  by_cases hne : w = []
  · rw [hnil.mp hne, hne, List.nil_append, List.nil_append, run_plus_seq_of_not q hy, run_plus_seq_of_not q hz]
    exact .nil
  · rw [run_plus_seq hrefuses hne hw hy, run_plus_seq hrefuses (mt hnil.mpr hne) hv hz]
    exact hq _ _ hrest

/-! ## The first success -/

variable (κ W) in
/-- The first successes from aligned cursors correspond. -/
def ParallelFirst (r : Pattern) : Prop :=
  ∀ s s', Aligned κ s s' → Option.Rel (Corr κ) (first W r s) (first W r s')

theorem rel_iff {α : Type} {R : α → α → Prop} {o o' : Option α} : Option.Rel R o o' ↔
    (o = none ∧ o' = none) ∨ ∃ x x', o = some x ∧ o' = some x' ∧ R x x' := by
  constructor
  · rintro (hx | _)
    · exact Or.inr ⟨_, _, rfl, rfl, hx⟩
    · exact Or.inl ⟨rfl, rfl⟩
  · rintro (⟨rfl, rfl⟩ | ⟨x, x', rfl, rfl, hx⟩)
    · exact .none
    · exact .some hx

theorem rel_map {α β : Type} {R : α → α → Prop} {S : β → β → Prop} {f g : α → β} {o o' : Option α}
    (h : Option.Rel R o o') (hf : ∀ x x', R x x' → S (f x) (g x')) : Option.Rel S (o.map f) (o'.map g) := by
  rcases rel_iff.mp h with ⟨rfl, rfl⟩ | ⟨x, x', rfl, rfl, hx⟩
  · exact .none
  · exact .some (hf x x' hx)

theorem rel_head {α : Type} {R : α → α → Prop} {l l' : List α} (h : List.Forall₂ R l l') :
    Option.Rel R l.head? l'.head? := by
  cases h with
  | nil => exact .none
  | cons hx _ => exact .some hx

theorem rel_findSome {α β : Type} {R : α → α → Prop} {S : β → β → Prop} {f : α → Option β}
    (hf : ∀ x x', R x x' → Option.Rel S (f x) (f x')) {l l' : List α} (h : List.Forall₂ R l l') :
    Option.Rel S (l.findSome? f) (l'.findSome? f) := by
  induction h with
  | nil => exact .none
  | @cons x x' l l' hx _ ih =>
    rw [List.findSome?_cons, List.findSome?_cons]
    rcases rel_iff.mp (hf x x' hx) with ⟨hn, hn'⟩ | ⟨y, y', hy, hy', hrel⟩
    · rw [hn, hn']
      exact ih
    · rw [hy, hy']
      exact .some hrel

theorem Parallel.first (h : Parallel κ W r) : ParallelFirst κ W r := fun s s' hs => rel_head (h s s' hs)

theorem ParallelFirst.seq (hr : Parallel κ W r) (hq : ParallelFirst κ W q) : ParallelFirst κ W (seq r q) := by
  intro s s' h
  rw [first_seq, first_seq]
  refine rel_findSome ?_ (hr s s' h)
  rintro x x' ⟨hcursor, hgroups⟩
  exact rel_map (hq _ _ hcursor) fun y y' hy => ⟨hy.1, List.rel_append hy.2 hgroups⟩

/-- What succeeds before a whitespace character succeeds after it. -/
def Passes (W : Char → Bool) (q : Pattern) : Prop :=
  ∀ b c t, isSpace c = true → Regex.run W q ⟨b, c :: t⟩ ≠ [] → Regex.run W q ⟨c :: b, t⟩ ≠ []

theorem Passes.spaces (hq : Passes W q) (hw : ∀ c ∈ w, isSpace c = true)
    (h : Regex.run W q ⟨b, w ++ y⟩ ≠ []) : Regex.run W q ⟨w.reverse ++ b, y⟩ ≠ [] := by
  induction w generalizing b with
  | nil => exact h
  | cons c w ih =>
    rw [List.forall_mem_cons] at hw
    have := ih hw.2 (hq b c (w ++ y) hw.1 h)
    simpa using this

/-- A trim and what passes whitespace: the first success is past all of it. -/
theorem first_spaces (hq : Passes W q) (hw : ∀ c ∈ w, isSpace c = true) (hy : y.head?.any isSpace = false) :
    first W (seq (many isSpace) q) ⟨b, w ++ y⟩ = first W q ⟨w.reverse ++ b, y⟩ := by
  cases hfirst : first W q ⟨w.reverse ++ b, y⟩ with
  | some x =>
    rw [first_seq_of_first (first_many hw hy b) hfirst, List.append_nil]
  | none =>
    rw [first_eq_none] at hfirst ⊢
    refine List.eq_nil_iff_forall_not_mem.mpr fun ⟨u, g⟩ hu => ?_
    obtain ⟨s, h, k, hmany, hk, -⟩ := mem_run_seq.mp hu
    obtain ⟨x, t, ht, hx, rfl, -⟩ := mem_run_many.mp hmany
    obtain ⟨v, rfl, rfl⟩ : ∃ v, w = x ++ v ∧ t = v ++ y := by
      rcases List.append_eq_append_iff.mp ht with ⟨v, hxw, hyt⟩ | ⟨v, hwx, hty⟩
      · -- nothing of `y` is read
        cases v with
        | nil => exact ⟨[], by simpa using hxw.symm, by simpa using hyt.symm⟩
        | cons d v =>
          have hd : isSpace d = true := hx d (by simp [hxw])
          simp [hyt, hd] at hy
      · exact ⟨v, hwx, hty⟩
    have hpast := hq.spaces (fun c hc => hw c (List.mem_append_right _ hc)) (List.ne_nil_of_mem hk)
    rw [← List.append_assoc, ← List.reverse_append] at hpast
    exact hpast hfirst

theorem ParallelFirst.spaces_of (hq : ∀ s s', Aligned κ s s' → s.after.head?.any isSpace = false →
    Option.Rel (Corr κ) (Regex.first W q s) (Regex.first W q s')) (hpasses : Passes W q) :
    ParallelFirst κ W (Pattern.seq (many isSpace) q) := by
  intro s s' h
  obtain ⟨w, y, v, z, hs, hs', hw, hv, -, hy, hz, hrest⟩ := h.skip
  rw [show s = ⟨s.before, w ++ y⟩ by rw [← hs], show s' = ⟨s'.before, v ++ z⟩ by rw [← hs'],
    first_spaces hpasses hw hy, first_spaces hpasses hv hz]
  exact hq _ _ hrest hy

theorem ParallelFirst.spaces (hq : ParallelFirst κ W q) (hpasses : Passes W q) :
    ParallelFirst κ W (Pattern.seq (many isSpace) q) :=
  ParallelFirst.spaces_of (fun s s' h _ => hq s s' h) hpasses

theorem run_ends_nil (b : Text) : Regex.run W ends ⟨b, []⟩ = [(⟨b, []⟩, [])] := rfl

theorem run_ends_solid (hc : isSpace c = false) : Regex.run W ends ⟨b, c :: t⟩ = [] := by
  have hne : ((c :: t) == ['\n']) = false := by
    rw [beq_eq_false_iff_ne]
    rintro h
    obtain ⟨rfl, -⟩ := List.cons.inj h
    exact absurd hc (by decide)
  rw [Regex.run, hne]
  rfl

/-- Whitespace before the end of the text. -/
theorem ParallelFirst.trailing : ParallelFirst κ W (Pattern.seq (many isSpace) (Pattern.seq ends Pattern.empty)) := by
  refine ParallelFirst.spaces_of ?_ ?_
  · rintro ⟨b, t⟩ s' h ht
    rcases text_cases t with rfl | ⟨c, u, rfl, hc⟩ | ⟨w, y, rfl, hw, hy⟩
    · obtain ⟨b', t'⟩ := s'
      obtain rfl : t' = [] := h.nil
      rw [Regex.first, Regex.first, run_seq_of_run _ (run_ends_nil b), run_seq_of_run _ (run_ends_nil b')]
      exact .some ⟨h, .nil⟩
    · obtain ⟨d, u', hs', hd, -, -⟩ := h.solid hc
      rw [hs', Regex.first, Regex.first, run_seq_of_nil _ (run_ends_solid hc), run_seq_of_nil _ (run_ends_solid hd)]
      exact .none
    · rw [hw.head y] at ht
      exact absurd ht (by decide)
  · intro b c t hc h
    have hends : Regex.run W ends ⟨b, c :: t⟩ ≠ [] := fun hnil => h (run_seq_of_nil _ hnil)
    have ht : t = [] := by
      by_contra hne
      refine hends ?_
      have hbeq : ((c :: t) == ['\n']) = false := by simp [hne]
      rw [Regex.run, hbeq]
      rfl
    rw [ht, run_seq_of_run _ (run_ends_nil _)]
    simp [Regex.run]

theorem ParallelFirst.gap (hq : ParallelFirst κ W q) (hrefuses : Refuses W q isSpace) :
    ParallelFirst κ W (Pattern.seq (plus isSpace) q) := by
  intro s s' h
  obtain ⟨w, y, v, z, hs, hs', hw, hv, hnil, hy, hz, hrest⟩ := h.skip
  rw [show s = ⟨s.before, w ++ y⟩ by rw [← hs], show s' = ⟨s'.before, v ++ z⟩ by rw [← hs'], Regex.first, Regex.first]
  by_cases hne : w = []
  · rw [hnil.mp hne, hne, List.nil_append, List.nil_append, run_plus_seq_of_not q hy, run_plus_seq_of_not q hz]
    exact .none
  · rw [run_plus_seq hrefuses hne hw hy, run_plus_seq hrefuses (mt hnil.mpr hne) hv hz]
    exact hq _ _ hrest

theorem Refuses.passes (hq : Refuses W q isSpace) : Passes W q := fun b c t hc h => absurd (hq b c t hc) h

/-- Whitespace on both sides of something optional. -/
theorem Passes.opt_spaces (hr : Refuses W r isSpace) (hq : Refuses W q isSpace) :
    Passes W (Pattern.seq (opt r) (Pattern.seq (many isSpace) q)) := by
  intro b c t hc h
  obtain ⟨⟨u, g⟩, hu⟩ := List.exists_mem_of_ne_nil _ h
  obtain ⟨s, g1, k, hs, hk, -⟩ := mem_run_seq.mp hu
  obtain ⟨rfl, rfl⟩ : s = ⟨b, c :: t⟩ ∧ g1 = [] := by
    have hopt : Regex.run W (opt r) ⟨b, c :: t⟩ = [(⟨b, c :: t⟩, [])] := by rw [Regex.run, hr b c t hc]; rfl
    rw [hopt] at hs
    exact Prod.mk.inj (List.mem_singleton.mp hs)
  obtain ⟨v, g2, k2, hv, hk2, -⟩ := mem_run_seq.mp hk
  obtain ⟨x, t', ht, hx, rfl, -⟩ := mem_run_many.mp hv
  cases x with
  | nil =>
    rw [List.nil_append] at ht
    subst ht
    exact absurd (hq b c t hc) (List.ne_nil_of_mem hk2)
  | cons d x =>
    obtain ⟨rfl, rfl⟩ := List.cons.inj ht
    have hk2 : (u, k2) ∈ Regex.run W q ⟨x.reverse ++ c :: b, t'⟩ := by simpa using hk2
    have hmany : (⟨x.reverse ++ c :: b, t'⟩, []) ∈ Regex.run W (many isSpace) ⟨c :: b, x ++ t'⟩ :=
      mem_run_many.mpr ⟨x, t', rfl, fun e he => hx e (List.mem_cons_of_mem _ he), rfl, rfl⟩
    have hstay : (⟨c :: b, x ++ t'⟩, []) ∈ Regex.run W (opt r) ⟨c :: b, x ++ t'⟩ :=
      List.mem_append_right _ (List.mem_singleton.mpr rfl)
    exact run_seq_ne_nil hstay (run_seq_ne_nil hmany (List.ne_nil_of_mem hk2))

/-! ## Matches -/

variable (κ) in
/-- Matches at the same place of two texts. -/
structure SameMatch (m m' : Match) : Prop where
  start : Aligned κ m.start m'.start
  stop : Aligned κ m.stop m'.stop
  groups : SameGroups κ m.groups m'.groups

theorem SameMatch.group {m m' : Match} (h : SameMatch κ m m') (i : Nat) :
    Option.Rel (fun x x' => x.map κ = x'.map κ) (m.group i) (m'.group i) := by
  have hlookup : ∀ {g g' : Groups}, SameGroups κ g g' →
      Option.Rel (fun x x' => x.map κ = x'.map κ) (g.lookup i) (g'.lookup i) := by
    intro g g' hg
    induction hg with
    | nil => exact .none
    | @cons a a' g g' ha _ ih =>
      obtain ⟨k, x⟩ := a
      obtain ⟨k', x'⟩ := a'
      obtain ⟨hk, hx⟩ := ha
      obtain rfl : k = k' := hk
      rw [List.lookup_cons, List.lookup_cons]
      split
      · exact .some hx
      · exact ih
  exact hlookup h.groups

theorem matchAt_parallel (hr : ParallelFirst κ W r) {s s' : Cursor} (h : Aligned κ s s') :
    Option.Rel (SameMatch κ) (matchAt W r s) (matchAt W r s') :=
  rel_map (hr s s' h) fun _ _ hx => ⟨h, hx.1, hx.2⟩

theorem matchAt_space (hr : Refuses W r isSpace) (hc : isSpace c = true) : matchAt W r ⟨b, c :: t⟩ = none :=
  matchAt_of_run_nil (hr b c t hc)

theorem searchFrom_parallel (hr : ParallelFirst κ W r) (hspace : Refuses W r isSpace) {s' : Cursor}
    (h : Aligned κ ⟨b, t⟩ s') :
    Option.Rel (SameMatch κ) (searchFrom W r b t) (searchFrom W r s'.before s'.after) := by
  revert b s' h
  refine text_induction (P := fun t => ∀ {b} {s' : Cursor}, Aligned κ ⟨b, t⟩ s' →
    Option.Rel (SameMatch κ) (searchFrom W r b t) (searchFrom W r s'.before s'.after)) ?_ ?_ ?_ t
  · intro b s' h
    obtain ⟨b', t'⟩ := s'
    obtain rfl : t' = [] := h.nil
    exact matchAt_parallel hr h
  · intro c u hc ih b s' h
    have hhere := matchAt_parallel hr h
    obtain ⟨d, u', hs', -, -, hrest⟩ := h.solid hc
    rw [hs'] at hhere ⊢
    rw [searchFrom, searchFrom]
    rcases rel_iff.mp hhere with ⟨hnone, hnone'⟩ | ⟨m, m', hm, hm', hsame⟩
    · rw [hnone, hnone']
      exact ih hrest
    · rw [hm, hm']
      exact .some hsame
  · intro w y hw hy ih b s' h
    have hskip : ∀ {w y b : Text}, Run w → searchFrom W r b (w ++ y) = searchFrom W r (w.reverse ++ b) y := by
      intro w y b hw
      refine searchFrom_skip w y b fun x₁ c x₂ hx => matchAt_space hspace (hw.space c ?_)
      rw [hx]
      simp
    obtain ⟨v, z, hs', hv, -, hrest⟩ := h.run hw hy
    rw [hs', hskip hw, hskip hv]
    exact ih hrest

/-- **A search finds the same place.** -/
theorem search_parallel (hr : ParallelFirst κ W r) (hspace : Refuses W r isSpace) (h : collapse κ t = collapse κ t') :
    Option.Rel (SameMatch κ) (search W r t) (search W r t') :=
  searchFrom_parallel hr hspace (Aligned.start h)

/-! ### All matches -/

variable (W) in
/-- No success of the pattern is empty. -/
def Moves (r : Pattern) : Prop := ∀ s x, x ∈ Regex.run W r s → s.before.length < x.1.before.length

theorem Reads.length_le {s u : Cursor} (h : Reads s u) : s.before.length ≤ u.before.length := by
  obtain ⟨w, -, hb⟩ := h
  rw [hb, List.length_append]
  omega

theorem Moves.char : Moves W (char p) := by
  rintro ⟨b, t⟩ ⟨u, g⟩ hx
  obtain ⟨c, t, -, -, rfl, -⟩ := mem_run_char.mp hx
  simp

theorem Moves.left (hr : Moves W r) : Moves W (seq r q) := by
  rintro s ⟨u, g⟩ hx
  obtain ⟨v, h, k, hv, hu, -⟩ := mem_run_seq.mp hx
  have hle := (run_reads hu).length_le
  have hlt := hr s _ hv
  exact Nat.lt_of_lt_of_le hlt hle

theorem Moves.right (hq : Moves W q) : Moves W (seq r q) := by
  rintro s ⟨u, g⟩ hx
  obtain ⟨v, h, k, hv, hu, -⟩ := mem_run_seq.mp hx
  have hle := (run_reads hv).length_le
  have hlt := hq v _ hu
  exact Nat.lt_of_le_of_lt hle hlt

theorem Moves.group {i : Nat} (hr : Moves W r) : Moves W (group i r) := by
  rintro s ⟨u, g⟩ hx
  obtain ⟨h, hu, -⟩ := mem_run_group.mp hx
  have hlt := hr s _ hu
  exact hlt

theorem Moves.oneOf {rs : List Pattern} (h : ∀ r ∈ rs, Moves W r) : Moves W (oneOf rs) := by
  intro s x hx
  obtain ⟨r, hr, hx⟩ := mem_run_oneOf_iff.mp hx
  exact h r hr s x hx

theorem Moves.kw {k : String} (hk : k.toList ≠ []) : Moves W (kw k) := by
  obtain ⟨a, t, ht⟩ := List.exists_cons_of_ne_nil hk
  rw [Regex.kw, ht]
  exact Moves.char.left

/-- A scan goes on where the match stops. -/
theorem findFrom_match (hr : Moves W r) {m : Match} (hm : matchAt W r ⟨b, c :: t⟩ = some m) :
    findFrom W r 0 b (c :: t) = m :: findFrom W r 0 m.stop.before m.stop.after := by
  have hstart := matchAt_start hm
  have hmem := mem_run_of_matchAt hm
  have hlt : b.length < m.stop.before.length := hr _ _ hmem
  obtain ⟨x, hx, hb⟩ : Reads ⟨b, c :: t⟩ m.stop := run_reads hmem
  cases x with
  | nil =>
    rw [hb] at hlt
    simp at hlt
  | cons d x =>
    obtain ⟨rfl, ht⟩ := List.cons.inj hx
    have hb : m.stop.before = x.reverse ++ c :: b := by simpa using hb
    have hskip : m.stop.before.length - m.start.before.length - 1 = x.length := by
      rw [hstart, hb]
      simp
      omega
    rw [findFrom, hm]
    show m :: findFrom W r (m.stop.before.length - m.start.before.length - 1) (c :: b) t = _
    rw [hskip, ht, List.append_eq, findFrom_drop r x m.stop.after (c :: b) le_rfl, Nat.sub_self, hb]

theorem findFrom_parallel (hr : ParallelFirst κ W r) (hspace : Refuses W r isSpace) (hmoves : Moves W r)
    {s' : Cursor} (h : Aligned κ ⟨b, t⟩ s') :
    List.Forall₂ (SameMatch κ) (findFrom W r 0 b t) (findFrom W r 0 s'.before s'.after) := by
  induction hn : t.length using Nat.strong_induction_on generalizing b t s' with
  | _ n ih =>
    subst hn
    rcases text_cases t with rfl | ⟨c, u, rfl, hc⟩ | ⟨w, y, rfl, hw, hy⟩
    · obtain ⟨b', t'⟩ := s'
      obtain rfl : t' = [] := h.nil
      have hhere := matchAt_parallel hr h
      show List.Forall₂ _ (matchAt W r ⟨b, []⟩).toList (matchAt W r ⟨b', []⟩).toList
      rcases rel_iff.mp hhere with ⟨hnone, hnone'⟩ | ⟨m, m', hm, hm', hsame⟩
      · rw [hnone, hnone']
        exact .nil
      · rw [hm, hm']
        exact .cons hsame .nil
    · have hhere := matchAt_parallel hr h
      obtain ⟨d, u', hs', -, -, hrest⟩ := h.solid hc
      rw [hs'] at hhere ⊢
      rcases rel_iff.mp hhere with ⟨hnone, hnone'⟩ | ⟨m, m', hm, hm', hsame⟩
      · rw [findFrom, findFrom, hnone, hnone']
        exact ih u.length (by simp) hrest rfl
      · rw [findFrom_match hmoves hm, findFrom_match hmoves hm']
        refine .cons hsame (ih m.stop.after.length ?_ hsame.stop rfl)
        have hmem := mem_run_of_matchAt hm
        have hlt : b.length < m.stop.before.length := hmoves _ _ hmem
        obtain ⟨x, hx, hb⟩ : Reads ⟨b, c :: u⟩ m.stop := run_reads hmem
        have hlen := congrArg List.length hx
        rw [hb] at hlt
        simp only [List.length_append, List.length_reverse] at hlen hlt
        omega
    · have hskip : ∀ {w y b : Text}, Run w → findFrom W r 0 b (w ++ y) = findFrom W r 0 (w.reverse ++ b) y := by
        intro w y b hw
        refine findFrom_skip w y b fun x₁ c x₂ hx => matchAt_space hspace (hw.space c ?_)
        rw [hx]
        simp
      obtain ⟨v, z, hs', hv, -, hrest⟩ := h.run hw hy
      rw [hs', hskip hw, hskip hv]
      have hlen := List.length_pos_iff.mpr hw.nonempty
      exact ih y.length (by rw [List.length_append]; omega) hrest rfl

/-- **A scan for all matches finds the same places.** -/
theorem findIter_parallel (hr : ParallelFirst κ W r) (hspace : Refuses W r isSpace) (hmoves : Moves W r)
    (h : collapse κ t = collapse κ t') : List.Forall₂ (SameMatch κ) (findIter W r t) (findIter W r t') :=
  findFrom_parallel hr hspace hmoves (Aligned.start h)

/-! ### Where the matches are -/

theorem Reads.on {s u : Cursor} (h : Reads s u) (hs : s.On t) : u.On t := by
  obtain ⟨w, ht, hb⟩ := h
  rw [Cursor.On, hb, List.reverse_append, List.reverse_reverse, List.append_assoc, ← ht]
  exact hs

/-- Where the matches of a scan start and stop. -/
theorem findIter_on {m : Match} (h : m ∈ findIter W r t) : m.start.On t ∧ m.stop.On t := by
  obtain ⟨x, y, rfl, hstart, hm⟩ := findIter_sound h
  have hon : m.start.On (x ++ y) := by
    rw [hstart, Cursor.On]
    simp
  refine ⟨hon, Reads.on (run_reads (mem_run_of_matchAt hm)) ?_⟩
  rwa [hstart] at hon

/-! ### A lazy repetition -/

theorem searchFrom_eq_findSome (q : Pattern) (b t : Text) :
    searchFrom W q b t = (stops (fun _ => true) b t).reverse.findSome? (matchAt W q) := by
  induction t generalizing b with
  | nil =>
    rw [searchFrom, stops, List.reverse_singleton, List.findSome?_cons]
    cases matchAt W q ⟨b, []⟩ <;> rfl
  | cons c t ih =>
    rw [searchFrom, stops, if_pos rfl, List.reverse_append, List.reverse_singleton, List.singleton_append,
      List.findSome?_cons, ih]
    cases matchAt W q ⟨b, c :: t⟩ <;> rfl

/-- After one character, `.*?` is the search for what follows it. -/
theorem matchStart_lazy (q : Pattern) (c : Char) (t : Text) :
    matchStart W (seq begins (seq (group 1 (seq (char fun _ => true) (manyLazy fun _ => true))) q)) (c :: t) =
      (searchFrom W q [c] t).map fun m => ⟨.start (c :: t), m.stop, m.groups ++ [(1, m.start.before.reverse)]⟩ := by
  have hgroup : Regex.run W (Pattern.group 1 (seq (char fun _ => true) (manyLazy fun _ => true))) (.start (c :: t)) =
      (stops (fun _ => true) [c] t).reverse.map fun u => (u, [(1, u.before.reverse)]) := by
    have hrun : Regex.run W (seq (char fun _ => true) (manyLazy fun _ => true)) (.start (c :: t)) =
        (stops (fun _ => true) [c] t).reverse.map (·, []) := by
      simp [Regex.run, Cursor.start, Function.comp_def]
    rw [Regex.run, hrun, List.map_map]
    refine List.map_congr_left fun u hu => ?_
    obtain ⟨x, t', rfl, -, rfl⟩ := mem_stops.mp (List.mem_reverse.mp hu)
    have hread := consumed_append [] (x.reverse ++ [c]) (c :: x) t'
    simp only [Function.comp_apply, Prod.mk.injEq, List.cons.injEq, true_and, and_true]
    rw [show Cursor.start (c :: (x ++ t')) = ⟨[], c :: x ++ t'⟩ from rfl, hread]
    simp
  have hbegins : Regex.run W begins (.start (c :: t)) = [(.start (c :: t), [])] := rfl
  rw [matchStart, matchAt, first_seq_of_run _ hbegins, first_seq, hgroup, List.findSome?_map,
    searchFrom_eq_findSome, Option.map_map, List.map_findSome?, List.map_findSome?]
  congr 1
  funext u
  simp only [Function.comp_apply, matchAt]
  cases Regex.first W q u <;> simp

end DataAgent.Regex
