import DataAgent.Regex.Keyword

/-!
# Keywords on the words of a text

A keyword pattern succeeds on a piece of a cut exactly if the piece is the keyword as a whole, so what a scanner
finds can be read off the words.

* `isKw` : a word is a keyword, in any letter case; `run_kw_seq_word` : a keyword and what follows it;
* `Leads` : a pattern that succeeds only at one of some keywords;
* **`searchWords_skip`**, **`findWords_skip`** : words that are none of them are passed over.
-/

namespace DataAgent.Regex
open Python (Text isSpace)
open Pattern

/-- A word is the keyword `s`, in any letter case. -/
def isKw (s : String) (w : Text) : Bool := s.toList.length == w.length && startsWith eqvIgnoreCase s.toList w

section
variable {W : Char → Bool}

/-- The letters of a keyword match word characters only. -/
structure Keyword (W : Char → Bool) (s : String) : Prop where
  nonempty : s.toList ≠ []
  word : ∀ a ∈ s.toList, ∀ c, eqvIgnoreCase a c = true → W c = true

/-- `q` fails between two word characters. -/
def Outside (W : Char → Bool) (q : Pattern) : Prop :=
  ∀ b c d t, W c = true → W d = true → run W q ⟨c :: b, d :: t⟩ = []

theorem Outside.wordBoundary (q : Pattern) : Outside W (seq wordBoundary q) :=
  fun b c d t hc hd => run_seq_of_nil q (by simp [run, atBoundary, hc, hd])

theorem Refuses.outside {q : Pattern} (h : Refuses W q W) : Outside W q := fun _ _ _ t _ hd => h _ _ t hd

theorem cat_nil : cat [] = empty := rfl
theorem cat_cons (r : Pattern) (rs : List Pattern) : cat (r :: rs) = seq r (cat rs) := rfl

/-! ## Classes and single characters -/

theorem map_snd_nil (l : List (Cursor × Groups)) : l.map (fun y => (y.1, y.2 ++ [])) = l := by simp

theorem run_seq_assoc (r q p : Pattern) (s : Cursor) : run W (seq (seq r q) p) s = run W (seq r (seq q p)) s := by
  simp [run, List.flatMap_map, List.map_flatMap, List.flatMap_assoc, Function.comp_def]

theorem run_empty_seq (r : Pattern) (s : Cursor) : run W (seq empty r) s = run W r s := by
  rw [run_seq_of_run r (u := s) (g := []) rfl, map_snd_nil]

theorem run_opt_seq (r q : Pattern) (s : Cursor) : run W (seq (opt r) q) s = run W (seq r q) s ++ run W q s := by
  simp [run]

theorem takeWhile_append_of {p : Char → Bool} {x t : Text} (hx : ∀ c ∈ x, p c = true) (ht : t.head?.any p = false) :
    (x ++ t).takeWhile p = x := by
  have h0 : t.takeWhile p = [] := by
    cases t with
    | nil => rfl
    | cons c t => rw [List.takeWhile_cons_of_neg (by simpa using ht)]
  rw [List.takeWhile_append_of_pos hx, h0, List.append_nil]

/-- `p*` before a pattern that refuses `p` takes all of the class. -/
theorem run_many_seq {p : Char → Bool} {q : Pattern} (hq : Refuses W q p) {x t : Text} (hx : ∀ c ∈ x, p c = true)
    (ht : t.head?.any p = false) (b : Text) :
    run W (seq (many p) q) ⟨b, x ++ t⟩ = run W q ⟨x.reverse ++ b, t⟩ := by
  have hrest : ((List.range ((x ++ t).takeWhile p).length).reverse.map (⟨b, x ++ t⟩ : Cursor).advance).flatMap
      (fun s => run W q s) = [] := by
    rw [List.flatMap_eq_nil_iff]
    intro s hs
    simp only [List.mem_map, List.mem_reverse, List.mem_range] at hs
    obtain ⟨k, hk, rfl⟩ := hs
    obtain ⟨b', c, t', he, hc⟩ := advance_after_of_lt (b := b) hk
    rw [he]
    exact hq b' c t' hc
  rw [run, run, List.flatMap_map]
  simp only [map_snd_nil]
  rw [stops_eq_cons, List.flatMap_cons, hrest, List.append_nil, takeWhile_append_of hx ht, Cursor.advance_append]

theorem run_plus_seq {p : Char → Bool} {q : Pattern} (hq : Refuses W q p) {x t : Text} (hne : x ≠ [])
    (hx : ∀ c ∈ x, p c = true) (ht : t.head?.any p = false) (b : Text) :
    run W (seq (plus p) q) ⟨b, x ++ t⟩ = run W q ⟨x.reverse ++ b, t⟩ := by
  obtain ⟨c, x, rfl⟩ := List.exists_cons_of_ne_nil hne
  have hassoc : run W (seq (plus p) q) ⟨b, c :: (x ++ t)⟩ = run W (seq (many p) q) ⟨c :: b, x ++ t⟩ := by
    simp [plus, run, hx c, Function.comp_def]
  rw [List.cons_append, hassoc, run_many_seq hq (fun d hd => hx d (List.mem_cons_of_mem _ hd)) ht]
  simp

theorem run_plus_seq_of_not {p : Char → Bool} (q : Pattern) {b t : Text} (ht : t.head?.any p = false) :
    run W (seq (plus p) q) ⟨b, t⟩ = [] := by
  refine run_seq_of_nil q ?_
  cases t with
  | nil => simp [plus, run]
  | cons c t => simp [plus, run, show p c = false by simpa using ht]

/-- The greedy choice is the match when the rest of the pattern succeeds after it. -/
theorem first_seq_of_first {r q : Pattern} {s u : Cursor} {g : Groups} {y : Cursor × Groups}
    (hr : first W r s = some (u, g)) (hq : first W q u = some y) : first W (seq r q) s = some (y.1, y.2 ++ g) := by
  obtain ⟨l, hl⟩ := List.head?_eq_some_iff.mp hr
  rw [first_seq, hl, List.findSome?_cons]
  simp [hq]

theorem first_empty (s : Cursor) : first W empty s = some (s, []) := rfl

theorem first_many {p : Char → Bool} {x t : Text} (hx : ∀ c ∈ x, p c = true) (ht : t.head?.any p = false) (b : Text) :
    first W (many p) ⟨b, x ++ t⟩ = some (⟨x.reverse ++ b, t⟩, []) := by
  rw [first, run, stops_eq_cons, takeWhile_append_of hx ht, Cursor.advance_append]
  rfl

theorem run_chr_seq (c : Char) (q : Pattern) (b t : Text) :
    run W (seq (chr c) q) ⟨b, c :: t⟩ = run W q ⟨c :: b, t⟩ := by
  simp [chr, run]

theorem run_chr_seq_of_ne {c : Char} (q : Pattern) {b t : Text} (h : c ∉ t.head?) :
    run W (seq (chr c) q) ⟨b, t⟩ = [] := by
  cases t with
  | nil => simp [chr, run]
  | cons d t => simp [chr, run, show ¬ d = c by simpa using h]

theorem run_opt_chr_seq (c : Char) (q : Pattern) (b t : Text) : run W (seq (opt (chr c)) q) ⟨b, c :: t⟩ =
    run W q ⟨c :: b, t⟩ ++ run W q ⟨b, c :: t⟩ := by
  simp [chr, run]

theorem run_opt_chr_seq_of_ne {c : Char} (q : Pattern) {b t : Text} (h : c ∉ t.head?) :
    run W (seq (opt (chr c)) q) ⟨b, t⟩ = run W q ⟨b, t⟩ := by
  cases t with
  | nil => simp [chr, run]
  | cons d t => simp [chr, run, show ¬ d = c by simpa using h]

theorem first_opt_chr (c : Char) (b t : Text) : first W (opt (chr c)) ⟨b, c :: t⟩ = some (⟨c :: b, t⟩, []) := by
  simp [first, chr, run]

theorem first_opt_chr_of_ne {c : Char} {b t : Text} (h : c ∉ t.head?) :
    first W (opt (chr c)) ⟨b, t⟩ = some (⟨b, t⟩, []) := by
  cases t with
  | nil => simp [first, chr, run]
  | cons d t => simp [first, chr, run, show ¬ d = c by simpa using h]

theorem first_group {r : Pattern} {s u : Cursor} {g : Groups} (i : Nat) (h : first W r s = some (u, g)) :
    first W (group i r) s = some (u, (i, consumed s u) :: g) := by
  obtain ⟨l, hl⟩ := List.head?_eq_some_iff.mp h
  simp [first, run, hl]

theorem first_opt {r : Pattern} {s : Cursor} {y : Cursor × Groups} (h : first W r s = some y) :
    first W (opt r) s = some y := by
  obtain ⟨l, hl⟩ := List.head?_eq_some_iff.mp h
  simp [first, run, hl]

theorem first_opt_of_nil {r : Pattern} {s : Cursor} (h : run W r s = []) : first W (opt r) s = some (s, []) := by
  simp [first, run, h]

/-! ## Successes -/

theorem mem_run_seq {r q : Pattern} {s u : Cursor} {g : Groups} : (u, g) ∈ run W (seq r q) s ↔
    ∃ v h k, (v, h) ∈ run W r s ∧ (u, k) ∈ run W q v ∧ g = k ++ h := by
  simp only [run, List.mem_flatMap, List.mem_map, Prod.exists, Prod.mk.injEq]
  constructor
  · rintro ⟨v, h, hr, u', k, hq, rfl, rfl⟩
    exact ⟨v, h, k, hr, hq, rfl⟩
  · rintro ⟨v, h, k, hr, hq, rfl⟩
    exact ⟨v, h, hr, u, k, hq, rfl, rfl⟩

theorem mem_run_empty {s u : Cursor} {g : Groups} : (u, g) ∈ run W empty s ↔ u = s ∧ g = [] := by
  simp [run]

theorem mem_run_char {p : Char → Bool} {b t : Text} {u : Cursor} {g : Groups} : (u, g) ∈ run W (char p) ⟨b, t⟩ ↔
    ∃ c t', t = c :: t' ∧ p c = true ∧ u = ⟨c :: b, t'⟩ ∧ g = [] := by
  cases t with
  | nil => simp [run]
  | cons c t => by_cases h : p c = true <;> simp [run, h]

theorem mem_stops {p : Char → Bool} {b t : Text} {s : Cursor} : s ∈ stops p b t ↔
    ∃ x t', t = x ++ t' ∧ (∀ c ∈ x, p c = true) ∧ s = ⟨x.reverse ++ b, t'⟩ := by
  induction t generalizing b with
  | nil =>
    constructor
    · intro h
      exact ⟨[], [], rfl, by simp, by simpa [stops] using h⟩
    · rintro ⟨x, t', h, -, rfl⟩
      obtain ⟨rfl, rfl⟩ := List.append_eq_nil_iff.mp h.symm
      simp [stops]
  | cons c t ih =>
    have hhere : (∃ x t', c :: t = x ++ t' ∧ (∀ c ∈ x, p c = true) ∧ s = ⟨x.reverse ++ b, t'⟩) ↔
        s = ⟨b, c :: t⟩ ∨ p c = true ∧ s ∈ stops p (c :: b) t := by
      rw [ih]
      constructor
      · rintro ⟨x, t', h, hx, rfl⟩
        cases x with
        | nil => exact Or.inl (by rw [h]; rfl)
        | cons d x =>
          obtain ⟨rfl, rfl⟩ := List.cons.inj h
          exact Or.inr ⟨hx c (by simp), x, t', rfl, fun d hd => hx d (List.mem_cons_of_mem _ hd), by simp⟩
      · rintro (rfl | ⟨hc, x, t', rfl, hx, rfl⟩)
        · exact ⟨[], c :: t, rfl, by simp, rfl⟩
        · exact ⟨c :: x, t', rfl, by simpa [hc] using hx, by simp⟩
    rw [hhere, stops]
    split
    · rename_i hc
      simp [hc, or_comm]
    · rename_i hc
      simp [hc]

theorem mem_run_many {p : Char → Bool} {b t : Text} {u : Cursor} {g : Groups} : (u, g) ∈ run W (many p) ⟨b, t⟩ ↔
    ∃ x t', t = x ++ t' ∧ (∀ c ∈ x, p c = true) ∧ u = ⟨x.reverse ++ b, t'⟩ ∧ g = [] := by
  simp only [run, List.mem_map, mem_stops, Prod.mk.injEq]
  constructor
  · rintro ⟨s, ⟨x, t', ht, hx, rfl⟩, rfl, rfl⟩
    exact ⟨x, t', ht, hx, rfl, rfl⟩
  · rintro ⟨x, t', ht, hx, rfl, rfl⟩
    exact ⟨_, ⟨x, t', ht, hx, rfl⟩, rfl, rfl⟩

theorem mem_run_group {i : Nat} {r : Pattern} {s u : Cursor} {g : Groups} : (u, g) ∈ run W (group i r) s ↔
    ∃ h, (u, h) ∈ run W r s ∧ g = (i, consumed s u) :: h := by
  simp only [run, List.mem_map, Prod.exists, Prod.mk.injEq]
  constructor
  · rintro ⟨u', h, hr, rfl, rfl⟩
    exact ⟨h, hr, rfl⟩
  · rintro ⟨h, hr, rfl⟩
    exact ⟨u, h, hr, rfl, rfl⟩

/-- A match is one of the successes. -/
theorem mem_run_of_matchAt {r : Pattern} {s : Cursor} {m : Match} (h : matchAt W r s = some m) :
    (m.stop, m.groups) ∈ run W r s := by
  obtain ⟨x, hx, rfl⟩ := Option.map_eq_some_iff.mp h
  obtain ⟨l, hl⟩ := List.head?_eq_some_iff.mp hx
  rw [hl]
  exact List.mem_cons_self

/-- A success reads a part of the text after the cursor. -/
def Reads (s u : Cursor) : Prop := ∃ w, s.after = w ++ u.after ∧ u.before = w.reverse ++ s.before

theorem Reads.refl (s : Cursor) : Reads s s := ⟨[], rfl, rfl⟩

theorem Reads.trans {s u v : Cursor} (h : Reads s u) (h' : Reads u v) : Reads s v := by
  obtain ⟨x, hx, hbx⟩ := h
  obtain ⟨y, hy, hby⟩ := h'
  refine ⟨x ++ y, ?_, ?_⟩
  · rw [hx, hy, List.append_assoc]
  · rw [hby, hbx, List.reverse_append, List.append_assoc]

theorem reads_of_stops {p : Char → Bool} {s u : Cursor} (h : u ∈ stops p s.before s.after) : Reads s u := by
  obtain ⟨w, t, ht, -, rfl⟩ := mem_stops.mp h
  exact ⟨w, ht, rfl⟩

theorem run_reads {r : Pattern} {s : Cursor} {x : Cursor × Groups} (hx : x ∈ run W r s) : Reads s x.1 := by
  induction r generalizing s x with
  | char p =>
    obtain ⟨b, t⟩ := s
    obtain ⟨u, g⟩ := x
    obtain ⟨c, t, rfl, -, rfl, -⟩ := mem_run_char.mp hx
    exact ⟨[c], rfl, rfl⟩
  | many p =>
    obtain ⟨u, hu, rfl⟩ := List.mem_map.mp hx
    exact reads_of_stops hu
  | manyLazy p =>
    obtain ⟨u, hu, rfl⟩ := List.mem_map.mp hx
    exact reads_of_stops (List.mem_reverse.mp hu)
  | empty =>
    obtain rfl : x = (s, []) := List.mem_singleton.mp hx
    exact Reads.refl s
  | seq r q ihr ihq =>
    obtain ⟨u, g⟩ := x
    obtain ⟨v, h, k, hr, hq, -⟩ := mem_run_seq.mp hx
    have hu := ihq hq
    exact (ihr hr).trans hu
  | alt r q ihr ihq =>
    rcases List.mem_append.mp hx with hx | hx
    · exact ihr hx
    · exact ihq hx
  | opt r ih =>
    rcases List.mem_append.mp hx with hx | hx
    · exact ih hx
    · obtain rfl : x = (s, []) := List.mem_singleton.mp hx
      exact Reads.refl s
  | group i r ih =>
    obtain ⟨u, g⟩ := x
    obtain ⟨h, hr, -⟩ := mem_run_group.mp hx
    have hu := ih hr
    exact hu
  | wordBoundary | begins | ends =>
    rw [run] at hx
    split at hx
    · obtain rfl : x = (s, []) := List.mem_singleton.mp hx
      exact Reads.refl s
    · exact absurd hx List.not_mem_nil

theorem mem_run_oneOf_iff {rs : List Pattern} {s : Cursor} {x : Cursor × Groups} :
    x ∈ run W (oneOf rs) s ↔ ∃ r ∈ rs, x ∈ run W r s := by
  refine ⟨fun h => ?_, fun ⟨r, hr, hx⟩ => mem_run_oneOf hr hx⟩
  induction rs with
  | nil =>
    have : run W (char fun _ => false) s = [] := by cases s with | mk b t => cases t <;> rfl
    rw [oneOf, this] at h
    exact absurd h List.not_mem_nil
  | cons r rs ih =>
    cases rs with
    | nil => exact ⟨r, by simp, h⟩
    | cons r' rs =>
      rcases List.mem_append.mp (show x ∈ run W r s ++ run W (oneOf (r' :: rs)) s from h) with h | h
      · exact ⟨r, by simp, h⟩
      · obtain ⟨q, hq, hx⟩ := ih h
        exact ⟨q, List.mem_cons_of_mem _ hq, hx⟩

/-! ## Where a match is -/

theorem matchAt_start {r : Pattern} {s : Cursor} {m : Match} (h : matchAt W r s = some m) : m.start = s := by
  obtain ⟨x, -, rfl⟩ := Option.map_eq_some_iff.mp h
  rfl

theorem searchFrom_sound {r : Pattern} {b t : Text} {m : Match} (h : searchFrom W r b t = some m) :
    ∃ x y, t = x ++ y ∧ matchAt W r ⟨x.reverse ++ b, y⟩ = some m := by
  induction t generalizing b with
  | nil => exact ⟨[], [], rfl, h⟩
  | cons c t ih =>
    rw [searchFrom] at h
    split at h
    · rename_i m' hm
      obtain rfl := Option.some.inj h
      exact ⟨[], c :: t, rfl, hm⟩
    · obtain ⟨x, y, rfl, hm⟩ := ih h
      exact ⟨c :: x, y, rfl, by simpa using hm⟩

theorem search_sound {r : Pattern} {t : Text} {m : Match} (h : search W r t = some m) :
    ∃ x y, t = x ++ y ∧ m.start = ⟨x.reverse, y⟩ ∧ matchAt W r ⟨x.reverse, y⟩ = some m := by
  obtain ⟨x, y, rfl, hm⟩ := searchFrom_sound h
  rw [List.append_nil] at hm
  exact ⟨x, y, rfl, matchAt_start hm, hm⟩

theorem findFrom_sound {r : Pattern} {k : Nat} {b t : Text} {m : Match} (h : m ∈ findFrom W r k b t) :
    ∃ x y, t = x ++ y ∧ matchAt W r ⟨x.reverse ++ b, y⟩ = some m := by
  have hskip : ∀ (c : Char) (t : Text), (∃ x y, t = x ++ y ∧ matchAt W r ⟨x.reverse ++ c :: b, y⟩ = some m) →
      ∃ x y, c :: t = x ++ y ∧ matchAt W r ⟨x.reverse ++ b, y⟩ = some m := by
    rintro c _ ⟨x, y, rfl, hm⟩
    exact ⟨c :: x, y, rfl, by simpa using hm⟩
  induction t generalizing b k with
  | nil =>
    cases k with
    | zero => exact ⟨[], [], rfl, by simpa [findFrom] using h⟩
    | succ k => simp [findFrom] at h
  | cons c t ih =>
    have hcons : ∀ (d : Char) (u : Text), (∃ x y, u = x ++ y ∧ matchAt W r ⟨x.reverse ++ d :: c :: b, y⟩ = some m) →
        ∃ x y, d :: u = x ++ y ∧ matchAt W r ⟨x.reverse ++ c :: b, y⟩ = some m := by
      intro d u h
      obtain ⟨x, y, hu, hm⟩ := h
      exact ⟨d :: x, y, by rw [hu]; rfl, by simpa using hm⟩
    have ih := fun {k} (h : m ∈ findFrom W r k (c :: b) t) => ih h hcons
    cases k with
    | succ k => exact hskip c t (ih h)
    | zero =>
      rw [findFrom] at h
      split at h
      · rename_i m' hm
        rcases List.mem_cons.mp h with rfl | h
        · exact ⟨[], c :: t, rfl, hm⟩
        · exact hskip c t (ih h)
      · exact hskip c t (ih h)

theorem findIter_sound {r : Pattern} {t : Text} {m : Match} (h : m ∈ findIter W r t) :
    ∃ x y, t = x ++ y ∧ m.start = ⟨x.reverse, y⟩ ∧ matchAt W r ⟨x.reverse, y⟩ = some m := by
  obtain ⟨x, y, rfl, hm⟩ := findFrom_sound h
  rw [List.append_nil] at hm
  exact ⟨x, y, rfl, matchAt_start hm, hm⟩

/-- Where the pattern succeeds past what is skipped, a scan reports a match. -/
theorem findFrom_ne_nil {r : Pattern} {k : Nat} (x y b : Text) (h : (matchAt W r ⟨x.reverse ++ b, y⟩).isSome)
    (hk : k ≤ x.length) : findFrom W r k b (x ++ y) ≠ [] := by
  induction x generalizing b k with
  | nil =>
    obtain rfl : k = 0 := by simpa using hk
    obtain ⟨m, hm⟩ := Option.isSome_iff_exists.mp h
    rw [List.reverse_nil, List.nil_append] at hm
    cases y with
    | nil => simp [findFrom, hm]
    | cons c y => simp [findFrom, hm]
  | cons c x ih =>
    have ih := fun {k} => ih (k := k) (c :: b) (by simpa using h)
    rw [List.cons_append]
    cases k with
    | zero =>
      rw [findFrom]
      split
      · exact List.cons_ne_nil _ _
      · exact ih (Nat.zero_le _)
    | succ k =>
      rw [findFrom]
      exact ih (by simpa using hk)

/-- A search fails exactly if the pattern has no success anywhere. -/
theorem search_eq_none {r : Pattern} {t : Text} :
    search W r t = none ↔ ∀ x y, t = x ++ y → run W r ⟨x.reverse, y⟩ = [] := by
  constructor
  · rintro h x y rfl
    by_contra hne
    have := searchFrom_isSome (r := r) x y [] (by rw [List.append_nil]; exact matchAt_isSome.mpr hne)
    rw [search] at h
    simp [h] at this
  · intro h
    by_contra hne
    obtain ⟨m, hm⟩ := Option.ne_none_iff_exists'.mp hne
    obtain ⟨x, y, ht, -, hmatch⟩ := search_sound hm
    exact absurd (h x y ht) (List.ne_nil_of_mem (mem_run_of_matchAt hmatch))

/-- More keywords are found in more texts. -/
theorem search_keywords_mono {ks ks' : List String} (hks : ∀ k ∈ ks, k ∈ ks') {t : Text}
    (h : search W (keywordsPattern ks') t = none) : search W (keywordsPattern ks) t = none := by
  rw [search_eq_none] at h ⊢
  intro x y ht
  refine List.eq_nil_iff_forall_not_mem.mpr fun ⟨u, g⟩ hu => ?_
  have hu' : (u, g) ∈ run W (keywordsPattern ks') ⟨x.reverse, y⟩ := by
    obtain ⟨v, g1, g2, hv, hrest, rfl⟩ := mem_run_seq.mp hu
    obtain ⟨v', g3, g4, hv', hend, rfl⟩ := mem_run_seq.mp hrest
    obtain ⟨g5, hone, rfl⟩ := mem_run_group.mp hv'
    obtain ⟨r, hr, hmem⟩ := mem_run_oneOf_iff.mp hone
    obtain ⟨k, hk, rfl⟩ := List.mem_map.mp hr
    have hone' := mem_run_oneOf (List.mem_map_of_mem (hks k hk)) hmem
    exact mem_run_seq.mpr ⟨v, g1, _, hv,
      mem_run_seq.mpr ⟨v', _, g4, mem_run_group.mpr ⟨g5, hone', rfl⟩, hend, rfl⟩, rfl⟩
  rw [h x y ht] at hu'
  exact absurd hu' List.not_mem_nil

/-- The group of a keyword that is found has the letters of the keyword. -/
theorem group_of_keywords {ks : List String} {t : Text} {m : Match} (h : search W (keywordsPattern ks) t = some m) :
    ∃ k ∈ ks, ∃ w, m.group 1 = some w ∧ List.Forall₂ (fun a c => eqvIgnoreCase a c = true) k.toList w := by
  obtain ⟨x, y, -, -, hmatch⟩ := search_sound h
  obtain ⟨v, g1, g2, -, hrest, hg⟩ := mem_run_seq.mp (mem_run_of_matchAt hmatch)
  obtain ⟨v', g3, g4, hgroup, hend, rfl⟩ := mem_run_seq.mp hrest
  obtain ⟨v'', g5, g6, hedge, hempty, rfl⟩ := mem_run_seq.mp hend
  obtain ⟨-, rfl⟩ := mem_run_empty.mp hempty
  obtain ⟨g7, hone, rfl⟩ := mem_run_group.mp hgroup
  -- a boundary has no groups
  have hnone : g5 = [] := by
    rw [run] at hedge
    split at hedge
    · exact (Prod.mk.inj (List.mem_singleton.mp hedge)).2
    · simp at hedge
  obtain ⟨r, hr, hlit⟩ := mem_run_oneOf_iff.mp hone
  obtain ⟨k, hk, rfl⟩ := List.mem_map.mp hr
  rw [kw, run_lit] at hlit
  split at hlit
  · rename_i hstarts
    obtain ⟨rfl, rfl⟩ : v' = v.advance k.toList.length ∧ g7 = [] := by simpa using hlit
    refine ⟨k, hk, v.after.take k.toList.length, ?_, forall₂_of_startsWith hstarts⟩
    have hconsumed : consumed v (v.advance k.toList.length) = v.after.take k.toList.length := by
      rw [consumed, Cursor.advance, List.length_drop, List.take_eq_take_iff]
      omega
    rw [Match.group, hg, hnone, hconsumed]
    rfl
  · simp at hlit

/-! ## The pieces after a word -/

theorem head_after_word {w : Text} {ps : List Piece} {space : Char → Bool} (h : Segmented W space (.word w :: ps)) :
    (join ps).head?.any W = false := by
  obtain ⟨-, hq, htail⟩ := segmented_cons.mp h
  cases ps with
  | nil => rfl
  | cons p ps =>
    have hp := htail.head
    cases p with
    | word v => exact (hq _ rfl).elim
    | space v =>
      obtain ⟨c, v, rfl⟩ := List.exists_cons_of_ne_nil hp.1
      simpa using (hp.2 c (by simp)).1
    | sym c => simpa using hp.1

theorem boundary_after {w : Text} {ps : List Piece} {space : Char → Bool} (h : Segmented W space (.word w :: ps))
    (b : Text) : atBoundary W ⟨w.reverse ++ b, join ps⟩ = true := by
  obtain ⟨hne, hw⟩ := h.head
  obtain ⟨w, c, rfl⟩ := List.eq_nil_or_concat w |>.resolve_left hne
  simp [atBoundary, head_after_word h, hw c]

/-! ## A keyword at a word -/

theorem startsWith_length_le {eqv : Char → Char → Bool} {p t : Text} (h : startsWith eqv p t = true) :
    p.length ≤ t.length := by
  have := (forall₂_of_startsWith h).length_eq
  rw [List.length_take] at this
  omega

theorem startsWith_nil_of_refused {eqv : Char → Char → Bool} {a : Char} {p t : Text}
    (h : ∀ c ∈ t.head?, eqv a c = false) : startsWith eqv (a :: p) t = false := by
  cases t with
  | nil => rfl
  | cons c t => rw [startsWith, h c rfl, Bool.false_and]

/-- A literal of word characters does not go past the end of a word. -/
theorem startsWith_word {eqv : Char → Char → Bool} {p w t : Text} (hp : ∀ a ∈ p, ∀ c, eqv a c = true → W c = true)
    (ht : t.head?.any W = false) : startsWith eqv p (w ++ t) = startsWith eqv p w := by
  induction p generalizing w with
  | nil => rfl
  | cons a p ih =>
    cases w with
    | nil =>
      rw [List.nil_append, startsWith, startsWith_nil_of_refused]
      intro c hc
      cases t with
      | nil => simp at hc
      | cons d t =>
        obtain rfl : d = c := by simpa using hc
        by_contra he
        have := hp a (by simp) d (by simpa using he)
        simp [this] at ht
    | cons c w =>
      rw [List.cons_append, startsWith, startsWith, ih fun a' ha' => hp a' (List.mem_cons_of_mem _ ha')]

/-- **A keyword followed by `q`, at a word**: the whole word is the keyword, or there is no success. -/
theorem run_kw_seq_word {s : String} (hk : Keyword W s) {q : Pattern} (hq : Outside W q) {w t : Text}
    (hw : ∀ c ∈ w, W c = true) (ht : t.head?.any W = false) (b : Text) : run W (seq (kw s) q) ⟨b, w ++ t⟩ =
      if isKw s w then run W q ⟨w.reverse ++ b, t⟩ else [] := by
  have hlit := @run_lit W eqvIgnoreCase s.toList ⟨b, w ++ t⟩
  rw [startsWith_word hk.word ht] at hlit
  by_cases hst : startsWith eqvIgnoreCase s.toList w = true
  · rw [if_pos hst] at hlit
    rw [kw, run_seq_of_run q hlit, map_snd_nil]
    rcases Nat.lt_or_eq_of_le (startsWith_length_le hst) with hlt | heq
    · -- the keyword ends inside the word, where `q` fails
      rw [isKw, if_neg (by simp [hst]; omega)]
      obtain ⟨u, d, v, rfl, hu⟩ : ∃ u d v, w = u ++ d :: v ∧ u.length = s.toList.length := by
        refine ⟨w.take s.toList.length, w.get ⟨s.toList.length, hlt⟩, w.drop (s.toList.length + 1), ?_, by simp; omega⟩
        simp
      have hne : u ≠ [] := by
        rintro rfl
        exact hk.nonempty (List.eq_nil_of_length_eq_zero hu.symm)
      obtain ⟨u, c, rfl⟩ := List.eq_nil_or_concat u |>.resolve_left hne
      rw [← hu, List.append_assoc, Cursor.advance_append]
      have := hq (u.reverse ++ b) c d (v ++ t) (hw c (by simp)) (hw d (by simp))
      simpa using this
    · rw [isKw, if_pos (by simp [hst, heq]), heq, Cursor.advance_append]
  · rw [if_neg hst] at hlit
    rw [kw, run_seq_of_nil q hlit, isKw, if_neg (by simp [hst])]

/-- There is no keyword where no word starts. -/
theorem run_kw_seq_of_not {s : String} (hk : Keyword W s) (q : Pattern) {t : Text} (ht : t.head?.any W = false)
    (b : Text) : run W (seq (kw s) q) ⟨b, t⟩ = [] := by
  refine run_seq_of_nil q ?_
  obtain ⟨a, p, hp⟩ := List.exists_cons_of_ne_nil hk.nonempty
  rw [kw, run_lit, hp, startsWith_nil_of_refused, if_neg (by simp)]
  intro c hc
  by_contra he
  have := hk.word a (by simp [hp]) c (by simpa using he)
  rw [Option.mem_def.mp hc] at ht
  simp [this] at ht

theorem Keyword.refuses {s : String} (hk : Keyword W s) (q : Pattern) {p : Char → Bool}
    (h : ∀ c, p c = true → W c = false) : Refuses W (seq (kw s) q) p :=
  fun b c t hc => run_kw_seq_of_not hk q (by simpa using h c hc) b

theorem run_seq_alt (r q p : Pattern) (s : Cursor) :
    run W (seq (alt r q) p) s = run W (seq r p) s ++ run W (seq q p) s := by
  simp [run]

/-- One of some keywords followed by `q`, at a word. -/
theorem run_kws_seq_word {ks : List String} (hk : ∀ s ∈ ks, Keyword W s) {q : Pattern} (hq : Outside W q) {w t : Text}
    (hw : ∀ c ∈ w, W c = true) (ht : t.head?.any W = false) (b : Text) :
    run W (seq (oneOf (ks.map kw)) q) ⟨b, w ++ t⟩ =
      ks.flatMap fun s => if isKw s w then run W q ⟨w.reverse ++ b, t⟩ else [] := by
  induction ks with
  | nil =>
    refine run_seq_of_nil q ?_
    show run W (char fun _ => false) _ = []
    cases w ++ t <;> simp [run]
  | cons k ks ih =>
    have hk1 := hk k List.mem_cons_self
    cases ks with
    | nil =>
      rw [List.flatMap_cons, List.flatMap_nil, List.append_nil]
      exact run_kw_seq_word hk1 hq hw ht b
    | cons k' ks =>
      show run W (seq (alt (kw k) (oneOf ((k' :: ks).map kw))) q) _ = _
      rw [run_seq_alt, run_kw_seq_word hk1 hq hw ht, ih fun s h => hk s (List.mem_cons_of_mem _ h)]
      rfl

theorem first_kws_seq_word {ks : List String} (hk : ∀ s ∈ ks, Keyword W s) {q : Pattern} (hq : Outside W q)
    {w t : Text} (hw : ∀ c ∈ w, W c = true) (ht : t.head?.any W = false) {k : String} (hkm : k ∈ ks)
    (hkw : isKw k w = true) (b : Text) :
    first W (seq (oneOf (ks.map kw)) q) ⟨b, w ++ t⟩ = first W q ⟨w.reverse ++ b, t⟩ := by
  rw [first, run_kws_seq_word hk hq hw ht, first]
  have hall : ∀ l : List (Cursor × Groups), k ∈ ks →
      (ks.flatMap fun s => if isKw s w then l else []).head? = l.head? := by
    intro l h
    cases l with
    | nil => simp
    | cons x l =>
      have hx : (ks.flatMap fun s => if isKw s w then x :: l else []).head? = some x := by
        clear hkm hk
        induction ks with
        | nil => simp at h
        | cons s ks ih =>
          rw [List.flatMap_cons]
          split
          · rfl
          · rcases List.mem_cons.mp h with rfl | h
            · contradiction
            · exact ih h
      rw [hx]
      rfl
  exact hall _ hkm

/-- **A keyword between boundaries, at a word.** -/
theorem matchAt_keyword {s : String} (hk : Keyword W s) {w t b : Text} (hw : ∀ c ∈ w, W c = true)
    (hkw : isKw s w = true) (hb : b.head?.any W = false) (ht : t.head?.any W = false) :
    matchAt W (keywordPattern s) ⟨b, w ++ t⟩ = some ⟨⟨b, w ++ t⟩, ⟨w.reverse ++ b, t⟩, []⟩ := by
  have hne : w ≠ [] := by
    rintro rfl
    rw [isKw, Bool.and_eq_true, beq_iff_eq] at hkw
    exact hk.nonempty (List.eq_nil_of_length_eq_zero hkw.1)
  have hend : atBoundary W ⟨w.reverse ++ b, t⟩ = true := by
    obtain ⟨w, c, rfl⟩ := List.eq_nil_or_concat w |>.resolve_left hne
    simp [atBoundary, ht, hw c]
  have hlast : run W (cat [wordBoundary]) ⟨w.reverse ++ b, t⟩ = [(⟨w.reverse ++ b, t⟩, [])] := by
    rw [cat_cons, run_anchored_of_boundary hend]
    rfl
  have hout : Outside W (cat [wordBoundary]) := Outside.wordBoundary _
  obtain ⟨c, w', rfl⟩ := List.exists_cons_of_ne_nil hne
  rw [keywordPattern, cat_cons, cat_cons, List.cons_append, matchAt_anchored_word hb _ (hw c (by simp)), matchAt, first,
    ← List.cons_append, run_kw_seq_word hk hout hw ht, if_pos hkw, hlast]
  rfl

/-! ## Patterns that begin with a keyword -/

/-- At a word `q` succeeds only if the word is one of the keywords `ks`. -/
def Leads (W space : Char → Bool) (ks : List String) (q : Pattern) : Prop :=
  ∀ b w ps, Segmented W space (.word w :: ps) → (∀ k ∈ ks, isKw k w = false) → run W q ⟨b, w ++ join ps⟩ = []

theorem leads_kws {space : Char → Bool} {ks : List String} (hk : ∀ s ∈ ks, Keyword W s) {q : Pattern}
    (hq : Outside W q) : Leads W space ks (seq (oneOf (ks.map kw)) q) := by
  intro b w ps hs h
  rw [run_kws_seq_word hk hq hs.head.2 (head_after_word hs), List.flatMap_eq_nil_iff]
  intro k hkm
  rw [if_neg (by simpa using h k hkm)]

theorem startsAtWord_kws {ks : List String} (hk : ∀ s ∈ ks, Keyword W s) (q : Pattern) :
    StartsAtWord W (seq (oneOf (ks.map kw)) q) := by
  have hone : ∀ s : Cursor, s.after.head?.any W = false → run W (oneOf (ks.map kw)) s = [] := by
    intro s hs
    induction ks with
    | nil => show run W (char fun _ => false) s = []; cases h : s.after <;> simp [run, h]
    | cons k ks ih =>
      have hkw : run W (kw k) s = [] := by
        have := run_kw_seq_of_not (hk k List.mem_cons_self) empty hs s.before
        simpa [run] using this
      cases ks with
      | nil => exact hkw
      | cons k' ks =>
        show run W (kw k) s ++ run W (oneOf ((k' :: ks).map kw)) s = []
        rw [hkw, List.nil_append]
        exact ih fun s h => hk s (List.mem_cons_of_mem _ h)
  constructor
  · intro b c t hc
    exact run_seq_of_nil q (hone _ (by simpa using hc))
  · intro b
    exact run_seq_of_nil q (hone _ rfl)

/-! ## Passing over words -/

/-- No word of the pieces is one of the keywords. -/
def Free (ks : List String) (ps : List Piece) : Prop := ∀ w, Piece.word w ∈ ps → ∀ k ∈ ks, isKw k w = false

theorem Free.append {ks : List String} {ps qs : List Piece} : Free ks (ps ++ qs) ↔ Free ks ps ∧ Free ks qs := by
  simp only [Free, List.mem_append]
  exact ⟨fun h => ⟨fun w hw => h w (Or.inl hw), fun w hw => h w (Or.inr hw)⟩,
    fun h w hw => hw.elim (h.1 w) (h.2 w)⟩

instance (ks : List String) (ps : List Piece) : Decidable (Free ks ps) :=
  decidable_of_iff (∀ p ∈ ps, p.isWord = true → ∀ k ∈ ks, isKw k p.text = false)
    ⟨fun h w hw => h _ hw rfl, fun h p hp hword => by
      cases p with
      | word w => exact h w hp
      | space w => simp [Piece.isWord] at hword
      | sym c => simp [Piece.isWord] at hword⟩

section Skip
variable {space : Char → Bool} {ks : List String} {q : Pattern}

theorem Leads.matchAt_eq_none (hq : Leads W space ks q) {p : Piece} {ps : List Piece}
    (hs : Segmented W space (p :: ps)) (hf : Free ks [p]) (hp : p.isWord = true) (b : Text) :
    matchAt W q ⟨b, join (p :: ps)⟩ = none := by
  cases p with
  | word w => exact matchAt_of_run_nil (hq b w ps hs (hf w (by simp)))
  | space w => simp [Piece.isWord] at hp
  | sym c => simp [Piece.isWord] at hp

/-- **A search passes over words that are none of its keywords.** -/
theorem searchWords_skip (hq : Leads W space ks q) {x y : List Piece} (hs : Segmented W space (x ++ y))
    (hf : Free ks x) (b : Text) : searchWords (matchAt W q) b (x ++ y) =
      searchWords (matchAt W q) ((join x).reverse ++ b) y := by
  induction x generalizing b with
  | nil => rfl
  | cons p x ih =>
    obtain ⟨hfp, hfps⟩ := Free.append.mp (show Free ks ([p] ++ x) from hf)
    have hnone : (if p.isWord = true then matchAt W q ⟨b, join (p :: (x ++ y))⟩ else none) = none := by
      split_ifs with hp
      · exact hq.matchAt_eq_none hs hfp hp b
      · rfl
    rw [List.cons_append, searchWords, hnone, ih hs.tail hfps]
    simp

/-- A scan for all matches passes over words where there is none. -/
theorem findWords_pass {m : Cursor → Option Match} {x y : List Piece}
    (hnone : ∀ u w v, x = u ++ .word w :: v → ∀ b, m ⟨b, w ++ join (v ++ y)⟩ = none) (k : Nat) (b : Text) :
    findWords m k b (x ++ y) = findWords m (k - (join x).length) ((join x).reverse ++ b) y := by
  induction x generalizing b k with
  | nil => rfl
  | cons p x ih =>
    have hp : (if k = 0 ∧ p.isWord = true then m ⟨b, join (p :: (x ++ y))⟩ else none) = none := by
      split_ifs with hword
      · cases p with
        | word w => exact hnone [] w x rfl b
        | space w => simp [Piece.isWord] at hword
        | sym c => simp [Piece.isWord] at hword
      · rfl
    rw [List.cons_append, findWords, hp, ih fun u w v hx => hnone (p :: u) w v (by rw [hx, List.cons_append])]
    simp [Nat.sub_sub]

/-- **So it does over words that are none of the keywords.** -/
theorem findWords_skip (hq : Leads W space ks q) {x y : List Piece} (hs : Segmented W space (x ++ y))
    (hf : Free ks x) (k : Nat) (b : Text) : findWords (matchAt W q) k b (x ++ y) =
      findWords (matchAt W q) (k - (join x).length) ((join x).reverse ++ b) y := by
  refine findWords_pass (fun u w v hx b => ?_) k b
  subst hx
  rw [List.append_assoc] at hs
  exact matchAt_of_run_nil (hq b w _ hs.right (hf w (by simp)))

/-- A search stops at the first word where the pattern succeeds. -/
theorem searchWords_word {m : Cursor → Option Match} {w : Text} {ps : List Piece} {b : Text} {x : Match}
    (h : m ⟨b, w ++ join ps⟩ = some x) : searchWords m b (.word w :: ps) = some x := by
  simp [searchWords, Piece.isWord, h]

/-- A scan reports it, and goes on after it. -/
theorem findWords_word {m : Cursor → Option Match} {w : Text} {ps : List Piece} {b : Text} {x : Match}
    (h : m ⟨b, w ++ join ps⟩ = some x) : findWords m 0 b (.word w :: ps) =
      x :: findWords m (x.stop.before.length - x.start.before.length - w.length) (w.reverse ++ b) ps := by
  simp [findWords, Piece.isWord, h]

/-- At a word a scan reports a match, or passes over it. -/
theorem findWords_word_cases (m : Cursor → Option Match) (k : Nat) (b w : Text) (ps : List Piece) :
    (∃ x k', m ⟨b, w ++ join ps⟩ = some x ∧
      findWords m k b (.word w :: ps) = x :: findWords m k' (w.reverse ++ b) ps) ∨
    ∃ k', findWords m k b (.word w :: ps) = findWords m k' (w.reverse ++ b) ps := by
  rw [findWords]
  split
  · rename_i x hx
    split_ifs at hx
    exact Or.inl ⟨x, _, hx, rfl⟩
  · exact Or.inr ⟨_, rfl⟩

end Skip

end

end DataAgent.Regex
