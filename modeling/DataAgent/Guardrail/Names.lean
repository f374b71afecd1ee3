import DataAgent.Guardrail.Patterns
import DataAgent.Regex.Scan
import DataAgent.TSql.Reading

/-!
# The guardrail's patterns on names

What the patterns for identifiers, table references and sort keys find where a text has plain names, bare or in
brackets.
-/

namespace DataAgent.Guardrail
open Python Regex Pattern
open TSql (Name plainStart plainPart fold isReserved reservedKeywords)

/-! ## Characters -/

theorem toNat_lt_of_plainPart {c : Char} (h : plainPart c = true) : c.toNat < 128 := by
  rw [plainPart, Bool.or_eq_true, isAlphanum_iff, beq_iff_eq] at h
  rcases h with h | rfl
  · omega
  · decide

theorem identStart_of_plainStart {c : Char} (h : plainStart c = true) : identStart c = true := by
  simp [identStart, show (c.isAlpha || c == '_') = true from h]

theorem identChar_of_plainPart {c : Char} (h : plainPart c = true) : identChar c = true := by
  simp [identChar, show (c.isAlphanum || c == '_') = true from h]

theorem isWord_of_plainPart (U : Unicode) {c : Char} (h : plainPart c = true) : isWord U c = true := by
  rw [isWord, U.alnum_ascii c (toNat_lt_of_plainPart h)]
  exact h

theorem isWord_ascii (U : Unicode) {c : Char} (h : c.toNat < 128) : isWord U c = plainPart c := by
  rw [isWord, U.alnum_ascii c h]
  rfl

theorem isWord_of_isSpace (U : Unicode) {c : Char} (h : isSpace c = true) : isWord U c = false := by
  have hne : (c == '_') = false := by
    rw [beq_eq_false_iff_ne]
    rintro rfl
    exact absurd h (by decide)
  rw [isWord, U.alnum_space c h, hne]
  rfl

theorem isWord_of_identChar (U : Unicode) {c : Char} (h : identChar c = true) : isWord U c = true := by
  rw [identChar, Bool.or_eq_true] at h
  rcases h with h | h
  · exact isWord_of_plainPart U h
  · rw [isWord, U.alnum_fold c (by simpa using h), Bool.true_or]

theorem isAlpha_of_toLower {a c : Char} (ha : a.isAlpha = true) (h : a.toLower = c.toLower) : c.isAlpha = true := by
  rw [← Char.isAlpha_toLower_eq_isAlpha, ← h, Char.isAlpha_toLower_eq_isAlpha, ha]

/-- The letters of a keyword match word characters only. -/
theorem keyword_of_alpha (U : Unicode) {s : String} (hne : s.toList ≠ []) (h : ∀ a ∈ s.toList, a.isAlpha = true) :
    Keyword (isWord U) s := by
  refine ⟨hne, fun a ha c hc => ?_⟩
  have hfold : c ∈ foldChars → isWord U c = true := fun hm => by rw [isWord, U.alnum_fold c hm, Bool.true_or]
  simp only [eqvIgnoreCase, Bool.or_eq_true, Bool.and_eq_true, beq_iff_eq] at hc
  rcases hc with ((hc | ⟨-, rfl | rfl⟩) | ⟨-, rfl⟩) | ⟨-, rfl⟩
  · exact isWord_of_plainPart U (by simp [plainPart, Char.isAlphanum, isAlpha_of_toLower (h a ha) hc])
  all_goals exact hfold (by simp [foldChars])

/-! ## Keywords and names -/

/-- The words that the patterns look for. -/
def patternKeywords : List String :=
  forbiddenKeywords ++ clauseBoundaryKeywords ++ ["SELECT", "TOP", "FROM", "AS", "ON", "BY", "ASC"]

theorem patternKeywords_alpha : ∀ s ∈ patternKeywords, s.toList ≠ [] ∧ ∀ a ∈ s.toList, a.isAlpha = true := by
  simp [patternKeywords, forbiddenKeywords, clauseBoundaryKeywords]

theorem patternKeywords_upper : ∀ s ∈ patternKeywords, fold s.toList = s.toList := by
  simp [patternKeywords, forbiddenKeywords, clauseBoundaryKeywords, fold]

theorem patternKeywords_reserved : ∀ s ∈ patternKeywords, reservedKeywords.any fun k => s.toList == k.toList := by
  have h : patternKeywords.all (fun s => reservedKeywords.any fun k => s.toList == k.toList) = true := by
    decide +kernel
  exact List.all_eq_true.mp h

theorem keyword (U : Unicode) {s : String} (h : s ∈ patternKeywords) : Keyword (isWord U) s :=
  keyword_of_alpha U (patternKeywords_alpha s h).1 (patternKeywords_alpha s h).2

theorem eqvIgnoreCase_ascii {a c : Char} (hc : c.toNat < 128) (h : eqvIgnoreCase a c = true) :
    c.toUpper = a.toUpper := by
  simp only [eqvIgnoreCase, Bool.or_eq_true, Bool.and_eq_true, beq_iff_eq] at h
  rcases h with ((h | ⟨-, rfl | rfl⟩) | ⟨-, rfl⟩) | ⟨-, rfl⟩
  · rw [← Char.toUpper_toLower_eq_toUpper, ← h, Char.toUpper_toLower_eq_toUpper]
  all_goals exact absurd hc (by decide)

theorem startsWith_iff_fold {p w : Text} (hw : ∀ c ∈ w, c.toNat < 128) (hlen : p.length = w.length) :
    startsWith eqvIgnoreCase p w = true ↔ fold w = fold p := by
  induction p generalizing w with
  | nil =>
    obtain rfl : w = [] := List.eq_nil_of_length_eq_zero hlen.symm
    simp [startsWith, fold]
  | cons a p ih =>
    obtain ⟨c, w, rfl⟩ := List.exists_cons_of_length_eq_add_one hlen.symm
    have ih := ih (fun d hd => hw d (List.mem_cons_of_mem _ hd)) (by simpa using hlen)
    rw [startsWith, Bool.and_eq_true, ih, show fold (c :: w) = c.toUpper :: fold w from rfl,
      show fold (a :: p) = a.toUpper :: fold p from rfl, List.cons.injEq]
    refine and_congr_left fun _ => ⟨eqvIgnoreCase_ascii (hw c (by simp)), fun h => ?_⟩
    have hlow : a.toLower = c.toLower := by
      rw [← Char.toLower_toUpper_eq_toLower, ← h, Char.toLower_toUpper_eq_toLower]
    simp [eqvIgnoreCase, hlow]

/-- A word of plain characters is a keyword exactly if it spells it, in any letter case. -/
theorem isKw_iff {s : String} {w : Text} (hw : ∀ c ∈ w, plainPart c = true) :
    isKw s w = true ↔ fold w = fold s.toList := by
  rw [isKw, Bool.and_eq_true, beq_iff_eq]
  constructor
  · rintro ⟨hlen, h⟩
    exact (startsWith_iff_fold (fun c hc => toNat_lt_of_plainPart (hw c hc)) hlen).mp h
  · intro h
    have hlen : s.toList.length = w.length := by simpa [fold] using (congrArg List.length h).symm
    exact ⟨hlen, (startsWith_iff_fold (fun c hc => toNat_lt_of_plainPart (hw c hc)) hlen).mpr h⟩

/-- A name is none of the keywords. -/
theorem isKw_name (n : Name) {s : String} (hs : s ∈ patternKeywords) : isKw s n.text = false := by
  rw [← Bool.not_eq_true, isKw_iff n.part, patternKeywords_upper s hs]
  intro h
  have hr : isReserved n.text = true := by
    rw [isReserved, h]
    exact patternKeywords_reserved s hs
  rw [n.free] at hr
  exact absurd hr (by decide)

/-! ## The pieces of a name -/

def pieces (n : Name) : List Piece := if n.bracketed then [.sym '[', .word n.text, .sym ']'] else [.word n.text]

/-- The name as it is written. -/
def raw (n : Name) : Text := join (pieces n)

theorem raw_eq (n : Name) : raw n = if n.bracketed then '[' :: (n.text ++ [']']) else n.text := by
  unfold raw pieces
  split <;> simp

theorem raw_token (n : Name) : n.token.text = raw n := by
  rw [raw_eq, Name.token]
  split <;> rfl

/-- A bare name ends before `t`: `t` does not go on with it, nor with a bracket. -/
def Ends (U : Unicode) (n : Name) (t : Text) : Prop :=
  n.bracketed = true ∨ (t.head?.any (isWord U) = false ∧ ']' ∉ t.head?)

theorem head_raw (n : Name) (t : Text) : ∃ c ∈ (raw n ++ t).head?, c = '[' ∨ plainStart c = true := by
  obtain ⟨c, w, hw⟩ := List.exists_cons_of_ne_nil n.ne_nil
  have hc : plainStart c = true := by simpa [hw] using n.start
  rw [raw_eq]
  split
  · exact ⟨'[', rfl, Or.inl rfl⟩
  · exact ⟨c, by simp [hw], Or.inr hc⟩

section Eval
variable {U : Unicode}

theorem not_identChar {t : Text} (ht : t.head?.any (isWord U) = false) : t.head?.any identChar = false := by
  cases h : t.head? with
  | none => rfl
  | some c =>
    rw [h, Option.any_some] at ht
    by_contra hc
    rw [isWord_of_identChar U (by simpa using hc)] at ht
    exact absurd ht (by decide)

/-- The word of a name, and what follows it. -/
theorem first_word_seq (n : Name) {q : Pattern} {t : Text} {y : Cursor × Groups} (b : Text)
    (ht : t.head?.any (isWord U) = false) (hy : first (isWord U) q ⟨n.text.reverse ++ b, t⟩ = some y) :
    first (isWord U) (seq (char identStart) (seq (many identChar) q)) ⟨b, n.text ++ t⟩ = some y := by
  obtain ⟨c, w, hw⟩ := List.exists_cons_of_ne_nil n.ne_nil
  have hc : plainStart c = true := by simpa [hw] using n.start
  have hpart : ∀ d ∈ w, identChar d = true := fun d hd => identChar_of_plainPart (n.part d (by simp [hw, hd]))
  have hchar : first (isWord U) (char identStart) ⟨b, c :: (w ++ t)⟩ = some (⟨c :: b, w ++ t⟩, []) := by
    simp [first, run, identStart_of_plainStart hc]
  rw [hw] at hy ⊢
  simpa using first_seq_of_first hchar (first_seq_of_first (first_many hpart (not_identChar ht) _) (by simpa using hy))

theorem bracket_not_head (n : Name) (t : Text) : '[' ∉ (n.text ++ t).head? := by
  obtain ⟨c, w, hw⟩ := List.exists_cons_of_ne_nil n.ne_nil
  have hc : plainStart c = true := by simpa [hw] using n.start
  rw [hw]
  simp
  rintro rfl
  exact absurd hc (by decide)

theorem not_isWord_of_symbol (U : Unicode) {c : Char} (hc : c.toNat < 128) (h : plainPart c = false) (t : Text) :
    (c :: t).head?.any (isWord U) = false := by
  simpa [isWord_ascii U hc] using h

/-- A name in optional brackets: `Q` reads its word, `q` goes on after the name. -/
theorem first_bracketed {Q : Pattern → Pattern} {q : Pattern} {g : Groups} (n : Name) {t : Text} (ht : Ends U n t)
    {y : Cursor × Groups} (b : Text)
    (hQ : ∀ (r : Pattern) (b t' : Text) (y : Cursor × Groups), t'.head?.any (isWord U) = false →
      first (isWord U) r ⟨n.text.reverse ++ b, t'⟩ = some y →
      first (isWord U) (Q r) ⟨b, n.text ++ t'⟩ = some (y.1, y.2 ++ g))
    (hy : first (isWord U) q ⟨(raw n).reverse ++ b, t⟩ = some y) :
    first (isWord U) (seq (opt (chr '[')) (Q (seq (opt (chr ']')) q))) ⟨b, raw n ++ t⟩ = some (y.1, y.2 ++ g) := by
  rw [raw_eq] at hy ⊢
  split at hy
  · rename_i hb
    rw [if_pos hb, show '[' :: (n.text ++ [']']) ++ t = '[' :: (n.text ++ ']' :: t) by simp]
    have hclose := first_seq_of_first (first_opt_chr (W := isWord U) ']' (n.text.reverse ++ '[' :: b) t)
      (by simpa using hy)
    have hword := hQ _ _ _ _ (not_isWord_of_symbol U (by decide) (by decide) t) hclose
    simpa using first_seq_of_first (first_opt_chr '[' b _) hword
  · rename_i hb
    obtain ⟨hi, hbr⟩ := ht.resolve_left hb
    rw [if_neg hb]
    have hclose := first_seq_of_first (first_opt_chr_of_ne (W := isWord U) (b := n.text.reverse ++ b) hbr) hy
    simpa using first_seq_of_first (first_opt_chr_of_ne (bracket_not_head n t)) (hQ _ _ _ _ hi hclose)

/-- **An identifier pattern takes all of a name.** -/
theorem first_ident (n : Name) {t : Text} (ht : Ends U n t) (b : Text) :
    first (isWord U) ident ⟨b, raw n ++ t⟩ = some (⟨(raw n).reverse ++ b, t⟩, []) :=
  first_bracketed (Q := fun r => seq (char identStart) (seq (many identChar) r)) (g := []) n ht b
    (fun r b t' y ht' hy => by simpa using first_word_seq n b ht' hy) (first_empty _)

/-- An identifier and what follows it, at a name: all of the name is read. -/
theorem run_ident_seq {q : Pattern} (hq : Refuses (isWord U) q identChar)
    (hbracket : ∀ b t, run (isWord U) q ⟨b, ']' :: t⟩ = []) (n : Name) {t : Text} (ht : Ends U n t) (b : Text) :
    run (isWord U) (seq ident q) ⟨b, raw n ++ t⟩ = run (isWord U) q ⟨(raw n).reverse ++ b, t⟩ := by
  have hclose : ∀ s : Cursor, run (isWord U) (seq (cat [opt (chr ']')]) q) s =
      run (isWord U) (seq (opt (chr ']')) q) s := by
    intro s
    rw [cat_cons, run_seq_assoc, run, run]
    simp only [cat_nil, run_empty_seq]
  have hrefuse : Refuses (isWord U) (seq (cat [opt (chr ']')]) q) identChar := by
    intro b d t hd
    have hne : ']' ∉ (d :: t).head? := by
      intro hmem
      obtain rfl : d = ']' := by simpa using hmem
      exact absurd hd (by decide)
    rw [hclose, run_opt_chr_seq_of_ne _ hne, hq b d t hd]
  -- the word, and what follows it
  have hword : ∀ (b t' : Text), t'.head?.any (isWord U) = false →
      run (isWord U) (seq (cat [char identStart, many identChar, opt (chr ']')]) q) ⟨b, n.text ++ t'⟩ =
        run (isWord U) (seq (opt (chr ']')) q) ⟨n.text.reverse ++ b, t'⟩ := by
    intro b t' ht'
    obtain ⟨d, w, hw⟩ := List.exists_cons_of_ne_nil n.ne_nil
    have hd : plainStart d = true := by simpa [hw] using n.start
    have hw' : ∀ e ∈ w, identChar e = true := fun e he => identChar_of_plainPart (n.part e (by simp [hw, he]))
    rw [hw, List.cons_append, cat_cons, run_seq_assoc, run_seq_of_run _ (u := ⟨d :: b, w ++ t'⟩) (g := [])
      (by simp [run, identStart_of_plainStart hd]), map_snd_nil, cat_cons, run_seq_assoc,
      run_many_seq hrefuse hw' (not_identChar ht'), hclose]
    simp
  rw [raw_eq, ident, cat_cons, run_seq_assoc]
  split
  · have hopen : run (isWord U) (seq (cat [char identStart, many identChar, opt (chr ']')]) q)
        ⟨b, '[' :: (n.text ++ ']' :: t)⟩ = [] := by
      rw [cat_cons, run_seq_assoc]
      exact run_seq_of_nil _ (by simp [run]; decide)
    rw [show '[' :: (n.text ++ [']']) ++ t = '[' :: (n.text ++ ']' :: t) by simp, run_opt_chr_seq, hopen,
      List.append_nil, hword _ _ (not_isWord_of_symbol U (by decide) (by decide) t), run_opt_chr_seq, hbracket,
      List.append_nil]
    simp
  · rename_i hb
    obtain ⟨hi, hbr⟩ := ht.resolve_left hb
    rw [run_opt_chr_seq_of_ne _ (bracket_not_head n t), hword _ _ hi, run_opt_chr_seq_of_ne _ hbr]

/-! ## Table references -/

def schemaPart : Pattern := cat [opt (chr '['), kw "Production", opt (chr ']'), chr '.']
def aliasPart : Pattern := cat [plus isSpace, kw "AS", plus isSpace, group 2 ident]
def namePart : Pattern :=
  cat [opt (chr '['), group 1 (cat [char identStart, many identChar]), opt (chr ']'), opt aliasPart]

theorem tableRefPattern_eq : tableRefPattern = seq wordBoundary (seq (oneOf (["FROM", "JOIN"].map kw))
    (seq (plus isSpace) (seq (opt schemaPart) namePart))) := rfl

/-- The name of a table, and its alias as far as the pattern finds one. -/
theorem first_namePart (n : Name) {t : Text} (ht : Ends U n t) {y : Cursor × Groups} (b : Text)
    (hy : first (isWord U) (opt aliasPart) ⟨(raw n).reverse ++ b, t⟩ = some y) :
    first (isWord U) namePart ⟨b, raw n ++ t⟩ = some (y.1, y.2 ++ [(1, n.text)]) := by
  refine first_bracketed (Q := fun r => seq (group 1 (cat [char identStart, many identChar])) r) n ht b
    (fun r b t' y ht' hy => ?_) ?_
  · have hword := first_word_seq n b ht' (first_empty (W := isWord U) ⟨n.text.reverse ++ b, t'⟩)
    have hgroup := first_group 1 hword
    rw [consumed_append] at hgroup
    exact first_seq_of_first hgroup hy
  · simpa using first_seq_of_first hy (first_empty _)

/-- Some whitespace. -/
def Blank (g : Text) : Prop := g ≠ [] ∧ ∀ c ∈ g, isSpace c = true

theorem not_isSpace_of_isWord (U : Unicode) {c : Char} (h : isWord U c = true) : isSpace c = false := by
  by_contra hs
  rw [isWord_of_isSpace U (by simpa using hs)] at h
  exact absurd h (by decide)

theorem head_word {w : Text} (t : Text) (hne : w ≠ []) (hw : ∀ c ∈ w, isWord U c = true) :
    (w ++ t).head?.any isSpace = false := by
  obtain ⟨c, w, rfl⟩ := List.exists_cons_of_ne_nil hne
  simpa using not_isSpace_of_isWord U (hw c (by simp))

theorem head_raw_not_space (n : Name) (t : Text) : (raw n ++ t).head?.any isSpace = false := by
  obtain ⟨c, hc, h⟩ := head_raw n t
  rw [Option.mem_def.mp hc, Option.any_some]
  rcases h with rfl | h
  · decide
  · exact not_isSpace_of_isWord Unicode.small (isWord_of_plainPart _ (TSql.plainPart_of_plainStart h))

theorem not_identStart_of_isSpace {c : Char} (h : isSpace c = true) : identStart c = false := by
  by_contra hs
  have : identChar c = true := by
    rw [Bool.not_eq_false, identStart, Bool.or_eq_true, Bool.or_eq_true] at hs
    rw [identChar, Char.isAlphanum]
    rcases hs with (hs | hs) | hs <;> simp only [hs, Bool.true_or, Bool.or_true]
  have := isWord_of_identChar Unicode.small this
  rw [isWord_of_isSpace _ h] at this
  exact absurd this (by decide)

theorem refuses_ident : Refuses (isWord U) ident isSpace := by
  refine Refuses.opt_seq (Refuses.char fun c hc => ?_)
    (Refuses.seq _ (Refuses.char fun c hc => not_identStart_of_isSpace hc))
  rw [beq_eq_false_iff_ne]
  rintro rfl
  exact absurd hc (by decide)

theorem kw_refuses_isSpace {s : String} (hs : s ∈ patternKeywords) (q : Pattern) :
    Refuses (isWord U) (seq (kw s) q) isSpace :=
  (keyword U hs).refuses q fun _ hc => isWord_of_isSpace U hc

theorem plus_isSpace_outside (q : Pattern) : Outside (isWord U) (seq (plus isSpace) q) :=
  Refuses.outside (Refuses.seq q (Refuses.plus fun _ hc => not_isSpace_of_isWord U hc))

/-- Whitespace and a keyword. -/
theorem run_blank_kw {s : String} (hs : s ∈ patternKeywords) {q : Pattern} (hq : Outside (isWord U) q) {g w t : Text}
    (hg : Blank g) (hne : w ≠ []) (hw : ∀ c ∈ w, isWord U c = true) (ht : t.head?.any (isWord U) = false) (b : Text) :
    run (isWord U) (seq (plus isSpace) (seq (kw s) q)) ⟨b, g ++ (w ++ t)⟩ =
      if isKw s w then run (isWord U) q ⟨w.reverse ++ (g.reverse ++ b), t⟩ else [] := by
  rw [run_plus_seq (kw_refuses_isSpace hs q) hg.1 hg.2 (head_word t hne hw), run_kw_seq_word (keyword U hs) hq hw ht]

theorem Blank.head {g : Text} (hg : Blank g) (t : Text) : (g ++ t).head?.any (isWord U) = false := by
  obtain ⟨c, g', rfl⟩ := List.exists_cons_of_ne_nil hg.1
  simpa using isWord_of_isSpace U (hg.2 c (by simp))

/-- **An alias is found after whitespace, `AS` and whitespace.** -/
theorem first_aliasPart (a : Name) {g w g' t : Text} (hg : Blank g) (hw : ∀ c ∈ w, isWord U c = true)
    (has : isKw "AS" w = true) (hg' : Blank g') (ht : Ends U a t) (b : Text) :
    first (isWord U) aliasPart ⟨b, g ++ (w ++ (g' ++ (raw a ++ t)))⟩ =
      some (⟨(raw a).reverse ++ (g'.reverse ++ (w.reverse ++ (g.reverse ++ b))), t⟩, [(2, raw a)]) := by
  have hne : w ≠ [] := by
    rintro rfl
    exact absurd has (by decide)
  have hout : Outside (isWord U) (cat [plus isSpace, group 2 ident]) := plus_isSpace_outside _
  rw [first, aliasPart, cat_cons, cat_cons, run_blank_kw (by simp [patternKeywords]) hout hg hne hw (hg'.head _),
    if_pos has, cat_cons, cat_cons, run_plus_seq (Refuses.seq _ (refuses_ident.group 2)) hg'.1 hg'.2
    (head_raw_not_space a t), ← first]
  have hgroup := first_group 2 (first_ident (U := U) a ht (g'.reverse ++ (w.reverse ++ (g.reverse ++ b))))
  rw [consumed_append] at hgroup
  simpa [cat_cons, cat_nil] using first_seq_of_first hgroup (first_empty _)

/-- The pattern finds no alias at the start of `t`. -/
def NoAlias (U : Unicode) (t : Text) : Prop := ∀ b, run (isWord U) aliasPart ⟨b, t⟩ = []

theorem noAlias_of_head {t : Text} (ht : t.head?.any isSpace = false) : NoAlias U t :=
  fun _ => run_plus_seq_of_not _ ht

theorem noAlias_of_word {g w t : Text} (hg : Blank g) (hne : w ≠ []) (hw : ∀ c ∈ w, isWord U c = true)
    (ht : t.head?.any (isWord U) = false) (has : isKw "AS" w = false ∨ t.head?.any isSpace = false) :
    NoAlias U (g ++ (w ++ t)) := by
  intro b
  have hout : Outside (isWord U) (cat [plus isSpace, group 2 ident]) := plus_isSpace_outside _
  rw [aliasPart, cat_cons, cat_cons, run_blank_kw (by simp [patternKeywords]) hout hg hne hw ht]
  split
  · rename_i h
    rw [cat_cons, run_plus_seq_of_not _ (has.resolve_left (by simp [h]))]
  · rfl

/-! ### The schema -/

theorem keyword_production : Keyword (isWord U) "Production" := keyword_of_alpha U (by simp) (by simp)
theorem keyword_productId : Keyword (isWord U) "ProductID" := keyword_of_alpha U (by simp) (by simp)

theorem chr_outside {c : Char} (hc : c.toNat < 128) (h : plainPart c = false) (q : Pattern) :
    Outside (isWord U) (seq (chr c) q) := by
  refine Refuses.outside (Refuses.seq q (Refuses.char fun d hd => ?_))
  rw [beq_eq_false_iff_ne]
  rintro rfl
  rw [isWord_ascii U hc, h] at hd
  exact absurd hd (by decide)

theorem opt_chr_outside {c : Char} (hc : c.toNat < 128) (h : plainPart c = false) {q : Pattern}
    (hq : Outside (isWord U) q) : Outside (isWord U) (seq (opt (chr c)) q) := by
  intro b d e t hd he
  have hne : e ≠ c := by
    rintro rfl
    rw [isWord_ascii U hc, h] at he
    exact absurd he (by decide)
  rw [run_opt_chr_seq_of_ne q (by simpa using hne)]
  exact hq b d e t hd he

/-- A keyword in optional brackets, at a name. -/
theorem run_bracketed_kw {s : String} (hs : Keyword (isWord U) s) {q : Pattern} (hq : Outside (isWord U) q)
    (hclose : ∀ b t, run (isWord U) q ⟨b, ']' :: t⟩ = []) (n : Name) {t : Text} (ht : Ends U n t) (b : Text) :
    run (isWord U) (seq (opt (chr '[')) (seq (kw s) (seq (opt (chr ']')) q))) ⟨b, raw n ++ t⟩ =
      if isKw s n.text then run (isWord U) q ⟨(raw n).reverse ++ b, t⟩ else [] := by
  have hout : Outside (isWord U) (seq (opt (chr ']')) q) := opt_chr_outside (by decide) (by decide) hq
  have hw : ∀ c ∈ n.text, isWord U c = true := fun c hc => isWord_of_plainPart U (n.part c hc)
  rw [raw_eq]
  split
  · rw [show '[' :: (n.text ++ [']']) ++ t = '[' :: (n.text ++ ']' :: t) by simp, run_opt_chr_seq,
      run_kw_seq_word hs hout hw (not_isWord_of_symbol U (by decide) (by decide) t),
      run_kw_seq_of_not hs _ (not_isWord_of_symbol U (by decide) (by decide) _), List.append_nil]
    split
    · rw [run_opt_chr_seq, hclose, List.append_nil]
      simp
    · rfl
  · rename_i hb
    obtain ⟨hi, hbr⟩ := ht.resolve_left hb
    rw [run_opt_chr_seq_of_ne _ (bracket_not_head n t), run_kw_seq_word hs hout hw hi]
    split
    · rw [run_opt_chr_seq_of_ne _ hbr]
    · rfl

/-- A schema is found if it is `Production` and a dot follows. -/
theorem run_schemaPart (n : Name) {t : Text} (ht : Ends U n t) (b : Text) :
    run (isWord U) schemaPart ⟨b, raw n ++ t⟩ =
      if isKw "Production" n.text then run (isWord U) (cat [chr '.']) ⟨(raw n).reverse ++ b, t⟩ else [] :=
  run_bracketed_kw keyword_production (chr_outside (by decide) (by decide) empty)
    (fun _ _ => run_chr_seq_of_ne _ (by simp)) n ht b

/-! ### The reference -/

def refPart : Pattern := cat [opt schemaPart, opt (chr '['), group 1 (cat [char identStart, many identChar]),
  opt (chr ']'), opt aliasPart]

theorem refPart_eq : refPart = seq (opt schemaPart) namePart := rfl

/-- The text starts with a name, bare or after a bracket. -/
def startsName : Text → Bool
  | [] => false
  | c :: t => identStart c || (c == '[' && t.head?.any identStart)

/-- What does not start with a name after the bracket does not with it. -/
theorem run_bracket_seq_of_not {q : Pattern}
    (hq : ∀ b t, t.head?.any identStart = false → run (isWord U) q ⟨b, t⟩ = []) {t : Text}
    (ht : startsName t = false) (b : Text) : run (isWord U) (seq (opt (chr '[')) q) ⟨b, t⟩ = [] := by
  cases t with
  | nil => rw [run_opt_chr_seq_of_ne q (by simp), hq b [] rfl]
  | cons c t =>
    rw [startsName, Bool.or_eq_false_iff, Bool.and_eq_false_iff] at ht
    by_cases hc : c = '['
    · subst hc
      rw [run_opt_chr_seq, hq _ t (ht.2.resolve_left (by simp)), hq b _ (by simpa using ht.1), List.append_nil]
    · rw [run_opt_chr_seq_of_ne q (by simpa using hc), hq b _ (by simpa using ht.1)]

theorem identStart_of_eqv {c : Char} (h : eqvIgnoreCase 'P' c = true) : identStart c = true := by
  have hlower : c.toLower = 'p' := by
    rw [eqvIgnoreCase, show 'P'.toLower = 'p' by decide] at h
    exact (by simpa using h : 'p' = c.toLower).symm
  by_contra hno
  have halpha : c.isAlpha = false := by
    rw [Bool.not_eq_true, identStart, Bool.or_eq_false_iff, Bool.or_eq_false_iff] at hno
    exact hno.1.1
  rw [Char.isAlpha, Bool.or_eq_false_iff] at halpha
  rw [Char.toLower_eq_of_not_isUpper (by simp [halpha.1])] at hlower
  subst hlower
  exact absurd halpha.2 (by decide)

/-- Without a name there is no reference. -/
theorem run_refPart_of_not {t : Text} (ht : startsName t = false) (b : Text) : run (isWord U) refPart ⟨b, t⟩ = [] := by
  have hschema : run (isWord U) schemaPart ⟨b, t⟩ = [] := by
    refine run_bracket_seq_of_not (fun b t h => run_seq_of_nil _ ?_) ht b
    rw [kw, run_lit]
    cases t with
    | nil => rfl
    | cons c t =>
      have hc : eqvIgnoreCase 'P' c = false := by
        by_contra hp
        rw [List.head?_cons, Option.any_some, identStart_of_eqv (by simpa using hp)] at h
        exact absurd h (by decide)
      rw [show "Production".toList = 'P' :: "roduction".toList from rfl, startsWith, hc]
      rfl
  have hname : run (isWord U) namePart ⟨b, t⟩ = [] := by
    refine run_bracket_seq_of_not (fun b t h => run_seq_of_nil _ ?_) ht b
    cases t with
    | nil => simp [run, cat_cons]
    | cons c t => simp [run, cat_cons, show identStart c = false by simpa using h]
  rw [refPart_eq, run_opt_seq, run_seq_of_nil _ hschema, List.nil_append, hname]

theorem namePart_refuses : Refuses (isWord U) namePart isSpace := by
  refine Refuses.opt_seq (Refuses.char fun c hc => ?_) (Refuses.seq _ (Refuses.group 1 (Refuses.seq _
    (Refuses.char fun c hc => not_identStart_of_isSpace hc))))
  rw [beq_eq_false_iff_ne]
  rintro rfl
  exact absurd hc (by decide)

theorem refPart_refuses : Refuses (isWord U) refPart isSpace := by
  refine Refuses.opt_seq (Refuses.opt_seq (Refuses.char fun c hc => ?_) ?_) namePart_refuses
  · rw [beq_eq_false_iff_ne]
    rintro rfl
    exact absurd hc (by decide)
  · exact keyword_production.refuses _ fun _ hc => isWord_of_isSpace U hc

/-- A reference without a schema. -/
theorem first_refPart (n : Name) {t : Text} (ht : Ends U n t) (hdot : isKw "Production" n.text = false ∨ '.' ∉ t.head?)
    {y : Cursor × Groups} (b : Text) (hy : first (isWord U) (opt aliasPart) ⟨(raw n).reverse ++ b, t⟩ = some y) :
    first (isWord U) refPart ⟨b, raw n ++ t⟩ = some (y.1, y.2 ++ [(1, n.text)]) := by
  have hnone : run (isWord U) schemaPart ⟨b, raw n ++ t⟩ = [] := by
    rw [run_schemaPart n ht]
    split
    · rename_i h
      exact run_chr_seq_of_ne _ (hdot.resolve_left (by simp [h]))
    · rfl
  rw [refPart_eq, first_opt_seq_of_nil _ hnone]
  exact first_namePart n ht b hy

theorem ends_dot (n : Name) (t : Text) : Ends U n ('.' :: t) :=
  Or.inr ⟨not_isWord_of_symbol U (by decide) (by decide) t, by simp⟩

theorem run_schemaPart_dot (n : Name) (h : isKw "Production" n.text = true) (b t : Text) :
    run (isWord U) schemaPart ⟨b, raw n ++ '.' :: t⟩ = [(⟨'.' :: ((raw n).reverse ++ b), t⟩, [])] := by
  rw [run_schemaPart n (ends_dot n t), if_pos h, cat_cons, run_chr_seq]
  rfl

/-- A reference with a schema. -/
theorem first_refPart_schema (s n : Name) (hs : isKw "Production" s.text = true) {t : Text} (ht : Ends U n t)
    {y : Cursor × Groups} (b : Text)
    (hy : first (isWord U) (opt aliasPart) ⟨(raw n).reverse ++ '.' :: ((raw s).reverse ++ b), t⟩ = some y) :
    first (isWord U) refPart ⟨b, raw s ++ '.' :: (raw n ++ t)⟩ = some (y.1, y.2 ++ [(1, n.text)]) := by
  rw [refPart_eq, first_opt_seq_some (run_schemaPart_dot s hs b _) (first_namePart n ht _ hy)]
  simp

/-- A dot that no name follows makes no schema. -/
theorem first_refPart_dangling (n : Name) {t : Text} (ht : t.head?.any isSpace = true) (b : Text) :
    first (isWord U) refPart ⟨b, raw n ++ '.' :: t⟩ = some (⟨(raw n).reverse ++ b, '.' :: t⟩, [(1, n.text)]) := by
  have hname : first (isWord U) namePart ⟨b, raw n ++ '.' :: t⟩ =
      some (⟨(raw n).reverse ++ b, '.' :: t⟩, [] ++ [(1, n.text)]) :=
    first_namePart n (ends_dot n t) b (first_opt_of_nil (noAlias_of_head (by simp; decide) _))
  by_cases h : isKw "Production" n.text = true
  · have hnone : first (isWord U) namePart ⟨'.' :: ((raw n).reverse ++ b), t⟩ = none := by
      obtain ⟨c, t, rfl⟩ : ∃ c t', t = c :: t' := by
        cases t with
        | nil => simp at ht
        | cons c t => exact ⟨c, t, rfl⟩
      exact first_eq_none.mpr (namePart_refuses _ c t (by simpa using ht))
    rw [refPart_eq, first_opt_seq_none (run_schemaPart_dot n h b t) hnone, hname]
    rfl
  · have hnone : run (isWord U) schemaPart ⟨b, raw n ++ '.' :: t⟩ = [] := by
      rw [run_schemaPart n (ends_dot n t), if_neg h]
    rw [refPart_eq, first_opt_seq_of_nil _ hnone, hname]
    rfl

theorem refKeywords : ∀ s ∈ ["FROM", "JOIN"], Keyword (isWord U) s := by
  intro s hs
  refine keyword U ?_
  revert hs
  simp only [List.mem_cons, List.not_mem_nil, or_false]
  rintro (rfl | rfl) <;> simp [patternKeywords, clauseBoundaryKeywords]

/-- **The pattern for table references, at `FROM` or `JOIN`.** -/
theorem matchAt_tableRef {w g t : Text} (hw : ∀ c ∈ w, isWord U c = true)
    (hkw : isKw "FROM" w = true ∨ isKw "JOIN" w = true) (hg : Blank g) (ht : t.head?.any isSpace = false)
    {b : Text} (hb : b.head?.any (isWord U) = false) : matchAt (isWord U) tableRefPattern ⟨b, w ++ (g ++ t)⟩ =
      (first (isWord U) refPart ⟨g.reverse ++ (w.reverse ++ b), t⟩).map fun x => ⟨⟨b, w ++ (g ++ t)⟩, x.1, x.2⟩ := by
  obtain ⟨k, hk, hkw⟩ : ∃ k ∈ ["FROM", "JOIN"], isKw k w = true := by
    rcases hkw with h | h
    · exact ⟨_, by simp, h⟩
    · exact ⟨_, by simp, h⟩
  have hne : w ≠ [] := by
    rintro rfl
    revert hkw hk
    simp only [List.mem_cons, List.not_mem_nil, or_false]
    rintro (rfl | rfl) h <;> exact absurd h (by decide)
  obtain ⟨c, w', rfl⟩ := List.exists_cons_of_ne_nil hne
  rw [tableRefPattern_eq, List.cons_append, matchAt_anchored_word hb _ (hw c (by simp)), matchAt, ← List.cons_append,
    first_kws_seq_word refKeywords (plus_isSpace_outside _) hw (hg.head t) hk hkw, ← refPart_eq, first,
    run_plus_seq refPart_refuses hg.1 hg.2 ht, ← first]

/-- Without whitespace there is no reference. -/
theorem matchAt_tableRef_unspaced {w t : Text} (hw : ∀ c ∈ w, isWord U c = true)
    (ht : t.head?.any isSpace = false) (ht' : t.head?.any (isWord U) = false) (b : Text) :
    matchAt (isWord U) tableRefPattern ⟨b, w ++ t⟩ = none := by
  refine matchAt_of_run_nil ?_
  rw [tableRefPattern_eq]
  by_cases hb : atBoundary (isWord U) ⟨b, w ++ t⟩ = true
  · rw [run_anchored_of_boundary hb, run_kws_seq_word refKeywords (plus_isSpace_outside _) hw ht',
      List.flatMap_eq_nil_iff]
    intro s _
    split
    · exact run_plus_seq_of_not _ ht
    · rfl
  · exact run_seq_of_nil _ (by simp [run, hb])

end Eval

end DataAgent.Guardrail
