import DataAgent.Guardrail.Counting
import DataAgent.Regex.Parallel

/-!
# The guardrail's patterns on texts that differ in layout and letter case

Each of the patterns has corresponding matches in two texts that agree up to the case of ASCII letters and the kind of
whitespace, and so has what is cut out of the texts with them.
-/

namespace DataAgent.Guardrail
open Python Regex Pattern

/-! ## Letters -/

theorem toLower_of_not_ascii {c : Char} (h : ¬ c.toNat < 128) : c.toLower = c := by
  have hupper : ¬ (c.val ≥ 'A'.val ∧ c.val ≤ 'Z'.val) := fun hc => h (Nat.lt_of_le_of_lt hc.2 (by decide))
  rw [Char.toLower, dif_neg hupper]

/-- What depends on a character's case is checked on the ASCII ones. -/
theorem of_toLower_eq {α : Type} {f : Char → α} (h : ∀ c : Char, c.toNat < 128 → f c.toLower = f c) {c d : Char}
    (hcd : c.toLower = d.toLower) : f c = f d := by
  have hlower : ∀ c : Char, f c.toLower = f c := by
    intro c
    by_cases hc : c.toNat < 128
    · exact h c hc
    · rw [toLower_of_not_ascii hc]
  rw [← hlower c, hcd, hlower d]

theorem respects_lower {p : Char → Bool} (h : ∀ c : Char, c.toNat < 128 → p c.toLower = p c) :
    Respects Char.toLower p :=
  fun _ _ _ _ => of_toLower_eq h

/-- A character that is no letter has one case. -/
theorem eq_of_toLower {a c : Char} (ha : a.isAlpha = false) (h : c.toLower = a.toLower) : c = a := by
  have hself : ∀ c : Char, c.isAlpha = false → c.toLower = c := by
    intro c hc
    by_cases hlt : c.toNat < 128
    · exact forall_ascii (P := fun c => c.isAlpha = false → c.toLower = c) (by decide) c hlt hc
    · exact toLower_of_not_ascii hlt
  have hc : c.isAlpha = false := by rw [← Char.isAlpha_toLower_eq_isAlpha, h, Char.isAlpha_toLower_eq_isAlpha, ha]
  rw [← hself c hc, h, hself a ha]

/-- A punctuation character. -/
abbrev Mark (a : Char) : Prop := isSpace a = false ∧ a.isAlpha = false

theorem beq_toLower {a c d : Char} (ha : a.isAlpha = false) (h : c.toLower = d.toLower) : (c == a) = (d == a) := by
  rw [Bool.eq_iff_iff, beq_iff_eq, beq_iff_eq]
  constructor
  · rintro rfl
    exact eq_of_toLower ha h.symm
  · rintro rfl
    exact eq_of_toLower ha h

theorem isSpace_toLower (c : Char) : isSpace c.toLower = isSpace c := by
  by_cases hc : c.toNat < 128
  · exact forall_ascii (P := fun c => isSpace c.toLower = isSpace c) (by decide) c hc
  · rw [toLower_of_not_ascii hc]

theorem toLower_lt {c : Char} (h : c.toNat < 128) : c.toLower.toNat < 128 :=
  forall_ascii (P := fun c => c.toLower.toNat < 128) (by decide) c h

variable (U : Unicode)

theorem isWord_toLower {c : Char} (h : c.toNat < 128) : isWord U c.toLower = isWord U c := by
  rw [isWord_ascii U h, isWord_ascii U (toLower_lt h)]
  exact forall_ascii (P := fun c => TSql.plainPart c.toLower = TSql.plainPart c) (by decide) c h

theorem isDecimal_toLower {c : Char} (h : c.toNat < 128) : U.decimal c.toLower = U.decimal c := by
  rw [U.decimal_ascii c h, U.decimal_ascii _ (toLower_lt h)]
  exact forall_ascii (P := fun c => (if c.toLower.isDigit then some (c.toLower.toNat - 48) else none) =
    if c.isDigit then some (c.toNat - 48) else none) (by decide) c h

theorem upper_toLower {c : Char} (h : c.toNat < 128) : U.upper c.toLower = U.upper c := by
  rw [U.upper_ascii c h, U.upper_ascii _ (toLower_lt h), Char.toUpper_toLower_eq_toUpper]

theorem identChar_toLower {c : Char} (h : c.toNat < 128) : identChar c.toLower = identChar c :=
  forall_ascii (P := fun c => identChar c.toLower = identChar c) (by decide) c h

theorem identStart_toLower {c : Char} (h : c.toNat < 128) : identStart c.toLower = identStart c :=
  forall_ascii (P := fun c => identStart c.toLower = identStart c) (by decide) c h

theorem eqv_toLower (a : Char) {c : Char} (h : c.toNat < 128) : eqvIgnoreCase a c.toLower = eqvIgnoreCase a c := by
  have hne : ∀ {c : Char}, c.toNat < 128 → ∀ d : Char, 128 ≤ d.toNat → (c == d) = false := by
    intro c hc d hd
    rw [beq_eq_false_iff_ne]
    rintro rfl
    omega
  have hlow := toLower_lt h
  simp only [eqvIgnoreCase, Char.toLower_toLower_eq_toLower, hne h '\u0130' (by decide), hne h '\u0131' (by decide),
    hne h '\u017f' (by decide), hne h '\u212a' (by decide), hne hlow '\u0130' (by decide),
    hne hlow '\u0131' (by decide), hne hlow '\u017f' (by decide), hne hlow '\u212a' (by decide)]

/-! ## Values of texts -/

variable {U}

theorem upper_congr {x y : Text} (h : x.map Char.toLower = y.map Char.toLower) : upper U x = upper U y := by
  have hlower : ∀ x : Text, upper U x = (x.map Char.toLower).flatMap U.upper := by
    intro x
    rw [List.flatMap_map]
    exact List.flatMap_congr fun c _ => of_toLower_eq (fun c hc => upper_toLower U hc) (by simp)
  rw [hlower, hlower, h]

theorem stripBrackets_congr {x y : Text} (h : x.map Char.toLower = y.map Char.toLower) :
    (stripBrackets x).map Char.toLower = (stripBrackets y).map Char.toLower := by
  have hlower : ∀ x : Text, (stripBrackets x).map Char.toLower = stripBrackets (x.map Char.toLower) := by
    intro x
    have hbracket : (fun c => c == '[' || c == ']') ∘ Char.toLower = fun c => c == '[' || c == ']' := by
      funext c
      have hself : c.toLower.toLower = c.toLower := Char.toLower_toLower_eq_toLower c
      simp [beq_toLower (a := '[') (by decide) hself, beq_toLower (a := ']') (by decide) hself]
    simp only [stripBrackets, List.rdropWhile, ← List.map_reverse, List.dropWhile_map, hbracket]
  rw [hlower, hlower, h]

theorem intOf_congr {x y : Text} (h : x.map Char.toLower = y.map Char.toLower) : intOf U x = intOf U y := by
  have hlower : ∀ x : Text, intOf U x = intOf U (x.map Char.toLower) := by
    intro x
    have hdigit : ∀ c : Char, U.decimal c.toLower = U.decimal c := fun c =>
      of_toLower_eq (fun c hc => isDecimal_toLower U hc) (Char.toLower_toLower_eq_toLower c)
    rw [intOf, intOf, List.length_map, List.foldl_map]
    simp only [hdigit]
  rw [hlower x, hlower y, h]

/-- What a check compares of a clause does not depend on its layout. -/
theorem normalize_congr {x y : Text} (h : collapse Char.toLower x = collapse Char.toLower y) :
    normalizePredicate U x = normalizePredicate U y := by
  refine collapse_induction (P := fun x y => normalizePredicate U x = normalizePredicate U y) rfl ?_ ?_ h
  · intro c d u v hc hd hcd ih
    have hopen := beq_toLower (a := '[') (by decide) hcd
    have hclose := beq_toLower (a := ']') (by decide) hcd
    have hupper : upper U [c] = upper U [d] := upper_congr (by simp [hcd])
    have hchar : normalizePredicate U [c] = normalizePredicate U [d] := by
      unfold normalizePredicate bne
      cases hd1 : d == '[' <;> cases hd2 : d == ']' <;> rw [hd1] at hopen <;> rw [hd2] at hclose <;>
        simp only [List.filter_cons, List.filter_nil, hopen, hclose, hd1, hd2, hc, hd, hupper, Bool.not_false,
          Bool.not_true, if_true, Bool.false_eq_true, if_false]
    rw [← List.singleton_append, normalize_append, ih, hchar, ← normalize_append, List.singleton_append]
  · intro w v y z hw hv _ _ ih
    rw [normalize_append, normalize_append, normalize_spaces hw.space, normalize_spaces hv.space, ih]

theorem contains_congr {a : Char} (ha : Mark a) {x y : Text}
    (h : collapse Char.toLower x = collapse Char.toLower y) : x.contains a = y.contains a := by
  have hrun : ∀ {w : Text}, Run w → w.contains a = false := by
    intro w hw
    rw [List.contains_eq_mem, decide_eq_false_iff_not]
    intro hmem
    have hspace := ha.1
    rw [hw.space a hmem] at hspace
    exact absurd hspace (by decide)
  have hflip : ∀ c : Char, (a == c) = (c == a) := fun c => by
    rw [Bool.eq_iff_iff, beq_iff_eq, beq_iff_eq, eq_comm]
  refine collapse_induction (P := fun x y => x.contains a = y.contains a) rfl ?_ ?_ h
  · intro c d u v _ _ hcd ih
    rw [List.contains_cons, List.contains_cons, ih, hflip, hflip, beq_toLower ha.2 hcd]
  · intro w v y z hw hv _ _ ih
    rw [List.contains_append, List.contains_append, hrun hw, hrun hv, ih]

theorem hasPair_cons (a b c : Char) (t : Text) :
    hasPair a b (c :: t) = ((c == a && t.head? == some b) || hasPair a b t) := by
  cases t with
  | nil => simp [hasPair]
  | cons d t => simp [hasPair]

theorem hasPair_congr {a b : Char} (ha : Mark a) (hb : Mark b) {x y : Text}
    (h : collapse Char.toLower x = collapse Char.toLower y) : hasPair a b x = hasPair a b y := by
  have hne : ∀ {m : Char}, Mark m → ∀ {c : Char}, isSpace c = true → (c == m) = false := by
    intro m hm c hc
    rw [beq_eq_false_iff_ne]
    rintro rfl
    rw [hm.1] at hc
    exact absurd hc (by decide)
  have hskip : ∀ {w : Text} (y : Text), (∀ c ∈ w, isSpace c = true) → hasPair a b (w ++ y) = hasPair a b y := by
    intro w y hw
    induction w with
    | nil => rfl
    | cons c w ih =>
      rw [List.forall_mem_cons] at hw
      rw [List.cons_append, hasPair_cons, hne ha hw.1, ih hw.2]
      rfl
  have hhead : ∀ {w : Text} (y : Text), Run w → ((w ++ y).head? == some b) = false := by
    intro w y hw
    obtain ⟨c, w, rfl⟩ := List.exists_cons_of_ne_nil hw.nonempty
    simpa using hne hb (hw.space c (by simp))
  -- the next character is compared as well
  have hboth : hasPair a b x = hasPair a b y ∧ (x.head? == some b) = (y.head? == some b) := by
    refine collapse_induction (P := fun x y => hasPair a b x = hasPair a b y ∧
      (x.head? == some b) = (y.head? == some b)) ⟨rfl, rfl⟩ ?_ ?_ h
    · intro c d u v _ _ hcd ih
      refine ⟨?_, by simpa using beq_toLower hb.2 hcd⟩
      rw [hasPair_cons, hasPair_cons, ih.1, ih.2, beq_toLower ha.2 hcd]
    · intro w v y z hw hv _ _ ih
      exact ⟨by rw [hskip y hw.space, hskip z hv.space, ih.1], by rw [hhead y hw, hhead z hv]⟩
  exact hboth.1

/-! ## Parts of texts -/

/-- Texts that agree up to layout and letter case. -/
abbrev SameText (x y : Text) : Prop := collapse Char.toLower x = collapse Char.toLower y

theorem strip_congr {x y : Text} (h : SameText x y) : SameText (strip x) (strip y) := by
  rw [SameText, collapse_strip, collapse_strip, h]

theorem splitLoop_congr {x y : Text} (h : SameText x y) {cur cur' : Text} (hcur : SameText cur cur')
    (hedge : ¬ (cur.getLast?.any isSpace = true ∧ x.head?.any isSpace = true))
    (hedge' : ¬ (cur'.getLast?.any isSpace = true ∧ y.head?.any isSpace = true)) (d : Int) :
    List.Forall₂ SameText (splitLoop d cur x) (splitLoop d cur' y) := by
  revert d cur cur'
  refine collapse_induction (P := fun x y => ∀ {cur cur' : Text}, SameText cur cur' →
    ¬ (cur.getLast?.any isSpace = true ∧ x.head?.any isSpace = true) →
    ¬ (cur'.getLast?.any isSpace = true ∧ y.head?.any isSpace = true) → ∀ d : Int,
    List.Forall₂ SameText (splitLoop d cur x) (splitLoop d cur' y)) ?_ ?_ ?_ h
  · intro cur cur' hcur _ _ d
    exact .cons hcur .nil
  · intro c e u v hc he hce ih cur cur' hcur hedge hedge' d
    have hiff : ∀ {a : Char}, a.isAlpha = false → (c = a ↔ e = a) := by
      intro a ha
      rw [← beq_iff_eq, beq_toLower ha hce, beq_iff_eq]
    have hgrow : SameText (cur ++ [c]) (cur' ++ [e]) := by
      rw [SameText, collapse_append (by simp [hc]), collapse_append (by simp [he]), hcur, collapse_solid hc,
        collapse_solid he, hce]
    have hlast : ∀ {cur : Text} {c : Char} {t : Text}, isSpace c = false →
        ¬ ((cur ++ [c]).getLast?.any isSpace = true ∧ t.head?.any isSpace = true) := by
      intro cur c t hc h
      simp [hc] at h
    have hstep := fun d => ih hgrow (hlast hc) (hlast he) d
    have hnil := @ih [] [] rfl (by simp) (by simp) d
    simp only [splitLoop, hiff (a := '(') (by decide), hiff (a := ')') (by decide), hiff (a := ',') (by decide)]
    split_ifs
    · exact hstep (d + 1)
    · exact hstep (d - 1)
    · exact .cons hcur hnil
    · exact hstep d
  · intro w v y z hw hv hy hz ih cur cur' hcur hedge hedge' d
    have hgrow : ∀ {cur w y : Text}, Run w → ¬ (cur.getLast?.any isSpace = true ∧ (w ++ y).head?.any isSpace = true) →
        collapse Char.toLower (cur ++ w) = collapse Char.toLower cur ++ [none] := by
      intro cur w y hw hedge
      have hlast : ¬ cur.getLast?.any isSpace = true := fun h => hedge ⟨h, hw.head y⟩
      have hrun := collapse_run (κ := Char.toLower) hw (y := []) rfl
      rw [List.append_nil] at hrun
      rw [collapse_append fun h => hlast h.1, hrun]
      rfl
    rw [balanced_of_inert (fun c hc => inert_of_isSpace (hw.space c hc)) d d cur y le_rfl,
      balanced_of_inert (fun c hc => inert_of_isSpace (hv.space c hc)) d d cur' z le_rfl]
    refine ih ?_ (by simp [hy]) (by simp [hz]) d
    rw [SameText, hgrow hw hedge, hgrow hv hedge', hcur]

/-- **The items of a list.** -/
theorem split_congr {x y : Text} (h : SameText x y) :
    List.Forall₂ SameText (splitTopLevelCommas x) (splitTopLevelCommas y) := by
  rw [splitTopLevelCommas, splitTopLevelCommas, List.forall₂_map_left_iff, List.forall₂_map_right_iff]
  exact (splitLoop_congr h rfl (by simp) (by simp) 0).imp fun _ _ => strip_congr

/-! ## Patterns -/

/-- The same successes in texts that agree up to layout and letter case. -/
abbrev Steady (U : Unicode) (r : Pattern) : Prop := Parallel Char.toLower (isWord U) r

/-- The same first success. -/
abbrev SteadyFirst (U : Unicode) (r : Pattern) : Prop := ParallelFirst Char.toLower (isWord U) r

theorem solid_isWord : Solid (isWord U) := fun _ hc => not_isSpace_of_isWord U hc

theorem steady_boundary : Steady U wordBoundary :=
  Parallel.wordBoundary solid_isWord (respects_lower fun _ => isWord_toLower U)

theorem solid_keyword {s : String} (hs : Keyword (isWord U) s) : ∀ a ∈ s.toList, Solid (eqvIgnoreCase a) :=
  fun a ha c hc => not_isSpace_of_isWord U (hs.word a ha c hc)

theorem steady_kw {s : String} (hs : Keyword (isWord U) s) : Steady U (kw s) :=
  Parallel.lit (solid_keyword hs) fun a _ => respects_lower fun _ => eqv_toLower a

theorem steady_kws {ks : List String} (hk : ∀ s ∈ ks, Keyword (isWord U) s) : Steady U (oneOf (ks.map kw)) := by
  refine Parallel.oneOf fun r hr => ?_
  obtain ⟨s, hs, rfl⟩ := List.mem_map.mp hr
  exact steady_kw (hk s hs)

theorem solid_mark {a : Char} (ha : Mark a) : Solid (· == a) := by
  intro c hc
  obtain rfl : c = a := beq_iff_eq.mp hc
  exact ha.1

theorem steady_chr {a : Char} (ha : Mark a) : Steady U (chr a) :=
  Parallel.char (solid_mark ha) fun _ _ _ _ h => beq_toLower ha.2 h

theorem solid_identChar : Solid identChar :=
  fun _ hc => not_isSpace_of_isWord Unicode.small (isWord_of_identChar _ hc)

theorem solid_identStart : Solid identStart := by
  intro c hc
  by_contra hs
  rw [not_identStart_of_isSpace (by simpa using hs)] at hc
  exact absurd hc (by decide)

theorem solid_decimal : Solid (isDecimal U) := by
  intro c hc
  refine not_isSpace_of_isWord U ?_
  rw [isWord, U.alnum_of_decimal c hc, Bool.true_or]

theorem steady_identStart : Steady U (char identStart) :=
  Parallel.char solid_identStart (respects_lower fun _ => identStart_toLower)

theorem steady_identChars : Steady U (many identChar) :=
  Parallel.many solid_identChar (respects_lower fun _ => identChar_toLower)

theorem steady_ident : Steady U ident :=
  (steady_chr (by decide)).opt.seq (steady_identStart.seq (steady_identChars.seq
    ((steady_chr (by decide)).opt.seq Parallel.empty)))

theorem readsSolid_mark {a : Char} (ha : Mark a) : ReadsSolid (isWord U) (opt (chr a)) :=
  (ReadsSolid.char (solid_mark ha)).opt

theorem readsSolid_ident : ReadsSolid (isWord U) ident :=
  (readsSolid_mark (by decide)).seq ((ReadsSolid.char solid_identStart).seq
    ((ReadsSolid.many solid_identChar).seq ((readsSolid_mark (by decide)).seq ReadsSolid.empty)))

theorem steady_keywordPattern {s : String} (hs : Keyword (isWord U) s) : Steady U (keywordPattern s) :=
  steady_boundary.seq ((steady_kw hs).seq (steady_boundary.seq Parallel.empty))

/-! ### The patterns of a statement -/

theorem refuses_boundary {q : Pattern} (hq : Refuses (isWord U) q isSpace) :
    Refuses (isWord U) (seq wordBoundary q) isSpace := by
  intro b c t hc
  refine List.eq_nil_iff_forall_not_mem.mpr fun x hx => ?_
  have hnil := hq b c t hc
  rw [List.eq_nil_iff_forall_not_mem] at hnil
  exact hnil x (mem_run_boundary_seq hx)

theorem refuses_kw {s : String} (hs : Keyword (isWord U) s) (q : Pattern) :
    Refuses (isWord U) (seq (kw s) q) isSpace :=
  hs.refuses q fun _ hc => isWord_of_isSpace U hc

theorem refuses_kws {ks : List String} (hk : ∀ s ∈ ks, Keyword (isWord U) s) (q : Pattern) :
    Refuses (isWord U) (seq (oneOf (ks.map kw)) q) isSpace :=
  fun b c t hc => (startsAtWord_kws hk q).refuses b c t (by simp [isWord_of_isSpace U hc])

theorem steady_startsSelect : Steady U startsSelectPattern :=
  Parallel.begins.seq (Parallel.spaces ((steady_kw (keyword U (by simp [patternKeywords]))).seq
    (steady_boundary.seq Parallel.empty)) (kw_refuses_isSpace (by simp [patternKeywords]) _))

theorem steady_keywordsPattern {ks : List String} (hk : ∀ s ∈ ks, Keyword (isWord U) s) :
    Steady U (keywordsPattern ks) := by
  have hsolid : ReadsSolid (isWord U) (oneOf (ks.map kw)) := by
    refine ReadsSolid.oneOf fun r hr => ?_
    obtain ⟨s, hs, rfl⟩ := List.mem_map.mp hr
    exact ReadsSolid.lit (solid_keyword (hk s hs))
  exact steady_boundary.seq (((steady_kws hk).group hsolid).seq (steady_boundary.seq Parallel.empty))

theorem readsSolid_name : ReadsSolid (isWord U) (cat [char identStart, many identChar]) :=
  (ReadsSolid.char solid_identStart).seq ((ReadsSolid.many solid_identChar).seq ReadsSolid.empty)

theorem steady_name : Steady U (cat [char identStart, many identChar]) :=
  steady_identStart.seq (steady_identChars.seq Parallel.empty)

theorem steady_aliasPart : Steady U aliasPart :=
  Parallel.gap ((steady_kw (keyword U (by simp [patternKeywords]))).seq (Parallel.gap
    ((steady_ident.group readsSolid_ident).seq Parallel.empty) (Refuses.seq _ (Refuses.group 2 refuses_ident))))
    (kw_refuses_isSpace (by simp [patternKeywords]) _)

theorem steady_schemaPart : Steady U schemaPart :=
  (steady_chr (by decide)).opt.seq ((steady_kw keyword_production).seq ((steady_chr (by decide)).opt.seq
    ((steady_chr (by decide)).seq Parallel.empty)))

theorem steady_namePart : Steady U namePart :=
  (steady_chr (by decide)).opt.seq ((steady_name.group readsSolid_name).seq ((steady_chr (by decide)).opt.seq
    (steady_aliasPart.opt.seq Parallel.empty)))

theorem steady_refPart : Steady U refPart := steady_schemaPart.opt.seq steady_namePart

theorem steady_tableRef : Steady U tableRefPattern :=
  steady_boundary.seq ((steady_kws refKeywords).seq (Parallel.gap steady_refPart refPart_refuses))

theorem refuses_tableRef : Refuses (isWord U) tableRefPattern isSpace :=
  refuses_boundary (refuses_kws refKeywords _)

theorem moves_tableRef : Moves (isWord U) tableRefPattern := by
  refine Moves.right (Moves.left (Moves.oneOf fun r hr => ?_))
  obtain ⟨s, hs, rfl⟩ := List.mem_map.mp (show r ∈ ["FROM", "JOIN"].map kw from hr)
  exact Moves.kw (@refKeywords Unicode.small s hs).nonempty

theorem steady_as : Steady U asPattern :=
  steady_boundary.seq ((steady_kw (keyword U (by simp [patternKeywords]))).seq (Parallel.gap
    ((steady_ident.group readsSolid_ident).seq Parallel.empty) (Refuses.seq _ (Refuses.group 1 refuses_ident))))

theorem refuses_as : Refuses (isWord U) asPattern isSpace :=
  refuses_boundary (refuses_kw (keyword U (by simp [patternKeywords])) _)

theorem moves_as : Moves (isWord U) asPattern := Moves.right (Moves.left (Moves.kw (by simp)))

theorem solid_plainPart : Solid TSql.plainPart := fun c hc => solid_identChar c (identChar_of_plainPart hc)

theorem solid_plainStart : Solid TSql.plainStart :=
  fun c hc => solid_plainPart c (TSql.plainPart_of_plainStart hc)

theorem steady_identifier : Steady U identifierPattern := by
  have hstart : Respects Char.toLower TSql.plainStart :=
    respects_lower (forall_ascii (P := fun c => TSql.plainStart c.toLower = TSql.plainStart c) (by decide))
  have hpart : Respects Char.toLower TSql.plainPart :=
    respects_lower (forall_ascii (P := fun c => TSql.plainPart c.toLower = TSql.plainPart c) (by decide))
  have hname : Steady U (cat [char TSql.plainStart, many TSql.plainPart]) :=
    (Parallel.char solid_plainStart hstart).seq ((Parallel.many solid_plainPart hpart).seq Parallel.empty)
  have hsolid : ReadsSolid (isWord U) (cat [char TSql.plainStart, many TSql.plainPart]) :=
    (ReadsSolid.char solid_plainStart).seq ((ReadsSolid.many solid_plainPart).seq ReadsSolid.empty)
  exact (steady_chr (by decide)).opt.seq ((hname.group hsolid).seq ((steady_chr (by decide)).opt.seq Parallel.empty))

theorem refuses_identifier : Refuses (isWord U) identifierPattern isSpace :=
  Refuses.opt_seq (Refuses.char fun _ hc => (solid_mark (by decide)).not hc)
    (Refuses.seq _ (Refuses.group 1 (Refuses.seq _ (Refuses.char fun _ hc => solid_plainStart.not hc))))

theorem moves_identifier : Moves (isWord U) identifierPattern :=
  Moves.right (Moves.left (Moves.group (Moves.left Moves.char)))

theorem steady_keywordBy {s : String} (hs : Keyword (isWord U) s) :
    Steady U (cat [wordBoundary, kw s, plus isSpace, kw "BY", wordBoundary]) :=
  steady_boundary.seq ((steady_kw hs).seq (Parallel.gap ((steady_kw (keyword U (by simp [patternKeywords]))).seq
    (steady_boundary.seq Parallel.empty)) (refuses_kw (keyword U (by simp [patternKeywords])) _)))

theorem steady_orderByFirstKey : Steady U orderByFirstKeyPattern := by
  have hasc : Steady U (cat [plus isSpace, kw "ASC", wordBoundary]) :=
    Parallel.gap ((steady_kw (keyword U (by simp [patternKeywords]))).seq (steady_boundary.seq Parallel.empty))
      (refuses_kw (keyword U (by simp [patternKeywords])) _)
  have hkey : Steady U (cat [opt (chr '['), kw "ProductID", opt (chr ']'), plus isSpace, kw "ASC", wordBoundary]) :=
    (steady_chr (by decide)).opt.seq ((steady_kw keyword_productId).seq ((steady_chr (by decide)).opt.seq hasc))
  have hqualifier : Steady U (cat [ident, chr '.']) := steady_ident.seq ((steady_chr (by decide)).seq Parallel.empty)
  have hrefuses : Refuses (isWord U) (seq (opt (cat [ident, chr '.']))
      (cat [opt (chr '['), kw "ProductID", opt (chr ']'), plus isSpace, kw "ASC", wordBoundary])) isSpace :=
    Refuses.opt_seq (Refuses.seq _ refuses_ident) (Refuses.opt_seq (Refuses.char fun _ hc =>
      (solid_mark (by decide)).not hc) (refuses_kw keyword_productId _))
  exact (steady_kw (keyword U (by simp [patternKeywords, clauseBoundaryKeywords]))).seq (Parallel.gap
    ((steady_kw (keyword U (by simp [patternKeywords]))).seq (Parallel.gap (hqualifier.opt.seq hkey) hrefuses))
    (refuses_kw (keyword U (by simp [patternKeywords])) _))

theorem steady_clauseBoundary : Steady U clauseBoundaryPattern :=
  steady_boundary.seq ((steady_kws boundaryKeywords).seq (steady_boundary.seq Parallel.empty))

/-! ### The first success alone -/

/-- The digits of `TOP (n)`: whitespace may stand on either side of the parentheses. -/
theorem steady_top : SteadyFirst U (topPattern U) := by
  have hdigits : Steady U (group 1 (plus (isDecimal U))) := by
    have hκ : Respects Char.toLower (isDecimal U) := respects_lower fun c hc => by
      rw [isDecimal, isDecimal, isDecimal_toLower U hc]
    exact Parallel.group ((Parallel.char solid_decimal hκ).seq (Parallel.many solid_decimal hκ))
      ((ReadsSolid.char solid_decimal).seq (ReadsSolid.many solid_decimal))
  have hclose : SteadyFirst U (cat [many isSpace, opt (chr ')')]) := by
    refine ParallelFirst.spaces (Parallel.first ((steady_chr (by decide)).opt.seq Parallel.empty)) ?_
    intro b c t _ _
    simp [run]
  have hcount : Refuses (isWord U) (cat [group 1 (plus (isDecimal U)), many isSpace, opt (chr ')')]) isSpace :=
    Refuses.seq _ (Refuses.group 1 (Refuses.plus fun _ hc => solid_decimal.not hc))
  have hopen : SteadyFirst U (cat [opt (chr '('), many isSpace, group 1 (plus (isDecimal U)), many isSpace,
      opt (chr ')')]) :=
    ParallelFirst.seq (steady_chr (by decide)).opt
      (ParallelFirst.spaces (ParallelFirst.seq hdigits hclose) (Refuses.passes hcount))
  have hkeyword : SteadyFirst U (cat [kw "TOP", many isSpace, opt (chr '('), many isSpace,
      group 1 (plus (isDecimal U)), many isSpace, opt (chr ')')]) :=
    ParallelFirst.seq (steady_kw (keyword U (by simp [patternKeywords]))) (ParallelFirst.spaces hopen
      (Passes.opt_spaces (Refuses.char fun _ hc => (solid_mark (by decide)).not hc) hcount))
  exact ParallelFirst.seq Parallel.begins (ParallelFirst.spaces
    (ParallelFirst.seq (steady_kw (keyword U (by simp [patternKeywords])))
      (ParallelFirst.gap hkeyword (refuses_kw (keyword U (by simp [patternKeywords])) _)))
    (refuses_kw (keyword U (by simp [patternKeywords])) _).passes)

/-- What follows the expression of a select item. -/
def aliasTail : Pattern :=
  cat [wordBoundary, kw "AS", wordBoundary, many isSpace, group 2 ident, many isSpace, ends]

theorem selectItemPattern_eq : selectItemPattern = seq begins
    (seq (group 1 (seq (char fun _ => true) (manyLazy fun _ => true))) aliasTail) := rfl

theorem steady_aliasTail : SteadyFirst U aliasTail := by
  have hname : SteadyFirst U (cat [many isSpace, group 2 ident, many isSpace, ends]) :=
    ParallelFirst.spaces (ParallelFirst.seq (steady_ident.group readsSolid_ident) ParallelFirst.trailing)
      (Refuses.seq _ (Refuses.group 2 refuses_ident)).passes
  exact ParallelFirst.seq steady_boundary (ParallelFirst.seq (steady_kw (keyword U (by simp [patternKeywords])))
    (ParallelFirst.seq steady_boundary hname))

theorem refuses_aliasTail : Refuses (isWord U) aliasTail isSpace :=
  refuses_boundary (refuses_kw (keyword U (by simp [patternKeywords])) _)

/-! ## What the patterns cut out -/

/-- A search that finds the same place in both texts. -/
structure Found (U : Unicode) (r : Pattern) : Prop where
  steady : SteadyFirst U r
  refuses : Refuses (isWord U) r isSpace

theorem Found.search {r : Pattern} (hr : Found U r) {x y : Text} (h : SameText x y) :
    Option.Rel (SameMatch Char.toLower) (search (isWord U) r x) (search (isWord U) r y) :=
  search_parallel hr.steady hr.refuses h

theorem Found.isSome {r : Pattern} (hr : Found U r) {x y : Text} (h : SameText x y) :
    (Regex.search (isWord U) r x).isSome = (Regex.search (isWord U) r y).isSome := by
  rcases rel_iff.mp (hr.search h) with ⟨hx, hy⟩ | ⟨m, m', hx, hy, -⟩
  · rw [hx, hy]
  · rw [hx, hy]
    rfl

theorem found_keyword {s : String} (hs : Keyword (isWord U) s) : Found U (keywordPattern s) :=
  ⟨(steady_keywordPattern hs).first, refuses_boundary (refuses_kw hs _)⟩

theorem found_keywordBy {s : String} (hs : Keyword (isWord U) s) :
    Found U (cat [wordBoundary, kw s, plus isSpace, kw "BY", wordBoundary]) :=
  ⟨(steady_keywordBy hs).first, refuses_boundary (refuses_kw hs _)⟩

theorem found_keywords {ks : List String} (hk : ∀ s ∈ ks, Keyword (isWord U) s) : Found U (keywordsPattern ks) := by
  refine ⟨(steady_keywordsPattern hk).first, refuses_boundary (Refuses.seq _ (Refuses.group 1 fun b c t hc => ?_))⟩
  refine List.eq_nil_iff_forall_not_mem.mpr fun x hx => ?_
  obtain ⟨r, hr, hx⟩ := mem_run_oneOf_iff.mp hx
  obtain ⟨s, hs, rfl⟩ := List.mem_map.mp hr
  have hnil : run (isWord U) (kw s) ⟨b, c :: t⟩ = [] := by simpa [run] using refuses_kw (hk s hs) empty b c t hc
  rw [hnil] at hx
  exact absurd hx List.not_mem_nil

theorem found_clauseBoundary : Found U clauseBoundaryPattern :=
  ⟨steady_clauseBoundary.first, refuses_boundary (refuses_kws boundaryKeywords _)⟩

/-- The text up to the first match of a pattern. -/
theorem cut_congr {r : Pattern} (hr : Found U r) {x y : Text} (h : SameText x y) :
    SameText (match search (isWord U) r x with
      | some m => x.take m.start.before.length
      | none => x)
    (match search (isWord U) r y with
      | some m => y.take m.start.before.length
      | none => y) := by
  have htake : ∀ {x : Text} {m : Match}, Regex.search (isWord U) r x = some m →
      x.take m.start.before.length = m.start.before.reverse := by
    intro x m hm
    obtain ⟨u, v, rfl, hstart, -⟩ := search_sound hm
    rw [hstart, List.length_reverse, List.take_left, List.reverse_reverse]
  rcases rel_iff.mp (hr.search h) with ⟨hx, hy⟩ | ⟨m, m', hx, hy, hm⟩
  · rw [hx, hy]
    exact h
  · rw [hx, hy]
    dsimp only
    rw [htake hx, htake hy, SameText, collapse_reverse, collapse_reverse, hm.start.before]

theorem extractClauseAfter_congr {r : Pattern} (hr : Found U r) {x y : Text} (h : SameText x y) :
    Option.Rel SameText (extractClauseAfter U x r) (extractClauseAfter U y r) := by
  rw [extractClauseAfter_eq, extractClauseAfter_eq]
  exact rel_map (hr.search h) fun m m' hm => strip_congr (cut_congr found_clauseBoundary hm.stop.after)

theorem extractSelectList_congr {m m' : Match} (h : SameMatch Char.toLower m m') :
    SameText (extractSelectList U m) (extractSelectList U m') := by
  rw [extractSelectList_eq, extractSelectList_eq]
  exact strip_congr (cut_congr (found_keyword (keyword U (by simp [patternKeywords]))) h.stop.after)

/-! ### Select items -/

theorem sameText_of_map {x y : Text} (h : x.map Char.toLower = y.map Char.toLower) : SameText x y := by
  induction x generalizing y with
  | nil =>
    rw [List.map_eq_nil_iff.mp h.symm]
  | cons c x ih =>
    cases y with
    | nil => simp at h
    | cons d y =>
      rw [List.map_cons, List.map_cons, List.cons.injEq] at h
      have hspace : ∀ {c d : Char}, c.toLower = d.toLower → isSpace c = isSpace d := by
        intro c d hcd
        rw [← isSpace_toLower c, hcd, isSpace_toLower]
      have hhead : x.head?.any isSpace = y.head?.any isSpace := by
        cases x with
        | nil => rw [List.map_eq_nil_iff.mp h.2.symm]
        | cons e x =>
          cases y with
          | nil => simp at h
          | cons f y =>
            rw [List.map_cons, List.map_cons, List.cons.injEq] at h
            simpa using hspace h.2.1
      have hrest := ih h.2
      rw [SameText, collapse, collapse, hspace h.1, hhead, h.1, hrest]

/-- The expression and the alias that are read off an item. -/
structure SameItem (m m' : Match) : Prop where
  expr : SameText ((m.group 1).getD []) ((m'.group 1).getD [])
  name : ((m.group 2).getD []).map Char.toLower = ((m'.group 2).getD []).map Char.toLower

theorem map_getD {x y : Option Text} (h : Option.Rel (fun x y => x.map Char.toLower = y.map Char.toLower) x y) :
    (x.getD []).map Char.toLower = (y.getD []).map Char.toLower := by
  rcases rel_iff.mp h with ⟨rfl, rfl⟩ | ⟨x, y, rfl, rfl, hxy⟩
  · rfl
  · exact hxy

theorem selectItem_congr {x y : Text} (hx : Trimmed x) (h : SameText x y) :
    Option.Rel SameItem (matchStart (isWord U) selectItemPattern x) (matchStart (isWord U) selectItemPattern y) := by
  cases x with
  | nil =>
    rw [collapse_eq_nil.mp h.symm]
    have hnone : matchStart (isWord U) selectItemPattern [] = none := rfl
    rw [hnone]
    exact .none
  | cons c x =>
    have hc : isSpace c = false := by simpa using hx.1
    obtain ⟨d, y, rfl, hd, hcd, hrest⟩ := solid_of_collapse hc h
    have haligned : Aligned Char.toLower ⟨[c], x⟩ ⟨[d], y⟩ := by
      refine ⟨?_, hrest, by simp [hc]⟩
      rw [collapse_solid hc, collapse_solid hd, hcd]
    rw [selectItemPattern_eq, matchStart_lazy, matchStart_lazy]
    refine rel_map (searchFrom_parallel steady_aliasTail refuses_aliasTail haligned) fun m m' hm => ⟨?_, ?_⟩
    · have hexpr : SameText m.start.before.reverse m'.start.before.reverse := by
        rw [SameText, collapse_reverse, collapse_reverse, hm.start.before]
      have hgroup := hm.group 1
      unfold Match.group at hgroup ⊢
      simp only [List.lookup_append, List.lookup_cons, beq_self_eq_true]
      rcases rel_iff.mp hgroup with ⟨hg, hg'⟩ | ⟨g, g', hg, hg', hgg⟩
      · rw [hg, hg']
        exact hexpr
      · rw [hg, hg']
        exact sameText_of_map hgg
    · have hgroup := hm.group 2
      unfold Match.group at hgroup ⊢
      simp only [List.lookup_append, List.lookup_cons, List.lookup_nil, show (2 == 1) = false from rfl, Option.or_none]
      exact map_getD hgroup

end DataAgent.Guardrail
