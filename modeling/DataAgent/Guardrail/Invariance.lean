import DataAgent.Guardrail.Relaid
import DataAgent.Python.Alike

/-!
# Layout and letter case

`validate` on texts that differ in their whitespace and in the case of ASCII letters.

* each check side by side on two such texts (`checkSelect_alike` and so on): both pass it, or both are refused;
* `clean_relaid`, `Passes.relaid` : what one text goes through, the other does;
* **`accepted_relaid`** : edits do not change whether a text is accepted.
-/

namespace DataAgent.Guardrail
open Python Regex Pattern
open Agent (MetadataContext)

variable {U : Unicode}

/-! ## The checks side by side -/

theorem alike_require (ok : Bool) (m m' : String) : Alike Any (require ok m) (require ok m') := by
  cases ok with
  | true => exact .ok ()
  | false => exact .error trivial

theorem alike_rejected {α : Type} {m m' : String} :
    Alike Any (.error (.sqlRejected m) : Guard α) (.error (.sqlRejected m')) := .error trivial

theorem checkSelect_alike {x y : Text} (h : SameText x y) : Alike Any (checkSelect U x) (checkSelect U y) := by
  have hselect : (findIter (isWord U) selectPattern x).length = (findIter (isWord U) selectPattern y).length :=
    (findIter_parallel (steady_keywordPattern (keyword U (by simp [patternKeywords]))).first
      (refuses_boundary (refuses_kw (keyword U (by simp [patternKeywords])) _))
      (Moves.right (Moves.left (Moves.kw (by simp)))) h).length_eq
  have hstarts : (matchStart (isWord U) startsSelectPattern x).isSome =
      (matchStart (isWord U) startsSelectPattern y).isSome := by
    rcases rel_iff.mp (matchAt_parallel steady_startsSelect.first (Aligned.start h)) with
      ⟨hx, hy⟩ | ⟨m, m', hx, hy, -⟩
    · rw [matchStart, matchStart, hx, hy]
    · rw [matchStart, matchStart, hx, hy]
      rfl
  have hforbidden := (@found_keywords U forbiddenKeywords fun s hs =>
    keyword U (List.mem_append_left _ (List.mem_append_left _ hs))).search h
  unfold checkSelect
  rw [hselect, hstarts]
  refine Alike.bind (alike_require _ _ _) fun _ => Alike.bind (alike_require _ _ _) fun _ => ?_
  rw [← show forbiddenPattern = keywordsPattern forbiddenKeywords from rfl] at hforbidden
  rcases rel_iff.mp hforbidden with ⟨hx, hy⟩ | ⟨m, m', hx, hy, -⟩
  · rw [hx, hy]
    exact .ok ()
  · rw [hx, hy]
    exact alike_rejected

theorem collectTableRefs_alike {ms ms' : List Match} (h : List.Forall₂ (SameMatch Char.toLower) ms ms') (d : AliasMap) :
    Alike Any (collectTableRefs U d ms) (collectTableRefs U d ms') := by
  induction h generalizing d with
  | nil => exact .ok d
  | @cons m m' ms ms' hm _ ih =>
    have hname : upper U ((m.group 1).getD []) = upper U ((m'.group 1).getD []) := upper_congr (map_getD (hm.group 1))
    unfold collectTableRefs
    dsimp only
    rw [hname]
    refine Alike.bind (alike_require _ _ _) fun _ => ?_
    rcases rel_iff.mp (hm.group 2) with ⟨hx, hy⟩ | ⟨a, a', hx, hy, ha⟩
    · rw [hx, hy]
      exact alike_rejected
    · rw [hx, hy]
      dsimp only
      rw [upper_congr (U := U) (stripBrackets_congr ha)]
      refine Alike.bind (alike_require _ _ _) fun _ => Alike.bind (alike_require _ _ _) fun _ => ih _

theorem checkIdentifiers_alike {ms ms' : List Match} (h : List.Forall₂ (SameMatch Char.toLower) ms ms')
    (allowed : List Text) : Alike Any (checkIdentifiers U allowed ms) (checkIdentifiers U allowed ms') := by
  induction h with
  | nil => exact .ok ()
  | @cons m m' ms ms' hm _ ih =>
    unfold checkIdentifiers
    dsimp only
    rw [upper_congr (U := U) (map_getD (hm.group 1))]
    exact Alike.bind (alike_require _ _ _) fun _ => ih

theorem checkOrderBy_alike {x y : Text} (h : SameText x y) : Alike Any (checkOrderBy U x) (checkOrderBy U y) := by
  have hexists : Found U orderByExistsPattern :=
    found_keywordBy (keyword U (by simp [patternKeywords, clauseBoundaryKeywords]))
  have hfirst : Found U orderByFirstKeyPattern :=
    ⟨steady_orderByFirstKey.first, refuses_kw (keyword U (by simp [patternKeywords, clauseBoundaryKeywords])) _⟩
  unfold checkOrderBy
  rw [hexists.isSome h, hfirst.isSome h]
  exact Alike.bind (alike_require _ _ _) fun _ => alike_require _ _ _

theorem checkOn_alike {x y : Text} (h : SameText x y) (p i : Text) : Alike Any (checkOn U p i x) (checkOn U p i y) := by
  have hclause := extractClauseAfter_congr (found_keyword (keyword U (s := "ON") (by simp [patternKeywords]))) h
  rw [← show onKeywordPattern = keywordPattern "ON" from rfl] at hclause
  unfold checkOn
  rcases rel_iff.mp hclause with ⟨hx, hy⟩ | ⟨c, c', hx, hy, hc⟩
  · rw [hx, hy]
    exact alike_rejected
  · rw [hx, hy]
    dsimp only
    rw [normalize_congr (U := U) hc]
    exact alike_require _ _ _

theorem checkHaving_alike {x y : Text} (h : SameText x y) (p i : Text) :
    Alike Any (checkHaving U p i x) (checkHaving U p i y) := by
  have hclause := extractClauseAfter_congr
    (found_keyword (keyword U (s := "HAVING") (by simp [patternKeywords, clauseBoundaryKeywords]))) h
  rw [← show havingKeywordPattern = keywordPattern "HAVING" from rfl] at hclause
  unfold checkHaving
  rcases rel_iff.mp hclause with ⟨hx, hy⟩ | ⟨c, c', hx, hy, hc⟩
  · rw [hx, hy]
    exact alike_rejected
  · rw [hx, hy]
    dsimp only
    rw [normalize_congr (U := U) hc]
    exact alike_require _ _ _

theorem checkGroupKeys_alike {xs ys : List Text} (h : List.Forall₂ SameText xs ys) (d : AliasMap) (seen : List Text) :
    Alike Any (checkGroupKeys U d seen xs) (checkGroupKeys U d seen ys) := by
  induction h generalizing seen with
  | nil => exact .ok seen
  | @cons x y xs ys hxy _ ih =>
    unfold checkGroupKeys
    rw [normalize_congr (U := U) hxy]
    cases matchStart (isWord U) normalizedAliasColumnPattern (normalizePredicate U y) with
    | none => exact alike_rejected
    | some m =>
      exact Alike.bind (alike_require _ _ _) fun _ => Alike.bind (alike_require _ _ _) fun _ =>
        Alike.bind (alike_require _ _ _) fun _ => ih _

theorem checkGroupBy_alike {x y : Text} (h : SameText x y) (d : AliasMap) :
    Alike Any (checkGroupBy U d x) (checkGroupBy U d y) := by
  have hgroup : Keyword (isWord U) "GROUP" := keyword U (by simp [patternKeywords, clauseBoundaryKeywords])
  have hcount : (findIter (isWord U) groupByKeywordPattern x).length =
      (findIter (isWord U) groupByKeywordPattern y).length :=
    (findIter_parallel (found_keywordBy hgroup).steady (found_keywordBy hgroup).refuses
      (Moves.right (Moves.left (Moves.kw hgroup.nonempty))) h).length_eq
  have hclause := extractClauseAfter_congr (found_keywordBy hgroup) h
  rw [← show groupByKeywordPattern = cat [wordBoundary, kw "GROUP", plus isSpace, kw "BY", wordBoundary] from rfl]
    at hclause
  have hitems : List.Forall₂ SameText (splitTopLevelCommas ((extractClauseAfter U x groupByKeywordPattern).getD []))
      (splitTopLevelCommas ((extractClauseAfter U y groupByKeywordPattern).getD [])) := by
    refine split_congr ?_
    rcases rel_iff.mp hclause with ⟨hx, hy⟩ | ⟨c, c', hx, hy, hc⟩
    · rw [hx, hy]
    · rw [hx, hy]
      exact hc
  unfold checkGroupBy
  dsimp only
  rw [hcount, hitems.length_eq]
  refine Alike.bind (alike_require _ _ _) fun _ => Alike.bind (alike_require _ _ _) fun _ =>
    Alike.bind (alike_require _ _ _) fun _ => Alike.bind (checkGroupKeys_alike hitems d []) fun seen => ?_
  exact alike_require _ _ _

theorem checkSelectItems_alike {xs ys : List Text} (h : List.Forall₂ SameText xs ys) (hxs : ∀ x ∈ xs, Trimmed x)
    (expected : List (Text × Text)) (seen : List Text) :
    Alike Any (checkSelectItems U expected seen xs) (checkSelectItems U expected seen ys) := by
  induction h generalizing seen with
  | nil => exact .ok seen
  | @cons x y xs ys hxy _ ih =>
    rw [List.forall_mem_cons] at hxs
    unfold checkSelectItems
    rcases rel_iff.mp (selectItem_congr (U := U) hxs.1 hxy) with ⟨hx, hy⟩ | ⟨m, m', hx, hy, hm⟩
    · rw [hx, hy]
      exact alike_rejected
    · rw [hx, hy]
      dsimp only
      rw [upper_congr (U := U) (stripBrackets_congr hm.name), normalize_congr (U := U) hm.expr]
      cases expected.lookup (upper U (stripBrackets ((m'.group 2).getD []))) with
      | none => exact alike_rejected
      | some e =>
        exact Alike.bind (alike_require _ _ _) fun _ => Alike.bind (alike_require _ _ _) fun _ => ih hxs.2 _

theorem checkSelectList_alike {m m' : Match} (h : SameMatch Char.toLower m m') (p i : Text) :
    Alike Any (checkSelectList U p i m) (checkSelectList U p i m') := by
  have hitems := split_congr (extractSelectList_congr (U := U) h)
  have htrimmed : ∀ x ∈ splitTopLevelCommas (extractSelectList U m), Trimmed x := by
    intro x hx
    obtain ⟨y, -, rfl⟩ := List.mem_map.mp hx
    exact trimmed_strip y
  unfold checkSelectList
  dsimp only
  rw [hitems.length_eq]
  refine Alike.bind (alike_require _ _ _) fun _ =>
    Alike.bind (checkSelectItems_alike hitems htrimmed _ []) fun seen => alike_require _ _ _

/-! ## The whole check -/

theorem head_congr {a : Char} (ha : Mark a) {x y : Text} (h : SameText x y) (hx : x.head? = some a) :
    y.head? = some a := by
  obtain ⟨u, rfl⟩ := List.head?_eq_some_iff.mp hx
  obtain ⟨d, v, rfl, -, hd, -⟩ := solid_of_collapse ha.1 h
  rw [List.head?_cons, eq_of_toLower ha.2 hd.symm]

theorem last_congr {a : Char} (ha : Mark a) {x y : Text} (h : SameText x y) :
    x.getLast? = some a ↔ y.getLast? = some a := by
  have hrev : SameText x.reverse y.reverse := by rw [SameText, collapse_reverse, collapse_reverse, h]
  rw [← List.head?_reverse, ← List.head?_reverse]
  exact ⟨head_congr ha hrev, head_congr ha hrev.symm⟩

theorem keyed_rdropWhile (k l : List (Option Char)) :
    keyed U k (l.rdropWhile Option.isNone) = (keyed U k l).rdropWhile Option.isNone := by
  induction l using List.reverseRecOn with
  | nil => rfl
  | append_singleton l o ih =>
    rw [keyed_append, List.rdropWhile_concat]
    cases o with
    | none =>
      have hnone : (none : Option Char).isNone = true := rfl
      rw [if_pos hnone, ih, keyed, keyed, List.rdropWhile_concat, if_pos hnone]
    | some c =>
      rw [if_neg (by simp), keyed, keyed, List.rdropWhile_concat, if_neg (by simp), keyed_append]
      rfl

/-- The separator at the end and the whitespace before it are taken away from both. -/
theorem Relaid.separator {u v : Text} (h : Relaid U (u ++ [';']) (v ++ [';'])) : Relaid U (rstrip u) (rstrip v) := by
  have hlast : ∀ u : Text, keyed U [] (collapse id (u ++ [';'])) = keyed U [] (collapse id u) ++ [some ';'] := by
    intro u
    have hone : collapse id [';'] = [some ';'] := by decide
    rw [collapse_append (fun hedge => absurd hedge.2 (by decide)), hone, keyed_append, keyed, keyed,
      show ';'.toLower = ';' from rfl, ite_self]
  rw [Relaid, hlast, hlast] at h
  rw [Relaid, collapse_rstrip, collapse_rstrip, keyed_rdropWhile, keyed_rdropWhile, List.append_cancel_right h]

theorem clean_relaid {x y : Text} (h : Relaid U (strip x) (strip y)) {t : Text} (hx : clean x = .ok t) :
    ∃ t', clean y = .ok t' ∧ Relaid U t t' := by
  unfold clean at hx ⊢
  simp only [require, raiseUnless_bind] at hx ⊢
  generalize strip x = c at *
  generalize strip y = c' at *
  have hlast := last_congr (a := ';') (by decide) h.same
  have hcut : Relaid U (if c.getLast? = some ';' then rstrip c.dropLast else c)
      (if c'.getLast? = some ';' then rstrip c'.dropLast else c') := by
    by_cases hc : c.getLast? = some ';'
    · obtain ⟨u, rfl⟩ := List.getLast?_eq_some_iff.mp hc
      obtain ⟨v, rfl⟩ := List.getLast?_eq_some_iff.mp (hlast.mp hc)
      rw [if_pos hc, if_pos (hlast.mp hc), List.dropLast_concat, List.dropLast_concat]
      exact h.separator
    · rw [if_neg hc, if_neg (mt hlast.mpr hc)]
      exact h
  have hempty : c.isEmpty = c'.isEmpty := by
    rw [Bool.eq_iff_iff, List.isEmpty_iff, List.isEmpty_iff, ← collapse_eq_nil (κ := Char.toLower), h.same,
      collapse_eq_nil]
  generalize (if c.getLast? = some ';' then rstrip c.dropLast else c) = e at *
  generalize (if c'.getLast? = some ';' then rstrip c'.dropLast else c') = e' at *
  have hsame := hcut.same
  rw [hempty, contains_congr (by decide) hsame, contains_congr (by decide) hsame,
    hasPair_congr (by decide) (by decide) hsame, hasPair_congr (by decide) (by decide) hsame] at hx
  obtain ⟨h1, h2, h3, h4, ht⟩ := hx
  obtain rfl : e = t := by simpa [pure, Except.pure] using ht
  exact ⟨e', ⟨h1, h2, h3, h4, rfl⟩, hcut⟩

theorem checkTop_congr {x y : Text} (h : SameText x y) {m : Match} (hm : checkTop U x = .ok m) :
    ∃ m', checkTop U y = .ok m' ∧ SameMatch Char.toLower m m' := by
  unfold checkTop at hm ⊢
  rcases rel_iff.mp (matchAt_parallel (steady_top (U := U)) (Aligned.start h)) with ⟨hx, hy⟩ | ⟨n, n', hx, hy, hn⟩
  · rw [matchStart, hx] at hm
    simp at hm
  · rw [matchStart, hx] at hm
    rw [matchStart, hy]
    dsimp only at hm ⊢
    rw [intOf_congr (U := U) (map_getD (hn.group 1)), contains_congr (by decide) h] at hm
    cases hint : intOf U ((n'.group 1).getD []) with
    | none =>
      rw [hint] at hm
      simp at hm
    | some k =>
      rw [hint] at hm
      simp only [require, raiseUnless_bind] at hm ⊢
      obtain ⟨h1, h2, hret⟩ := hm
      obtain rfl : n = m := by simpa [pure, Except.pure] using hret
      exact ⟨n', ⟨h1, h2, rfl⟩, hn⟩

/-! ### Output aliases -/

theorem withinTableRef_congr {x y : Text} {ms ms' : List Match} (h : List.Forall₂ (SameMatch Char.toLower) ms ms')
    (hx : ∀ m ∈ ms, m.start.On x ∧ m.stop.On x) (hy : ∀ m ∈ ms', m.start.On y ∧ m.stop.On y) {u v : Cursor}
    (hu : u.On x) (hv : v.On y) (huv : Aligned Char.toLower u v) :
    withinTableRef (ms.map Match.span) u.before.length = withinTableRef (ms'.map Match.span) v.before.length := by
  induction h with
  | nil => rfl
  | @cons m m' ms ms' hm _ ih =>
    rw [List.forall_mem_cons] at hx hy
    have hstart := order_congr hx.1.1 hu hy.1.1 hv hm.start huv
    have hstop := order_congr hx.1.2 hu hy.1.2 hv hm.stop huv
    have ih := ih hx.2 hy.2
    unfold withinTableRef at ih ⊢
    rw [List.map_cons, List.map_cons, List.any_cons, List.any_cons, ih]
    congr 1
    rw [Bool.eq_iff_iff, Bool.and_eq_true, Bool.and_eq_true, decide_eq_true_eq, decide_eq_true_eq, decide_eq_true_eq,
      decide_eq_true_eq, Match.span, Match.span, hstart, ← not_le, ← not_le, hstop]

theorem collectOutputAliases_alike_of {spans spans' : List (Nat × Nat)} {ms ms' : List Match}
    (h : List.Forall₂ (fun m m' => withinTableRef spans m.span.1 = withinTableRef spans' m'.span.1 ∧
      m.group 1 = m'.group 1) ms ms') :
    Alike Any (collectOutputAliases spans ms) (collectOutputAliases spans' ms') := by
  induction h with
  | nil => exact .ok []
  | @cons m m' ms ms' hm _ ih =>
    unfold collectOutputAliases
    rw [hm.1, hm.2]
    split
    · exact ih
    · exact Alike.bind (alike_require _ _ _) fun _ => Alike.bind ih fun outs => .ok _

theorem collectOutputAliases_alike {x y : Text} (h : Relaid U x y) :
    Alike Any (collectOutputAliases ((tableRefs U x).map Match.span) (findIter (isWord U) asPattern x))
      (collectOutputAliases ((tableRefs U y).map Match.span) (findIter (isWord U) asPattern y)) := by
  have hrefs : List.Forall₂ (SameMatch Char.toLower) (tableRefs U x) (tableRefs U y) :=
    findIter_parallel steady_tableRef.first refuses_tableRef moves_tableRef h.same
  have has := List.forall₂_iff_zip.mp (findIter_parallel (steady_as (U := U)).first refuses_as moves_as h.same)
  refine collectOutputAliases_alike_of (List.forall₂_iff_zip.mpr ⟨has.1, fun {m m'} hm => ?_⟩)
  have hsame := has.2 hm
  obtain ⟨hx, hy⟩ := List.of_mem_zip hm
  refine ⟨?_, asName_eq h hx hy hsame⟩
  exact withinTableRef_congr hrefs (fun m hm => findIter_on hm) (fun m hm => findIter_on hm) (findIter_on hx).1
    (findIter_on hy).1 hsame.start

/-- The checks let both texts pass, with the same aliases. -/
theorem Passes.relaid {x y : Text} (h : Relaid U x y) {m : Match} {d : AliasMap} {outs : List Text} {p i : Text}
    (hx : Passes U x m d outs p i) : ∃ m', Passes U y m' d outs p i := by
  have hsame := h.same
  have hrefs : List.Forall₂ (SameMatch Char.toLower) (tableRefs U x) (tableRefs U y) :=
    findIter_parallel steady_tableRef.first refuses_tableRef moves_tableRef hsame
  have hidentifiers := findIter_parallel (steady_identifier (U := U)).first refuses_identifier moves_identifier hsame
  obtain ⟨m', htop, hm⟩ := checkTop_congr hsame hx.top
  refine ⟨m', ⟨?_, htop, ?_, ?_, ?_, ?_, ?_, hx.both, hx.product, hx.inventory, ?_, ?_, ?_, ?_⟩⟩
  · exact (checkSelect_alike hsame).of_ok hx.select
  · exact (collectTableRefs_alike hrefs []).of_ok hx.refs
  · intro hnil
    rw [hnil, List.forall₂_nil_right_iff] at hrefs
    exact hx.found hrefs
  · exact (collectOutputAliases_alike h).of_ok hx.output
  · exact (checkIdentifiers_alike hidentifiers _).of_ok hx.identifiers
  · exact (checkOrderBy_alike hsame).of_ok hx.orderBy
  · exact (checkOn_alike hsame p i).of_ok hx.on
  · exact (checkGroupBy_alike hsame d).of_ok hx.groupBy
  · exact (checkHaving_alike hsame p i).of_ok hx.having
  · exact (checkSelectList_alike hm p i).of_ok hx.selectList

/-- **Layout and letter case do not change whether a text is accepted**, but for the names after `AS`. -/
theorem accepted_relaid {sql sql' : Text} (h : Relation.EqvGen (Edit U eqvIgnoreCase) sql sql')
    (context : MetadataContext) :
    (∃ t, validate U sql context = .ok t) ↔ ∃ t, validate U sql' context = .ok t := by
  have hforward : ∀ {x y : Text}, Relaid U (strip x) (strip y) → (∃ t, validate U x context = .ok t) →
      ∃ t, validate U y context = .ok t := by
    intro x y hxy hx
    obtain ⟨t, ht⟩ := hx
    obtain ⟨hclean, m, d, outs, p, i, hp⟩ := validate_ok_iff.mp ht
    obtain ⟨t', hclean', ht'⟩ := clean_relaid hxy hclean
    obtain ⟨m', hp'⟩ := hp.relaid ht'
    exact ⟨t', validate_ok_iff.mpr ⟨hclean', m', d, outs, p, i, hp'⟩⟩
  have hstrip := relaid_of_edits h
  exact ⟨hforward hstrip, hforward hstrip.symm⟩

theorem accepted_relaid_oneJoin : (∃ t, validate .small oneJoin {} = .ok t) ↔
    ∃ t, validate .small ('s' :: oneJoin.tail) {} = .ok t := by
  have hsplit : 'S' :: oneJoin.tail = oneJoin := by decide +kernel
  have hname : inNameAfterAs .small eqvIgnoreCase (collapse id [].reverse) 'S' = false := by decide +kernel
  have hedit : Edit .small eqvIgnoreCase ('S' :: oneJoin.tail) ('s' :: oneJoin.tail) :=
    .letter [] oneJoin.tail (by decide) hname
  have h := accepted_relaid (.rel _ _ hedit) {}
  rwa [hsplit] at h

/-! ### A long s -/

/-- A letter in either case, and no other character for it. -/
def sameLetter (p c : Char) : Bool := p.toLower == c.toLower

/-- A statement whose second alias follows `a\u017f`, up to that alias. -/
def beforeAlias : Text :=
  ["SELECT TOP 5 a.ProductID AS ProductID, a.Name a\u017f "].flatMap String.toList

/-- The rest of the alias and of the statement. -/
def afterAlias : Text :=
  ["ame, SUM(i.Quantity) AS CurrentInventory, a.SafetyStockLevel AS SafetyStockLevel ",
    "FROM Product AS a JOIN ProductInventory AS i ON a.ProductID = i.ProductID ",
    "GROUP BY a.ProductID, a.Name, a.SafetyStockLevel HAVING SUM(i.Quantity) < a.SafetyStockLevel ",
    "ORDER BY ProductID ASC"].flatMap String.toList

/-- **The patterns read a long s as the `S` of `AS`**, so the name after it must be in the approved case. -/
theorem long_s_alias : ¬ ∀ (sql sql' : Text) (context : MetadataContext),
    Relation.EqvGen (Edit .small sameLetter) sql sql' →
      ((∃ t, validate .small sql context = .ok t) ↔ ∃ t, validate .small sql' context = .ok t) := by
  intro hall
  have hname : inNameAfterAs .small sameLetter (collapse id beforeAlias.reverse) 'N' = false := by decide +kernel
  have haccepted : validate .small (beforeAlias ++ 'N' :: afterAlias) {} = .ok (beforeAlias ++ 'N' :: afterAlias) := by
    decide +kernel
  have hrefused : validate .small (beforeAlias ++ 'n' :: afterAlias) {} =
      .error (.sqlRejected "sql uses an unapproved output alias: name") := by
    decide +kernel
  have hedit : Edit .small sameLetter (beforeAlias ++ 'N' :: afterAlias) (beforeAlias ++ 'n' :: afterAlias) :=
    .letter beforeAlias afterAlias (by decide) hname
  obtain ⟨t, ht⟩ := (hall _ _ {} (.rel _ _ hedit)).mp ⟨_, haccepted⟩
  rw [hrefused] at ht
  exact absurd ht (by simp)

end DataAgent.Guardrail
