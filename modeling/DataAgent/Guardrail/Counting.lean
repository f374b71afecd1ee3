import DataAgent.Guardrail.Tables
import DataAgent.Guardrail.Items

/-!
# Lists that are exact by counting

What the two loops over items make of a list of the right length.

* `seen_loop` : a loop that takes each item's key once; **`perm_of_count`** : with as many keys as there are to take,
  it took all of them;
* `GroupKey`, `boundItem` : what is read off an item;
* **`lists_exact`** : the references, the group keys and the outputs of an accepted text are exactly the approved
  ones, and the checks for a missing one never fire.
-/

namespace DataAgent.Guardrail
open Python Regex
open Agent (MetadataContext)
open TSql (plainPart)

/-! ## Counting -/

section Loop
variable {α K ε : Type}

/-- A loop over items that reads a key off each (`R`) and refuses a key it has seen. -/
theorem seen_loop {R : α → K → Prop} {f : List K → List α → Except ε (List K)} (hnil : ∀ seen, f seen [] = .ok seen)
    (hcons : ∀ seen x xs seen', f seen (x :: xs) = .ok seen' ↔
      ∃ k, R x k ∧ k ∉ seen ∧ f (seen ++ [k]) xs = .ok seen')
    {seen seen' : List K} {xs : List α} (hs : seen.Nodup) :
    f seen xs = .ok seen' ↔ ∃ ks, List.Forall₂ R xs ks ∧ seen' = seen ++ ks ∧ seen'.Nodup := by
  have happend : ∀ (l : List K) (k : K), (l ++ [k]).Nodup ↔ l.Nodup ∧ k ∉ l := by
    intro l k
    rw [← List.concat_eq_append, List.nodup_concat]
    exact and_comm
  induction xs generalizing seen with
  | nil =>
    rw [hnil]
    constructor
    · intro h
      obtain rfl := Except.ok.inj h
      exact ⟨[], .nil, by simp, hs⟩
    · rintro ⟨ks, hks, rfl, -⟩
      rw [List.forall₂_nil_left_iff] at hks
      rw [hks, List.append_nil]
  | cons x xs ih =>
    rw [hcons]
    constructor
    · rintro ⟨k, hR, hk, h⟩
      obtain ⟨ks, hks, rfl, hnodup⟩ := (ih ((happend _ _).mpr ⟨hs, hk⟩)).mp h
      exact ⟨k :: ks, .cons hR hks, by simp, hnodup⟩
    · rintro ⟨ks, hks, rfl, hnodup⟩
      obtain ⟨k, ks', hR, hks', rfl⟩ := List.forall₂_cons_left_iff.mp hks
      have hsplit : seen ++ k :: ks' = (seen ++ [k]) ++ ks' := by simp
      have hleft : (seen ++ [k]).Nodup := by
        rw [hsplit] at hnodup
        exact hnodup.of_append_left
      exact ⟨k, hR, ((happend _ _).mp hleft).2, (ih hleft).mpr ⟨ks', hks', hsplit, hnodup⟩⟩

theorem exists_of_mem_right {R : α → K → Prop} {xs : List α} {ks : List K} (h : List.Forall₂ R xs ks) {k : K}
    (hk : k ∈ ks) : ∃ x ∈ xs, R x k := by
  induction h with
  | nil => simp at hk
  | cons hR _ ih =>
    rcases List.mem_cons.mp hk with rfl | hk
    · exact ⟨_, by simp, hR⟩
    · obtain ⟨x, hx, hR⟩ := ih hk
      exact ⟨x, List.mem_cons_of_mem _ hx, hR⟩

/-- **As many different elements of a list as it has are all of it.** -/
theorem perm_of_count {l r : List K} (hl : l.Nodup) (hsub : l ⊆ r) (hlen : l.length = r.length) : l.Perm r :=
  (hl.subperm hsub).perm_of_length_le (Nat.le_of_eq hlen.symm)

theorem missing_of_perm [BEq K] [LawfulBEq K] {l r : List K} (h : l.Perm r) :
    (r.filter fun x => !l.contains x) = [] := by
  rw [List.filter_eq_nil_iff]
  intro x hx
  simpa using h.mem_iff.mpr hx

end Loop

variable {U : Unicode}

/-! ## The raw clauses -/

/-- The text after a match, up to the next clause keyword, as it stands. -/
def clauseText (U : Unicode) (startMatch : Match) : Text :=
  let remainder := startMatch.stop.after
  match search (isWord U) clauseBoundaryPattern remainder with
  | some boundaryMatch => remainder.take boundaryMatch.start.before.length
  | none => remainder

/-- The text after `TOP (n)`, up to the first `FROM`, as it stands. -/
def selectListText (U : Unicode) (topMatch : Match) : Text :=
  let remainder := topMatch.stop.after
  match search (isWord U) fromKeywordPattern remainder with
  | some fromMatch => remainder.take fromMatch.start.before.length
  | none => remainder

theorem extractClauseAfter_eq (t : Text) (r : Pattern) :
    extractClauseAfter U t r = (search (isWord U) r t).map fun m => strip (clauseText U m) := by
  unfold extractClauseAfter clauseText
  congr 1
  funext m
  dsimp only
  cases search (isWord U) clauseBoundaryPattern m.stop.after <;> rfl

theorem extractSelectList_eq (m : Match) : extractSelectList U m = strip (selectListText U m) := by
  unfold extractSelectList selectListText
  dsimp only
  cases search (isWord U) fromKeywordPattern m.stop.after <;> rfl

theorem inert_of_isSpace {c : Char} (h : isSpace c = true) : inert c = true := by
  by_contra hc
  simp only [inert, Bool.and_eq_true, bne_iff_ne, not_and_or, not_not] at hc
  rcases hc with (rfl | rfl) | rfl <;> exact absurd h (by decide)

/-- Whitespace before or after a text goes to the first or the last of its pieces. -/
theorem split_strip (t : Text) : splitTopLevelCommas (strip t) = splitTopLevelCommas t := by
  have hleft : ∀ (x y : Text), (∀ c ∈ x, isSpace c = true) → ∀ d,
      (splitLoop d x y).map strip = (splitLoop d [] y).map strip := by
    intro x y hx d
    have hgen : ∀ (y cur : Text) (d : Int), (splitLoop d (x ++ cur) y).map strip = (splitLoop d cur y).map strip := by
      intro y
      induction y with
      | nil => intro cur d; simp [splitLoop, strip_append_left hx]
      | cons c y ih =>
        intro cur d
        rw [splitLoop, splitLoop]
        split_ifs
        · rw [List.append_assoc, ih]
        · rw [List.append_assoc, ih]
        · rw [List.map_cons, List.map_cons, strip_append_left hx]
        · rw [List.append_assoc, ih]
    have h := hgen y [] d
    rwa [List.append_nil] at h
  have hright : ∀ (y x cur : Text) (d : Int), (∀ c ∈ x, isSpace c = true) →
      (splitLoop d cur (y ++ x)).map strip = (splitLoop d cur y).map strip := by
    intro y x
    induction y with
    | nil =>
      intro cur d hx
      have h := balanced_of_inert (fun c hc => inert_of_isSpace (hx c hc)) d d cur [] le_rfl
      rw [List.append_nil] at h
      rw [List.nil_append, h]
      simp [splitLoop, strip_append_right hx]
    | cons c y ih =>
      intro cur d hx
      rw [List.cons_append, splitLoop, splitLoop]
      split_ifs
      · rw [ih _ _ hx]
      · rw [ih _ _ hx]
      · rw [List.map_cons, List.map_cons, ih _ _ hx]
      · rw [ih _ _ hx]
  obtain ⟨g, k, ht, hg, hk⟩ := strip_split t
  rw [splitTopLevelCommas, splitTopLevelCommas]
  conv_rhs => rw [ht, balanced_of_inert (fun c hc => inert_of_isSpace (hg c hc)) 0 0 [] _ le_rfl, List.nil_append,
    hleft _ _ hg, hright _ _ _ _ hk]

/-! ## Group keys -/

/-- The item is a column of the product table that groups may be keyed by. -/
def GroupKey (U : Unicode) (d : AliasMap) (item column : Text) : Prop :=
  ∃ m, matchStart (isWord U) normalizedAliasColumnPattern (normalizePredicate U item) = some m ∧
    d.lookup ((m.group 1).getD []) = some tblProduct ∧ (m.group 2).getD [] = column ∧
    column ∈ requiredGroupByColumns

theorem checkGroupKeys_ok {d : AliasMap} {seen seen' items : List Text} (hs : seen.Nodup) :
    checkGroupKeys U d seen items = .ok seen' ↔
      ∃ columns, List.Forall₂ (GroupKey U d) items columns ∧ seen' = seen ++ columns ∧ seen'.Nodup := by
  refine seen_loop (fun seen => by rw [checkGroupKeys]) (fun seen item rest seen' => ?_) hs
  rw [checkGroupKeys]
  cases hm : matchStart (isWord U) normalizedAliasColumnPattern (normalizePredicate U item) with
  | none => simp [GroupKey, hm]
  | some m =>
    simp only [GroupKey, hm, Option.some.injEq, require, raiseUnless_bind, decide_eq_true_eq, Bool.not_eq_true',
      List.contains_eq_mem, decide_eq_false_iff_not]
    constructor
    · rintro ⟨h1, h2, h3, h⟩
      exact ⟨_, ⟨m, rfl, h1, rfl, h2⟩, h3, h⟩
    · rintro ⟨k, ⟨_, rfl, h1, rfl, h2⟩, h3, h⟩
      exact ⟨h1, h2, h3, h⟩

theorem newline_notMem_normalize (hU : SolidUpper U) (t : Text) : '\n' ∉ normalizePredicate U t := by
  intro hm
  obtain ⟨c, hc, hd⟩ := List.mem_flatMap.mp hm
  have hspace : isSpace c = false := by simpa using (List.mem_filter.mp hc).2
  exact absurd (hU c hspace _ hd) (by decide)

theorem mem_of_lookup {d : AliasMap} {a b : Text} (h : d.lookup a = some b) : (a, b) ∈ d := by
  obtain ⟨l₁, l₂, rfl, -⟩ := List.lookup_eq_some_iff.mp h
  simp

theorem lookup_of_mem {d : AliasMap} (hd : (d.map Prod.fst).Nodup) {e : Text × Text} (he : e ∈ d) :
    d.lookup e.1 = some e.2 := by
  induction d with
  | nil => simp at he
  | cons x d ih =>
    rw [List.map_cons, List.nodup_cons] at hd
    rcases List.mem_cons.mp he with rfl | he
    · simp [List.lookup]
    · have hne : e.1 ≠ x.1 := fun h => hd.1 (h ▸ List.mem_map_of_mem he)
      rw [List.lookup_cons, beq_eq_false_iff_ne.mpr hne]
      exact ih hd.2 he

/-- A group key is its column under the alias of the product table. -/
theorem GroupKey.normalized_of {d : AliasMap} (hd : Distinct d) {p : Text} (hp : (p, tblProduct) ∈ d)
    {item column : Text} (hn : '\n' ∉ normalizePredicate U item) (h : GroupKey U d item column) :
    normalizePredicate U item = dot p column := by
  obtain ⟨m, hm, halias, hcolumn, -⟩ := h
  obtain ⟨a, b, hdot, -, -, hgroups⟩ := aliasColumn_sound hn hm
  have h1 : m.group 1 = some a := by rw [Match.group, hgroups]; rfl
  have h2 : m.group 2 = some b := by rw [Match.group, hgroups]; rfl
  rw [h1, Option.getD_some] at halias
  rw [h2, Option.getD_some] at hcolumn
  have heq : (a, tblProduct) = (p, tblProduct) := List.inj_on_of_nodup_map hd.2 (mem_of_lookup halias) hp rfl
  rw [hdot, (Prod.mk.inj heq).1, hcolumn]

theorem keys_normalized_of {d : AliasMap} (hd : Distinct d) {p : Text} (hp : (p, tblProduct) ∈ d)
    {items columns : List Text} (hn : ∀ item ∈ items, '\n' ∉ normalizePredicate U item)
    (h : List.Forall₂ (GroupKey U d) items columns) : items.map (normalizePredicate U) = columns.map (dot p) := by
  induction h with
  | nil => rfl
  | cons hkey _ ih =>
    rw [List.map_cons, List.map_cons, ih fun item hitem => hn item (List.mem_cons_of_mem _ hitem),
      hkey.normalized_of hd hp (hn _ (by simp))]

theorem keys_normalized (hU : SolidUpper U) {d : AliasMap} (hd : Distinct d) {p : Text} (hp : (p, tblProduct) ∈ d)
    {items columns : List Text} (h : List.Forall₂ (GroupKey U d) items columns) :
    items.map (normalizePredicate U) = columns.map (dot p) :=
  keys_normalized_of hd hp (fun item _ => newline_notMem_normalize hU item) h

theorem columns_perm {d : AliasMap} {seen items : List Text} (hlen : items.length = requiredGroupByColumns.length)
    (h : checkGroupKeys U d [] items = .ok seen) :
    List.Forall₂ (GroupKey U d) items seen ∧ seen.Perm requiredGroupByColumns := by
  obtain ⟨columns, hall, rfl, hnodup⟩ := (checkGroupKeys_ok List.nodup_nil).mp h
  refine ⟨hall, perm_of_count hnodup (fun c hc => ?_) (hall.length_eq.symm.trans hlen)⟩
  obtain ⟨item, -, m, -, -, -, hc⟩ := exists_of_mem_right hall hc
  exact hc

/-! ## Outputs -/

/-- What the pattern reads off an item: the output alias, and the expression bound to it. -/
def boundItem (U : Unicode) (item : Text) : Option (Text × Text) :=
  (matchStart (isWord U) selectItemPattern item).map fun m =>
    (upper U (stripBrackets ((m.group 2).getD [])), normalizePredicate U ((m.group 1).getD []))

/-- The item binds an alias to the expression that is expected of it. -/
def Output (U : Unicode) (expected : List (Text × Text)) (item aliasKey : Text) : Prop :=
  ∃ expr, boundItem U item = some (aliasKey, expr) ∧ expected.lookup aliasKey = some expr

theorem checkSelectItems_ok {expected : List (Text × Text)} {seen seen' items : List Text} (hs : seen.Nodup) :
    checkSelectItems U expected seen items = .ok seen' ↔
      ∃ aliases, List.Forall₂ (Output U expected) items aliases ∧ seen' = seen ++ aliases ∧ seen'.Nodup := by
  refine seen_loop (fun seen => by rw [checkSelectItems]) (fun seen item rest seen' => ?_) hs
  rw [checkSelectItems]
  cases hm : matchStart (isWord U) selectItemPattern item with
  | none => simp [Output, boundItem, hm]
  | some m =>
    have hbound : boundItem U item = some (upper U (stripBrackets ((m.group 2).getD [])),
        normalizePredicate U ((m.group 1).getD [])) := by
      rw [boundItem, hm]
      rfl
    dsimp only
    generalize normalizePredicate U ((m.group 1).getD []) = expr at hbound
    generalize upper U (stripBrackets ((m.group 2).getD [])) = aliasKey at hbound
    simp only [Output, hbound, Option.some.injEq, Prod.mk.injEq]
    cases hl : expected.lookup aliasKey with
    | none =>
      refine iff_of_false (by simp) ?_
      rintro ⟨_, ⟨_, ⟨rfl, rfl⟩, h⟩, -⟩
      simp [hl] at h
    | some expectedExpr =>
      simp only [require, raiseUnless_bind, decide_eq_true_eq, Bool.not_eq_true', List.contains_eq_mem,
        decide_eq_false_iff_not]
      constructor
      · rintro ⟨h1, rfl, h⟩
        exact ⟨_, ⟨_, ⟨rfl, rfl⟩, hl⟩, h1, h⟩
      · rintro ⟨_, ⟨_, ⟨rfl, rfl⟩, he⟩, h1, h⟩
        exact ⟨h1, Option.some.inj (he.symm.trans hl), h⟩

/-- The aliases that the loop took are those that are expected, and with their expressions the whole list. -/
theorem outputs_perm {expected : List (Text × Text)} (hexp : (expected.map Prod.fst).Nodup) {seen items : List Text}
    (hlen : items.length = expected.length) (h : checkSelectItems U expected [] items = .ok seen) :
    (items.map (boundItem U)).Perm (expected.map some) ∧ seen.Perm (expected.map Prod.fst) := by
  obtain ⟨aliases, hall, hseen, hnodup⟩ := (checkSelectItems_ok List.nodup_nil).mp h
  rw [List.nil_append] at hseen
  subst hseen
  have hperm : seen.Perm (expected.map Prod.fst) := by
    refine perm_of_count hnodup (fun a ha => ?_) (by rw [← hall.length_eq, hlen, List.length_map])
    obtain ⟨item, -, expr, -, hlookup⟩ := exists_of_mem_right hall ha
    exact List.mem_map.mpr ⟨_, mem_of_lookup hlookup, rfl⟩
  refine ⟨?_, hperm⟩
  -- the pair of each item is the one that the dictionary has under the alias
  have hpair : items.map (boundItem U) = seen.map fun a => (expected.lookup a).map (a, ·) := by
    clear hperm hnodup h hlen
    induction hall with
    | nil => rfl
    | cons hR _ ih =>
      obtain ⟨expr, hbound, hlookup⟩ := hR
      rw [List.map_cons, List.map_cons, ih, hbound, hlookup, Option.map_some]
  have hdict : (expected.map Prod.fst).map (fun a => (expected.lookup a).map (a, ·)) = expected.map some := by
    rw [List.map_map]
    refine List.map_congr_left fun e he => ?_
    have hlookup : expected.lookup e.1 = some e.2 := lookup_of_mem hexp he
    rw [Function.comp_apply, hlookup, Option.map_some]
  rw [hpair, ← hdict]
  exact hperm.map _

/-! ## The lists of an accepted text -/

theorem checkTop_ok {t : Text} {m : Match} (h : checkTop U t = .ok m) :
    matchStart (isWord U) (topPattern U) t = some m ∧
      ∃ n, intOf U ((m.group 1).getD []) = some n ∧ 1 ≤ n ∧ n ≤ maximumReturnedRows := by
  unfold checkTop at h
  split at h
  · simp at h
  · rename_i m' hm
    split at h
    · simp at h
    · rename_i n hn
      simp only [require, raiseUnless_bind, Bool.and_eq_true, decide_eq_true_eq] at h
      obtain ⟨hrange, -, h⟩ := h
      obtain rfl : m' = m := by simpa [pure, Except.pure] using h
      exact ⟨hm, n, hn, hrange⟩

theorem checkGroupBy_ok {d : AliasMap} {t : Text} {u : Unit} (h : checkGroupBy U d t = .ok u) :
    ∃ m seen, search (isWord U) groupByKeywordPattern t = some m ∧
      (splitTopLevelCommas (clauseText U m)).length = requiredGroupByColumns.length ∧
      checkGroupKeys U d [] (splitTopLevelCommas (clauseText U m)) = .ok seen := by
  simp only [checkGroupBy, require, bind_eq_ok, raiseUnless_eq_ok, decide_eq_true_eq, extractClauseAfter_eq] at h
  obtain ⟨-, -, -, -, -, hlen, seen, hseen, -⟩ := h
  cases hm : search (isWord U) groupByKeywordPattern t with
  | none =>
    rw [hm, Option.map_none, Option.getD_none] at hlen
    exact absurd hlen (by decide)
  | some m =>
    rw [hm, Option.map_some, Option.getD_some, split_strip] at hlen hseen
    exact ⟨m, seen, rfl, hlen, hseen⟩

theorem checkSelectList_ok {p i : Text} {m : Match} {u : Unit} (h : checkSelectList U p i m = .ok u) :
    (splitTopLevelCommas (selectListText U m)).length = (expectedExprByAlias p i).length ∧
      ∃ seen, checkSelectItems U (expectedExprByAlias p i) [] (splitTopLevelCommas (selectListText U m)) =
        .ok seen := by
  simp only [checkSelectList, require, bind_eq_ok, raiseUnless_eq_ok, decide_eq_true_eq, extractSelectList_eq,
    split_strip] at h
  obtain ⟨-, hlen, seen, hseen, -⟩ := h
  exact ⟨hlen, seen, hseen⟩

theorem expectedKeys_nodup (p i : Text) : ((expectedExprByAlias p i).map Prod.fst).Nodup :=
  (by decide : [colProductId, colName, "CURRENTINVENTORY".toList, colSafetyStockLevel].Nodup)

/-- What is exact in an accepted text. -/
structure ListsExact (U : Unicode) (t : Text) (topMatch groupBy : Match) (n : Nat) (p i : Text) : Prop where
  top : matchStart (isWord U) (topPattern U) t = some topMatch
  count : intOf U ((topMatch.group 1).getD []) = some n
  pos : 1 ≤ n
  le : n ≤ 100
  aliases : p ≠ i
  refs : ((tableRefs U t).map (entry U)).Perm [(p, tblProduct), (i, tblProductInventory)]
  outputs : ((splitTopLevelCommas (selectListText U topMatch)).map (boundItem U)).Perm
    ((expectedExprByAlias p i).map some)
  group : search (isWord U) groupByKeywordPattern t = some groupBy
  keys : ((splitTopLevelCommas (clauseText U groupBy)).map (normalizePredicate U)).Perm
    (requiredGroupByColumns.map (dot p))

theorem lists_of_accepted (hU : SolidUpper U) {sql t : Text} {context : MetadataContext}
    (h : validate U sql context = .ok t) : ∃ topMatch groupBy n p i, ListsExact U t topMatch groupBy n p i := by
  obtain ⟨-, topMatch, d, outs, p, i, hp⟩ := validate_ok_iff.mp h
  obtain ⟨m₁, m₂, href, hd, hdist, -, -, hproduct, hinventory⟩ := hp.pair
  obtain ⟨htop, n, hn, hpos, hle⟩ := checkTop_ok hp.top
  obtain ⟨m, seen, hm, hlen, hseen⟩ := checkGroupBy_ok hp.groupBy
  obtain ⟨hkeys, hperm⟩ := columns_perm hlen hseen
  obtain ⟨hlen', seen', hseen'⟩ := checkSelectList_ok hp.selectList
  refine ⟨topMatch, m, n, p, i, htop, hn, hpos, hle, ?_, ?_,
    (outputs_perm (expectedKeys_nodup p i) hlen' hseen').1, hm, ?_⟩
  · intro he
    have h := List.inj_on_of_nodup_map hdist.1 hproduct hinventory he
    exact absurd (Prod.mk.inj h).2 (by decide)
  · have hentries : (tableRefs U t).map (entry U) = d := by rw [href, hd]; rfl
    have hnodup : [(p, tblProduct), (i, tblProductInventory)].Nodup := by
      refine List.nodup_cons.mpr ⟨fun h => ?_, List.nodup_singleton _⟩
      exact absurd (Prod.mk.inj (List.mem_singleton.mp h)).2 (by decide)
    rw [hentries]
    refine (perm_of_count hnodup (fun e he => ?_) (by rw [hd]; rfl)).symm
    simp only [List.mem_cons, List.not_mem_nil, or_false] at he
    rcases he with rfl | rfl
    · exact hproduct
    · exact hinventory
  · rw [keys_normalized hU hdist hproduct hkeys]
    exact hperm.map _

/-- **Counting makes the lists exact**: the references, the outputs and the group keys of an accepted text are the
approved ones and no others; and past the two loops nothing is ever missing. -/
theorem lists_exact (hU : SolidUpper U) :
    (∀ (sql t : Text) (context : MetadataContext), validate U sql context = .ok t →
      ∃ topMatch groupBy n p i, ListsExact U t topMatch groupBy n p i) ∧
    (∀ (d : AliasMap) (items seen : List Text), items.length = requiredGroupByColumns.length →
      checkGroupKeys U d [] items = .ok seen → (requiredGroupByColumns.filter fun c => !seen.contains c) = []) ∧
    ∀ (p i : Text) (items seen : List Text), items.length = (expectedExprByAlias p i).length →
      checkSelectItems U (expectedExprByAlias p i) [] items = .ok seen →
      (((expectedExprByAlias p i).map Prod.fst).filter fun a => !seen.contains a) = [] := by
  refine ⟨fun sql t context h => lists_of_accepted hU h, fun d items seen hlen h => ?_, fun p i items seen hlen h => ?_⟩
  · exact missing_of_perm (columns_perm hlen h).2
  · exact missing_of_perm (outputs_perm (expectedKeys_nodup p i) hlen h).2

theorem lists_exact_oneJoin : ∃ topMatch groupBy n p i, ListsExact .small oneJoin topMatch groupBy n p i :=
  (lists_exact solidUpper_small).1 oneJoin oneJoin {} validate_oneJoin

end DataAgent.Guardrail
