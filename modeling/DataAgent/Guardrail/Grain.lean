import DataAgent.Guardrail.Counting
import DataAgent.Guardrail.SortKey

/-!
# Grain, filter and order as the server reads them

* `GrainClauses` : a list of group keys, a comparison of an aggregate with a column, a first sort key;
* `GrainClause` : a text has such clauses, once each, after a FROM clause that is a join; `Approved` : the right ones;
* `GrainVisible` : the tokens up to the first `ASC` are plain and the patterns find the keywords;
* **`grain_sound_iff`** : the clauses of an accepted text are the approved ones exactly if the first sort key has no
  qualifier or that of the product table.
-/

namespace DataAgent.Guardrail
open Python Regex Pattern
open Agent (MetadataContext)
open TSql (Alphabet Token Lexeme Plain lex textOf reading offsets plainPart isReserved kwLexeme)

variable {U : Unicode} {A : Alphabet}

/-! ## The clauses -/

/-- `GROUP BY a.k, … HAVING f(b.c) < d.e ORDER BY [q.]k`, in upper case. -/
structure GrainClauses where
  keys : List (Text × Text)
  function : Text
  argument : Text × Text
  bound : Text × Text
  qualifier : Option Text
  sortKey : Text

namespace GrainClauses

def grouping (g : GrainClauses) : List Lexeme := [.symbol ','].intercalate (g.keys.map columnLexemes)

def predicate (g : GrainClauses) : List Lexeme :=
  .name g.function :: .symbol '(' :: (columnLexemes g.argument ++ .symbol ')' :: .symbol '<' :: columnLexemes g.bound)

def firstKey (g : GrainClauses) : List Lexeme := sortKeyLexemes g.qualifier g.sortKey

def lexemes (g : GrainClauses) : List Lexeme :=
  kwLexeme "GROUP" :: kwLexeme "BY" :: (g.grouping ++ kwLexeme "HAVING" :: (g.predicate ++ kwLexeme "ORDER" ::
    kwLexeme "BY" :: g.firstKey))

/-- The grain and the filter of the demo scope, and a first sort key with the name of the approved column. -/
structure Checked (g : GrainClauses) (p i : Text) : Prop where
  keys : g.keys.Perm (requiredGroupByColumns.map fun c => (p, c))
  function : g.function = "SUM".toList
  argument : g.argument = (i, colQuantity)
  bound : g.bound = (p, colSafetyStockLevel)
  sortKey : g.sortKey = colProductId

/-- The grain, the filter and the order of the demo scope: the sort key is the output column or that of the product
table. -/
structure Approved (g : GrainClauses) (p i : Text) : Prop extends g.Checked p i where
  qualifier : g.qualifier = none ∨ g.qualifier = some p

end GrainClauses

def grainKeywords : List String := ["GROUP", "HAVING", "ORDER"]

/-- After the FROM clause `c` the text has the clauses `g`, once each, and `rest` after the first sort key. -/
structure GrainClause (ts : List Token) (c : JoinClause) (g : GrainClauses) (rest : List Lexeme) : Prop where
  join : FromClause ts
  tables : reading (fromClause ts) = c.lexemes
  clauses : reading (afterFrom ts) = g.lexemes ++ rest
  outside : ∀ s ∈ grainKeywords, kwLexeme s ∉ reading (beforeFrom ts) ∧ kwLexeme s ∉ rest
  ends : ∀ x ∈ rest.head?, x ∈ [kwLexeme "ASC", kwLexeme "DESC", .symbol ',']

/-- `p` is the alias of the product table, and `i` that of the inventory. -/
def JoinClause.Aliases (c : JoinClause) (p i : Text) : Prop :=
  ([c.left.table, c.right.table] = [tblProduct, tblProductInventory] ∧ p = c.left.tableAlias ∧
    i = c.right.tableAlias) ∨
  ([c.left.table, c.right.table] = [tblProductInventory, tblProduct] ∧ p = c.right.tableAlias ∧
    i = c.left.tableAlias)

/-- The clauses are the approved ones, and the first sort key is ascending. -/
def GrainSound (ts : List Token) : Prop :=
  ∃ c g rest, GrainClause ts c g rest ∧ ∃ p i, c.Aliases p i ∧ g.Approved p i ∧ rest.head? = some (kwLexeme "ASC")

/-! ## Keywords -/

theorem keyword_notMem_column (s : String) (c : Text × Text) : kwLexeme s ∉ columnLexemes c := by
  simp [columnLexemes, kwLexeme]

theorem keyword_notMem_grouping (s : String) (g : GrainClauses) : kwLexeme s ∉ g.grouping := by
  intro h
  rcases mem_intercalate h with h | ⟨l, hl, h⟩
  · simp [kwLexeme] at h
  · obtain ⟨c, -, rfl⟩ := List.mem_map.mp hl
    exact keyword_notMem_column s c h

theorem keyword_notMem_predicate (s : String) (g : GrainClauses) : kwLexeme s ∉ g.predicate := by
  simp [GrainClauses.predicate, columnLexemes, kwLexeme]

theorem keyword_notMem_firstKey (s : String) (g : GrainClauses) : kwLexeme s ∉ g.firstKey := by
  cases h : g.qualifier <;> simp [GrainClauses.firstKey, sortKeyLexemes, h, kwLexeme]

def isGrainKeyword (x : Lexeme) : Bool := grainKeywords.any fun s => x == kwLexeme s

theorem filter_keywords {l : List Lexeme} (h : ∀ s ∈ grainKeywords, kwLexeme s ∉ l) :
    l.filter isGrainKeyword = [] := by
  rw [List.filter_eq_nil_iff]
  intro x hx hk
  obtain ⟨s, hs, he⟩ := List.any_eq_true.mp hk
  obtain rfl : x = kwLexeme s := by simpa using he
  exact h s hs hx

/-- **In all of the text there is one `GROUP`, one `HAVING` and one `ORDER`.** -/
theorem GrainClause.keywords {ts : List Token} {c : JoinClause} {g : GrainClauses} {rest : List Lexeme}
    (h : GrainClause ts c g rest) :
    (reading ts).filter isGrainKeyword = [kwLexeme "GROUP", kwLexeme "HAVING", kwLexeme "ORDER"] := by
  have hfrom : ∀ s ∈ grainKeywords, kwLexeme s ∉ c.lexemes := by
    intro s hs
    have hne : ∀ k ∈ ["FROM", "JOIN", "ON", "INNER", "LEFT", "AS"], kwLexeme s ≠ kwLexeme k := by
      revert s
      decide
    have href : ∀ r : Reference, kwLexeme s ∉ r.lexemes := by
      intro r
      cases hr : r.schema <;> simp [Reference.lexemes, hr, hne] <;> simp [kwLexeme]
    have hkind : kwLexeme s ∉ c.kind.lexemes := by
      cases c.kind <;> simp [JoinKind.lexemes, hne]
    simp [JoinClause.lexemes, JoinClause.predicate, keyword_notMem_column, href, hkind, hne]
    simp [kwLexeme]
  have hby : isGrainKeyword (kwLexeme "BY") = false := by decide
  have hg : isGrainKeyword (kwLexeme "GROUP") = true := by decide
  have hh : isGrainKeyword (kwLexeme "HAVING") = true := by decide
  have ho : isGrainKeyword (kwLexeme "ORDER") = true := by decide
  rw [split_from ts, TSql.reading_append, TSql.reading_append, h.tables, h.clauses, List.filter_append,
    List.filter_append, List.filter_append, filter_keywords fun s hs => (h.outside s hs).1, filter_keywords hfrom,
    filter_keywords fun s hs => (h.outside s hs).2]
  simp [GrainClauses.lexemes, hby, hg, hh, ho, filter_keywords fun s _ => keyword_notMem_grouping s g,
    filter_keywords fun s _ => keyword_notMem_predicate s g, filter_keywords fun s _ => keyword_notMem_firstKey s g]

/-! ## What the patterns see -/

/-- The first match of the pattern is at a token `s` of `ts`. -/
def FirstAt (U : Unicode) (t : Text) (r : Pattern) (s : String) (pre ts : List Token) : Prop :=
  ∃ o ∈ offsets (reads s) (textOf pre).length ts, (search (isWord U) r t).map (·.span.1) = some o

/-- The tokens are plain up to the first `ASC`. -/
def PlainUpTo (ts : List Token) : Prop := ∀ j ∈ ts.takeWhile (fun k => !reads "ASC" k), Plain j

/-- The clauses are plain up to an `ASC`, and the patterns find their keywords. -/
structure GrainVisible (U : Unicode) (t : Text) (pre post : List Token) : Prop where
  plain : PlainUpTo post
  ascending : kwLexeme "ASC" ∈ reading post
  group : FirstAt U t groupByKeywordPattern "GROUP" pre post
  having : FirstAt U t havingKeywordPattern "HAVING" pre post
  order : FirstAt U t orderByFirstKeyPattern "ORDER" pre post

/-- A match at the offset of a token is at the token. -/
theorem matchAt_of_offset {t : Text} {x ys : List Token} (hl : lex A t = x ++ ys) {r : Pattern} {m : Match} {u v : Text}
    (ht : t = u ++ v) (hstart : m.start = ⟨u.reverse, v⟩) (hm : matchAt (isWord U) r ⟨u.reverse, v⟩ = some m)
    (hoff : m.span.1 = (textOf x).length) : matchAt (isWord U) r ⟨(textOf x).reverse, textOf ys⟩ = some m := by
  have htext : textOf x ++ textOf ys = u ++ v := by
    rw [← TSql.textOf_append, ← hl, TSql.textOf_lex, ht]
  have hlen : (textOf x).length = u.length := by
    rw [← hoff, Match.span, hstart, List.length_reverse]
  obtain ⟨rfl, rfl⟩ := List.append_inj htext hlen
  exact hm

theorem FirstAt.token {t : Text} {r : Pattern} {s : String} {pre ts : List Token} (h : FirstAt U t r s pre ts)
    (hl : lex A t = pre ++ ts) : ∃ m x k ys, search (isWord U) r t = some m ∧ ts = x ++ k :: ys ∧
      k.lexeme = some (kwLexeme s) ∧ lex A t = (pre ++ x) ++ k :: ys ∧
      matchAt (isWord U) r ⟨(textOf (pre ++ x)).reverse, textOf (k :: ys)⟩ = some m := by
  obtain ⟨o, ho, hs⟩ := h
  obtain ⟨x, k, ys, rfl, hk, rfl⟩ := TSql.mem_offsets.mp ho
  obtain ⟨m, hm, hspan⟩ := Option.map_eq_some_iff.mp hs
  obtain ⟨u, v, ht, hstart, hmatch⟩ := search_sound hm
  have hl' : lex A t = (pre ++ x) ++ k :: ys := by rw [hl]; simp
  exact ⟨m, x, k, ys, hm, rfl, by simpa [reads] using hk, hl',
    matchAt_of_offset hl' ht hstart hmatch (by simpa [TSql.textOf_append] using hspan)⟩

theorem PlainUpTo.append {x ys : List Token} (h : PlainUpTo (x ++ ys)) (hx : kwLexeme "ASC" ∉ reading x) :
    (∀ j ∈ x, Plain j) ∧ PlainUpTo ys := by
  have hreads : ∀ k ∈ x, (!reads "ASC" k) = true := by
    intro k hk
    rw [Bool.not_eq_true', ← Bool.not_eq_true, reads, beq_iff_eq]
    exact fun he => hx (List.mem_filterMap.mpr ⟨k, hk, he⟩)
  rw [PlainUpTo, List.takeWhile_append_of_pos hreads] at h
  exact ⟨fun j hj => h j (List.mem_append_left _ hj), fun j hj => h j (List.mem_append_right _ hj)⟩

/-- The first token that says something, and the blanks before it. -/
theorem PlainUpTo.head {ts : List Token} (h : PlainUpTo ts) {x : Lexeme} {l : List Lexeme} (hr : reading ts = x :: l) :
    ∃ bs k us, ts = bs ++ k :: us ∧ (∀ j ∈ bs, Plain j ∧ j.lexeme = none) ∧ Plain k ∧ k.lexeme = some x ∧
      reading us = l ∧ (x ≠ kwLexeme "ASC" → PlainUpTo us) := by
  obtain ⟨bs, k, us, rfl, hbs, hk, hus⟩ := reading_eq_cons hr
  have hnil : reading bs = [] := List.filterMap_eq_nil_iff.mpr hbs
  obtain ⟨hbsp, hrest⟩ := h.append (by rw [hnil]; exact List.not_mem_nil)
  have hread : reading [k] = [x] := by
    rw [TSql.reading_cons, hk]
    rfl
  have hsplit : PlainUpTo ([k] ++ us) := hrest
  by_cases hx : x = kwLexeme "ASC"
  · exact ⟨bs, k, us, rfl, fun j hj => ⟨hbsp j hj, hbs j hj⟩, plain_of_keyword (hk.trans (by rw [hx]; rfl)), hk, hus,
      fun hne => absurd hx hne⟩
  · obtain ⟨hkp, hus'⟩ := hsplit.append (by rw [hread, List.mem_singleton]; exact Ne.symm hx)
    exact ⟨bs, k, us, rfl, fun j hj => ⟨hbsp j hj, hbs j hj⟩, hkp k (by simp), hk, hus, fun _ => hus'⟩

theorem PlainUpTo.first {ts : List Token} (h : PlainUpTo ts) (hr : reading ts ≠ []) :
    ∃ j vs, ts = j :: vs ∧ Plain j := by
  obtain ⟨x, l, hxl⟩ := List.exists_cons_of_ne_nil hr
  obtain ⟨bs, k, us, rfl, hbs, hk, -⟩ := h.head hxl
  cases bs with
  | nil => exact ⟨k, us, rfl, hk⟩
  | cons j bs => exact ⟨j, _, rfl, (hbs j (by simp)).1⟩

/-- The plain tokens up to a lexeme, and the one after it if it is no `ASC`. -/
theorem PlainUpTo.upTo {ys : List Token} (h : PlainUpTo ys) {a l : List Lexeme} {r : Lexeme}
    (hr : reading ys = a ++ r :: l) (h1 : kwLexeme "ASC" ∉ a) (hne : r ≠ kwLexeme "ASC" → l ≠ []) :
    ∃ zs us l', ys = zs ++ us ∧ (∀ j ∈ zs, Plain j) ∧ reading zs = a ++ r :: l' ∧
      (r ≠ kwLexeme "ASC" → l' ≠ []) := by
  obtain ⟨y, us, rfl, rfl, hus⟩ : ∃ y us, ys = y ++ us ∧ reading y = a ∧ reading us = r :: l :=
    List.filterMap_eq_append_iff.mp hr
  obtain ⟨hyp, husp⟩ := h.append h1
  have hone : ∀ {bs : List Token} {k : Token} {x : Lexeme}, (∀ j ∈ bs, Plain j ∧ j.lexeme = none) →
      k.lexeme = some x → reading (bs ++ [k]) = [x] := by
    intro bs k x hbs hk
    have hnil : reading bs = [] := List.filterMap_eq_nil_iff.mpr fun j hj => (hbs j hj).2
    rw [TSql.reading_append, hnil, TSql.reading_cons, hk]
    rfl
  obtain ⟨bs, k, vs, rfl, hbs, hk, hkr, rfl, hvp⟩ := husp.head hus
  by_cases hasc : r = kwLexeme "ASC"
  · refine ⟨y ++ (bs ++ [k]), vs, [], by simp, fun j hj => ?_, by rw [TSql.reading_append, hone hbs hkr],
      fun hne => absurd hasc hne⟩
    simp only [List.mem_append, List.mem_singleton] at hj
    rcases hj with hj | hj | rfl
    · exact hyp j hj
    · exact (hbs j hj).1
    · exact hk
  · obtain ⟨e, l, hel⟩ := List.exists_cons_of_ne_nil (hne hasc)
    obtain ⟨bs', k', ws, rfl, hbs', hk', hke, -⟩ := (hvp hasc).head hel
    refine ⟨y ++ ((bs ++ [k]) ++ (bs' ++ [k'])), ws, [e], by simp, fun j hj => ?_, ?_, by simp⟩
    · simp only [List.mem_append, List.mem_singleton] at hj
      rcases hj with hj | (hj | rfl) | hj | rfl
      · exact hyp j hj
      · exact (hbs j hj).1
      · exact hk
      · exact (hbs' j hj).1
      · exact hk'
    · rw [TSql.reading_append, TSql.reading_append, hone hbs hkr, hone hbs' hke]
      rfl

/-- The clause that a check compares, from a match of its keyword up to the next one. -/
theorem clause_text {t : Text} {x zs : List Token} {l l' : List Lexeme} {s : String} {r : Pattern} {m : Match}
    (hm : search (isWord U) r t = some m) (hstop : m.stop.after = textOf zs) (hl : lex A t = x ++ zs)
    (hp : PlainUpTo zs) (hr : reading zs = l ++ kwLexeme s :: l') (hs : s ∈ clauseBoundaryKeywords)
    (hfree : ∀ s, kwLexeme s ∉ l) (hne : l' ≠ []) :
    ∃ y, reading y = l ∧ (∀ j ∈ y, Plain j) ∧ extractClauseAfter U t r = some (strip (textOf y)) := by
  obtain ⟨y, us, rfl, hy, hus⟩ : ∃ y us, zs = y ++ us ∧ reading y = l ∧ reading us = kwLexeme s :: l' :=
    List.filterMap_eq_append_iff.mp hr
  have hasc : ∀ s ∈ clauseBoundaryKeywords, kwLexeme s ≠ kwLexeme "ASC" := by decide
  obtain ⟨hyp, husp⟩ := hp.append (by rw [hy]; exact hfree _)
  obtain ⟨bs, k, vs, rfl, hbs, hk, hks, rfl, hvp⟩ := husp.head hus
  obtain ⟨g, rfl, hres, hg⟩ := plain_keyword hk hks
  obtain ⟨j, ws, rfl, hj⟩ := (hvp (hasc s hs)).first hne
  have hnil : reading bs = [] := List.filterMap_eq_nil_iff.mpr fun j hj => (hbs j hj).2
  have hall : ∀ j ∈ y ++ bs, Plain j := fun j hj => (List.mem_append.mp hj).elim (hyp j) fun h => (hbs j h).1
  have hread : reading (y ++ bs) = l := by rw [TSql.reading_append, hnil, List.append_nil, hy]
  refine ⟨y ++ bs, hread, hall, ?_⟩
  exact extractClauseAfter_tokens (x := x) (z := ws) hm (by rw [hstop]; simp) (by rw [hl]; simp) hall
    (fun s _ => by rw [hread]; exact hfree s) hres ⟨s, hs, hg⟩ hj

/-! ## Columns -/

theorem spell_grouping (g : GrainClauses) :
    g.grouping.flatMap spell = [','].intercalate (g.keys.map fun k => dot k.1 k.2) := by
  rw [GrainClauses.grouping, flatMap_intercalate, List.map_map]
  congr 1
  simp [columnLexemes, spell, dot, Function.comp_def]

theorem not_mem_of_plain {x : Text} {s : Char} (hx : ∀ y ∈ x, plainPart y = true) (hs : plainPart s = false) :
    s ∉ x := by
  intro hm
  rw [hx s hm] at hs
  exact absurd hs (by decide)

/-- `a.b` has one reading. -/
theorem dot_plain_inj {a b c d : Text} (ha : ∀ x ∈ a, plainPart x = true) (hc : ∀ x ∈ c, plainPart x = true)
    (h : dot a b = dot c d) : a = c ∧ b = d := by
  have hdot : plainPart '.' = false := by decide
  refine append_cons_inj_first (not_mem_of_plain ha hdot) (not_mem_of_plain hc hdot) ?_
  simpa [dot] using h

/-- Both parts of a column are made of plain characters. -/
def PlainColumn (k : Text × Text) : Prop := (∀ x ∈ k.1, plainPart x = true) ∧ ∀ x ∈ k.2, plainPart x = true

theorem PlainColumn.of_mem {ts : List Token} (hp : ∀ j ∈ ts, Plain j) {k : Text × Text}
    (h : ∀ x ∈ columnLexemes k, x ∈ reading ts) : PlainColumn k :=
  ⟨name_part hp (h _ (by simp [columnLexemes])), name_part hp (h _ (by simp [columnLexemes]))⟩

theorem PlainColumn.inert {k : Text × Text} (h : PlainColumn k) :
    ∀ x ∈ dot k.1 k.2, inert x = true ∧ x ≠ '\n' := by
  have hplain : ∀ x, plainPart x = true → Guardrail.inert x = true ∧ x ≠ '\n' := by
    intro x hx
    have hne : ∀ c : Char, plainPart c = false → x ≠ c := by
      rintro c hc rfl
      rw [hx] at hc
      exact absurd hc (by decide)
    simp [Guardrail.inert, hne '(' (by decide), hne ')' (by decide), hne ',' (by decide), hne '\n' (by decide)]
  intro x hx
  simp only [dot, List.mem_append, List.mem_singleton] at hx
  rcases hx with (hx | rfl) | hx
  · exact hplain x (h.1 x hx)
  · decide
  · exact hplain x (h.2 x hx)

/-- A list of columns is split into them. -/
theorem split_columns {keys : List (Text × Text)} (hne : keys ≠ []) (h : ∀ k ∈ keys, PlainColumn k) :
    splitLoop 0 [] ([','].intercalate (keys.map fun k => dot k.1 k.2)) = keys.map fun k => dot k.1 k.2 := by
  have hbal : ∀ w ∈ keys.map fun k => dot k.1 k.2, Balanced 0 w := by
    intro w hw
    obtain ⟨k, hk, rfl⟩ := List.mem_map.mp hw
    exact balanced_of_inert (fun x hx => ((h k hk).inert x hx).1) 0
  obtain ⟨k, ks, rfl⟩ := List.exists_cons_of_ne_nil hne
  exact splitLoop_join hbal

/-- Columns of one table alias are read off their spelling. -/
theorem keys_of_dots {p : Text} (hp : ∀ x ∈ p, plainPart x = true) {keys : List (Text × Text)} {columns : List Text}
    (hk : ∀ k ∈ keys, PlainColumn k) (h : keys.map (fun k => dot k.1 k.2) = columns.map (dot p)) :
    keys = columns.map fun c => (p, c) := by
  induction keys generalizing columns with
  | nil =>
    rw [List.map_nil, List.nil_eq, List.map_eq_nil_iff] at h
    rw [h, List.map_nil]
  | cons k keys ih =>
    cases columns with
    | nil => simp at h
    | cons c columns =>
      rw [List.map_cons, List.map_cons, List.cons.injEq] at h
      obtain ⟨h1, h2⟩ := dot_plain_inj (hk k (by simp)).1 hp h.1
      rw [List.map_cons, ← ih (fun k hmem => hk k (List.mem_cons_of_mem _ hmem)) h.2, ← h1, ← h2]

/-! ## Soundness -/

/-- A keyword that a pattern finds first, and what the server reads after it. -/
theorem FirstAt.split {t : Text} {r : Pattern} {s : String} {pre post : List Token} {a b : List Lexeme}
    (h : FirstAt U t r s pre post) (hl : lex A t = pre ++ post) (hp : PlainUpTo post)
    (hread : reading post = a ++ kwLexeme s :: b) (h1 : kwLexeme s ∉ a) (h2 : kwLexeme s ∉ b)
    (hasc : kwLexeme "ASC" ∉ a ++ [kwLexeme s]) : ∃ m x w ys, search (isWord U) r t = some m ∧
      lex A t = x ++ .word w :: ys ∧ isReserved w = true ∧ PlainUpTo ys ∧ reading ys = b ∧
      matchAt (isWord U) r ⟨(textOf x).reverse, textOf (.word w :: ys)⟩ = some m := by
  obtain ⟨m, x, k, ys, hm, rfl, hk, hl', hmatch⟩ := h.token hl
  obtain ⟨hx, hys⟩ := reading_split hread hk h1 h2
  obtain ⟨w, rfl, hres, -⟩ := plain_keyword (plain_of_keyword hk) hk
  have hpost : PlainUpTo ((x ++ [.word w]) ++ ys) := by simpa using hp
  refine ⟨m, pre ++ x, w, ys, hm, hl', hres, (hpost.append ?_).2, hys, hmatch⟩
  rwa [TSql.reading_append, hx, TSql.reading_cons, hk]

/-- The group keys that the check compares are those that the server reads. -/
theorem group_keys {t p : Text} {d : AliasMap} {pre post : List Token} {g : GrainClauses} {rest : List Lexeme}
    {u : Unit} (hv : GrainVisible U t pre post) (hl : lex A t = pre ++ post) (hread : reading post = g.lexemes ++ rest)
    (hrest : kwLexeme "GROUP" ∉ rest) (hdist : Distinct d) (hp : (p, tblProduct) ∈ d)
    (hpart : ∀ x ∈ p, plainPart x = true) (h : checkGroupBy U d t = .ok u) :
    g.keys.Perm (requiredGroupByColumns.map fun c => (p, c)) := by
  obtain ⟨m, x, w, ys, hm, hl', hres, hys, hread', hmatch⟩ := hv.group.split hl hv.plain (a := [])
    (b := kwLexeme "BY" :: (g.grouping ++ kwLexeme "HAVING" :: (g.predicate ++ kwLexeme "ORDER" :: kwLexeme "BY" ::
      (g.firstKey ++ rest)))) (by rw [hread]; simp [GrainClauses.lexemes]) (by simp)
    (by simp [keyword_notMem_grouping, keyword_notMem_predicate, keyword_notMem_firstKey, kwLexeme_inj, hrest])
    (by simp [kwLexeme_inj])
  -- `BY`
  obtain ⟨bs, k, zs, rfl, hbs, hk, hkby, hread'', hzs⟩ := hys.head hread'
  have hzs := hzs (by simp [kwLexeme_inj])
  obtain ⟨v, rfl, hv', -⟩ := plain_keyword hk hkby
  obtain ⟨j, vs, rfl, hj⟩ := hzs.first (by rw [hread'']; simp)
  have hstop := stop_of_keywordBy (s := "GROUP") (by simp [patternKeywords, clauseBoundaryKeywords]) hl'
    (fun j hj => (hbs j hj).1) (fun j hj => (hbs j hj).2) hres hv' hj (by rwa [groupByKeywordPattern] at hmatch)
  obtain ⟨y, hy, hyp, hclause⟩ := clause_text (x := x ++ .word w :: (bs ++ [.word v])) hm hstop (by rw [hl']; simp) hzs
    hread'' (by simp [clauseBoundaryKeywords]) (fun s => keyword_notMem_grouping s g) (by simp [GrainClauses.predicate])
  obtain ⟨m', seen, hm', hlen, hseen⟩ := checkGroupBy_ok h
  obtain rfl : m = m' := Option.some.inj (hm.symm.trans hm')
  obtain ⟨hkeys, hperm⟩ := columns_perm hlen hseen
  have hascii := ascii_of_plain hyp
  -- the items that the check splits off
  rw [extractClauseAfter_eq, hm, Option.map_some, Option.some.injEq] at hclause
  have hitems : splitTopLevelCommas (clauseText U m) = splitTopLevelCommas (strip (textOf y)) := by
    rw [← split_strip, hclause]
  have hnormal := normalize_items (U := U) hascii
  rw [← hitems, normalize_textOf hyp, hy, spell_grouping] at hnormal
  have hcolumns : ∀ k ∈ g.keys, PlainColumn k := by
    intro k hk
    refine .of_mem hyp fun x hx => ?_
    rw [hy]
    exact mem_intercalate_of_mem (List.mem_map_of_mem hk) hx
  have hne : g.keys ≠ [] := by
    intro hnil
    rw [hnil] at hnormal
    have := congrArg List.length hnormal
    rw [List.length_map, hlen] at this
    exact absurd this (by simp [splitLoop, requiredGroupByColumns])
  rw [split_columns hne hcolumns] at hnormal
  have hdots := keys_normalized_of hdist hp (fun item hitem hnl => ?_) hkeys
  · rw [hnormal] at hdots
    rw [keys_of_dots hpart hcolumns hdots]
    exact hperm.map _
  · -- a spelled column has no newline
    obtain ⟨k, hk, he⟩ := List.mem_map.mp (hnormal ▸ List.mem_map_of_mem (f := normalizePredicate U) hitem)
    exact ((hcolumns k hk).inert '\n' (he ▸ hnl)).2 rfl

/-- The predicate that the check of the HAVING clause compares is the one that the server reads. -/
theorem having_predicate {t p i : Text} {pre post : List Token} {g : GrainClauses} {rest : List Lexeme} {u : Unit}
    (hv : GrainVisible U t pre post) (hl : lex A t = pre ++ post) (hread : reading post = g.lexemes ++ rest)
    (hrest : kwLexeme "HAVING" ∉ rest) (hp : ∀ x ∈ p, plainPart x = true) (hi : ∀ x ∈ i, plainPart x = true)
    (h : checkHaving U p i t = .ok u) :
    g.function = "SUM".toList ∧ g.argument = (i, colQuantity) ∧ g.bound = (p, colSafetyStockLevel) := by
  obtain ⟨m, x, w, zs, hm, hl', hres, hzs, hread', hmatch⟩ := hv.having.split hl hv.plain
    (a := kwLexeme "GROUP" :: kwLexeme "BY" :: g.grouping)
    (b := g.predicate ++ kwLexeme "ORDER" :: kwLexeme "BY" :: (g.firstKey ++ rest))
    (by rw [hread]; simp [GrainClauses.lexemes]) (by simp [keyword_notMem_grouping, kwLexeme_inj])
    (by simp [keyword_notMem_predicate, keyword_notMem_firstKey, kwLexeme_inj, hrest])
    (by simp [keyword_notMem_grouping, kwLexeme_inj])
  obtain ⟨j, vs, rfl, hj⟩ := hzs.first (by rw [hread']; simp)
  have hstop := stop_of_keyword (s := "HAVING") (by simp [patternKeywords, clauseBoundaryKeywords])
    (fun c hc => isWord_of_plainPart U (reserved_part hres c hc)) (head_after_word_token hl' hj).1
    (by rwa [TSql.textOf_cons, Token.text_word, havingKeywordPattern] at hmatch)
  obtain ⟨y, hy, hyp, hclause⟩ := clause_text (x := x ++ [.word w]) hm (by rw [hstop]) (by rw [hl']; simp) hzs hread'
    (by simp [clauseBoundaryKeywords]) (fun s => keyword_notMem_predicate s g) (by simp)
  have hpred : normalizePredicate U (strip (textOf y)) = allowedHavingPredicate p i := by
    rw [checkHaving, hclause] at h
    simpa [require, raiseUnless_eq_ok] using h
  rw [strip_normalize, normalize_textOf hyp, hy] at hpred
  have hspell : g.function ++ '(' :: (dot g.argument.1 g.argument.2 ++ ')' :: ('<' :: dot g.bound.1 g.bound.2)) =
      "SUM".toList ++ '(' :: (dot i colQuantity ++ ')' :: ('<' :: dot p colSafetyStockLevel)) := by
    simpa [GrainClauses.predicate, columnLexemes, spell, dot, allowedHavingPredicate, sumQuantity] using hpred
  -- the parts are plain, so the symbols between them are in one place
  have hfun : ∀ x ∈ g.function, plainPart x = true := name_part hyp (hy ▸ by simp [GrainClauses.predicate])
  have harg : PlainColumn g.argument := .of_mem hyp fun x hx => hy ▸ by simp [GrainClauses.predicate, hx]
  have hbound : PlainColumn g.bound := .of_mem hyp fun x hx => hy ▸ by simp [GrainClauses.predicate, hx]
  have hquantity : PlainColumn (i, colQuantity) :=
    ⟨hi, List.all_eq_true.mp (show colQuantity.all plainPart = true by decide +kernel)⟩
  have hsum : '(' ∉ "SUM".toList := by decide
  have hclose : ∀ {k : Text × Text}, PlainColumn k → ')' ∉ dot k.1 k.2 := fun hk hmem =>
    absurd (hk.inert _ hmem).1 (by decide)
  obtain ⟨h1, hspell⟩ := append_cons_inj_first (not_mem_of_plain hfun (by decide)) hsum hspell
  obtain ⟨h2, hspell⟩ := append_cons_inj_first (hclose harg) (hclose hquantity) hspell
  obtain ⟨h3, h4⟩ := dot_plain_inj harg.1 hi h2
  obtain ⟨h5, h6⟩ := dot_plain_inj hbound.1 hp (List.cons.inj hspell).2
  exact ⟨h1, Prod.ext h3 h4, Prod.ext h5 h6⟩

/-- The aliases that the checks use are those of the clause that the server reads. -/
theorem aliases_of_clause {t p i : Text} {c : JoinClause} {topMatch : Match} {d : AliasMap} {outs : List Text}
    (hr : Readable U (lex A t)) (hc : FromClause (lex A t)) (hread : reading (fromClause (lex A t)) = c.lexemes)
    (h : Passes U t topMatch d outs p i) : c.Aliases p i := by
  obtain ⟨m₁, m₂, hrefs, hd, hdist, htables, h2, hprod, hinv⟩ := h.pair
  obtain ⟨-, he₁, he₂⟩ := entries_of_clause hr hc hread hrefs h2
  rw [he₁, he₂] at hd
  exact (aliases_of_entries hdist hd htables hprod hinv).2

/-- The first sort key that the pattern finds is the one that the server reads. -/
theorem sort_key_sound {t : Text} {pre post : List Token} {g : GrainClauses} {r : Lexeme} {l : List Lexeme}
    (hv : GrainVisible U t pre post) (hl : lex A t = pre ++ post) (hread : reading post = g.lexemes ++ r :: l)
    (hrest : kwLexeme "ORDER" ∉ r :: l) (hr : r ∈ [kwLexeme "ASC", kwLexeme "DESC", .symbol ',']) :
    g.sortKey = colProductId ∧ r = kwLexeme "ASC" := by
  obtain ⟨m, x, w, ys, hm, hl', hres, hys, hread', hmatch⟩ := hv.order.split hl hv.plain
    (a := kwLexeme "GROUP" :: kwLexeme "BY" :: (g.grouping ++ kwLexeme "HAVING" :: g.predicate))
    (b := kwLexeme "BY" :: (g.firstKey ++ r :: l))
    (by rw [hread]; simp [GrainClauses.lexemes])
    (by simp [keyword_notMem_grouping, keyword_notMem_predicate, kwLexeme_inj])
    (by simpa [keyword_notMem_firstKey, kwLexeme_inj] using hrest)
    (by simp [keyword_notMem_grouping, keyword_notMem_predicate, kwLexeme_inj])
  have hascends : r ≠ kwLexeme "ASC" → l ≠ [] := by
    rintro hne rfl
    have hmem := hv.ascending
    rw [hread] at hmem
    simp [GrainClauses.lexemes, keyword_notMem_grouping, keyword_notMem_predicate, keyword_notMem_firstKey,
      kwLexeme_inj, Ne.symm hne] at hmem
  have hdot : r ≠ .symbol '.' := by
    rintro rfl
    simp [kwLexeme] at hr
  obtain ⟨zs, us, l', rfl, hzs, hread'', hl''⟩ := hys.upTo (a := kwLexeme "BY" :: g.firstKey) (r := r) (l := l)
    (by rw [hread']; rfl) (by simp [keyword_notMem_firstKey, kwLexeme_inj]) hascends
  exact sort_key_of_match hl' hres hzs hread'' hdot hl'' hmatch

theorem grainClause_oneJoin : ∃ c rest, GrainClause (lex .ascii oneJoin) c ⟨[(['P'], colProductId), (['P'], colName),
    (['P'], colSafetyStockLevel)], "SUM".toList, (['I'], colQuantity), (['P'], colSafetyStockLevel), none,
    colProductId⟩ rest := by
  have h : reading (fromClause (lex .ascii oneJoin)) = JoinClause.lexemes ⟨⟨none, tblProduct, ['P']⟩, .plain,
      ⟨none, tblProductInventory, ['I']⟩, (['P'], colProductId), (['I'], colProductId)⟩ ∧
      reading (afterFrom (lex .ascii oneJoin)) = GrainClauses.lexemes ⟨[(['P'], colProductId), (['P'], colName),
        (['P'], colSafetyStockLevel)], "SUM".toList, (['I'], colQuantity), (['P'], colSafetyStockLevel), none,
        colProductId⟩ ++ [kwLexeme "ASC"] ∧
      ∀ s ∈ grainKeywords, kwLexeme s ∉ reading (beforeFrom (lex .ascii oneJoin)) ∧ kwLexeme s ∉ [kwLexeme "ASC"] := by
    decide +kernel
  have hjoin := gapless_oneJoin.outside
  generalize lex .ascii oneJoin = ts at h hjoin ⊢
  obtain ⟨htables, hclauses, houtside⟩ := h
  exact ⟨_, _, ⟨hjoin, by rw [hclauses]; rfl⟩, htables, hclauses, houtside, by simp⟩

theorem grainVisible_oneJoin : GrainVisible .small oneJoin
    (beforeFrom (lex .ascii oneJoin) ++ fromClause (lex .ascii oneJoin)) (afterFrom (lex .ascii oneJoin)) := by
  have h : (((afterFrom (lex .ascii oneJoin)).takeWhile fun k => !reads "ASC" k).all TSql.isPlain = true ∧
      kwLexeme "ASC" ∈ reading (afterFrom (lex .ascii oneJoin))) ∧
      ∀ x ∈ [(groupByKeywordPattern, "GROUP"), (havingKeywordPattern, "HAVING"), (orderByFirstKeyPattern, "ORDER")],
        ∃ o ∈ offsets (reads x.2) (textOf (beforeFrom (lex .ascii oneJoin) ++ fromClause (lex .ascii oneJoin))).length
          (afterFrom (lex .ascii oneJoin)), (search (isWord .small) x.1 oneJoin).map (·.span.1) = some o := by
    decide +kernel
  generalize lex .ascii oneJoin = ts at h ⊢
  obtain ⟨⟨hplain, hasc⟩, h⟩ := h
  exact ⟨fun k hk => TSql.plain_of_isPlain (List.all_eq_true.mp hplain k hk), hasc,
    h (groupByKeywordPattern, "GROUP") (by simp), h (havingKeywordPattern, "HAVING") (by simp),
    h (orderByFirstKeyPattern, "ORDER") (by simp)⟩

/-- The same statement in the order of the inventory's column. -/
def foreignOrder : Text := outputList ++
  ["FROM Product AS p JOIN ProductInventory AS i ", "ON p.ProductID = i.ProductID ",
    "GROUP BY p.ProductID, p.Name, p.SafetyStockLevel ", "HAVING SUM(i.Quantity) < p.SafetyStockLevel ",
    "ORDER BY i.ProductID ASC"].flatMap String.toList

example : validate .small foreignOrder {} = .ok foreignOrder := by decide +kernel

/-- A third table reference, with a sort key for an alias. -/
def hiddenOrder : Text := outputList ++
  ["FROM Product AS p JOIN ProductInventory AS i ", "ON p.ProductID = i.ProductID ",
    "JOIN[Product]AS[ORDER BY ProductID ASC]ON 1=1 ", "GROUP BY p.ProductID, p.Name, p.SafetyStockLevel ",
    "HAVING SUM(i.Quantity) < p.SafetyStockLevel ", "ORDER BY Name DESC"].flatMap String.toList

/-- **Another order goes through**: the pattern finds its sort key inside a bracketed name. -/
theorem hidden_order : validate .small hiddenOrder {} = .ok hiddenOrder ∧ ¬ GrainSound (lex .ascii hiddenOrder) := by
  refine ⟨by decide +kernel, ?_⟩
  rintro ⟨c, g, rest, hc, p, i, -, -, hasc⟩
  have hmem : kwLexeme "ASC" ∈ reading (afterFrom (lex .ascii hiddenOrder)) := by
    rw [hc.clauses]
    exact List.mem_append_right _ (List.mem_of_head? hasc)
  exact absurd hmem (by decide +kernel)

end DataAgent.Guardrail
