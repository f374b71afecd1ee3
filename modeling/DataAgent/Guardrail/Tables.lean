import DataAgent.Guardrail.Predicate

/-!
# The FROM clause that the server reads

* `TableSound` : the FROM clause joins the two tables, once each, on their `ProductID` columns;
* `Readable` : its tokens are plain, and no other words look like table references or an `ON` to the patterns;
* `Gapless` : its tokens leave no place where the patterns look past one;
* **`table_sound_iff`** : a readable text that is accepted is sound exactly if it has no such place.
-/

namespace DataAgent.Guardrail
open Python Regex Pattern
open Agent (MetadataContext)
open TSql (Alphabet Token Lexeme Plain lex textOf reading fold isReserved kwLexeme)

variable {U : Unicode} {A : Alphabet}

/-! ## The clause -/

inductive JoinKind where
  | plain | inner | left
  deriving DecidableEq, Repr

/-- The keyword before `JOIN`, if there is one. -/
def JoinKind.lexemes : JoinKind → List Lexeme
  | plain => []
  | inner => [kwLexeme "INNER"]
  | left => [kwLexeme "LEFT"]

/-- `FROM left kind JOIN right ON a.c = b.d`, in upper case. -/
structure JoinClause where
  left : Reference
  kind : JoinKind
  right : Reference
  leftSide : Text × Text
  rightSide : Text × Text

def JoinClause.predicate (c : JoinClause) : List Lexeme :=
  columnLexemes c.leftSide ++ .symbol '=' :: columnLexemes c.rightSide

def JoinClause.lexemes (c : JoinClause) : List Lexeme :=
  kwLexeme "FROM" :: (c.left.lexemes ++ (c.kind.lexemes ++ kwLexeme "JOIN" :: (c.right.lexemes ++
    kwLexeme "ON" :: c.predicate)))

/-- The two tables, once each, on the equality of the `ProductID` columns of their aliases. -/
structure JoinClause.Approved (c : JoinClause) : Prop where
  schemas : c.left.SchemaOk ∧ c.right.SchemaOk
  tables : [c.left.table, c.right.table] = [tblProduct, tblProductInventory] ∨
    [c.left.table, c.right.table] = [tblProductInventory, tblProduct]
  aliases : c.left.tableAlias ≠ c.right.tableAlias
  predicate : (c.leftSide = (c.left.tableAlias, colProductId) ∧ c.rightSide = (c.right.tableAlias, colProductId)) ∨
    (c.leftSide = (c.right.tableAlias, colProductId) ∧ c.rightSide = (c.left.tableAlias, colProductId))

/-- The keywords of a FROM clause, and the one it must not have. -/
def fromKeywords : List String := ["FROM", "JOIN", "ON", "WHERE"]

/-- The tokens before the first `FROM`. -/
def beforeFrom (ts : List Token) : List Token := ts.takeWhile fun k => !reads "FROM" k

/-- The FROM clause: from the first `FROM` up to a `GROUP`. -/
def fromClause (ts : List Token) : List Token :=
  (ts.dropWhile fun k => !reads "FROM" k).takeWhile fun k => !reads "GROUP" k

/-- What follows the FROM clause. -/
def afterFrom (ts : List Token) : List Token :=
  (ts.dropWhile fun k => !reads "FROM" k).dropWhile fun k => !reads "GROUP" k

theorem split_from (ts : List Token) : ts = beforeFrom ts ++ (fromClause ts ++ afterFrom ts) := by
  rw [fromClause, afterFrom, List.takeWhile_append_dropWhile, beforeFrom, List.takeWhile_append_dropWhile]

/-- The FROM clause has all the keywords of its kind, and `GROUP BY` ends it. -/
structure FromClause (ts : List Token) : Prop where
  outside : ∀ s ∈ fromKeywords, kwLexeme s ∉ reading (beforeFrom ts) ∧ kwLexeme s ∉ reading (afterFrom ts)
  ends : (reading (afterFrom ts)).take 2 = [kwLexeme "GROUP", kwLexeme "BY"]

def TableSound (ts : List Token) : Prop :=
  FromClause ts ∧ ∃ c : JoinClause, reading (fromClause ts) = c.lexemes ∧ c.Approved

def isFromKeyword (x : Lexeme) : Bool := fromKeywords.any fun s => x == kwLexeme s

@[simp] theorem isFromKeyword_name (w : Text) : isFromKeyword (.name w) = false := by
  simp [isFromKeyword, fromKeywords, kwLexeme]

@[simp] theorem isFromKeyword_symbol (c : Char) : isFromKeyword (.symbol c) = false := by
  simp [isFromKeyword, fromKeywords, kwLexeme]

theorem JoinClause.keywords (c : JoinClause) :
    c.lexemes.filter isFromKeyword = [kwLexeme "FROM", kwLexeme "JOIN", kwLexeme "ON"] := by
  have hfrom : isFromKeyword (kwLexeme "FROM") = true := by decide
  have hjoin : isFromKeyword (kwLexeme "JOIN") = true := by decide
  have hon : isFromKeyword (kwLexeme "ON") = true := by decide
  have has : isFromKeyword (kwLexeme "AS") = false := by decide
  have href : ∀ r : Reference, r.lexemes.filter isFromKeyword = [] := by
    intro r
    cases h : r.schema <;> simp [Reference.lexemes, h, has]
  have hkind : c.kind.lexemes.filter isFromKeyword = [] := by
    cases c.kind <;> decide
  simp [JoinClause.lexemes, JoinClause.predicate, columnLexemes, href, hkind, hfrom, hjoin, hon]

/-- **In all of the text there is one `FROM`, one `JOIN`, one `ON` and no `WHERE`.** -/
theorem TableSound.keywords {ts : List Token} (h : TableSound ts) :
    (reading ts).filter isFromKeyword = [kwLexeme "FROM", kwLexeme "JOIN", kwLexeme "ON"] := by
  obtain ⟨hc, c, hread, -⟩ := h
  have hnone : ∀ us : List Token, (∀ s ∈ fromKeywords, kwLexeme s ∉ reading us) →
      (reading us).filter isFromKeyword = [] := by
    intro us hus
    rw [List.filter_eq_nil_iff]
    intro x hx hk
    obtain ⟨s, hs, he⟩ := List.any_eq_true.mp hk
    obtain rfl : x = kwLexeme s := by simpa using he
    exact hus s hs hx
  rw [split_from ts, TSql.reading_append, TSql.reading_append, List.filter_append, List.filter_append, hread,
    c.keywords, hnone _ fun s hs => (hc.outside s hs).1, hnone _ fun s hs => (hc.outside s hs).2]
  rfl

/-! ## Where the patterns look past a token -/

/-- The patterns read the FROM clause as the server does: its tokens, and the `GROUP BY` after it, are keywords, symbols
and plain names; in the text outside of it whitespace and a name follow no `FROM` and no `JOIN`, and there is no `ON`
before it. -/
structure Readable (U : Unicode) (ts : List Token) : Prop where
  plain : ∃ a b, afterFrom ts = a ++ b ∧ reading a = [kwLexeme "GROUP", kwLexeme "BY"] ∧
    ∀ k ∈ fromClause ts ++ a, Plain k
  apart : (textOf (beforeFrom ts)).getLast?.any (isWord U) = false
  before : quiet (cut (isWord U) isSpace (textOf (beforeFrom ts))) (textOf (fromClause ts ++ afterFrom ts)) = true
  beforeOn : Free ["ON"] (cut (isWord U) isSpace (textOf (beforeFrom ts)))
  after : quiet (cut (isWord U) isSpace (textOf (afterFrom ts))) [] = true

/-- The last two lexemes are an alias and its `AS`, and there is no other `AS`. -/
def EndsWithAlias (l : List Lexeme) : Prop := ∃ u a, l = u ++ [kwLexeme "AS", .name a] ∧ kwLexeme "AS" ∉ u

/-- What the checks do not look for is not there: a keyword of the clause outside of it, a `FROM` or `JOIN` without
whitespace after it, one of them, an `AS` or a dot without a name after it, anything between an alias and the `JOIN` or
`ON` that it ends before, two words of the predicate side by side. -/
structure Gapless (ts : List Token) : Prop where
  outside : ∀ s ∈ fromKeywords, kwLexeme s ∉ reading (beforeFrom ts) ∧ kwLexeme s ∉ reading (afterFrom ts)
  spaced : ts.IsChain Spaced
  names : (reading (fromClause ts) ++ [kwLexeme "GROUP"]).IsChain NameAfter
  parts : ∃ (l₁ : List Lexeme) (kind : JoinKind) (l₂ l₃ : List Lexeme), reading (fromClause ts) = kwLexeme "FROM" ::
    (l₁ ++ (kind.lexemes ++ kwLexeme "JOIN" :: (l₂ ++ kwLexeme "ON" :: l₃))) ∧ EndsWithAlias l₁ ∧ EndsWithAlias l₂ ∧
      l₃.IsChain WordsApart

theorem Readable.fromTokens {t : Text} (h : Readable U (lex A t)) : ∃ w rest a b,
    FromTokens U (lex A t) (beforeFrom (lex A t)) w rest a b ∧ fold w = "FROM".toList ∧
      fromClause (lex A t) = .word w :: rest ∧ afterFrom (lex A t) = a ++ b := by
  obtain ⟨⟨a, b, hpost, ha, hp⟩, hapart, hbefore, hon, hafter⟩ := h
  have hsplit := split_from (lex A t)
  generalize lex A t = ts at *
  cases hdrop : ts.dropWhile fun k => !reads "FROM" k with
  | nil =>
    have hnil : a ++ b = [] := by rw [← hpost, afterFrom, hdrop, List.dropWhile_nil]
    rw [(List.append_eq_nil_iff.mp hnil).1] at ha
    exact absurd ha (by simp)
  | cons k us =>
    have hk : reads "FROM" k = true := by
      have := List.head?_dropWhile_not (fun k => !reads "FROM" k) ts
      rw [hdrop] at this
      simpa using this
    have hlex : k.lexeme = some (kwLexeme "FROM") := by simpa [reads] using hk
    obtain ⟨w, rfl, hres, hw⟩ := plain_keyword (plain_of_keyword hlex) hlex
    have hgroup : (!reads "GROUP" (.word w)) = true := by
      simp [reads, hlex, kwLexeme]
    have hclause : fromClause ts = .word w :: us.takeWhile fun k => !reads "GROUP" k := by
      rw [fromClause, hdrop]
      exact List.takeWhile_cons_of_pos hgroup
    refine ⟨w, _, a, b, ⟨?_, ⟨hres, Or.inl hw⟩, ha, by rwa [← hclause], ?_, hapart, ?_, hon, hpost ▸ hafter⟩, hw,
      hclause, hpost⟩
    · rw [← hclause, ← hpost]
      exact hsplit
    · intro hmem
      obtain ⟨j, hj, hjg⟩ := List.mem_filterMap.mp hmem
      have := List.mem_takeWhile_imp hj
      simp [reads, hjg] at this
    · rwa [← hclause, ← hpost]

/-- What the clause reads after its `FROM`. -/
theorem reading_after_from {w : Text} {rest : List Token} {l : List Lexeme} (hw : IsRef w)
    (hfrom : fold w = "FROM".toList) (h : reading (.word w :: rest) = kwLexeme "FROM" :: l) : reading rest = l := by
  have hlex : (Token.word w).lexeme = some (kwLexeme "FROM") := by simp [Token.lexeme, hw.reserved, hfrom, kwLexeme]
  rw [TSql.reading_cons, hlex, Option.toList_some, List.singleton_append] at h
  exact (List.cons.inj h).2

/-- The token of a keyword that is read, and the tokens before and after it. -/
theorem tokens_of_keyword {ts : List Token} {l l' : List Lexeme} {s : String} (h : reading ts = l ++ kwLexeme s :: l') :
    ∃ x w y, ts = x ++ .word w :: y ∧ reading x = l ∧ isReserved w = true ∧ fold w = s.toList ∧ reading y = l' := by
  obtain ⟨x, ys, rfl, rfl, hys⟩ : ∃ x ys, ts = x ++ ys ∧ reading x = l ∧ reading ys = kwLexeme s :: l' :=
    List.filterMap_eq_append_iff.mp h
  obtain ⟨bs, k, y, rfl, hbs, hk, rfl⟩ := reading_eq_cons hys
  obtain ⟨w, rfl, hres, hw⟩ := plain_keyword (plain_of_keyword hk) hk
  have hnil : reading bs = [] := List.filterMap_eq_nil_iff.mpr hbs
  exact ⟨x ++ bs, w, y, by simp, by rw [TSql.reading_append, hnil, List.append_nil], hres, hw, rfl⟩

/-! ## A clause that has the shape of a join -/

theorem JoinClause.names (c : JoinClause) : (c.lexemes ++ [kwLexeme "GROUP"]).IsChain NameAfter := by
  obtain ⟨⟨s, l, a⟩, kind, ⟨s', r, b⟩, x, y⟩ := c
  cases s <;> cases s' <;> cases kind <;>
    simp [JoinClause.lexemes, JoinClause.predicate, columnLexemes, Reference.lexemes, JoinKind.lexemes, NameAfter,
      isLeader, isNameLexeme, kwLexeme]

theorem noRef_of_outside {us : List Token} (h : ∀ s ∈ fromKeywords, kwLexeme s ∉ reading us) : NoRef (reading us) := by
  intro s hs
  refine h s ?_
  simp only [refWords, List.mem_cons, List.not_mem_nil, or_false] at hs
  rcases hs with rfl | rfl <;> simp [fromKeywords]

theorem JoinKind.noRef (kind : JoinKind) : NoRef kind.lexemes := by
  have hne : ∀ s ∈ refWords, s ≠ "INNER" ∧ s ≠ "LEFT" := by simp [refWords]
  intro s hs
  cases kind <;> simp [JoinKind.lexemes, kwLexeme_inj, hne s hs]

theorem on_notMem (r r' : Reference) (kind : JoinKind) :
    kwLexeme "ON" ∉ r.lexemes ++ (kind.lexemes ++ kwLexeme "JOIN" :: r'.lexemes) := by
  have hkind : kwLexeme "ON" ∉ kind.lexemes := by
    cases kind <;> decide
  simp only [List.mem_append, List.mem_cons, not_or]
  exact ⟨r.keyword_notMem (by simp), hkind, by decide, r'.keyword_notMem (by simp)⟩

theorem JoinClause.noRef_after (c : JoinClause) : NoRef (c.right.lexemes ++ kwLexeme "ON" :: c.predicate) := by
  refine NoRef.append.mpr ⟨c.right.noRef, fun s hs hmem => ?_⟩
  rcases List.mem_cons.mp hmem with heq | hmem
  · obtain rfl := kwLexeme_inj.mp heq
    simp [refWords] at hs
  · simp [JoinClause.predicate, columnLexemes, kwLexeme] at hmem

/-- **Where an accepted clause has the shape of a join, whitespace follows its keywords.** -/
theorem spaced_of_clause {t : Text} {c : JoinClause} (hr : Readable U (lex A t)) (hc : FromClause (lex A t))
    (hread : reading (fromClause (lex A t)) = c.lexemes) (hlen : (tableRefs U t).length = 2) :
    (lex A t).IsChain Spaced := by
  obtain ⟨w, rest, a, b, h, hw, hclause, hpost⟩ := hr.fromTokens
  have hnames := c.names
  rw [← hread, hclause] at hnames
  -- the tokens before the `JOIN` and after it
  rw [hclause] at hread
  have hrest : reading rest = (c.left.lexemes ++ c.kind.lexemes) ++ kwLexeme "JOIN" ::
      (c.right.lexemes ++ kwLexeme "ON" :: c.predicate) := by
    rw [reading_after_from h.from_ hw hread]
    simp
  obtain ⟨x, w₂, z, rfl, hx, hres, hw₂, hz⟩ := tokens_of_keyword hrest
  have hbefore : NoRef (reading x) := hx.symm ▸ NoRef.append.mpr ⟨c.left.noRef, c.kind.noRef⟩
  refine h.spaced_of_pair hnames ⟨hres, Or.inr hw₂⟩ hbefore (hz ▸ c.noRef_after)
    (noRef_of_outside fun s hs => (hc.outside s hs).1) ?_ hlen
  rw [← hpost]
  exact noRef_of_outside fun s hs => (hc.outside s hs).2

theorem gapless_of_clause {t : Text} {c : JoinClause} (hr : Readable U (lex A t)) (hc : FromClause (lex A t))
    (hread : reading (fromClause (lex A t)) = c.lexemes) (hlen : (tableRefs U t).length = 2) : Gapless (lex A t) := by
  have halias : ∀ r : Reference, EndsWithAlias r.lexemes := fun r => ⟨_, _, r.lexemes_eq, r.keyword_notMem_path _⟩
  refine ⟨hc.outside, spaced_of_clause hr hc hread hlen, hread ▸ c.names,
    ⟨c.left.lexemes, c.kind, c.right.lexemes, c.predicate, hread, halias _, halias _, ?_⟩⟩
  simp [JoinClause.predicate, columnLexemes, WordsApart, isWordLexeme]

/-! ## Soundness -/

/-- **What an accepted text without a gap joins**: two references that the pattern reads as the server does, on a
predicate in the form that the check compares. -/
theorem references_of_gapless {t : Text} (hr : Readable U (lex A t)) (hg : Gapless (lex A t)) {m₁ m₂ : Match}
    (hrefs : tableRefs U t = [m₁, m₂]) (h2 : ∀ m ∈ tableRefs U t, (m.group 2).isSome) :
    ∃ (r₁ r₂ : Reference) (kind : JoinKind) (l : List Lexeme), reading (fromClause (lex A t)) = kwLexeme "FROM" ::
      (r₁.lexemes ++ (kind.lexemes ++ kwLexeme "JOIN" :: (r₂.lexemes ++ kwLexeme "ON" :: l))) ∧ l.IsChain WordsApart ∧
      (r₁.SchemaOk ∧ r₂.SchemaOk) ∧ entry U m₁ = (r₁.tableAlias, r₁.table) ∧
      entry U m₂ = (r₂.tableAlias, r₂.table) := by
  obtain ⟨l₁, kind, l₂, l₃, hparts, ⟨u₁, a₁, rfl, hu₁⟩, ⟨u₂, a₂, rfl, hu₂⟩, hwords⟩ := hg.parts
  obtain ⟨w, rest, a, b, h, hw, hclause, -⟩ := hr.fromTokens
  have hnames := hg.names
  rw [hclause] at hnames
  have hread := reading_after_from h.from_ hw (hclause ▸ hparts)
  have hjoin : ¬ NoRef (reading rest) := fun hno => hno "JOIN" (by simp [refWords]) (by rw [hread]; simp)
  obtain ⟨r₁, r₂, s, d₁, l, d₂, -, hrest, hno₁, hno₂, hlast, hok, he₁, he₂⟩ :=
    h.references_of_scan hnames hg.spaced hjoin hrefs h2
  -- the `JOIN` is the one keyword after the `FROM`
  rw [hrest, ← List.append_assoc (u₁ ++ _)] at hread
  obtain ⟨hleft, -, hright⟩ := (List.append_cons_inj_of_notMem (hno₁ "JOIN" (by simp [refWords]))
    (hno₂ "JOIN" (by simp [refWords]))).mp hread
  -- each reference ends where the alias does
  obtain ⟨hpath₁, halias₁, -⟩ := Reference.eq_of_append hu₁ (show u₁ ++ kwLexeme "AS" :: .name a₁ :: kind.lexemes =
    r₁.lexemes ++ d₁ by rw [hleft]; simp)
  obtain ⟨hpath₂, halias₂, -⟩ := Reference.eq_of_append hu₂ (show u₂ ++ kwLexeme "AS" :: .name a₂ ::
    (kwLexeme "ON" :: l₃ ++ [kwLexeme "GROUP", kwLexeme "BY"]) = r₂.lexemes ++ d₂ by rw [← hlast, hright]; simp)
  refine ⟨r₁, r₂, kind, l₃, ?_, hwords, hok, he₁, he₂⟩
  rw [hparts, r₁.lexemes_eq, r₂.lexemes_eq, hpath₁, hpath₂, halias₁, halias₂]

/-- The references of a clause that has the shape of a join are those that the pattern reads. -/
theorem entries_of_clause {t : Text} {c : JoinClause} (hr : Readable U (lex A t)) (hc : FromClause (lex A t))
    (hread : reading (fromClause (lex A t)) = c.lexemes) {m₁ m₂ : Match} (hrefs : tableRefs U t = [m₁, m₂])
    (h2 : ∀ m ∈ tableRefs U t, (m.group 2).isSome) : (c.left.SchemaOk ∧ c.right.SchemaOk) ∧
      entry U m₁ = (c.left.tableAlias, c.left.table) ∧ entry U m₂ = (c.right.tableAlias, c.right.table) := by
  have hg := gapless_of_clause hr hc hread (by rw [hrefs]; rfl)
  obtain ⟨r₁, r₂, kind, l, hread', -, hok, he⟩ := references_of_gapless hr hg hrefs h2
  have hkind : ∀ kind : JoinKind, kwLexeme "JOIN" ∉ kind.lexemes := fun kind => kind.noRef "JOIN" (by simp [refWords])
  rw [hread, JoinClause.lexemes, List.cons.injEq] at hread'
  obtain ⟨rfl, hrest⟩ := Reference.append_inj hread'.2
  obtain ⟨-, hrest⟩ := append_cons_inj_first (hkind _) (hkind _) hrest
  obtain ⟨rfl, -⟩ := Reference.append_inj hrest
  exact ⟨hok, he⟩

/-- The two entries of the alias map, and the aliases of the two tables. -/
theorem aliases_of_entries {d : AliasMap} {la lt ra rt p i : Text} (hdist : Distinct d) (hd : d = [(la, lt), (ra, rt)])
    (htables : d.map Prod.snd = [tblProduct, tblProductInventory] ∨ d.map Prod.snd = [tblProductInventory, tblProduct])
    (hp : (p, tblProduct) ∈ d) (hi : (i, tblProductInventory) ∈ d) : la ≠ ra ∧
      (([lt, rt] = [tblProduct, tblProductInventory] ∧ p = la ∧ i = ra) ∨
        ([lt, rt] = [tblProductInventory, tblProduct] ∧ p = ra ∧ i = la)) := by
  have hne : tblProduct ≠ tblProductInventory := by decide
  subst hd
  simp only [Distinct, List.map_cons, List.map_nil, List.nodup_cons, List.cons.injEq, and_true,
    List.mem_cons, Prod.mk.injEq, List.not_mem_nil, or_false] at hdist htables hp hi ⊢
  grind

/-- A second `JOIN`, with a bracket right after the keyword. -/
def hiddenJoin : Text := outputList ++ joinAndAfter "JOIN[Product]AS Name ON 1=1 "

theorem readable_oneJoin : Readable .small (lex .ascii oneJoin) := by
  have h : (afterFrom (lex .ascii oneJoin) = (afterFrom (lex .ascii oneJoin)).take 3 ++
        (afterFrom (lex .ascii oneJoin)).drop 3 ∧
      reading ((afterFrom (lex .ascii oneJoin)).take 3) = [kwLexeme "GROUP", kwLexeme "BY"] ∧
      (fromClause (lex .ascii oneJoin) ++ (afterFrom (lex .ascii oneJoin)).take 3).all TSql.isPlain = true) ∧
      (textOf (beforeFrom (lex .ascii oneJoin))).getLast?.any (isWord .small) = false ∧
      quiet (cut (isWord .small) isSpace (textOf (beforeFrom (lex .ascii oneJoin))))
        (textOf (fromClause (lex .ascii oneJoin) ++ afterFrom (lex .ascii oneJoin))) = true ∧
      Free ["ON"] (cut (isWord .small) isSpace (textOf (beforeFrom (lex .ascii oneJoin)))) ∧
      quiet (cut (isWord .small) isSpace (textOf (afterFrom (lex .ascii oneJoin)))) [] = true := by
    decide +kernel
  generalize lex .ascii oneJoin = ts at h
  obtain ⟨⟨h1, h2, h3⟩, h4, h5, h6, h7⟩ := h
  exact ⟨⟨_, _, h1, h2, fun k hk => TSql.plain_of_isPlain (List.all_eq_true.mp h3 k hk)⟩, h4, h5, h6, h7⟩

theorem gapless_oneJoin : Gapless (lex .ascii oneJoin) := by
  have h : (∀ s ∈ fromKeywords, kwLexeme s ∉ reading (beforeFrom (lex .ascii oneJoin)) ∧
        kwLexeme s ∉ reading (afterFrom (lex .ascii oneJoin))) ∧
      (lex .ascii oneJoin).IsChain Spaced ∧
      (reading (fromClause (lex .ascii oneJoin)) ++ [kwLexeme "GROUP"]).IsChain NameAfter ∧
      reading (fromClause (lex .ascii oneJoin)) = kwLexeme "FROM" :: ([.name tblProduct, kwLexeme "AS", .name ['P']] ++
        (JoinKind.plain.lexemes ++ kwLexeme "JOIN" :: ([.name tblProductInventory, kwLexeme "AS", .name ['I']] ++
          kwLexeme "ON" :: (columnLexemes (['P'], colProductId) ++
            .symbol '=' :: columnLexemes (['I'], colProductId))))) := by
    decide +kernel
  generalize lex .ascii oneJoin = ts at h
  obtain ⟨h1, h2, h3, h4⟩ := h
  refine ⟨h1, h2, h3, _, _, _, _, h4, ⟨[.name tblProduct], _, rfl, by simp [kwLexeme]⟩,
    ⟨[.name tblProductInventory], _, rfl, by simp [kwLexeme]⟩, ?_⟩
  simp [columnLexemes, WordsApart, isWordLexeme]

end DataAgent.Guardrail
