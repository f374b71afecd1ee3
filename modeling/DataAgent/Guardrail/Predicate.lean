import DataAgent.Guardrail.Joins

/-!
# The predicate of the join, read two ways

* `lexemes_of_spell` : lexemes with a symbol between any two words are read off their normal form;
* **`predicate_of_checkOn`** : the predicate that the check of the ON clause compares is the one that the server reads.
-/

namespace DataAgent.Guardrail
open Python Regex Pattern
open TSql (Alphabet Token Lexeme Plain lex textOf reading plainPart fold isReserved kwLexeme)

variable {U : Unicode} {A : Alphabet}

/-! ## Lexemes and how they are spelled -/

def columnLexemes (c : Text × Text) : List Lexeme := [.name c.1, .symbol '.', .name c.2]

/-- A lexeme that plain tokens can have. -/
def OkLexeme : Lexeme → Prop
  | .keyword w => isReserved w = true
  | .name w => isReserved w = false ∧ w ≠ [] ∧ ∀ c ∈ w, plainPart c = true
  | .symbol c => plainPart c = false
  | .literal _ => False

theorem isReserved_fold (w : Text) : isReserved (fold w) = isReserved w := by
  have hfold : fold (fold w) = fold w := by simp [fold, Function.comp_def]
  rw [isReserved, hfold, isReserved]

theorem okLexeme_of_plain {k : Token} (hk : Plain k) {x : Lexeme} (hx : k.lexeme = some x) : OkLexeme x := by
  cases hk with
  | blank => simp [Token.lexeme] at hx
  | @keyword w h =>
    obtain rfl : .keyword (fold w) = x := by simpa [Token.lexeme, h] using hx
    exact (isReserved_fold w).trans h
  | name n =>
    obtain rfl : .name (fold n.text) = x := by simpa using hx
    refine ⟨(isReserved_fold _).trans n.free, by simpa [fold] using n.ne_nil, fun c hc => ?_⟩
    obtain ⟨d, hd, rfl⟩ := List.mem_map.mp hc
    rw [TSql.plainPart_toUpper]
    exact n.part d hd
  | @symbol c _ hpart =>
    obtain rfl : .symbol c = x := by simpa [Token.lexeme] using hx
    exact hpart

theorem okLexeme_reading {ts : List Token} (h : ∀ k ∈ ts, Plain k) : ∀ x ∈ reading ts, OkLexeme x := by
  intro x hx
  obtain ⟨k, hk, hkx⟩ := List.mem_filterMap.mp hx
  exact okLexeme_of_plain (h k hk) hkx

def isWordLexeme : Lexeme → Bool
  | .symbol _ => false
  | _ => true

/-- There is a symbol between two words. -/
def WordsApart (x y : Lexeme) : Prop := (isWordLexeme x && isWordLexeme y) = false

instance : DecidableRel WordsApart := fun x y =>
  inferInstanceAs (Decidable ((isWordLexeme x && isWordLexeme y) = false))

def lexPiece : Lexeme → Piece
  | .keyword w => .word w
  | .name w => .word w
  | .symbol c => .sym c
  | .literal w => .word w

theorem join_lexPieces (l : List Lexeme) : join (l.map lexPiece) = l.flatMap spell := by
  induction l with
  | nil => rfl
  | cons x l ih =>
    rw [List.map_cons, join_cons, ih, List.flatMap_cons]
    cases x <;> rfl

theorem segmented_lexPieces {l : List Lexeme} (hl : ∀ x ∈ l, OkLexeme x) (hc : l.IsChain WordsApart) :
    Segmented plainPart (fun _ => false) (l.map lexPiece) := by
  constructor
  · intro p hp
    obtain ⟨x, hx, rfl⟩ := List.mem_map.mp hp
    have hok := hl x hx
    cases x with
    | keyword w => exact ⟨(TSql.plainStart_of_isReserved hok).1, reserved_part hok⟩
    | name w => exact hok.2
    | symbol c => exact ⟨hok, rfl⟩
    | literal w => exact hok.elim
  · rw [List.isChain_map]
    refine hc.imp fun x y h => ?_
    cases x <;> cases y <;> trivial

/-- The words are keywords or names, which they tell. -/
theorem lexPiece_inj {x y : Lexeme} (hx : OkLexeme x) (hy : OkLexeme y) (h : lexPiece x = lexPiece y) : x = y := by
  have hword : ∀ {v w : Text}, isReserved v = true → isReserved w = false → v ≠ w := by
    rintro v w hv hw rfl
    rw [hv] at hw
    exact absurd hw (by decide)
  cases x <;> cases y <;> simp_all [lexPiece, OkLexeme]

/-- **Lexemes with symbols between the words are read off their spelling.** -/
theorem lexemes_of_spell {l l' : List Lexeme} (hl : ∀ x ∈ l, OkLexeme x) (hl' : ∀ x ∈ l', OkLexeme x)
    (hc : l.IsChain WordsApart) (hc' : l'.IsChain WordsApart) (h : l.flatMap spell = l'.flatMap spell) : l = l' := by
  have hpieces : l.map lexPiece = l'.map lexPiece := by
    rw [← cut_join (segmented_lexPieces hl hc), ← cut_join (segmented_lexPieces hl' hc'), join_lexPieces,
      join_lexPieces, h]
  clear h hc hc'
  induction l generalizing l' with
  | nil => exact (List.map_eq_nil_iff.mp hpieces.symm).symm
  | cons x l ih =>
    cases l' with
    | nil => simp at hpieces
    | cons y l' =>
      rw [List.map_cons, List.map_cons, List.cons.injEq] at hpieces
      rw [lexPiece_inj (hl x (by simp)) (hl' y (by simp)) hpieces.1,
        ih (fun z hz => hl z (List.mem_cons_of_mem _ hz)) (fun z hz => hl' z (List.mem_cons_of_mem _ hz)) hpieces.2]

/-! ## The predicate -/

namespace FromTokens
variable {t : Text} {pre rest a b : List Token} {w : Text}

/-- The pattern for `ON` finds the first `ON` of the clause. -/
theorem search_on {v ys : List Token} {w₂ : Text} (h : FromTokens U (lex A t) pre w (v ++ .word w₂ :: ys) a b)
    (hon : (Token.word w₂).lexeme = some (kwLexeme "ON")) (hv : kwLexeme "ON" ∉ reading v) :
    ∃ m, search (isWord U) onKeywordPattern t = some m ∧ m.stop.after = textOf (ys ++ a ++ b) := by
  have hkeys : ∀ s ∈ ["ON"], Keyword (isWord U) s := by
    intro s hs
    rw [List.mem_singleton] at hs
    subst hs
    exact keyword U (by simp [patternKeywords])
  have hout : Outside (isWord U) (cat [wordBoundary]) := Outside.wordBoundary _
  obtain ⟨w', heq, hres, hw⟩ := plain_keyword (h.plain_rest (.word w₂) (by simp)) hon
  obtain rfl := Token.word.inj heq
  have hkw : isKw "ON" w₂ = true := by
    rw [isKw_iff (reserved_part hres), hw]
    decide
  have hp : ∀ k ∈ .word w :: v, Plain k := by
    intro k hk
    exact h.plain k (by simp at hk ⊢; tauto)
  have hfrom : kwLexeme "ON" ∉ reading (.word w :: v) := by
    obtain ⟨s, hs, hlex⟩ := h.from_.lexeme
    rw [TSql.reading_cons, hlex, Option.toList_some, List.singleton_append, List.mem_cons, not_or]
    refine ⟨fun heq => ?_, hv⟩
    obtain rfl := kwLexeme_inj.mp heq
    simp [refWords] at hs
  have hfree : Free ["ON"] (cut (isWord U) isSpace (textOf pre) ++ allPieces (.word w :: v)) := by
    refine Free.append.mpr ⟨h.beforeOn, free_of_reading hp ?_ ?_⟩
    · intro s hs
      rw [List.mem_singleton.mp hs]
      simp [patternKeywords]
    · intro s hs
      rw [List.mem_singleton.mp hs]
      exact hfrom
  have hseg := h.segmented
  have htext := h.text_eq
  have hpieces : cut (isWord U) isSpace (textOf pre) ++
      .word w :: (allPieces (v ++ .word w₂ :: ys) ++ cut (isWord U) isSpace (textOf (a ++ b))) =
      (cut (isWord U) isSpace (textOf pre) ++ allPieces (.word w :: v)) ++
        .word w₂ :: (allPieces ys ++ cut (isWord U) isSpace (textOf (a ++ b))) := by
    rw [allPieces_word, allPieces_cons]
    simp [tokenPieces]
  rw [hpieces] at hseg htext
  have hm := matchAt_kws hkeys hseg.right (by simp) hkw
    ((join (cut (isWord U) isSpace (textOf pre) ++ allPieces (.word w :: v))).reverse ++ [])
  have hsearch := searchWords_word hm
  rw [← searchWords_skip (leads_kws hkeys hout) hseg hfree, ← search_anchored (startsAtWord_kws hkeys _) hseg,
    ← htext] at hsearch
  exact ⟨_, hsearch, join_pieces U (fun k hk => h.plain_rest k (by simp [hk])) a b⟩

/-- The first clause keyword after the `ON`, which may be the `GROUP` after the clause. -/
theorem exists_boundary {v ys : List Token} {w₂ : Text} (h : FromTokens U (lex A t) pre w (v ++ .word w₂ :: ys) a b) :
    ∃ y g z s, ys ++ a = y ++ .word g :: z ∧ isReserved g = true ∧ s ∈ clauseBoundaryKeywords ∧ fold g = s.toList ∧
      (∀ s ∈ clauseBoundaryKeywords, kwLexeme s ∉ reading y) ∧ reading z ≠ [] ∧
      (reading ys = reading y ∨ ∃ d, reading ys = reading y ++ kwLexeme s :: d) := by
  let p : Token → Bool := fun k => clauseBoundaryKeywords.any fun s => reads s k
  have hp : ∀ {k s}, s ∈ clauseBoundaryKeywords → k.lexeme = some (kwLexeme s) → p k = true := by
    intro k s hs hk
    exact List.any_eq_true.mpr ⟨s, hs, by simp [reads, hk]⟩
  have hgroup : ∃ k ∈ ys ++ a, p k = true := by
    have hmem : kwLexeme "GROUP" ∈ reading a := by simp [h.group]
    obtain ⟨k, hk, hlex⟩ := List.mem_filterMap.mp hmem
    exact ⟨k, List.mem_append_right _ hk, hp (by simp [clauseBoundaryKeywords]) hlex⟩
  obtain ⟨k, hk⟩ := Option.isSome_iff_exists.mp (List.find?_isSome.mpr hgroup)
  obtain ⟨hkp, y, z, hsplit, hy⟩ := List.find?_eq_some_iff_append.mp hk
  obtain ⟨s, hs, hks⟩ := List.any_eq_true.mp hkp
  have hks : k.lexeme = some (kwLexeme s) := by simpa [reads] using hks
  obtain ⟨g, rfl, hres, hg⟩ := plain_keyword (plain_of_keyword hks) hks
  have hfree : ∀ s ∈ clauseBoundaryKeywords, kwLexeme s ∉ reading y := by
    intro s' hs' hmem
    obtain ⟨j, hj, hjs⟩ := List.mem_filterMap.mp hmem
    have := hy j hj
    rw [hp hs' hjs] at this
    exact absurd this (by decide)
  have hread : reading ys ++ [kwLexeme "GROUP", kwLexeme "BY"] = reading y ++ kwLexeme s :: reading z := by
    rw [← h.group, ← TSql.reading_append, hsplit, TSql.reading_append, TSql.reading_cons, hks]
    rfl
  refine ⟨y, g, z, s, hsplit, hres, hs, hg, hfree, fun hz => ?_, ?_⟩
  · -- `BY` is no clause keyword
    rw [hz] at hread
    have hlast := congrArg List.getLast? hread
    simp only [List.getLast?_append, List.getLast?_cons_cons, List.getLast?_singleton, Option.some_or,
      Option.some.injEq] at hlast
    obtain rfl := kwLexeme_inj.mp hlast
    exact absurd hs (by decide)
  · rcases List.append_eq_append_iff.mp hread with ⟨d, hd, hd'⟩ | ⟨d, hd, hd'⟩
    · cases d with
      | nil => exact Or.inl (by simpa using hd.symm)
      | cons x d =>
        obtain ⟨rfl, -⟩ := List.cons.inj hd'
        have hmem : kwLexeme "GROUP" ∈ reading y := hd ▸ List.mem_append_right _ List.mem_cons_self
        exact absurd hmem (hfree "GROUP" (by simp [clauseBoundaryKeywords]))
    · cases d with
      | nil => exact Or.inl (by simpa using hd)
      | cons x d =>
        obtain ⟨rfl, -⟩ := List.cons.inj hd'
        exact Or.inr ⟨d, hd⟩

/-- **The predicate that the check of the ON clause compares is the one that the server reads**, if there is a symbol
between any two words of it. -/
theorem predicate_of_checkOn {v ys : List Token} {w₂ : Text}
    (h : FromTokens U (lex A t) pre w (v ++ .word w₂ :: ys) a b)
    (hon : (Token.word w₂).lexeme = some (kwLexeme "ON")) (hv : kwLexeme "ON" ∉ reading v)
    (hys : (reading ys).IsChain WordsApart) {p i : Text} {u : Unit} (hp : OkLexeme (.name p)) (hi : OkLexeme (.name i))
    (hc : checkOn U p i t = .ok u) : ∃ c d, ((c = (p, colProductId) ∧ d = (i, colProductId)) ∨
      (c = (i, colProductId) ∧ d = (p, colProductId))) ∧
      reading ys = columnLexemes c ++ .symbol '=' :: columnLexemes d := by
  obtain ⟨m, hm, hstop⟩ := h.search_on hon hv
  obtain ⟨y, g, z, s, hsplit, hres, hs, hg, hfree, hz, hread⟩ := h.exists_boundary
  have hplain : ∀ k ∈ y ++ .word g :: z, Plain k := by
    intro k hk
    rw [← hsplit] at hk
    exact (List.mem_append.mp hk).elim (fun hk => h.plain_rest k (by simp [hk])) (h.plain_group k)
  have hy : ∀ k ∈ y, Plain k := fun k hk => hplain k (by simp [hk])
  obtain ⟨k, vs, hk, hkp⟩ := exists_plain_of_reading (x := z) (y := b) (fun k hk => hplain k (by simp [hk])) hz
  have hl : lex A t = (pre ++ .word w :: v ++ [.word w₂]) ++ (y ++ .word g :: k :: vs) := by
    rw [h.tokens, ← hk, show pre ++ .word w :: v ++ [.word w₂] ++ (y ++ .word g :: (z ++ b)) =
      pre ++ .word w :: v ++ [.word w₂] ++ ((y ++ .word g :: z) ++ b) by simp, ← hsplit]
    simp
  have hstop' : m.stop.after = textOf (y ++ .word g :: k :: vs) := by
    rw [hstop, hsplit, ← hk]
    simp
  have hclause := extractClauseAfter_tokens hm hstop' hl hy hfree hres ⟨s, hs, hg⟩ hkp
  -- the normal form of the clause
  obtain ⟨c, hc, hmem⟩ := checkOn_ok.mp hc
  obtain rfl : strip (textOf y) = c := Option.some.inj (hclause.symm.trans hc)
  rw [strip_normalize, normalize_textOf hy] at hmem
  have hcolumn : OkLexeme (.name colProductId) := by
    refine ⟨by decide +kernel, by decide, ?_⟩
    exact List.all_eq_true.mp (show colProductId.all plainPart = true by decide +kernel)
  have hchain : (reading y).IsChain WordsApart := by
    rcases hread with heq | ⟨d, heq⟩
    · rwa [← heq]
    · rw [heq] at hys
      exact hys.left_of_append
  have hspelled : ∀ c d, OkLexeme (.name c) → OkLexeme (.name d) →
      (reading y).flatMap spell = dot c colProductId ++ ['='] ++ dot d colProductId →
      reading ys = columnLexemes (c, colProductId) ++ .symbol '=' :: columnLexemes (d, colProductId) := by
    intro c d hc hd hspell
    have heq : reading y = columnLexemes (c, colProductId) ++ .symbol '=' :: columnLexemes (d, colProductId) := by
      refine lexemes_of_spell (okLexeme_reading hy) ?_ hchain ?_ ?_
      · have hdot : OkLexeme (.symbol '.') := show plainPart '.' = false by decide
        have hequals : OkLexeme (.symbol '=') := show plainPart '=' = false by decide
        simp [columnLexemes, hc, hd, hcolumn, hdot, hequals]
      · simp [columnLexemes, WordsApart, isWordLexeme]
      · rw [hspell]
        simp [columnLexemes, spell, dot]
    rcases hread with hread | ⟨l, hread⟩
    · rw [hread, heq]
    · -- the keyword would stand next to the last name
      rw [hread, heq, show columnLexemes (c, colProductId) ++ .symbol '=' :: columnLexemes (d, colProductId) ++
        kwLexeme s :: l = (columnLexemes (c, colProductId) ++ [.symbol '=', .name d, .symbol '.']) ++
          .name colProductId :: kwLexeme s :: l by simp [columnLexemes]] at hys
      exact absurd hys.right_of_append.rel (by simp [WordsApart, isWordLexeme, kwLexeme])
  simp only [allowedOnPredicates, List.mem_cons, List.not_mem_nil, or_false] at hmem
  rcases hmem with hmem | hmem
  · exact ⟨_, _, Or.inl ⟨rfl, rfl⟩, hspelled p i hp hi hmem⟩
  · exact ⟨_, _, Or.inr ⟨rfl, rfl⟩, hspelled i p hi hp hmem⟩

end FromTokens

end DataAgent.Guardrail
