import DataAgent.Guardrail.Tokens
import DataAgent.Python.Strip

/-!
# Clauses cut out of a text

The clause that the guardrail takes from a text ends at the first word that is a clause keyword. Over plain tokens that
is the first such keyword token (**`extractClauseAfter_tokens`**).
-/

namespace DataAgent.Guardrail
open Python Regex Pattern
open TSql (Alphabet Token Lexeme Name Plain lex textOf reading plainStart plainPart fold isReserved kwLexeme)

variable {U : Unicode} {A : Alphabet}

theorem clauseBoundaryKeywords_mem : ∀ s ∈ clauseBoundaryKeywords, s ∈ patternKeywords := by
  intro s hs
  rw [patternKeywords, List.mem_append, List.mem_append]
  exact Or.inl (Or.inr hs)

theorem boundaryKeywords : ∀ s ∈ clauseBoundaryKeywords, Keyword (isWord U) s :=
  fun s hs => keyword U (clauseBoundaryKeywords_mem s hs)

theorem clauseBoundaryPattern_eq : clauseBoundaryPattern =
    seq wordBoundary (seq (oneOf (clauseBoundaryKeywords.map kw)) (cat [wordBoundary])) := rfl

theorem boundary_leads : Leads (isWord U) isSpace clauseBoundaryKeywords
    (seq (oneOf (clauseBoundaryKeywords.map kw)) (cat [wordBoundary])) :=
  leads_kws boundaryKeywords (Outside.wordBoundary _)

/-- A keyword with a boundary after it, at a word. -/
theorem matchAt_kws {ks : List String} (hk : ∀ s ∈ ks, Keyword (isWord U) s) {w : Text} {ps : List Piece}
    (hs : Segmented (isWord U) isSpace (.word w :: ps)) {k : String} (hkm : k ∈ ks) (hkw : isKw k w = true) (b : Text) :
    matchAt (isWord U) (seq (oneOf (ks.map kw)) (cat [wordBoundary])) ⟨b, w ++ join ps⟩ =
      some ⟨⟨b, w ++ join ps⟩, ⟨w.reverse ++ b, join ps⟩, []⟩ := by
  have hout : Outside (isWord U) (cat [wordBoundary]) := Outside.wordBoundary _
  have hrun : first (isWord U) (cat [wordBoundary]) ⟨w.reverse ++ b, join ps⟩ =
      some (⟨w.reverse ++ b, join ps⟩, []) := by
    rw [cat_cons, first, run_anchored_of_boundary (boundary_after hs b)]
    rfl
  rw [matchAt, first_kws_seq_word hk hout hs.head.2 (head_after_word hs) hkm hkw, hrun]
  rfl

/-- **The first clause keyword of a text of plain tokens.** -/
theorem search_boundary_tokens {t : Text} {x ts us : List Token} {g : Text} {k : Token}
    (hl : lex A t = x ++ (ts ++ .word g :: k :: us)) (hp : ∀ j ∈ ts, Plain j)
    (hfree : ∀ s ∈ clauseBoundaryKeywords, kwLexeme s ∉ reading ts) (hres : isReserved g = true)
    (hg : ∃ s ∈ clauseBoundaryKeywords, fold g = s.toList) (hk : Plain k) :
    ∃ m, search (isWord U) clauseBoundaryPattern (textOf (ts ++ .word g :: k :: us)) = some m ∧
      m.start.before.length = (textOf ts).length := by
  obtain ⟨s, hs, hgs⟩ := hg
  have hseg := segmented_of_lex (U := U) (y := ts ++ [.word g]) (by simpa using hl)
    (fun j hj => (List.mem_append.mp hj).elim (hp j) fun h => by
      obtain rfl := List.mem_singleton.mp h
      exact .keyword hres) hk
  rw [allPieces_append, List.append_assoc] at hseg
  have hword : allPieces [Token.word g] = [.word g] := rfl
  rw [hword, List.singleton_append] at hseg
  have hkw : isKw s g = true := by
    rw [isKw_iff (reserved_part hres), patternKeywords_upper s (clauseBoundaryKeywords_mem s hs), hgs]
  have hjoin : textOf (ts ++ .word g :: k :: us) =
      join (allPieces ts ++ .word g :: cut (isWord U) isSpace (textOf (k :: us))) := by
    rw [join_append, join_cons, join_cut, join_allPieces hp]
    simp
  have hm := matchAt_kws boundaryKeywords hseg.right hs hkw ((join (allPieces ts)).reverse ++ [])
  have hsearch := searchWords_word hm
  rw [← searchWords_skip boundary_leads hseg (free_of_reading hp clauseBoundaryKeywords_mem hfree),
    ← search_anchored (startsAtWord_kws boundaryKeywords _) hseg, ← clauseBoundaryPattern_eq, ← hjoin] at hsearch
  exact ⟨_, hsearch, by simp [join_allPieces hp]⟩

theorem mem_run_boundary_seq {q : Pattern} {s : Cursor} {x : Cursor × Groups}
    (h : x ∈ run (isWord U) (seq wordBoundary q) s) : x ∈ run (isWord U) q s := by
  by_cases hb : atBoundary (isWord U) s = true
  · rwa [run_anchored_of_boundary hb] at h
  · rw [run_seq_of_nil q (by simp [run, hb])] at h
    simp at h

/-- A match of a keyword at a word ends where the word does. -/
theorem stop_of_keyword {s : String} (hs : s ∈ patternKeywords) {w t b : Text} (hw : ∀ c ∈ w, isWord U c = true)
    (ht : t.head?.any (isWord U) = false) {m : Match}
    (hm : matchAt (isWord U) (keywordPattern s) ⟨b, w ++ t⟩ = some m) :
    m.stop = ⟨w.reverse ++ b, t⟩ := by
  have hout : Outside (isWord U) (cat [wordBoundary]) := Outside.wordBoundary _
  have hmem := mem_run_boundary_seq (q := cat [kw s, wordBoundary]) (mem_run_of_matchAt hm)
  rw [cat_cons, run_kw_seq_word (keyword U hs) hout hw ht] at hmem
  split at hmem
  · have := mem_run_boundary_seq (q := cat []) hmem
    simp only [cat_nil, run, List.mem_singleton, Prod.mk.injEq] at this
    exact this.1
  · simp at hmem

/-- A match of a keyword and `BY` ends after `BY`. -/
theorem stop_of_keywordBy {s : String} (hs : s ∈ patternKeywords) {t : Text} {x bs us : List Token} {w v : Text}
    {k : Token} (hl : lex A t = x ++ .word w :: (bs ++ .word v :: k :: us)) (hp : ∀ j ∈ bs, Plain j)
    (hbs : ∀ j ∈ bs, j.lexeme = none) (hw : isReserved w = true) (hv : isReserved v = true) (hk : Plain k) {b : Text}
    {m : Match} (hm : matchAt (isWord U) (cat [wordBoundary, kw s, plus isSpace, kw "BY", wordBoundary])
      ⟨b, textOf (.word w :: (bs ++ .word v :: k :: us))⟩ = some m) : m.stop.after = textOf (k :: us) := by
  have hmem := mem_run_boundary_seq (q := cat [kw s, plus isSpace, kw "BY", wordBoundary]) (mem_run_of_matchAt hm)
  have hwword : ∀ c ∈ w, isWord U c = true := fun c hc => isWord_of_plainPart U (reserved_part hw c hc)
  have hvword : ∀ c ∈ v, isWord U c = true := fun c hc => isWord_of_plainPart U (reserved_part hv c hc)
  have hvne := (TSql.plainStart_of_isReserved hv).1
  have hafter : (textOf (bs ++ .word v :: k :: us)).head?.any (isWord U) = false := by
    obtain ⟨j, vs, hj, hjp⟩ := exists_plain_of_reading (x := bs ++ [.word v]) (y := k :: us)
      (fun j hj => (List.mem_append.mp hj).elim (hp j) fun h => by
        obtain rfl := List.mem_singleton.mp h
        exact .keyword hv) (by simp [TSql.reading_cons, Token.lexeme])
    have hj' : bs ++ .word v :: k :: us = j :: vs := by simpa using hj
    rw [hj'] at hl ⊢
    exact (head_after_word_token hl hjp).1
  have hafter' : (textOf (k :: us)).head?.any (isWord U) = false := by
    have hl' : lex A t = (x ++ .word w :: bs) ++ .word v :: k :: us := by rw [hl]; simp
    exact (head_after_word_token hl' hk).1
  have hout : Outside (isWord U) (cat [wordBoundary]) := Outside.wordBoundary _
  have hout' : Outside (isWord U) (cat [plus isSpace, kw "BY", wordBoundary]) := plus_isSpace_outside _
  rw [cat_cons, TSql.textOf_cons, Token.text_word, run_kw_seq_word (keyword U hs) hout' hwword hafter] at hmem
  split at hmem
  · rw [TSql.textOf_append, TSql.textOf_cons, Token.text_word] at hmem hafter
    rcases spaces_of_silent hp hbs with hg | hg
    · -- the words would be one
      obtain ⟨d, v', rfl⟩ := List.exists_cons_of_ne_nil hvne
      rw [hg] at hafter
      simp [hvword d] at hafter
    · rw [cat_cons, cat_cons, run_blank_kw (by simp [patternKeywords]) hout hg hvne hvword hafter'] at hmem
      split at hmem
      · have := mem_run_boundary_seq (q := cat []) hmem
        simp only [cat_nil, run, List.mem_singleton, Prod.mk.injEq] at this
        rw [this.1]
      · simp at hmem
  · simp at hmem

theorem strip_normalize (t : Text) : normalizePredicate U (strip t) = normalizePredicate U t := by
  obtain ⟨g, k, ht, hg, hk⟩ := strip_split t
  conv_rhs => rw [ht, normalize_append, normalize_spaces hg, List.nil_append, normalize_append, normalize_spaces hk,
    List.append_nil]

/-- **The clause after a match, over plain tokens.** -/
theorem extractClauseAfter_tokens {t cleaned : Text} {x y z : List Token} {g : Text} {k : Token} {r : Pattern}
    {m : Match} (hm : search (isWord U) r cleaned = some m) (hstop : m.stop.after = textOf (y ++ .word g :: k :: z))
    (hl : lex A t = x ++ (y ++ .word g :: k :: z)) (hp : ∀ j ∈ y, Plain j)
    (hfree : ∀ s ∈ clauseBoundaryKeywords, kwLexeme s ∉ reading y) (hres : isReserved g = true)
    (hg : ∃ s ∈ clauseBoundaryKeywords, fold g = s.toList) (hk : Plain k) :
    extractClauseAfter U cleaned r = some (strip (textOf y)) := by
  obtain ⟨m', hm', hlen⟩ := search_boundary_tokens (U := U) hl hp hfree hres hg hk
  rw [extractClauseAfter, hm, Option.map_some]
  simp only [hstop, hm', hlen]
  rw [TSql.textOf_append, List.take_left]

end DataAgent.Guardrail
