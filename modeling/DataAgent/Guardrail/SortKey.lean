import DataAgent.Guardrail.Tokens

/-!
# The first sort key

The pattern for the first sort key, at an `ORDER` that plain tokens follow, finds `ProductID` ascending only where the
server reads it (**`sort_key_of_match`**).
-/

namespace DataAgent.Guardrail
open Python Regex Pattern
open TSql (Alphabet Token Lexeme Name Plain lex textOf reading plainStart plainPart fold isReserved kwLexeme)

variable {U : Unicode} {A : Alphabet}

/-! ## The pattern -/

def qualifierPart : Pattern := cat [ident, chr '.']
def ascendingPart : Pattern := cat [plus isSpace, kw "ASC", wordBoundary]
def sortKeyPart : Pattern := seq (opt (chr '[')) (seq (kw "ProductID") (seq (opt (chr ']')) ascendingPart))

theorem orderByFirstKeyPattern_eq : orderByFirstKeyPattern = seq (kw "ORDER") (seq (plus isSpace) (seq (kw "BY")
    (seq (plus isSpace) (seq (opt qualifierPart) sortKeyPart)))) := rfl

theorem ascendingPart_outside : Outside (isWord U) ascendingPart := plus_isSpace_outside _

theorem sortKeyPart_refuses : Refuses (isWord U) sortKeyPart isSpace := by
  refine Refuses.opt_seq (Refuses.char fun c hc => ?_) (keyword_productId.refuses _ fun _ hc => isWord_of_isSpace U hc)
  rw [beq_eq_false_iff_ne]
  rintro rfl
  exact absurd hc (by decide)

theorem sortKey_refuses : Refuses (isWord U) (seq (opt qualifierPart) sortKeyPart) isSpace :=
  Refuses.opt_seq (Refuses.seq _ refuses_ident) sortKeyPart_refuses

/-! ## Tokens -/

/-- `ASC` is found after a sort key only where the server reads it. -/
theorem ascending_of_run {t : Text} {x bs us : List Token} {k : Token} {y : Lexeme}
    (hl : lex A t = x ++ (bs ++ k :: us)) (hp : ∀ j ∈ bs, Plain j) (hbs : ∀ j ∈ bs, j.lexeme = none) (hk : Plain k)
    (hy : k.lexeme = some y) (hnext : y ≠ kwLexeme "ASC" → ∃ j vs, us = j :: vs ∧ Plain j) {b : Text}
    (hrun : run (isWord U) ascendingPart ⟨b, textOf (bs ++ k :: us)⟩ ≠ []) : y = kwLexeme "ASC" := by
  by_contra hne
  obtain ⟨j, vs, rfl, hj⟩ := hnext hne
  have hhead := head_of_lexeme hk hy (textOf (j :: vs))
  apply hrun
  rw [TSql.textOf_append, TSql.textOf_cons, ascendingPart, cat_cons]
  rcases spaces_of_silent hp hbs with hg | hg
  · rw [hg, List.nil_append, run_plus_seq_of_not _ hhead]
  · have hout : Outside (isWord U) (cat [wordBoundary]) := Outside.wordBoundary _
    rw [cat_cons, run_plus_seq (kw_refuses_isSpace (by simp [patternKeywords]) _) hg.1 hg.2 hhead, ← TSql.textOf_cons]
    exact run_kw_token (by simp [patternKeywords]) hout (x := x ++ bs) (by simpa using hl) hk hj
      (by rw [hy]; simpa using hne) (by rw [hy]; simp) _

/-- A sort key that the pattern finds at a name: its column is `ProductID`, and `ASC` follows. -/
theorem sort_key_of_run {t : Text} {x bs us : List Token} {n : Name} {k : Token} {y : Lexeme}
    (hl : lex A t = x ++ n.token :: (bs ++ k :: us)) (hp : ∀ j ∈ bs, Plain j) (hbs : ∀ j ∈ bs, j.lexeme = none)
    (hk : Plain k) (hy : k.lexeme = some y) (hnext : y ≠ kwLexeme "ASC" → ∃ j vs, us = j :: vs ∧ Plain j) {b : Text}
    (hrun : run (isWord U) sortKeyPart ⟨b, raw n ++ textOf (bs ++ k :: us)⟩ ≠ []) :
    fold n.text = colProductId ∧ y = kwLexeme "ASC" := by
  have hends : Ends U n (textOf (bs ++ k :: us)) := by
    obtain ⟨j, vs, hj, hjp⟩ : ∃ j vs, bs ++ k :: us = j :: vs ∧ Plain j := by
      cases bs with
      | nil => exact ⟨k, us, rfl, hk⟩
      | cons i bs => exact ⟨i, bs ++ k :: us, rfl, hp i (by simp)⟩
    rw [hj] at hl ⊢
    exact ends_of_lex n hl hjp
  have hclose : ∀ b t : Text, run (isWord U) ascendingPart ⟨b, ']' :: t⟩ = [] :=
    fun b t => run_plus_seq_of_not _ (by simp; decide)
  rw [sortKeyPart, run_bracketed_kw keyword_productId ascendingPart_outside hclose n hends] at hrun
  split at hrun
  · rename_i hkw
    refine ⟨?_, ascending_of_run (x := x ++ [n.token]) (by simpa using hl) hp hbs hk hy hnext hrun⟩
    rw [isKw_iff n.part] at hkw
    rw [hkw]
    decide
  · exact absurd rfl hrun

/-- `[q .] c`. -/
def sortKeyLexemes (q : Option Text) (c : Text) : List Lexeme :=
  (q.toList.flatMap fun q => [.name q, .symbol '.']) ++ [.name c]

/-- A qualifier is a name with a dot right after it. -/
theorem run_qualifierPart (n : Name) {t : Text} (ht : Ends U n t) (q : Pattern) (b : Text) :
    run (isWord U) (seq qualifierPart q) ⟨b, raw n ++ t⟩ =
      run (isWord U) (seq (chr '.') q) ⟨(raw n).reverse ++ b, t⟩ := by
  have hdot : ∀ s : Cursor, run (isWord U) (seq (cat [chr '.']) q) s = run (isWord U) (seq (chr '.') q) s := by
    intro s
    rw [cat_cons, run_seq_assoc, run, run]
    simp only [cat_nil, run_empty_seq]
  rw [qualifierPart, cat_cons, run_seq_assoc, run_ident_seq _ _ n ht, hdot]
  · intro b d t hd
    have hne : '.' ∉ (d :: t).head? := by
      intro hmem
      obtain rfl : d = '.' := by simpa using hmem
      exact absurd hd (by decide)
    rw [hdot, run_chr_seq_of_ne _ hne]
  · intro b t
    rw [hdot, run_chr_seq_of_ne _ (by simp)]

/-- What may follow a sort key does not start with a dot. -/
theorem head_ne_dot {bs us : List Token} {k : Token} {y : Lexeme} (hp : ∀ j ∈ bs, Plain j)
    (hbs : ∀ j ∈ bs, j.lexeme = none) (hk : Plain k) (hy : k.lexeme = some y) (hne : y ≠ .symbol '.') :
    '.' ∉ (textOf (bs ++ k :: us)).head? := by
  rw [TSql.textOf_append, TSql.textOf_cons]
  rcases spaces_of_silent hp hbs with hg | hg
  · rw [hg, List.nil_append]
    cases hk with
    | blank => simp [Token.lexeme] at hy
    | @keyword w h =>
      obtain ⟨d, w', rfl⟩ := List.exists_cons_of_ne_nil (TSql.plainStart_of_isReserved h).1
      have hd := reserved_part h d (by simp)
      rw [Token.text]
      intro hmem
      obtain rfl : d = '.' := by simpa using hmem
      exact absurd hd (by decide)
    | name n =>
      obtain ⟨d, hd, h⟩ := head_raw n (textOf us)
      rw [raw_token, Option.mem_def.mp hd]
      intro hmem
      obtain rfl : d = '.' := by simpa using hmem
      exact absurd h (by decide)
    | @symbol d _ _ _ _ =>
      rw [Token.text]
      intro hmem
      obtain rfl : d = '.' := by simpa using hmem
      exact hne (by simpa [Token.lexeme] using hy.symm)
  · obtain ⟨d, g, hd⟩ := List.exists_cons_of_ne_nil hg.1
    rw [hd]
    intro hmem
    obtain rfl : d = '.' := by simpa using hmem
    exact absurd (hg.2 '.' (by simp [hd])) (by decide)

/-- The first sort key, from its first name on. -/
theorem sort_key_tokens {t : Text} {x ts us : List Token} {n : Name} {q : Option Text} {c : Text} {r : Lexeme}
    {l : List Lexeme} (hl : lex A t = x ++ n.token :: (ts ++ us)) (hp : ∀ k ∈ ts, Plain k)
    (hr : .name (fold n.text) :: reading ts = sortKeyLexemes q c ++ r :: l)
    (hdot : r ≠ .symbol '.') (hne : r ≠ kwLexeme "ASC" → l ≠ []) {b : Text}
    (hrun : run (isWord U) (seq (opt qualifierPart) sortKeyPart) ⟨b, raw n ++ textOf (ts ++ us)⟩ ≠ []) :
    c = colProductId ∧ r = kwLexeme "ASC" := by
  have hends : Ends U n (textOf (ts ++ us)) := by
    have hts : reading ts ≠ [] := by
      intro h0
      rw [h0] at hr
      have := congrArg List.length hr
      simp [sortKeyLexemes] at this
      omega
    obtain ⟨k, vs, hk, hkp⟩ := exists_plain_of_reading (y := us) hp hts
    rw [hk] at hl ⊢
    exact ends_of_lex n hl hkp
  rw [run_opt_seq, run_qualifierPart n hends] at hrun
  -- the token after a key is plain
  have hnext : ∀ {vs : List Token}, (∀ k ∈ vs, Plain k) → reading vs = l → r ≠ kwLexeme "ASC" →
      ∃ j ws, vs ++ us = j :: ws ∧ Plain j :=
    fun hvs hread hasc => exists_plain_of_reading hvs (hread ▸ hne hasc)
  cases q with
  | none =>
    simp only [sortKeyLexemes, Option.toList_none, List.flatMap_nil, List.nil_append, List.singleton_append,
      List.cons.injEq, Lexeme.name.injEq] at hr
    obtain ⟨bs, k, vs, rfl, hbs, hk, hread⟩ := reading_eq_cons hr.2
    have hkp := hp k (by simp)
    have hassoc : bs ++ k :: vs ++ us = bs ++ k :: (vs ++ us) := by simp
    rw [hassoc] at hl hrun
    rw [run_chr_seq_of_ne _ (head_ne_dot (fun j hj => hp j (by simp [hj])) hbs hkp hk hdot), List.nil_append] at hrun
    rw [← hr.1]
    exact sort_key_of_run hl (fun j hj => hp j (by simp [hj])) hbs hkp hk
      (hnext (fun j hj => hp j (by simp [hj])) hread) hrun
  | some q =>
    simp only [sortKeyLexemes, Option.toList_some, List.flatMap_cons, List.flatMap_nil, List.append_nil,
      List.cons_append, List.nil_append, List.cons.injEq, Lexeme.name.injEq] at hr
    obtain ⟨b₁, k₁, ts₁, rfl, hb₁, hk₁, hr₁⟩ := reading_eq_cons hr.2
    obtain ⟨b₂, k₂, ts₂, rfl, hb₂, hk₂, hr₂⟩ := reading_eq_cons hr₁
    obtain ⟨b₃, k₃, ts₃, rfl, hb₃, hk₃, hr₃⟩ := reading_eq_cons hr₂
    have hp₁ := hp k₁ (by simp)
    obtain rfl := plain_symbol hp₁ hk₁
    obtain ⟨n₂, rfl, hn₂⟩ := plain_name (hp k₂ (by simp)) hk₂
    have hassoc : b₁ ++ .symbol '.' :: (b₂ ++ n₂.token :: (b₃ ++ k₃ :: ts₃)) ++ us =
        b₁ ++ .symbol '.' :: (b₂ ++ n₂.token :: (b₃ ++ k₃ :: (ts₃ ++ us))) := by simp
    rw [hassoc] at hl hrun
    -- without a qualifier no key is found
    have hnone : run (isWord U) sortKeyPart ⟨b, raw n ++
        textOf (b₁ ++ .symbol '.' :: (b₂ ++ n₂.token :: (b₃ ++ k₃ :: (ts₃ ++ us))))⟩ = [] := by
      by_contra hsome
      have hplain : ∃ j vs, b₂ ++ n₂.token :: (b₃ ++ k₃ :: (ts₃ ++ us)) = j :: vs ∧ Plain j := by
        have := exists_plain_of_reading (x := b₂ ++ n₂.token :: b₃) (y := k₃ :: (ts₃ ++ us))
          (fun j hj => hp j (by simp at hj ⊢; tauto)) (by simp [TSql.reading_cons])
        simpa using this
      have := (sort_key_of_run hl (fun j hj => hp j (by simp [hj])) hb₁ hp₁ hk₁ (fun _ => hplain) hsome).2
      exact absurd this (by simp [kwLexeme])
    rw [hnone, List.append_nil, TSql.textOf_append, TSql.textOf_cons, Token.text_symbol] at hrun
    rcases spaces_of_silent (fun j hj => hp j (by simp [hj])) hb₁ with hg₁ | hg₁
    · rw [hg₁, List.nil_append, List.singleton_append, run_chr_seq, TSql.textOf_append, TSql.textOf_cons,
        raw_token] at hrun
      rcases spaces_of_silent (fun j hj => hp j (by simp [hj])) hb₂ with hg₂ | hg₂
      · rw [hg₂, List.nil_append] at hrun
        rw [← hn₂]
        exact sort_key_of_run (x := x ++ n.token :: (b₁ ++ .symbol '.' :: b₂)) (by rw [hl]; simp)
          (fun j hj => hp j (by simp [hj])) hb₃ (hp k₃ (by simp)) hk₃
          (hnext (fun j hj => hp j (by simp [hj])) hr₃) hrun
      · obtain ⟨d, g, hd⟩ := List.exists_cons_of_ne_nil hg₂.1
        rw [hd, List.cons_append] at hrun
        exact absurd (sortKeyPart_refuses _ _ _ (hg₂.2 d (by simp [hd]))) hrun
    · obtain ⟨d, g, hd⟩ := List.exists_cons_of_ne_nil hg₁.1
      refine absurd (run_chr_seq_of_ne _ ?_) hrun
      rw [hd]
      intro hmem
      obtain rfl : d = '.' := by simpa using hmem
      exact absurd (hg₁.2 '.' (by simp [hd])) (by decide)

/-- **A first sort key that the pattern finds at an `ORDER` is, as the server reads it, `ProductID` ascending.** -/
theorem sort_key_of_match {t : Text} {x ts us : List Token} {w b : Text} {q : Option Text} {c : Text} {r : Lexeme}
    {l : List Lexeme} {m : Match} (hl : lex A t = x ++ .word w :: (ts ++ us)) (hres : isReserved w = true)
    (hp : ∀ k ∈ ts, Plain k) (hr : reading ts = kwLexeme "BY" :: (sortKeyLexemes q c ++ r :: l))
    (hdot : r ≠ .symbol '.') (hne : r ≠ kwLexeme "ASC" → l ≠ [])
    (hm : matchAt (isWord U) orderByFirstKeyPattern ⟨b, textOf (.word w :: (ts ++ us))⟩ = some m) :
    c = colProductId ∧ r = kwLexeme "ASC" := by
  have hrun := List.ne_nil_of_mem (mem_run_of_matchAt hm)
  obtain ⟨b₁, k₁, ts₁, rfl, hb₁, hk₁, hr₁⟩ := reading_eq_cons hr
  obtain ⟨v, rfl, hvres, hv⟩ := plain_keyword (hp k₁ (by simp)) hk₁
  obtain ⟨y, l', hy⟩ : ∃ y l', sortKeyLexemes q c ++ r :: l = .name y :: l' := by
    cases q <;> exact ⟨_, _, rfl⟩
  obtain ⟨b₂, k₂, ts₂, rfl, hb₂, hk₂, hr₂⟩ := reading_eq_cons (hr₁.trans hy)
  obtain ⟨n, rfl, hn⟩ := plain_name (hp k₂ (by simp)) hk₂
  have hwword : ∀ c ∈ w, isWord U c = true := fun c hc => isWord_of_plainPart U (reserved_part hres c hc)
  have hvword : ∀ c ∈ v, isWord U c = true := fun c hc => isWord_of_plainPart U (reserved_part hvres c hc)
  have hvne := (TSql.plainStart_of_isReserved hvres).1
  have hassoc : b₁ ++ .word v :: (b₂ ++ n.token :: ts₂) ++ us = b₁ ++ .word v :: (b₂ ++ n.token :: (ts₂ ++ us)) := by
    simp
  rw [hassoc] at hl hrun
  -- after `ORDER`
  have hafter : (textOf (b₁ ++ .word v :: (b₂ ++ n.token :: (ts₂ ++ us)))).head?.any (isWord U) = false := by
    obtain ⟨j, vs, hj, hjp⟩ := exists_plain_of_reading (y := us) hp (by rw [hr]; simp)
    rw [hassoc] at hj
    rw [hj] at hl ⊢
    exact (head_after_word_token hl hjp).1
  have hafter' : (textOf (b₂ ++ n.token :: (ts₂ ++ us))).head?.any (isWord U) = false := by
    obtain ⟨j, vs, hj, hjp⟩ := exists_plain_of_reading (x := b₂ ++ n.token :: ts₂) (y := us)
      (fun j hj => hp j (by simp at hj ⊢; tauto)) (by simp [TSql.reading_cons])
    have hj' : b₂ ++ n.token :: (ts₂ ++ us) = j :: vs := by simpa using hj
    have hl' : lex A t = (x ++ .word w :: b₁) ++ .word v :: j :: vs := by rw [hl, hj']; simp
    rw [hj']
    exact (head_after_word_token hl' hjp).1
  rw [orderByFirstKeyPattern_eq, TSql.textOf_cons, Token.text_word,
    run_kw_seq_word (keyword U (by simp [patternKeywords, clauseBoundaryKeywords])) (plus_isSpace_outside _) hwword
      hafter] at hrun
  split at hrun
  · rw [TSql.textOf_append, TSql.textOf_cons, Token.text_word] at hrun hafter
    rcases spaces_of_silent (fun j hj => hp j (by simp [hj])) hb₁ with hg₁ | hg₁
    · -- the words would be one
      obtain ⟨d, v', rfl⟩ := List.exists_cons_of_ne_nil hvne
      rw [hg₁] at hafter
      simp [hvword d] at hafter
    · rw [run_blank_kw (by simp [patternKeywords]) (plus_isSpace_outside _) hg₁ hvne hvword hafter'] at hrun
      split at hrun
      · rw [TSql.textOf_append, TSql.textOf_cons, raw_token] at hrun
        have hspace := head_raw_not_space n (textOf (ts₂ ++ us))
        rcases spaces_of_silent (fun j hj => hp j (by simp [hj])) hb₂ with hg₂ | hg₂
        · rw [hg₂, List.nil_append] at hrun
          exact absurd (run_plus_seq_of_not _ hspace) hrun
        · rw [run_plus_seq sortKey_refuses hg₂.1 hg₂.2 hspace] at hrun
          exact sort_key_tokens (x := x ++ .word w :: (b₁ ++ .word v :: b₂)) (by rw [hl]; simp)
            (fun j hj => hp j (by simp [hj])) (by rw [hn, hr₂, hy]) hdot hne hrun
      · exact absurd rfl hrun
  · exact absurd rfl hrun

end DataAgent.Guardrail
