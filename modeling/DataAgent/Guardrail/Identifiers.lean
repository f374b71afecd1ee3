import DataAgent.Guardrail.Agreement

/-!
# The identifier allowlist

Rule 11 against the identifier tokens of an accepted text.

* `fragments` : what the rule reads; **`identifiers_eq_fragments`** : the matches of its pattern are these;
* `Whole` : a token that is read as it is; `whole_read` : its name is one of the fragments;
* **`names_approved_iff`** : every identifier is on the list exactly if those that are not read whole are.
-/

namespace DataAgent.Guardrail
open Python Regex Pattern
open TSql (Alphabet Token lex textOf fold plainStart plainPart unquote closeQuote closer)
open Agent (MetadataContext)

/-! ## What the rule reads -/

/-- A run of letters, digits and underscores, without the digits it starts with. -/
def fragment : Piece → Option Text
  | .word w => if w.dropWhile Char.isDigit = [] then none else some (w.dropWhile Char.isDigit)
  | _ => none

def fragments (t : Text) : List Text := (cut plainPart isSpace t).filterMap fragment

/-- The identifier of a match. -/
def matched (m : Match) : Text := (m.group 1).getD []

section
variable {W : Char → Bool}

/-- The word of a match, and the bracket after it. -/
def wordPart : Pattern := cat [group 1 (cat [char plainStart, many plainPart]), opt (chr ']')]

theorem identifierPattern_eq : identifierPattern = seq (opt (chr '[')) wordPart := rfl

/-- The cursor after a word, past the bracket that closes it. -/
def afterWord (w b t : Text) : Cursor :=
  if ']' ∈ t.head? then ⟨']' :: (w.reverse ++ b), t.tail⟩ else ⟨w.reverse ++ b, t⟩

theorem first_wordPart {w t : Text} (hw : w.head?.any plainStart = true) (hpart : ∀ c ∈ w, plainPart c = true)
    (ht : t.head?.any plainPart = false) (b : Text) :
    first W wordPart ⟨b, w ++ t⟩ = some (afterWord w b t, [(1, w)]) := by
  obtain ⟨c, w', rfl⟩ := List.exists_cons_of_ne_nil (l := w) (by rintro rfl; simp at hw)
  have hc : plainStart c = true := by simpa using hw
  have hchar : first W (char plainStart) ⟨b, c :: (w' ++ t)⟩ = some (⟨c :: b, w' ++ t⟩, []) := by
    simp [first, run, hc]
  have hmany := first_many (W := W) (fun d hd => hpart d (List.mem_cons_of_mem c hd)) ht (c :: b)
  have hword : first W (cat [char plainStart, many plainPart]) ⟨b, c :: w' ++ t⟩ =
      some (⟨(c :: w').reverse ++ b, t⟩, []) := by
    simpa [cat_cons, cat_nil] using first_seq_of_first hchar (first_seq_of_first hmany (first_empty _))
  have hgroup := first_group 1 hword
  rw [consumed_append] at hgroup
  have hclose : first W (cat [opt (chr ']')]) ⟨(c :: w').reverse ++ b, t⟩ = some (afterWord (c :: w') b t, []) := by
    rw [cat_cons, cat_nil, afterWord]
    split
    · rename_i hbr
      obtain ⟨t', rfl⟩ := List.head?_eq_some_iff.mp hbr
      exact first_seq_of_first (first_opt_chr ']' _ t') (first_empty _)
    · rename_i hbr
      exact first_seq_of_first (first_opt_chr_of_ne hbr) (first_empty _)
  exact first_seq_of_first hgroup hclose

theorem wordPart_refuses {c : Char} (h : plainStart c = false) (b t : Text) : run W wordPart ⟨b, c :: t⟩ = [] :=
  run_seq_of_nil _ (by simp [run, cat_cons, h])

theorem run_identifier_of_not {c : Char} (hc : c ≠ '[') (h : plainStart c = false) (b t : Text) :
    run W identifierPattern ⟨b, c :: t⟩ = [] := by
  rw [identifierPattern_eq, run_opt_chr_seq_of_ne _ (by simpa using hc), wordPart_refuses h]

theorem plainStart_of_not_part {c : Char} (h : plainPart c = false) : plainStart c = false := by
  by_contra hs
  rw [TSql.plainPart_of_plainStart (by simpa using hs)] at h
  exact absurd h (by decide)

/-- What is skipped of a bracket after a word makes no difference. -/
theorem findFrom_close (b t : Text) : findFrom W identifierPattern 1 b (']' :: t) =
    findFrom W identifierPattern 0 b (']' :: t) := by
  have hnone : matchAt W identifierPattern ⟨b, ']' :: t⟩ = none :=
    matchAt_of_run_nil (run_identifier_of_not (by decide) (by decide) b t)
  rw [findFrom, findFrom, hnone]

/-- A scan after a match that stops after the word, or after its bracket. -/
theorem findFrom_afterWord {s w t b : Text} {c : Char} {x : Text} (hx : s ++ w = c :: x) {m : Match}
    (hm : matchAt W identifierPattern ⟨b, s ++ (w ++ t)⟩ = some m) (hstop : m.stop = afterWord w (s.reverse ++ b) t) :
    findFrom W identifierPattern 0 b (s ++ (w ++ t)) =
      m :: findFrom W identifierPattern 0 ((s ++ w).reverse ++ b) t := by
  have hlen : s.length + w.length = x.length + 1 := by simpa using congrArg List.length hx
  have hrev : x.reverse ++ c :: b = (s ++ w).reverse ++ b := by simp [hx]
  have hstart := matchAt_start hm
  have hcons : s ++ (w ++ t) = c :: (x ++ t) := by rw [← List.append_assoc, hx, List.cons_append]
  rw [hcons] at hm ⊢
  simp only [findFrom, hm, hstart, hstop, List.cons.injEq, true_and]
  unfold afterWord
  split
  · rename_i hbr
    obtain ⟨t', rfl⟩ := List.head?_eq_some_iff.mp hbr
    have hk : (']' :: (w.reverse ++ (s.reverse ++ b))).length - b.length - 1 = x.length + 1 := by
      simp only [List.length_cons, List.length_append, List.length_reverse]
      omega
    rw [hk, findFrom_drop _ x _ _ (Nat.le_add_right _ 1), Nat.add_sub_cancel_left, findFrom_close, hrev]
  · have hk : (w.reverse ++ (s.reverse ++ b)).length - b.length - 1 = x.length := by
      simp only [List.length_append, List.length_reverse]
      omega
    rw [hk, findFrom_drop _ x _ _ le_rfl, Nat.sub_self, hrev]

/-- At a word without leading digits. -/
theorem findFrom_word {w t : Text} (hw : w.head?.any plainStart = true) (hpart : ∀ c ∈ w, plainPart c = true)
    (ht : t.head?.any plainPart = false) (b : Text) :
    (findFrom W identifierPattern 0 b (w ++ t)).map matched =
      w :: (findFrom W identifierPattern 0 (w.reverse ++ b) t).map matched := by
  obtain ⟨c, x, rfl⟩ := List.exists_cons_of_ne_nil (l := w) (by rintro rfl; simp at hw)
  have hbr : '[' ∉ (c :: x ++ t).head? := by
    simp only [List.cons_append, List.head?_cons, Option.mem_def, Option.some.injEq]
    rintro rfl
    simp [plainStart] at hw
  have hfirst : first W identifierPattern ⟨b, c :: x ++ t⟩ = some (afterWord (c :: x) b t, [(1, c :: x)]) := by
    simpa [identifierPattern_eq] using first_seq_of_first (first_opt_chr_of_ne hbr) (first_wordPart hw hpart ht b)
  have hm : matchAt W identifierPattern ⟨b, c :: x ++ t⟩ =
      some ⟨⟨b, c :: x ++ t⟩, afterWord (c :: x) b t, [(1, c :: x)]⟩ := by rw [matchAt, hfirst]; rfl
  have hscan := findFrom_afterWord (s := []) (List.nil_append (c :: x)) hm rfl
  rw [List.nil_append, List.nil_append] at hscan
  rw [hscan]
  rfl

/-- A character outside the words changes nothing: an opening bracket becomes a part of the match. -/
theorem findFrom_symbol {c : Char} (hc : plainPart c = false) (b t : Text) :
    (findFrom W identifierPattern 0 b (c :: t)).map matched =
      (findFrom W identifierPattern 0 (c :: b) t).map matched := by
  by_cases hbr : c = '[' ∧ t.head?.any plainStart = true
  · obtain ⟨rfl, hstart⟩ := hbr
    -- the word after the bracket
    have ht : t = t.takeWhile plainPart ++ t.dropWhile plainPart := List.takeWhile_append_dropWhile.symm
    obtain ⟨d, t', rfl⟩ := List.exists_cons_of_ne_nil (l := t) (by rintro rfl; simp at hstart)
    have hd : plainStart d = true := by simpa using hstart
    have hw : ((d :: t').takeWhile plainPart).head?.any plainStart = true := by
      rw [List.takeWhile_cons_of_pos (TSql.plainPart_of_plainStart hd)]
      simpa using hd
    have hpart : ∀ e ∈ (d :: t').takeWhile plainPart, plainPart e = true := fun e he => List.mem_takeWhile_imp he
    have hrest := head_dropWhile plainPart (d :: t')
    generalize (d :: t').takeWhile plainPart = w at *
    generalize (d :: t').dropWhile plainPart = r at *
    rw [ht, findFrom_word hw hpart hrest]
    have hfirst : first W identifierPattern ⟨b, '[' :: (w ++ r)⟩ = some (afterWord w ('[' :: b) r, [(1, w)]) := by
      simpa [identifierPattern_eq] using first_seq_of_first
        (first_opt_chr '[' b (w ++ r)) (first_wordPart hw hpart hrest _)
    have hm : matchAt W identifierPattern ⟨b, ['['] ++ (w ++ r)⟩ =
        some ⟨⟨b, '[' :: (w ++ r)⟩, afterWord w ('[' :: b) r, [(1, w)]⟩ := by
      rw [matchAt, List.singleton_append, hfirst]
      rfl
    have hscan := findFrom_afterWord (List.singleton_append ..) hm rfl
    rw [List.singleton_append] at hscan
    rw [hscan]
    simp [matched, Match.group]
  · have hnone : run W identifierPattern ⟨b, c :: t⟩ = [] := by
      by_cases hc' : c = '['
      · subst hc'
        have hnot : t.head?.any plainStart = false := by simpa using hbr
        rw [identifierPattern_eq, run_opt_chr_seq, wordPart_refuses (by decide), List.append_nil]
        cases t with
        | nil => rfl
        | cons d t => exact wordPart_refuses (by simpa using hnot) _ _
      · exact run_identifier_of_not hc' (plainStart_of_not_part hc) b t
    rw [findFrom, matchAt_of_run_nil hnone]

theorem findFrom_symbols {x : Text} (hx : ∀ c ∈ x, plainPart c = false) (b t : Text) :
    (findFrom W identifierPattern 0 b (x ++ t)).map matched =
      (findFrom W identifierPattern 0 (x.reverse ++ b) t).map matched := by
  induction x generalizing b with
  | nil => rfl
  | cons c x ih =>
    rw [List.cons_append, findFrom_symbol (hx c (by simp)), ih fun d hd => hx d (List.mem_cons_of_mem _ hd)]
    simp

/-- Digits that a word starts with are passed over. -/
theorem findFrom_digits {x : Text} (hx : ∀ c ∈ x, c.isDigit = true) (b t : Text) :
    findFrom W identifierPattern 0 b (x ++ t) = findFrom W identifierPattern 0 (x.reverse ++ b) t := by
  refine findFrom_skip x t b fun x₁ c x₂ h => matchAt_of_run_nil (run_identifier_of_not ?_ ?_ _ _)
  · rintro rfl
    exact absurd (hx '[' (by rw [h]; simp)) (by decide)
  · have hd := hx c (by rw [h]; simp)
    have hascii : c.toNat < 128 := by
      rw [isDigit_iff] at hd
      omega
    exact forall_ascii (P := fun d => d.isDigit = true → plainStart d = false) (by decide) c hascii hd

theorem findFrom_nil (b : Text) : findFrom W identifierPattern 0 b [] = [] := by
  rw [findFrom, matchAt_of_run_nil]
  · rfl
  · rfl

/-- **The pattern of rule 11 reads the words of the text**, without the digits they start with. -/
theorem findFrom_eq_fragments {ps : List Piece} (hs : Segmented plainPart isSpace ps) (b : Text) :
    (findFrom W identifierPattern 0 b (join ps)).map matched = ps.filterMap fragment := by
  induction ps generalizing b with
  | nil => simp [findFrom_nil]
  | cons p ps ih =>
    have ih := ih hs.tail
    have hok := hs.head
    cases p with
    | sym c =>
      rw [join_cons, Piece.text_sym, List.singleton_append, findFrom_symbol hok.1, ih]
      rfl
    | space g =>
      rw [join_cons, Piece.text_space, findFrom_symbols fun c hc => (hok.2 c hc).1, ih]
      rfl
    | word w =>
      have hsplit : w = w.takeWhile Char.isDigit ++ w.dropWhile Char.isDigit := List.takeWhile_append_dropWhile.symm
      have hdigits : ∀ c ∈ w.takeWhile Char.isDigit, c.isDigit = true := fun c hc => List.mem_takeWhile_imp hc
      have hpart : ∀ c ∈ w.dropWhile Char.isDigit, plainPart c = true :=
        fun c hc => hok.2 c ((List.dropWhile_suffix _).subset hc)
      have hhead := head_dropWhile Char.isDigit w
      have hrest := head_after_word hs
      rw [join_cons, Piece.text_word, List.filterMap_cons, fragment]
      conv_lhs => rw [hsplit, List.append_assoc, findFrom_digits hdigits]
      cases hw : w.dropWhile Char.isDigit with
      | nil => rw [if_pos rfl, List.nil_append, ih]
      | cons c x =>
        rw [hw] at hhead hpart
        have hstart : plainStart c = true := by
          have hc := hpart c (by simp)
          have hd : c.isDigit = false := by simpa using hhead
          rw [plainPart, Char.isAlphanum, hd, Bool.or_false] at hc
          exact hc
        rw [if_neg (by simp), findFrom_word (by simpa using hstart) hpart hrest, ih]

theorem identifiers_eq_fragments (t : Text) : (findIter W identifierPattern t).map matched = fragments t := by
  have hs : Segmented plainPart isSpace (cut plainPart isSpace t) := segmented_cut t
  have h := findFrom_eq_fragments (W := W) hs []
  rwa [join_cut] at h

end

/-! ## Identifier tokens -/

section
variable {U : Unicode} {A : Alphabet}

/-- The word characters that a bare identifier is glued to. -/
def glued (pre : List Token) : Token → Text
  | .word _ => (textOf pre).rtakeWhile plainPart
  | _ => []

/-- The identifier `n` of the token `k` is read as it is: it is made of letters, digits and underscores, and what it is
glued to is digits. -/
structure Whole (pre : List Token) (k : Token) (n : Text) : Prop where
  start : n.head?.any plainStart = true
  part : ∀ c ∈ n, plainPart c = true
  digits : ∀ c ∈ glued pre k, c.isDigit = true

/-- `Whole`, decided. -/
def isWhole (pre : List Token) (k : Token) (n : Text) : Bool :=
  n.head?.any plainStart && n.all plainPart && (glued pre k).all Char.isDigit

theorem whole_of_isWhole {pre : List Token} {k : Token} {n : Text} (h : isWhole pre k n = true) : Whole pre k n := by
  rw [isWhole, Bool.and_eq_true, Bool.and_eq_true, List.all_eq_true, List.all_eq_true] at h
  exact ⟨h.1.1, h.1.2, h.2⟩

/-- All identifiers after `pre` are read as they are. -/
def allWhole : List Token → List Token → Bool
  | _, [] => true
  | pre, k :: ts => (match k.lexeme with
    | some (.name n) => isWhole pre k n
    | _ => true) && allWhole (pre ++ [k]) ts

theorem whole_of_allWhole {pre ts x y : List Token} {k : Token} {n : Text} (h : allWhole pre ts = true)
    (hts : ts = x ++ k :: y) (hk : k.lexeme = some (.name n)) : Whole (pre ++ x) k n := by
  induction x generalizing pre ts with
  | nil =>
    subst hts
    rw [List.nil_append, allWhole, hk, Bool.and_eq_true] at h
    rw [List.append_nil]
    exact whole_of_isWhole h.1
  | cons j x ih =>
    subst hts
    rw [List.cons_append, allWhole, Bool.and_eq_true] at h
    have := ih h.2 rfl
    rwa [List.append_assoc] at this

theorem plain_of_fold {w : Text} (hstart : (fold w).head?.any plainStart = true)
    (hpart : ∀ c ∈ fold w, plainPart c = true) : w.head?.any plainStart = true ∧ ∀ c ∈ w, plainPart c = true := by
  refine ⟨?_, fun c hc => ?_⟩
  · cases w with
    | nil => simp [fold] at hstart
    | cons c w => simpa [fold, TSql.plainStart_toUpper] using hstart
  · rw [← TSql.plainPart_toUpper]
    exact hpart _ (List.mem_map_of_mem hc)

/-- **A run of word characters is read without the digits it starts with.** -/
theorem mem_fragments {x ds w y : Text} (hstart : w.head?.any plainStart = true) (hpart : ∀ c ∈ w, plainPart c = true)
    (hds : ∀ c ∈ ds, c.isDigit = true) (hx : x.getLast?.any plainPart = false) (hy : y.head?.any plainPart = false) :
    w ∈ fragments (x ++ ((ds ++ w) ++ y)) := by
  obtain ⟨c, w', rfl⟩ := List.exists_cons_of_ne_nil (l := w) (by rintro rfl; simp at hstart)
  have hdigit : c.isDigit = false := by
    have hc : plainStart c = true := by simpa using hstart
    exact forall_ascii (P := fun d => plainStart d = true → d.isDigit = false) (by decide) c
      (toNat_lt_of_plainPart (TSql.plainPart_of_plainStart hc)) hc
  have hall : ∀ d ∈ ds ++ c :: w', plainPart d = true := by
    intro d hd
    rcases List.mem_append.mp hd with hd | hd
    · simp [plainPart, Char.isAlphanum, hds d hd]
    · exact hpart d hd
  refine List.mem_filterMap.mpr ⟨_, mem_cut_of_run (by simp) hall hx hy, ?_⟩
  have hdrop : (ds ++ c :: w').dropWhile Char.isDigit = c :: w' := by
    rw [List.dropWhile_append_of_pos hds, List.dropWhile_cons_of_neg (by simp [hdigit])]
  rw [fragment, hdrop, if_neg (by simp)]

theorem mem_fragments_of_run {x w y : Text} (hstart : w.head?.any plainStart = true)
    (hpart : ∀ c ∈ w, plainPart c = true) (hx : x.getLast?.any plainPart = false)
    (hy : y.head?.any plainPart = false) : w ∈ fragments (x ++ (w ++ y)) := by
  have h := mem_fragments hstart hpart (List.forall_mem_nil _) hx hy
  rwa [List.nil_append] at h

/-- The closing quote follows an identifier without quotes in it, unless the text ends first. -/
theorem closeQuote_of_unquote {q : Char} (t : Text) (h : q ∉ unquote q (closeQuote q t)) :
    closeQuote q t = unquote q (closeQuote q t) ++ [q] ∨
      (closeQuote q t = unquote q (closeQuote q t) ∧ closeQuote q t = t) := by
  fun_induction closeQuote q t with
  | case1 => exact Or.inr ⟨rfl, rfl⟩
  | case2 c =>
    rw [unquote]
    split
    · rename_i hc
      exact Or.inl (by rw [hc]; rfl)
    · exact Or.inr ⟨rfl, rfl⟩
  | case3 t ih => simp [unquote] at h
  | case4 d t hd => exact Or.inl (by simp [unquote])
  | case5 c d t hc ih =>
    obtain ⟨e, x, hx⟩ : ∃ e x, closeQuote q (d :: t) = e :: x := by
      cases hcl : closeQuote q (d :: t) with
      | nil =>
        cases t with
        | nil => simp [closeQuote] at hcl
        | cons f t =>
          rw [closeQuote] at hcl
          split_ifs at hcl
      | cons e x => exact ⟨e, x, rfl⟩
    have hstep : unquote q (c :: closeQuote q (d :: t)) = c :: unquote q (closeQuote q (d :: t)) := by
      rw [hx, unquote, if_neg hc]
    rw [hstep] at h ⊢
    rcases ih fun hmem => h (List.mem_cons_of_mem _ hmem) with ih | ⟨h1, h2⟩
    · exact Or.inl (by rw [List.cons_append, ← ih])
    · exact Or.inr ⟨by rw [← h1], by rw [h2]⟩

theorem quoted_of_token {c q : Char} {t v : Text} (h : TSql.token A c t = .quoted q v) :
    ∃ e, c = q ∧ closer q = some e ∧ v = closeQuote e t := by
  unfold TSql.token at h
  split_ifs at h
  split at h
  · rename_i e he
    obtain ⟨rfl, rfl⟩ := Token.quoted.inj h
    exact ⟨e, rfl, he, rfl⟩
  · simp at h

theorem not_plainPart_of_closer {q e : Char} (h : closer q = some e) : plainPart q = false ∧ plainPart e = false := by
  unfold closer at h
  split_ifs at h with h1 h2
  · obtain rfl : ']' = e := by simpa using h
    rw [h1]
    decide
  · obtain rfl : q = e := by simpa using h
    rcases h2 with rfl | rfl <;> decide

theorem identPart_of_plainPart {c : Char} (h : plainPart c = true) : TSql.identPart A c = true := by
  rw [plainPart, Char.isAlphanum, Bool.or_eq_true, Bool.or_eq_true] at h
  have hpart : plainPart c = true := by
    rw [plainPart, Char.isAlphanum, Bool.or_eq_true, Bool.or_eq_true]
    exact h
  have hascii := toNat_lt_of_plainPart hpart
  rcases h with (h | h) | h <;> simp [TSql.identPart, TSql.identStart, A.letter_ascii c hascii, h]

/-- **An identifier that is whole is one of the fragments.** -/
theorem whole_read {t : Text} {pre post : List Token} {k : Token} {n : Text} (hl : lex A t = pre ++ k :: post)
    (hk : k.lexeme = some (.name n)) (hn : Whole pre k n) : ∃ w ∈ fragments t, fold w = n := by
  have hsplit : t = textOf pre ++ (k.text ++ textOf post) := by
    rw [← TSql.textOf_lex (A := A) t, hl, TSql.textOf_append, TSql.textOf_cons]
  cases k with
  | word w =>
    obtain rfl : fold w = n := by
      rw [Token.lexeme] at hk
      split at hk <;> simp at hk
      exact hk
    obtain ⟨hstart, hpart⟩ := plain_of_fold hn.start hn.part
    refine ⟨w, ?_, rfl⟩
    have hpre : textOf pre = (textOf pre).rdropWhile plainPart ++ (textOf pre).rtakeWhile plainPart :=
      List.rdropWhile_append_rtakeWhile.symm
    have hpost : (textOf post).head?.any plainPart = false := by
      by_contra hp
      obtain ⟨d, hd, hdp⟩ := (Option.any_eq_true _ _).mp (by simpa using hp)
      have := identPart_of_plainPart (A := A) hdp
      rw [TSql.head_after_word hl hd] at this
      exact absurd this (by decide)
    have hmem := mem_fragments hstart hpart hn.digits (last_rdropWhile plainPart (textOf pre)) hpost
    rw [List.append_assoc, ← List.append_assoc, glued, ← hpre] at hmem
    rwa [hsplit, Token.text]
  | quoted q v =>
    obtain ⟨c, t', hdrop, htoken⟩ := TSql.token_of_lex_append hl
    obtain ⟨e, rfl, hclose, rfl⟩ := quoted_of_token htoken.symm
    have hne : e ≠ '\x27' ∧ fold (unquote e (closeQuote e t')) = n := by
      simp only [Token.lexeme, hclose] at hk
      split at hk
      · simp at hk
      · rename_i he
        exact ⟨he, by simpa using hk⟩
    obtain ⟨-, rfl⟩ := hne
    obtain ⟨hstart, hpart⟩ := plain_of_fold hn.start hn.part
    obtain ⟨hq, he⟩ := not_plainPart_of_closer hclose
    refine ⟨_, ?_, rfl⟩
    have hlast : (textOf pre ++ [c]).getLast?.any plainPart = false := by simpa using hq
    have hfree : e ∉ unquote e (closeQuote e t') := by
      intro hmem
      rw [hpart e hmem] at he
      exact absurd he (by decide)
    have hend := closeQuote_of_unquote t' hfree
    generalize unquote e (closeQuote e t') = u at *
    generalize closeQuote e t' = v at *
    rcases hend with rfl | ⟨rfl, rfl⟩
    · have hmem := mem_fragments_of_run (y := e :: textOf post) hstart hpart hlast (by simpa using he)
      rw [hsplit, Token.text]
      simpa using hmem
    · -- the quote is not closed: the text ends with the name
      have hpost : textOf post = [] := by
        rw [hsplit, List.drop_left, Token.text, List.cons_append] at hdrop
        simpa using hdrop
      have hmem := mem_fragments_of_run (y := []) hstart hpart hlast rfl
      rw [hsplit, Token.text, hpost]
      simpa using hmem
  | _ => simp [Token.lexeme] at hk

/-! ## The list -/

/-- The names that the claim of the allowlist is about: the module's own, the table aliases of the text, and the four
output aliases. -/
def approvedNames (U : Unicode) (t : Text) : List Text :=
  allowedIdentifiers U ((tableRefs U t).map (entry U)) allowedOutputAliases

theorem checkIdentifiers_ok {allowed : List Text} {ms : List Match} :
    checkIdentifiers U allowed ms = .ok () ↔ ∀ m ∈ ms, upper U (matched m) ∈ allowed := by
  induction ms with
  | nil => simp [checkIdentifiers]
  | cons m ms ih =>
    rw [checkIdentifiers, require, raiseUnless_bind, ih, List.forall_mem_cons]
    simp [matched]

theorem collectOutputAliases_mem {spans : List (Nat × Nat)} {ms : List Match} {outs : List Text}
    (h : collectOutputAliases spans ms = .ok outs) : ∀ a ∈ outs, a ∈ allowedOutputAliases := by
  induction ms generalizing outs with
  | nil =>
    obtain rfl : [] = outs := by simpa [collectOutputAliases] using h
    simp
  | cons m ms ih =>
    rw [collectOutputAliases] at h
    split at h
    · exact ih h
    · obtain ⟨hmem, h⟩ := raiseUnless_bind.mp h
      obtain ⟨outs', hrest, h⟩ := bind_eq_ok.mp h
      obtain rfl : _ = outs := Except.ok.inj h
      exact List.forall_mem_cons.mpr ⟨by simpa using hmem, ih hrest⟩

/-- What rule 11 reads is on the list. -/
theorem fragments_approved {t : Text} {topMatch : Match} {d : AliasMap} {outs : List Text} {p i : Text}
    (h : Passes U t topMatch d outs p i) : ∀ w ∈ fragments t, upper U w ∈ approvedNames U t := by
  intro w hw
  rw [← identifiers_eq_fragments (W := isWord U), List.mem_map] at hw
  obtain ⟨m, hm, rfl⟩ := hw
  have hmem := checkIdentifiers_ok.mp h.identifiers m hm
  obtain ⟨hd, -, -⟩ := (collectTableRefs_ok (d := []) ⟨by simp, by simp⟩).mp h.refs
  rw [List.nil_append] at hd
  rw [allowedIdentifiers] at hmem
  rw [approvedNames, allowedIdentifiers, ← hd]
  simp only [List.mem_append, List.mem_map] at hmem ⊢
  rcases hmem with (hmem | ⟨a, ha, hup⟩) | hmem
  · exact Or.inl (Or.inl hmem)
  · exact Or.inl (Or.inr ⟨a, collectOutputAliases_mem h.output a ha, hup⟩)
  · exact Or.inr hmem

theorem upper_fold {w : Text} (h : ∀ c ∈ w, plainPart c = true) : upper U (fold w) = upper U w := by
  rw [upper_plain h, upper_plain]
  · simp [fold, Function.comp_def, Char.toUpper_toUpper_eq_toUpper]
  · intro c hc
    obtain ⟨d, hd, rfl⟩ := List.mem_map.mp hc
    rw [TSql.plainPart_toUpper]
    exact h d hd

end

/-! ## Main result -/

/-- **Every identifier of an accepted text is on the list exactly if each that rule 11 does not read whole is.** -/
theorem names_approved_iff (U : Unicode) (A : Alphabet) {sql t : Text} {context : MetadataContext}
    (h : validate U sql context = .ok t) :
    (∀ k ∈ lex A t, ∀ n, k.lexeme = some (.name n) → upper U n ∈ approvedNames U t) ↔
      ∀ pre k post n, lex A t = pre ++ k :: post → k.lexeme = some (.name n) → ¬ Whole pre k n →
        upper U n ∈ approvedNames U t := by
  obtain ⟨-, topMatch, d, outs, p, i, hp⟩ := validate_ok_iff.mp h
  constructor
  · intro hall pre k post n hl hk _
    exact hall k (by rw [hl]; simp) n hk
  · intro hall k hk n hn
    obtain ⟨pre, post, hl⟩ := List.append_of_mem hk
    by_cases hwhole : Whole pre k n
    · obtain ⟨w, hw, rfl⟩ := whole_read hl hn hwhole
      rw [upper_fold (plain_of_fold hwhole.start hwhole.part).2]
      exact fragments_approved hp w hw
    · exact hall pre k post n hl hn hwhole

theorem allWhole_oneJoin : allWhole [] (lex .ascii oneJoin) = true := by decide +kernel

theorem names_approved_oneJoin : allWhole [] (lex .ascii oneJoin) = true ∧
    ∀ k ∈ lex .ascii oneJoin, ∀ n, k.lexeme = some (.name n) → upper .small n ∈ approvedNames .small oneJoin := by
  refine ⟨allWhole_oneJoin, (names_approved_iff .small .ascii validate_oneJoin).mpr fun _ _ _ _ hl hk hno => ?_⟩
  exact absurd (whole_of_allWhole allWhole_oneJoin hl hk) hno

/-- **An identifier made of approved words goes through**: `[Name Product]` is one name for the server. -/
theorem spaced_name : ¬ ∀ (sql t : Text) (context : MetadataContext), validate .small sql context = .ok t →
    ∀ k ∈ lex .ascii t, ∀ n, k.lexeme = some (.name n) → upper .small n ∈ approvedNames .small t := by
  intro hall
  have hval : validate .small (oneJoin ++ ", [Name Product]".toList) {} =
      .ok (oneJoin ++ ", [Name Product]".toList) := by decide +kernel
  have hmem : Token.quoted '[' "Name Product]".toList ∈ lex .ascii (oneJoin ++ ", [Name Product]".toList) := by
    decide +kernel
  have hno : "NAME PRODUCT".toList ∉ approvedNames .small (oneJoin ++ ", [Name Product]".toList) := by decide +kernel
  exact hno (hall _ _ _ hval _ hmem "NAME PRODUCT".toList (by decide))

end DataAgent.Guardrail
