import DataAgent.Guardrail.Agreement
import DataAgent.Server.Executor

/-!
# One `SELECT`

Rules 4 to 6 against the tokens of an accepted text.

* `SingleSelect` : one `SELECT`, at the start, and no forbidden keyword;
* `starts_of_top`, `lex_select` : how an accepted text starts, and its first token;
* `select_touched`, `forbidden_touched` : the keyword tokens that the rules do not see;
* **`single_select_iff`** : an accepted text is a single `SELECT` exactly if it starts with the letter `S` itself and
  each such keyword token after it touches no word character.
-/

namespace DataAgent.Guardrail
open Python Regex Pattern
open TSql (Alphabet Token lex textOf fold)
open Server (Touched)
open Agent (MetadataContext)

def isForbidden (k : Token) : Bool := forbiddenKeywords.any k.isKeyword

/-- The tokens of one `SELECT` statement without forbidden keywords. -/
structure SingleSelect (ts : List Token) : Prop where
  select : ∃ k post, ts = k :: post ∧ k.isKeyword "SELECT" = true ∧ ∀ j ∈ post, j.isKeyword "SELECT" = false
  forbidden : ∀ k ∈ ts, isForbidden k = false

/-- So there is no set operation and no common table expression. -/
theorem SingleSelect.no_set_operation {ts : List Token} (h : SingleSelect ts) {k : Token} (hk : k ∈ ts) :
    ∀ s ∈ ["WITH", "UNION", "EXCEPT", "INTERSECT"], k.isKeyword s = false := by
  intro s hs
  have hmem : s ∈ forbiddenKeywords := by
    revert s
    decide
  by_contra hkey
  have := h.forbidden k hk
  rw [isForbidden, List.any_eq_false] at this
  exact this s hmem (by simpa using hkey)

/-- No `SELECT` follows another token: neither a subquery nor a second statement. -/
theorem SingleSelect.no_later {ts pre post : List Token} {k : Token} (h : SingleSelect ts) (hts : ts = pre ++ k :: post)
    (hpre : pre ≠ []) : k.isKeyword "SELECT" = false := by
  obtain ⟨k₀, post₀, h₀, -, hlater⟩ := h.select
  obtain ⟨j, pre, rfl⟩ := List.exists_cons_of_ne_nil hpre
  rw [h₀, List.cons_append, List.cons.injEq] at hts
  exact hlater k (by rw [hts.2]; simp)

section
variable {U : Unicode} {A : Alphabet}

/-! ## The first word -/

/-- Outside `I`, `S` and `K` a letter of a pattern matches its two cases only. -/
theorem toUpper_of_eqv {a c : Char} (ha : a.toLower ≠ 'i' ∧ a.toLower ≠ 's' ∧ a.toLower ≠ 'k')
    (h : eqvIgnoreCase a c = true) : c.toUpper = a.toUpper := by
  obtain ⟨hi, hs, hk⟩ := ha
  have hlow : a.toLower = c.toLower := by simpa [eqvIgnoreCase, hi, hs, hk] using h
  rw [← Char.toUpper_toLower_eq_toUpper, ← hlow, Char.toUpper_toLower_eq_toUpper]

theorem fold_of_eqv {p w : Text} (h : List.Forall₂ (fun a c => eqvIgnoreCase a c = true) p w)
    (hp : ∀ a ∈ p, (a.toLower ≠ 'i' ∧ a.toLower ≠ 's' ∧ a.toLower ≠ 'k') ∧ a.toUpper = a) : fold w = p := by
  induction h with
  | nil => rfl
  | @cons a c p w hac _ ih =>
    obtain ⟨hne, hup⟩ := hp a (by simp)
    rw [show fold (c :: w) = c.toUpper :: fold w from rfl, ih fun b hb => hp b (List.mem_cons_of_mem _ hb),
      toUpper_of_eqv hne hac, hup]

/-- A word that the patterns take for `SELECT` is it, or starts with the long `s`. -/
theorem select_word {w : Text} (h : isKw "SELECT" w = true) :
    ∃ s w', w = s :: w' ∧ fold w' = "ELECT".toList ∧ (s = '\u017f' ∨ s.toUpper = 'S') := by
  rw [isKw, Bool.and_eq_true, beq_iff_eq] at h
  obtain ⟨hlen, h⟩ := h
  obtain ⟨s, w', rfl⟩ := List.exists_cons_of_length_eq_add_one hlen.symm
  have h : eqvIgnoreCase 'S' s = true ∧ startsWith eqvIgnoreCase "ELECT".toList w' = true := by
    simpa [startsWith, and_assoc] using h
  refine ⟨s, w', rfl, ?_, ?_⟩
  · have hall := forall₂_of_startsWith h.2
    have hlen' : w'.length = "ELECT".toList.length := by simpa using hlen.symm
    rw [← hlen', List.take_length] at hall
    exact fold_of_eqv hall (by simp)
  · have hs : 's' = s.toLower ∨ s = '\u017f' := by simpa [eqvIgnoreCase] using h.1
    refine hs.symm.imp_right fun hs => ?_
    rw [← Char.toUpper_toLower_eq_toUpper, ← hs]
    decide

/-- **How a text starts that passes rule 6**: with the word `SELECT` and whitespace. -/
theorem starts_of_top {t : Text} (ht : Trimmed t) (h : (matchStart (isWord U) (topPattern U) t).isSome) :
    ∃ w c rest, t = w ++ c :: rest ∧ isKw "SELECT" w = true ∧ isSpace c = true := by
  obtain ⟨m, hm⟩ := Option.isSome_iff_exists.mp h
  have hmem := mem_run_of_matchAt hm
  rw [topPattern, cat_cons, cat_cons, cat_cons, cat_cons] at hmem
  obtain ⟨v, g, _, hbegin, hmem, -⟩ := mem_run_seq.mp hmem
  obtain ⟨rfl, rfl⟩ : v = ⟨[], t⟩ ∧ g = [] := by simpa [run, Cursor.start] using hbegin
  obtain ⟨v, g, _, hblank, hmem, -⟩ := mem_run_seq.mp hmem
  obtain ⟨x, t', hx, hspace, rfl, rfl⟩ := mem_run_many.mp hblank
  obtain ⟨v, g, _, hselect, hmem, -⟩ := mem_run_seq.mp hmem
  obtain ⟨v', g', _, hplus, -, -⟩ := mem_run_seq.mp hmem
  -- a trimmed text has no blank before the keyword
  have hnil : x = [] := by
    cases x with
    | nil => rfl
    | cons c x =>
      have h1 := ht.1
      rw [hx, List.cons_append, List.head?_cons, Option.any_some, hspace c (by simp)] at h1
      exact absurd h1 (by decide)
  subst hnil
  rw [List.nil_append] at hx
  subst hx
  rw [kw, run_lit] at hselect
  split at hselect
  · rename_i hst
    have hlen := startsWith_length_le hst
    obtain ⟨rfl, rfl⟩ : v = (⟨[], t⟩ : Cursor).advance 6 ∧ g = [] := by simpa using hselect
    rw [plus] at hplus
    obtain ⟨_, _, _, hchar, -, -⟩ := mem_run_seq.mp hplus
    rw [Cursor.advance, mem_run_char] at hchar
    obtain ⟨c, rest, hdrop, hc, -, -⟩ := hchar
    refine ⟨t.take 6, c, rest, by rw [← hdrop, List.take_append_drop], ?_, hc⟩
    have hlen6 : (t.take 6).length = 6 := by simpa using hlen
    rw [← List.take_append_drop 6 t, startsWith_append_of_length _ (by rw [hlen6]; decide)] at hst
    rw [isKw, hlen6, hst]
    rfl
  · simp at hselect

theorem top_of_checkTop {t : Text} {m : Match} (h : checkTop U t = .ok m) :
    matchStart (isWord U) (topPattern U) t = some m := by
  unfold checkTop at h
  split at h
  · simp at h
  · rename_i m' hm
    split at h
    · simp at h
    · simp only [require, raiseUnless_bind] at h
      obtain ⟨-, -, h⟩ := h
      obtain rfl : m' = m := by simpa [pure, Except.pure] using h
      exact hm

theorem keyword_select : Keyword (isWord U) "SELECT" := keyword U (by simp [patternKeywords])

theorem isWord_of_isKw {s : String} (hs : Keyword (isWord U) s) {w : Text} (h : isKw s w = true) :
    ∀ c ∈ w, isWord U c = true := by
  rw [isKw, Bool.and_eq_true, beq_iff_eq] at h
  have hall := forall₂_of_startsWith h.2
  rw [h.1, List.take_length] at hall
  intro c hc
  obtain ⟨i, hi, rfl⟩ := List.getElem_of_mem hc
  exact hs.word _ (List.getElem_mem (hall.length_eq ▸ hi)) _ (hall.get _ hi)

theorem isKw_of_isKeyword {s : String} {w : Text} (h : (Token.word w).isKeyword s = true) : isKw s w = true := by
  have hw : w.map Char.toUpper = s.toList := by simpa [Token.isKeyword] using h
  have hstart := startsWith_eqvIgnoreCase [] hw
  rw [List.append_nil] at hstart
  rw [isKw, hstart, ← hw, List.length_map]
  simp

/-- The first token of such a text, if it starts with the letter itself. -/
theorem lex_select (hA : ∀ c, isSpace c = true → A.letter c = false) {w rest : Text} {c : Char}
    (hk : isKw "SELECT" w = true) (hc : isSpace c = true) (hs : w.head? ≠ some '\u017f') :
    ∃ post, lex A (w ++ c :: rest) = .word w :: post ∧ (Token.word w).isKeyword "SELECT" = true := by
  obtain ⟨s, w', rfl, helect, hfirst⟩ := select_word hk
  have hS : s.toUpper = 'S' := hfirst.resolve_left (by simpa using hs)
  have hup : (s :: w').map Char.toUpper = "SELECT".toList := by
    rw [List.map_cons, hS, show w'.map Char.toUpper = "ELECT".toList from helect]
    rfl
  have halpha : ∀ d ∈ s :: w', d.isAlpha = true := by
    intro d hd
    rw [← Char.isAlpha_toUpper_eq_isAlpha]
    have hall : ∀ e ∈ "SELECT".toList, e.isAlpha = true := by simp
    exact hall _ (hup ▸ List.mem_map_of_mem hd)
  have hplain : ∀ d ∈ s :: w', TSql.plainStart d = true := fun d hd => by simp [TSql.plainStart, halpha d hd]
  have hident : ∀ d ∈ s :: w', TSql.identStart A d = true := by
    intro d hd
    have hascii := toNat_lt_of_plainPart (TSql.plainPart_of_plainStart (hplain d hd))
    simp [TSql.identStart, A.letter_ascii d hascii, halpha d hd]
  -- the whitespace ends the word
  have hend : TSql.identPart A c = false := by
    have hword := TSql.not_wordChar_of_isSpace hc
    rw [Bool.or_eq_false_iff, Char.isAlphanum, Bool.or_eq_false_iff] at hword
    have hne : ∀ d : Char, isSpace d = false → c ≠ d := by
      rintro d hd rfl
      rw [hc] at hd
      exact absurd hd (by decide)
    simp [TSql.identPart, TSql.identStart, hA c hc, hword, hne '@' (by decide), hne '#' (by decide),
      hne '$' (by decide)]
  have hmem : s ∈ s :: w' := List.mem_cons_self
  have hascii := toNat_lt_of_plainPart (TSql.plainPart_of_plainStart (hplain s hmem))
  have hblank : A.blank s = false := by
    rw [A.blank_ascii s hascii]
    exact not_isSpace_of_isWord .small (isWord_of_plainPart _ (TSql.plainPart_of_plainStart (hplain s hmem)))
  have hnumeral : TSql.startsNumeral s (w' ++ c :: rest) = false := by
    obtain ⟨hdigit, hdot⟩ := forall_ascii (P := fun d => d.isAlpha = true → d.isDigit = false ∧ d ≠ '.') (by decide) s
      hascii (halpha s hmem)
    simp [TSql.startsNumeral, hdot, hdigit]
  have htake : (w' ++ c :: rest).takeWhile (TSql.identPart A) = w' := by
    refine takeWhile_append_of (fun d hd => TSql.identPart_of_identStart (hident d (by simp [hd]))) ?_
    simpa using hend
  have htoken : TSql.token A s (w' ++ c :: rest) = .word (s :: w') := by
    simp [TSql.token, hblank, hnumeral, hident s hmem, htake]
  have hlex := TSql.lex_cons (A := A) s (w' ++ c :: rest)
  rw [htoken] at hlex
  refine ⟨_, hlex, ?_⟩
  rw [Token.isKeyword, hup]
  rfl

/-! ## Keywords that the rules see -/

theorem word_of_isKeyword {k : Token} {s : String} (h : k.isKeyword s = true) : ∃ w, k = .word w := by
  cases k with
  | word w => exact ⟨w, rfl⟩
  | _ => simp [Token.isKeyword] at h

/-- **Rule 4 sees a later `SELECT`** that touches no word character. -/
theorem select_touched {t : Text} {m : Match} (ht : Trimmed t) (hselect : checkSelect U t = .ok ())
    (htop : checkTop U t = .ok m) {pre post : List Token} {k : Token} (hl : lex A t = pre ++ k :: post)
    (hpre : pre ≠ []) (hk : k.isKeyword "SELECT" = true) : Touched U pre post := by
  by_contra hno
  rw [Touched, not_or, Bool.not_eq_true, Bool.not_eq_true] at hno
  obtain ⟨w, rfl⟩ := word_of_isKeyword hk
  have hkw := isKw_of_isKeyword hk
  have hsplit : t = textOf pre ++ (w ++ textOf post) := by
    rw [← TSql.textOf_lex (A := A) t, hl, TSql.textOf_append, TSql.textOf_cons, Token.text]
  -- the match at the start of the text
  obtain ⟨w₀, c, rest, hstart, hkw₀, hc⟩ := starts_of_top (U := U) ht (by rw [top_of_checkTop htop]; rfl)
  have hword₀ := isWord_of_isKw (keyword_select (U := U)) hkw₀
  have hm₀ := matchAt_keyword keyword_select hword₀ hkw₀ (b := []) rfl
    (show (c :: rest).head?.any (isWord U) = false by simpa using isWord_of_isSpace U hc)
  -- the match at the later token
  have hm := matchAt_keyword keyword_select (isWord_of_isKw (keyword_select (U := U)) hkw) hkw
    (b := (textOf pre).reverse) (by rw [List.head?_reverse]; exact hno.1) hno.2
  have hne : textOf pre ≠ [] := by
    obtain ⟨j, pre, rfl⟩ := List.exists_cons_of_ne_nil hpre
    have hl₀ : lex A t = [] ++ j :: (pre ++ .word w :: post) := by simpa using hl
    obtain ⟨d, t', -, hj⟩ := TSql.token_of_lex_append hl₀
    rw [TSql.textOf_cons]
    exact List.append_ne_nil_of_left_ne_nil (hj ▸ TSql.token_ne_nil d t') _
  obtain ⟨d, x, hx⟩ := List.exists_cons_of_ne_nil hne
  obtain ⟨d', w₁, rfl⟩ := List.exists_cons_of_ne_nil (l := w₀) (by
    rintro rfl
    exact absurd hkw₀ (by decide))
  have hlong : w₁.length ≤ x.length := by
    by_contra hlt
    -- the token would begin inside the first word
    have hleft : textOf pre <+: d' :: w₁ := by
      refine List.prefix_of_prefix_length_le ⟨_, hsplit.symm⟩ ⟨_, hstart.symm⟩ ?_
      rw [hx, List.length_cons, List.length_cons]
      omega
    have hlast := List.getLast?_eq_some_getLast hne
    rw [hlast, Option.any_some] at hno
    rw [hword₀ _ (hleft.subset (List.getLast_mem hne))] at hno
    exact absurd hno.1 (by decide)
  obtain rfl : d = d' := by
    have := congrArg List.head? (hsplit.symm.trans hstart)
    simpa [hx] using this
  have hcount : (findIter (isWord U) selectPattern t).length = 1 := by
    unfold checkSelect at hselect
    simp only [require, raiseUnless_bind] at hselect
    simpa using hselect.1
  have htail : x ++ (w ++ textOf post) = w₁ ++ c :: rest := by
    rw [hx, hstart] at hsplit
    simpa using hsplit.symm
  have hrest := findFrom_ne_nil x (w ++ textOf post) [d] (by
    rw [← List.reverse_cons, ← hx]
    exact Option.isSome_iff_exists.mpr ⟨_, hm⟩) hlong
  rw [findIter, hstart, List.cons_append, findFrom, ← List.cons_append,
    show matchAt (isWord U) selectPattern ⟨[], d :: w₁ ++ c :: rest⟩ = _ from hm₀] at hcount
  simp only [List.append_nil, List.length_reverse, List.length_cons, List.length_nil, Nat.sub_zero,
    Nat.add_sub_cancel, Nat.add_eq_right, List.length_eq_zero_iff, ← htail] at hcount
  exact hrest hcount

/-- Rule 5 sees a forbidden keyword that touches no word character. -/
theorem forbidden_touched {t : Text} (hselect : checkSelect U t = .ok ()) {pre post : List Token} {k : Token}
    (hl : lex A t = pre ++ k :: post) (hk : isForbidden k = true) : Touched U pre post := by
  by_contra hno
  have halpha : ∀ f ∈ forbiddenKeywords, f.toList ≠ [] ∧ ∀ c ∈ f.toList, c.isAlpha = true := by
    simp [forbiddenKeywords]
  have hfound := Server.search_keywords_of_lex halpha hl hk hno
  rw [← forbiddenPattern, (checkSelect_ok hselect).2] at hfound
  simp at hfound

end

/-! ## Main result -/

/-- **An accepted text is a single `SELECT` exactly if it starts with the letter `S` itself and no later `SELECT` or
forbidden keyword touches a word character.** The first condition leaves out the long `s`, which the patterns take for
an `S`. -/
theorem single_select_iff (U : Unicode) (A : Alphabet) (hA : ∀ c, isSpace c = true → A.letter c = false)
    {sql t : Text} {context : MetadataContext} (h : validate U sql context = .ok t) :
    SingleSelect (lex A t) ↔ t.head? ≠ some '\u017f' ∧
      ∀ pre k post, lex A t = pre ++ k :: post → pre ≠ [] → (k.isKeyword "SELECT" = true ∨ isForbidden k = true) →
        ¬ Touched U pre post := by
  obtain ⟨hclean, m, d, outs, p, i, hp⟩ := validate_ok_iff.mp h
  have htrim := (cleaned_of_clean hclean).trimmed
  constructor
  · intro hs
    refine ⟨fun hhead => ?_, fun pre k post hl hpre hk => ?_⟩
    · obtain ⟨k, post, hl, hk, -⟩ := hs.select
      obtain ⟨w, rfl⟩ := word_of_isKeyword hk
      have hw : w.map Char.toUpper = "SELECT".toList := by simpa [Token.isKeyword] using hk
      obtain ⟨c, w', rfl⟩ := List.exists_cons_of_ne_nil (l := w) (by rintro rfl; exact absurd hw (by decide))
      rw [← TSql.textOf_lex (A := A) t, hl] at hhead
      obtain rfl : c = '\u017f' := by simpa [Token.text] using hhead
      exact absurd (List.cons.inj hw).1 (by decide)
    · rcases hk with hk | hk
      · rw [hs.no_later hl hpre] at hk
        exact absurd hk (by decide)
      · rw [hs.forbidden k (by rw [hl]; simp)] at hk
        exact absurd hk (by decide)
  · rintro ⟨hhead, hall⟩
    obtain ⟨w, c, rest, rfl, hkw, hc⟩ := starts_of_top (U := U) htrim (by rw [top_of_checkTop hp.top]; rfl)
    have hne : w ≠ [] := by
      rintro rfl
      exact absurd hkw (by decide)
    rw [List.head?_append_of_ne_nil _ hne] at hhead
    obtain ⟨post, hl, hfirst⟩ :
        ∃ post, lex A (w ++ c :: rest) = .word w :: post ∧ (Token.word w).isKeyword "SELECT" = true :=
      lex_select hA hkw hc hhead
    refine ⟨⟨_, post, hl, hfirst, fun j hj => ?_⟩, fun k hk => ?_⟩
    · obtain ⟨x, y, rfl⟩ := List.append_of_mem hj
      by_contra hsel
      rw [Bool.not_eq_false] at hsel
      have hl' : lex A (w ++ c :: rest) = (.word w :: x) ++ j :: y := hl
      exact hall _ j y hl' (by simp) (Or.inl hsel) (select_touched htrim hp.select hp.top hl' (by simp) hsel)
    · by_contra hforb
      rw [Bool.not_eq_false] at hforb
      rw [hl] at hk
      rcases List.mem_cons.mp hk with rfl | hk
      · -- the first token is `SELECT`
        obtain ⟨f, hf, hkf⟩ := List.any_eq_true.mp hforb
        have h1 : w.map Char.toUpper = "SELECT".toList := by simpa [Token.isKeyword] using hfirst
        have h2 : w.map Char.toUpper = f.toList := by simpa [Token.isKeyword] using hkf
        have hnone : ∀ f ∈ forbiddenKeywords, f ≠ "SELECT" := by decide
        exact hnone f hf (String.toList_injective (h2.symm.trans h1))
      · obtain ⟨x, y, rfl⟩ := List.append_of_mem hk
        have hl' : lex A (w ++ c :: rest) = (.word w :: x) ++ k :: y := hl
        exact hall _ k y hl' (by simp) (Or.inr hforb) (forbidden_touched hp.select hl' hforb)

theorem single_select_oneJoin : SingleSelect (lex .ascii oneJoin) := by
  have hA : ∀ c, isSpace c = true → Alphabet.ascii.letter c = false := by
    intro c hc
    have := TSql.not_wordChar_of_isSpace hc
    rw [Char.isAlphanum, Bool.or_eq_false_iff, Bool.or_eq_false_iff] at this
    exact this.1.1
  refine (single_select_iff .small .ascii hA validate_oneJoin).mpr ⟨by decide +kernel, fun pre k post hl hpre hk => ?_⟩
  have htail : (lex .ascii oneJoin).tail.any (fun k => k.isKeyword "SELECT" || isForbidden k) = false := by
    decide +kernel
  obtain ⟨i, pre, rfl⟩ := List.exists_cons_of_ne_nil hpre
  rw [hl, List.cons_append, List.tail_cons, List.any_append, List.any_cons, Bool.or_eq_true _ _ |>.mpr hk] at htail
  simp at htail

/-- **A second `SELECT` goes through** right after a numeric literal. -/
theorem hidden_select : ¬ ∀ (sql t : Text) (context : MetadataContext), validate .small sql context = .ok t →
    SingleSelect (lex .ascii t) := by
  intro hall
  have hval : validate .small (oneJoin ++ ", 1SELECT 1".toList) {} = .ok (oneJoin ++ ", 1SELECT 1".toList) := by
    decide +kernel
  obtain ⟨k, post, hl, -, hlater⟩ := (hall _ _ _ hval).select
  have hmem : Token.word "SELECT".toList ∈ (lex .ascii (oneJoin ++ ", 1SELECT 1".toList)).tail := by decide +kernel
  rw [hl, List.tail_cons] at hmem
  exact absurd (hlater _ hmem) (by decide)

end DataAgent.Guardrail
