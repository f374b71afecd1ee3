import DataAgent.Guardrail.Names
import DataAgent.Guardrail.Validate

/-!
# Plain tokens under the guardrail

Where the tokens of a text are plain, what the guardrail makes of the text can be read off the tokens.

* `normalize_textOf` : the normal form of a clause spells its lexemes;
* `ends_of_lex`, `segmented_of_lex` : plain tokens side by side end where the words of the text end;
* `reading_eq_cons` : the first token that says something, and the blanks before it.
-/

namespace DataAgent.Guardrail
open Python Regex Pattern
open TSql (Alphabet Token Lexeme Name Plain lex textOf reading plainStart plainPart fold isReserved kwLexeme)

variable {U : Unicode} {A : Alphabet}

/-! ## Normal forms -/

theorem upper_append (x y : Text) : upper U (x ++ y) = upper U x ++ upper U y := List.flatMap_append

theorem upper_ascii {w : Text} (h : ∀ c ∈ w, c.toNat < 128) : upper U w = fold w := by
  induction w with
  | nil => rfl
  | cons c w ih =>
    rw [upper, List.flatMap_cons, U.upper_ascii c (h c (by simp)), ← upper,
      ih fun d hd => h d (List.mem_cons_of_mem _ hd)]
    rfl

theorem upper_plain {w : Text} (h : ∀ c ∈ w, plainPart c = true) : upper U w = fold w :=
  upper_ascii fun c hc => toNat_lt_of_plainPart (h c hc)

theorem normalize_append (x y : Text) :
    normalizePredicate U (x ++ y) = normalizePredicate U x ++ normalizePredicate U y := by
  simp [normalizePredicate, upper_append]

theorem normalize_spaces {g : Text} (h : ∀ c ∈ g, isSpace c = true) : normalizePredicate U g = [] := by
  have hnil : ((g.filter (· != '[')).filter (· != ']')).filter (fun c => !isSpace c) = [] := by
    rw [List.filter_eq_nil_iff]
    intro c hc
    have := h c (List.mem_of_mem_filter (List.mem_of_mem_filter hc))
    simp [this]
  rw [normalizePredicate, hnil]
  rfl

theorem plainPart_neutral {c : Char} (h : plainPart c = true) : c ≠ '[' ∧ c ≠ ']' ∧ isSpace c = false := by
  refine ⟨?_, ?_, not_isSpace_of_isWord Unicode.small (isWord_of_plainPart _ h)⟩ <;> rintro rfl <;>
    exact absurd h (by decide)

theorem normalize_of_neutral {w : Text} (h : ∀ c ∈ w, c ≠ '[' ∧ c ≠ ']' ∧ isSpace c = false) :
    normalizePredicate U w = upper U w := by
  have hid : ((w.filter (· != '[')).filter (· != ']')).filter (fun c => !isSpace c) = w := by
    rw [List.filter_filter, List.filter_filter, List.filter_eq_self]
    intro c hc
    obtain ⟨h1, h2, h3⟩ := h c hc
    simp [h1, h2, h3]
  rw [normalizePredicate, hid]

theorem normalize_plain {w : Text} (h : ∀ c ∈ w, plainPart c = true) : normalizePredicate U w = fold w := by
  rw [normalize_of_neutral fun c hc => plainPart_neutral (h c hc), upper_plain h]

theorem normalize_raw (n : Name) : normalizePredicate U (raw n) = fold n.text := by
  rw [raw_eq]
  split
  · rw [show '[' :: (n.text ++ [']']) = ['['] ++ (n.text ++ [']']) from rfl, normalize_append, normalize_append,
      normalize_plain n.part]
    simp [normalizePredicate, upper, isSpace]
  · exact normalize_plain n.part

/-- The characters of a lexeme in a normal form. -/
def spell : Lexeme → Text
  | .keyword w => w
  | .name w => w
  | .symbol c => [c]
  | .literal w => w

theorem reserved_part {w : Text} (h : isReserved w = true) : ∀ c ∈ w, plainPart c = true :=
  fun c hc => TSql.plainPart_of_plainStart ((TSql.plainStart_of_isReserved h).2 c hc)

theorem toUpper_of_not_plain {c : Char} (h : plainPart c = false) : c.toUpper = c := by
  apply Char.toUpper_eq_of_not_isLower
  intro hl
  rw [plainPart, Char.isAlphanum, Char.isAlpha] at h
  simp [hl] at h

theorem normalize_text {k : Token} (h : Plain k) : normalizePredicate U k.text = k.lexeme.toList.flatMap spell := by
  cases h with
  | blank hne h => simpa [Token.lexeme, Token.text] using normalize_spaces h
  | keyword h => simpa [Token.lexeme, Token.text, h, spell] using normalize_plain (reserved_part h)
  | name n => simpa [raw_token, spell] using normalize_raw n
  | symbol hc hpart hspace hbracket =>
    rw [Token.text, normalize_of_neutral (by simpa using ⟨hbracket.1, hbracket.2, hspace⟩)]
    simp [Token.lexeme, spell, upper, U.upper_ascii _ hc, toUpper_of_not_plain hpart]

/-- **The normal form of a clause spells its lexemes.** -/
theorem normalize_textOf {ts : List Token} (h : ∀ k ∈ ts, Plain k) :
    normalizePredicate U (textOf ts) = (reading ts).flatMap spell := by
  induction ts with
  | nil => rfl
  | cons k ts ih =>
    rw [TSql.textOf_cons, normalize_append, normalize_text (h k (by simp)),
      ih fun j hj => h j (List.mem_cons_of_mem _ hj), TSql.reading_cons, List.flatMap_append]

/-! ## Side by side -/

/-- A plain token starts with an ASCII character, or is a blank, and does not start with a bracket that closes. -/
theorem plain_head {k : Token} (h : Plain k) :
    ∃ c s, k.text = c :: s ∧ (c.toNat < 128 ∨ isSpace c = true ∧ ∃ w, k = .blank w) ∧ c ≠ ']' := by
  cases h with
  | blank hne h =>
    obtain ⟨c, w, rfl⟩ := List.exists_cons_of_ne_nil hne
    refine ⟨c, w, rfl, Or.inr ⟨h c (by simp), _, rfl⟩, ?_⟩
    rintro rfl
    exact absurd (h ']' (by simp)) (by decide)
  | @keyword w h =>
    obtain ⟨c, s, rfl⟩ := List.exists_cons_of_ne_nil (TSql.plainStart_of_isReserved h).1
    have := reserved_part h c (by simp)
    exact ⟨c, s, rfl, Or.inl (toNat_lt_of_plainPart this), (plainPart_neutral this).2.1⟩
  | name n =>
    rw [raw_token]
    obtain ⟨c, hc, h⟩ := head_raw n []
    rw [List.append_nil] at hc
    obtain ⟨s, hs⟩ := List.head?_eq_some_iff.mp hc
    refine ⟨c, s, hs, ?_⟩
    rcases h with rfl | h
    · exact ⟨Or.inl (by decide), by decide⟩
    · have := TSql.plainPart_of_plainStart h
      exact ⟨Or.inl (toNat_lt_of_plainPart this), (plainPart_neutral this).2.1⟩
  | @symbol c hc _ _ hbracket => exact ⟨c, [], rfl, Or.inl hc, hbracket.2⟩

theorem not_isWord_of_identPart {c : Char} (hc : c.toNat < 128) (h : TSql.identPart A c = false) :
    isWord U c = false := by
  rw [isWord_ascii U hc, plainPart]
  simp only [TSql.identPart, TSql.identStart, A.letter_ascii c hc, Bool.or_eq_false_iff] at h
  simp [Char.isAlphanum, h]

/-- After a word token that a plain token follows, the word ends. -/
theorem head_after_word_token {t w : Text} {ts us : List Token} {k : Token}
    (h : lex A t = ts ++ .word w :: k :: us) (hk : Plain k) :
    (textOf (k :: us)).head?.any (isWord U) = false ∧ ']' ∉ (textOf (k :: us)).head? := by
  obtain ⟨c, s, hs, hc, hne⟩ := plain_head hk
  have hd : (textOf (k :: us)).head? = some c := by rw [TSql.textOf_cons, hs]; rfl
  rw [hd]
  refine ⟨?_, by simpa using hne⟩
  rw [Option.any_some]
  rcases hc with hc | ⟨hc, -⟩
  · exact not_isWord_of_identPart hc (TSql.head_after_word h hd)
  · exact isWord_of_isSpace U hc

theorem ends_of_lex {t : Text} {ts us : List Token} {k : Token} (n : Name)
    (h : lex A t = ts ++ n.token :: k :: us) (hk : Plain k) : Ends U n (textOf (k :: us)) := by
  by_cases hb : n.bracketed = true
  · exact Or.inl hb
  · have ht : n.token = .word n.text := by simp [Name.token, hb]
    rw [ht] at h
    exact Or.inr (head_after_word_token h hk)

/-- Plain tokens are ASCII texts up to their blanks. -/
theorem ascii_of_plain {ts : List Token} (h : ∀ k ∈ ts, Plain k) :
    ∀ c ∈ textOf ts, c.toNat < 128 ∨ isSpace c = true := by
  intro c hc
  obtain ⟨k, hk, hck⟩ := List.mem_flatMap.mp hc
  cases h k hk with
  | blank _ hs => exact Or.inr (hs c hck)
  | keyword hr => exact Or.inl (toNat_lt_of_plainPart (reserved_part hr c hck))
  | name n =>
    left
    rw [raw_token, raw_eq] at hck
    split at hck
    · simp only [List.mem_cons, List.mem_append, List.not_mem_nil, or_false] at hck
      rcases hck with rfl | hck | rfl
      · decide
      · exact toNat_lt_of_plainPart (n.part c hck)
      · decide
    · exact toNat_lt_of_plainPart (n.part c hck)
  | symbol hc' =>
    obtain rfl := List.mem_singleton.mp hck
    exact Or.inl hc'

/-! ## Pieces of tokens -/

def tokenPieces : Token → List Piece
  | .blank w => [.space w]
  | .word w => [.word w]
  | .number w => [.word w]
  | .quoted q w => [.sym q, .word w.dropLast, .sym ']']
  | .symbol c => [.sym c]

theorem tokenPieces_name (n : Name) : tokenPieces n.token = pieces n := by
  rw [Name.token, pieces]
  split <;> simp [tokenPieces]

theorem join_tokenPieces {k : Token} (h : Plain k) : join (tokenPieces k) = k.text := by
  cases h with
  | name n => rw [tokenPieces_name, raw_token, raw]
  | _ => simp [tokenPieces, Token.text]

def allPieces (ts : List Token) : List Piece := ts.flatMap tokenPieces

theorem join_allPieces {ts : List Token} (h : ∀ k ∈ ts, Plain k) : join (allPieces ts) = textOf ts := by
  induction ts with
  | nil => rfl
  | cons k ts ih =>
    rw [allPieces, List.flatMap_cons, join_append, ← allPieces, join_tokenPieces (h k (by simp)),
      ih fun j hj => h j (List.mem_cons_of_mem _ hj), TSql.textOf_cons]

theorem allPieces_append (ts us : List Token) : allPieces (ts ++ us) = allPieces ts ++ allPieces us :=
  List.flatMap_append

theorem allPieces_cons (k : Token) (ts : List Token) : allPieces (k :: ts) = tokenPieces k ++ allPieces ts := rfl

theorem sym_ok {c : Char} (hc : c.toNat < 128) (hpart : plainPart c = false) (hspace : isSpace c = false) :
    (Piece.sym c).Ok (isWord U) isSpace :=
  ⟨by rw [isWord_ascii U hc]; exact hpart, hspace⟩

theorem word_ok {w : Text} (hne : w ≠ []) (hw : ∀ c ∈ w, plainPart c = true) : (Piece.word w).Ok (isWord U) isSpace :=
  ⟨hne, fun c hc => isWord_of_plainPart U (hw c hc)⟩

/-- What the first piece of a cut is, by the first character of its text. -/
theorem apart_word_of_head {ps : List Piece} (hs : Segmented (isWord U) isSpace ps) (w : Text)
    (h : (join ps).head?.any (isWord U) = false) : ∀ q ∈ ps.head?, (Piece.word w).Apart q := by
  intro q hq
  obtain ⟨qs, rfl⟩ := List.head?_eq_some_iff.mp hq
  have hok := hs.head
  cases q with
  | word v =>
    obtain ⟨c, v, rfl⟩ := List.exists_cons_of_ne_nil hok.1
    simp [hok.2 c (by simp)] at h
  | space v => trivial
  | sym c => trivial

theorem apart_space_of_head {ps : List Piece} (hs : Segmented (isWord U) isSpace ps) (g : Text)
    (h : (join ps).head?.any isSpace = false) : ∀ q ∈ ps.head?, (Piece.space g).Apart q := by
  intro q hq
  obtain ⟨qs, rfl⟩ := List.head?_eq_some_iff.mp hq
  have hok := hs.head
  cases q with
  | word v => trivial
  | space v =>
    obtain ⟨c, v, rfl⟩ := List.exists_cons_of_ne_nil hok.1
    simp [(hok.2 c (by simp)).2] at h
  | sym c => trivial

theorem segmented_sym {c : Char} (h : (Piece.sym c).Ok (isWord U) isSpace) {ps : List Piece}
    (hs : Segmented (isWord U) isSpace ps) : Segmented (isWord U) isSpace (.sym c :: ps) :=
  segmented_cons.mpr ⟨h, fun q _ => by cases q <;> trivial, hs⟩

theorem segmented_name (n : Name) {ps : List Piece} (hs : Segmented (isWord U) isSpace ps)
    (h : Ends U n (join ps)) : Segmented (isWord U) isSpace (pieces n ++ ps) := by
  have hok := word_ok (U := U) n.ne_nil n.part
  rw [pieces]
  split
  · have hclose := segmented_sym (sym_ok (U := U) (c := ']') (by decide) (by decide) (by decide)) hs
    exact segmented_sym (sym_ok (by decide) (by decide) (by decide))
      (segmented_cons.mpr ⟨hok, fun q hq => by obtain rfl : Piece.sym ']' = q := by simpa using hq
                                               trivial, hclose⟩)
  · rename_i hb
    exact segmented_cons.mpr ⟨hok, apart_word_of_head hs _ (h.resolve_left hb).1, hs⟩

/-- **Plain tokens are cut where the text is.** -/
theorem segmented_of_lex {t : Text} {x y z : List Token} {k : Token} (h : lex A t = x ++ (y ++ k :: z))
    (hts : ∀ j ∈ y, Plain j) (hk : Plain k) :
    Segmented (isWord U) isSpace (allPieces y ++ cut (isWord U) isSpace (textOf (k :: z))) := by
  induction y generalizing x with
  | nil => exact segmented_cut _
  | cons j y ih =>
    have hj := hts j (by simp)
    have hts' : ∀ i ∈ y, Plain i := fun i hi => hts i (List.mem_cons_of_mem _ hi)
    have ih := ih (x := x ++ [j]) (by simpa using h) hts'
    have hjoin : join (allPieces y ++ cut (isWord U) isSpace (textOf (k :: z))) = textOf (y ++ k :: z) := by
      rw [join_append, join_allPieces hts', join_cut, ← TSql.textOf_append]
    -- the token after `j`
    obtain ⟨k', us', hnext, hk'⟩ : ∃ k' us', y ++ k :: z = k' :: us' ∧ Plain k' := by
      cases y with
      | nil => exact ⟨k, z, rfl, hk⟩
      | cons i y => exact ⟨i, y ++ k :: z, rfl, hts' i (by simp)⟩
    rw [List.cons_append, hnext] at h
    rw [hnext] at hjoin
    rw [allPieces_cons, List.append_assoc]
    cases hj with
    | @blank g hne hg =>
      refine segmented_cons.mpr ⟨⟨hne, fun c hc => ⟨isWord_of_isSpace U (hg c hc), hg c hc⟩⟩,
        apart_space_of_head ih g ?_, ih⟩
      obtain ⟨c, s, hs, hc, -⟩ := plain_head hk'
      have hd : (textOf (k' :: us')).head? = some c := by rw [TSql.textOf_cons, hs]; rfl
      rw [hjoin, hd, Option.any_some]
      rcases hc with hc | ⟨-, w, rfl⟩
      · rw [← A.blank_ascii c hc]
        exact TSql.head_after_blank h hd
      · exact absurd h TSql.not_blank_after_blank
    | @keyword w hw =>
      refine segmented_cons.mpr ⟨word_ok (TSql.plainStart_of_isReserved hw).1 (reserved_part hw),
        apart_word_of_head ih w ?_, ih⟩
      rw [hjoin]
      exact (head_after_word_token h hk').1
    | name n =>
      rw [tokenPieces_name]
      refine segmented_name n ih ?_
      rw [hjoin]
      exact ends_of_lex n h hk'
    | symbol hc hpart hspace _ => exact segmented_sym (sym_ok hc hpart hspace) ih

/-! ## Readings -/

theorem reading_eq_cons {ts : List Token} {x : Lexeme} {l : List Lexeme} (h : reading ts = x :: l) :
    ∃ bs k us, ts = bs ++ k :: us ∧ (∀ b ∈ bs, b.lexeme = none) ∧ k.lexeme = some x ∧ reading us = l :=
  List.filterMap_eq_cons_iff.mp h

theorem spaces_of_silent {x : List Token} (hp : ∀ b ∈ x, Plain b) (h : ∀ b ∈ x, b.lexeme = none) :
    textOf x = [] ∨ Blank (textOf x) := by
  have hall : ∀ c ∈ textOf x, isSpace c = true := by
    intro c hc
    obtain ⟨b, hb, hcb⟩ := List.mem_flatMap.mp hc
    have hn := h b hb
    cases hp b hb with
    | blank _ hs => exact hs c hcb
    | keyword hr => simp [Token.lexeme] at hn
    | name n => simp at hn
    | symbol => simp [Token.lexeme] at hn
  rcases hnil : textOf x with _ | ⟨c, s⟩
  · exact Or.inl rfl
  · exact Or.inr ⟨by simp, hnil ▸ hall⟩

/-- Tokens that still say something are followed by a plain one. -/
theorem exists_plain_of_reading {x y : List Token} (hp : ∀ k ∈ x, Plain k) (h : reading x ≠ []) :
    ∃ k vs, x ++ y = k :: vs ∧ Plain k := by
  cases x with
  | nil => exact absurd rfl h
  | cons k x => exact ⟨k, x ++ y, rfl, hp k (by simp)⟩

/-- The token of a name. -/
theorem plain_name {k : Token} (hk : Plain k) {w : Text} (h : k.lexeme = some (.name w)) :
    ∃ n : Name, k = n.token ∧ fold n.text = w := by
  cases hk with
  | blank => simp [Token.lexeme] at h
  | keyword hr => simp [Token.lexeme, hr] at h
  | name n => exact ⟨n, rfl, by simpa using h⟩
  | symbol => simp [Token.lexeme] at h

/-- The token of a keyword. -/
theorem plain_keyword {k : Token} (hk : Plain k) {s : Text} (h : k.lexeme = some (.keyword s)) :
    ∃ w, k = .word w ∧ isReserved w = true ∧ fold w = s := by
  cases hk with
  | blank => simp [Token.lexeme] at h
  | @keyword w hr => exact ⟨w, rfl, hr, by simpa [Token.lexeme, hr] using h⟩
  | name n => simp at h
  | symbol => simp [Token.lexeme] at h

/-- The token of a symbol. -/
theorem plain_symbol {k : Token} (hk : Plain k) {c : Char} (h : k.lexeme = some (.symbol c)) : k = .symbol c := by
  cases hk with
  | blank => simp [Token.lexeme] at h
  | keyword hr => simp [Token.lexeme, hr] at h
  | name n => simp at h
  | symbol => simpa [Token.lexeme] using h

theorem plain_of_keyword {k : Token} {w : Text} (h : k.lexeme = some (.keyword w)) : Plain k := by
  cases k with
  | word v =>
    by_cases hres : isReserved v = true
    · exact .keyword hres
    · simp [Token.lexeme, hres] at h
  | quoted q v =>
    simp only [Token.lexeme, Option.some.injEq] at h
    split at h
    · split at h <;> simp at h
    · simp at h
  | _ => simp [Token.lexeme] at h

/-- Plain tokens have no keyword among their words but those that they read. -/
theorem free_of_reading {ts : List Token} (hp : ∀ k ∈ ts, Plain k) {ks : List String}
    (hks : ∀ s ∈ ks, s ∈ patternKeywords) (h : ∀ s ∈ ks, kwLexeme s ∉ reading ts) : Free ks (allPieces ts) := by
  intro w hw s hs
  obtain ⟨k, hk, hwk⟩ := List.mem_flatMap.mp hw
  cases hp k hk with
  | blank => simp [tokenPieces] at hwk
  | symbol => simp [tokenPieces] at hwk
  | @keyword v hr =>
    obtain rfl : w = v := by simpa [tokenPieces] using hwk
    rw [← Bool.not_eq_true, isKw_iff (reserved_part hr), patternKeywords_upper s (hks s hs)]
    intro hfold
    refine h s hs (List.mem_filterMap.mpr ⟨_, hk, ?_⟩)
    simp [Token.lexeme, hr, hfold, kwLexeme]
  | name n =>
    have hwn : w = n.text := by
      rw [tokenPieces_name, pieces] at hwk
      split at hwk <;> simpa using hwk
    rw [hwn]
    exact isKw_name n (hks s hs)

/-- The words of names and keywords are plain. -/
theorem name_part {ts : List Token} (hp : ∀ k ∈ ts, Plain k) {w : Text} (h : .name w ∈ reading ts) :
    ∀ c ∈ w, plainPart c = true := by
  obtain ⟨k, hk, hkw⟩ := List.mem_filterMap.mp h
  obtain ⟨n, -, rfl⟩ := plain_name (hp k hk) hkw
  intro c hc
  obtain ⟨d, hd, rfl⟩ := List.mem_map.mp hc
  rw [TSql.plainPart_toUpper]
  exact n.part d hd

theorem kwLexeme_inj {s s' : String} : kwLexeme s = kwLexeme s' ↔ s = s' := by
  rw [kwLexeme, kwLexeme, Lexeme.keyword.injEq]
  exact String.toList_inj

/-- A reading is split at a keyword that it has once. -/
theorem reading_split {s : String} {x ys : List Token} {k : Token} {l l' : List Lexeme}
    (h : reading (x ++ k :: ys) = l ++ kwLexeme s :: l') (hk : k.lexeme = some (kwLexeme s)) (h1 : kwLexeme s ∉ l)
    (h2 : kwLexeme s ∉ l') : reading x = l ∧ reading ys = l' := by
  rw [TSql.reading_append, TSql.reading_cons, hk, Option.toList_some, List.singleton_append] at h
  have := (List.append_cons_inj_of_notMem h1 h2).mp h.symm
  exact ⟨this.1.symm, this.2.2.symm⟩

/-- Two lists split at the first `c`. -/
theorem append_cons_inj_first {α : Type} {c : α} {x y u v : List α} (hx : c ∉ x) (hu : c ∉ u)
    (h : x ++ c :: y = u ++ c :: v) : x = u ∧ y = v := by
  induction x generalizing u with
  | nil =>
    cases u with
    | nil => simpa using h
    | cons d u => simp at h hu; exact absurd h.1 hu.1
  | cons a x ih =>
    cases u with
    | nil => simp at h hx; exact absurd h.1.symm hx.1
    | cons d u =>
      rw [List.mem_cons, not_or] at hx hu
      simp only [List.cons_append, List.cons.injEq] at h
      obtain ⟨rfl, rfl⟩ := ih hx.2 hu.2 h.2
      exact ⟨by rw [h.1], rfl⟩

/-! ## Keywords at a token -/

/-- A token that says something does not start with whitespace. -/
theorem head_of_lexeme {k : Token} (hk : Plain k) {x : Lexeme} (hx : k.lexeme = some x) (t : Text) :
    (k.text ++ t).head?.any isSpace = false := by
  cases hk with
  | blank => simp [Token.lexeme] at hx
  | @keyword w h =>
    exact head_word t (TSql.plainStart_of_isReserved h).1 fun c hc => isWord_of_plainPart .small (reserved_part h c hc)
  | name n =>
    rw [raw_token]
    exact head_raw_not_space n t
  | symbol _ _ hspace => simpa [Token.text] using hspace

/-- No keyword is found at a token that is not it. -/
theorem run_kw_token {s : String} (hs : s ∈ patternKeywords) {q : Pattern} (hq : Outside (isWord U) q) {t : Text}
    {x us : List Token} {k j : Token} (hl : lex A t = x ++ k :: j :: us) (hk : Plain k) (hj : Plain j)
    (hlex : k.lexeme ≠ some (kwLexeme s)) (hblank : k.lexeme ≠ none) (b : Text) :
    run (isWord U) (seq (kw s) q) ⟨b, textOf (k :: j :: us)⟩ = [] := by
  rw [TSql.textOf_cons]
  cases hk with
  | blank => exact absurd rfl hblank
  | @keyword w h =>
    have hw : ∀ c ∈ w, isWord U c = true := fun c hc => isWord_of_plainPart U (reserved_part h c hc)
    rw [Token.text, run_kw_seq_word (keyword U hs) hq hw (head_after_word_token hl hj).1, if_neg]
    rw [isKw_iff (reserved_part h), patternKeywords_upper s hs]
    intro hfold
    exact hlex (by simp [Token.lexeme, h, hfold, kwLexeme])
  | name n =>
    rw [raw_token, raw_eq]
    split
    · exact run_kw_seq_of_not (keyword U hs) _ (not_isWord_of_symbol U (by decide) (by decide) _) b
    · rename_i hb
      have hend := (ends_of_lex (U := U) n hl hj).resolve_left hb
      rw [run_kw_seq_word (keyword U hs) hq (fun c hc => isWord_of_plainPart U (n.part c hc)) hend.1, isKw_name n hs,
        if_neg (by decide)]
  | symbol hc hpart _ _ => exact run_kw_seq_of_not (keyword U hs) _ (not_isWord_of_symbol U hc hpart _) b

end DataAgent.Guardrail
