import DataAgent.Python.Text

/-!
# Tokens of T-SQL

The lexical rules a SQL Server reads a text by, for texts without comments. `[...]`, `"..."` and `'...'` are one
token each, with the closing character doubled inside; a numeric literal ends at the first character that cannot
continue it, so a keyword may follow a digit directly.

* `Alphabet` : the letters and blanks outside ASCII, which depend on the server's version;
* `lex` : the tokens of a text; `text_lex`, `lex_append` : they are cut from it one after another.
-/

namespace DataAgent.TSql
open Python (Text)

structure Alphabet where
  letter : Char → Bool
  blank : Char → Bool
  letter_ascii : ∀ c : Char, c.toNat < 128 → letter c = c.isAlpha
  blank_ascii : ∀ c : Char, c.toNat < 128 → blank c = Python.isSpace c

/-- The alphabet without letters or blanks outside ASCII. -/
def Alphabet.ascii : Alphabet where
  letter c := c.isAlpha
  blank c := decide (c.toNat < 128) && Python.isSpace c
  letter_ascii _ _ := rfl
  blank_ascii c h := by simp [h]

inductive Token where
  | blank (w : Text)
  /-- A keyword or a regular identifier. -/
  | word (w : Text)
  | number (w : Text)
  /-- A token that opens with a quote or a bracket; `w` is what follows, the end included if there is one. -/
  | quoted (q : Char) (w : Text)
  | symbol (c : Char)
  deriving DecidableEq, Repr

namespace Token

def text : Token → Text
  | blank w => w
  | word w => w
  | number w => w
  | quoted q w => q :: w
  | symbol c => [c]

def isBlank : Token → Bool
  | blank _ => true
  | _ => false

/-- The keyword `k`, in any letter case. -/
def isKeyword (k : String) : Token → Bool
  | word w => w.map Char.toUpper == k.toList
  | _ => false

end Token

/-- The text of a list of tokens. -/
def textOf (ts : List Token) : Text := ts.flatMap Token.text

@[simp] theorem textOf_nil : textOf [] = [] := rfl
@[simp] theorem textOf_cons (k : Token) (ts : List Token) : textOf (k :: ts) = k.text ++ textOf ts := rfl
@[simp] theorem textOf_append (ts us : List Token) : textOf (ts ++ us) = textOf ts ++ textOf us :=
  List.flatMap_append

/-! ## One token -/

def isHex (c : Char) : Bool := c.isDigit || ('a' ≤ c && c ≤ 'f') || ('A' ≤ c && c ≤ 'F')

/-- The exponent at the start of a text, if there is one. -/
def exponent : Text → Text
  | e :: t =>
    if e = 'e' ∨ e = 'E' then
      match t with
      | sign :: d :: t' =>
        if (sign = '+' ∨ sign = '-') ∧ d.isDigit then e :: sign :: (d :: t').takeWhile Char.isDigit
        else e :: t.takeWhile Char.isDigit
      | _ => e :: t.takeWhile Char.isDigit
    else []
  | [] => []

/-- The fraction at the start of a text, if there is one. -/
def fraction : Text → Text
  | '.' :: t => '.' :: t.takeWhile Char.isDigit
  | _ => []

/-- A decimal or real literal. -/
def decimal (t : Text) : Text :=
  let whole := t.takeWhile Char.isDigit
  let part := fraction (t.drop whole.length)
  whole ++ part ++ exponent (t.drop (whole ++ part).length)

/-- The numeric literal at the start of a text. -/
def numeral : Text → Text
  | '0' :: 'x' :: t => '0' :: 'x' :: t.takeWhile isHex
  | '0' :: 'X' :: t => '0' :: 'X' :: t.takeWhile isHex
  | t => decimal t

/-- What follows an opening quote, up to the quote that closes it. -/
def closeQuote (q : Char) : Text → Text
  | [] => []
  | [c] => [c]
  | c :: d :: t =>
    if c = q then if d = q then c :: d :: closeQuote q t else [c]
    else c :: closeQuote q (d :: t)

/-- The character that closes what `c` opens. -/
def closer (c : Char) : Option Char :=
  if c = '[' then some ']' else if c = '\x22' ∨ c = '\x27' then some c else none

section
variable (A : Alphabet)

def identStart (c : Char) : Bool := A.letter c || c == '_' || c == '@' || c == '#'
def identPart (c : Char) : Bool := identStart A c || c.isDigit || c == '$'

def startsNumeral (c : Char) (t : Text) : Bool := c.isDigit || (c == '.' && t.head?.any Char.isDigit)

/-- The first token of `c :: t`. -/
def token (c : Char) (t : Text) : Token :=
  if A.blank c then .blank (c :: t.takeWhile A.blank)
  else if startsNumeral c t then .number (numeral (c :: t))
  else if identStart A c then .word (c :: t.takeWhile (identPart A))
  else match closer c with
    | some q => .quoted c (closeQuote q t)
    | none => .symbol c

/-- The tokens of a text, one unit of fuel for each. -/
def lexFuel : Nat → Text → List Token
  | 0, _ => []
  | _ + 1, [] => []
  | n + 1, c :: t => token A c t :: lexFuel n ((c :: t).drop (token A c t).text.length)

def lex (t : Text) : List Token := lexFuel A t.length t

end

/-! ## A token is a part of the text -/

theorem exponent_isPrefix (t : Text) : exponent t <+: t := by
  unfold exponent
  split
  · split
    · split
      · split
        · exact (List.prefix_cons_inj _).mpr ((List.prefix_cons_inj _).mpr (List.takeWhile_prefix _))
        · exact (List.prefix_cons_inj _).mpr (List.takeWhile_prefix _)
      · exact (List.prefix_cons_inj _).mpr (List.takeWhile_prefix _)
    · exact List.nil_prefix
  · exact List.nil_prefix

theorem fraction_isPrefix (t : Text) : fraction t <+: t := by
  unfold fraction
  split
  · exact (List.prefix_cons_inj _).mpr (List.takeWhile_prefix _)
  · exact List.nil_prefix

/-- A prefix and a prefix of what follows it. -/
theorem append_isPrefix {x y t : Text} (hx : x <+: t) (hy : y <+: t.drop x.length) : x ++ y <+: t := by
  obtain ⟨u, rfl⟩ := hx
  rw [List.drop_left] at hy
  exact (List.prefix_append_right_inj x).mpr hy

theorem decimal_isPrefix (t : Text) : decimal t <+: t :=
  append_isPrefix (append_isPrefix (List.takeWhile_prefix _) (fraction_isPrefix _)) (exponent_isPrefix _)

theorem numeral_isPrefix (t : Text) : numeral t <+: t := by
  unfold numeral
  split
  · exact (List.prefix_cons_inj _).mpr ((List.prefix_cons_inj _).mpr (List.takeWhile_prefix _))
  · exact (List.prefix_cons_inj _).mpr ((List.prefix_cons_inj _).mpr (List.takeWhile_prefix _))
  · exact decimal_isPrefix t

theorem closeQuote_isPrefix (q : Char) (t : Text) : closeQuote q t <+: t := by
  fun_induction closeQuote q t with
  | case1 => exact List.nil_prefix
  | case2 c => exact List.prefix_rfl
  | case3 t ih => exact (List.prefix_cons_inj _).mpr ((List.prefix_cons_inj _).mpr ih)
  | case4 d t hd => exact (List.prefix_cons_inj _).mpr List.nil_prefix
  | case5 c d t hc ih => exact (List.prefix_cons_inj _).mpr ih

/-- A quote that is not closed runs to the end of the text. -/
theorem closeQuote_getLast (q : Char) (t : Text) : closeQuote q t = t ∨ (closeQuote q t).getLast? = some q := by
  fun_induction closeQuote q t with
  | case1 => exact Or.inl rfl
  | case2 c => exact Or.inl rfl
  | case3 t ih =>
    rcases ih with ih | ih
    · exact Or.inl (by rw [ih])
    · exact Or.inr (by simp [List.getLast?_cons, ih])
  | case4 d t hd => exact Or.inr rfl
  | case5 c d t hc ih =>
    rcases ih with ih | ih
    · exact Or.inl (by rw [ih])
    · exact Or.inr (by simp [List.getLast?_cons, ih])

theorem numeral_ne_nil {c : Char} {t : Text} (h : startsNumeral c t = true) : numeral (c :: t) ≠ [] := by
  unfold numeral
  split
  · simp
  · simp
  · rw [startsNumeral, Bool.or_eq_true, Bool.and_eq_true, beq_iff_eq] at h
    rcases h with h | ⟨rfl, -⟩
    · simp [decimal, h]
    · simp [decimal, fraction]

section
variable {A : Alphabet}

theorem token_isPrefix (c : Char) (t : Text) : (token A c t).text <+: c :: t := by
  unfold token
  split_ifs
  · exact (List.prefix_cons_inj _).mpr (List.takeWhile_prefix _)
  · exact numeral_isPrefix _
  · exact (List.prefix_cons_inj _).mpr (List.takeWhile_prefix _)
  · split
    · exact (List.prefix_cons_inj _).mpr (closeQuote_isPrefix _ _)
    · exact (List.prefix_cons_inj _).mpr List.nil_prefix

theorem token_ne_nil (c : Char) (t : Text) : (token A c t).text ≠ [] := by
  unfold token
  split_ifs with _ h
  · simp [Token.text]
  · exact numeral_ne_nil h
  · simp [Token.text]
  · split <;> simp [Token.text]

theorem token_append (c : Char) (t : Text) :
    (token A c t).text ++ (c :: t).drop (token A c t).text.length = c :: t := by
  obtain ⟨u, hu⟩ := token_isPrefix (A := A) c t
  conv_lhs => rw [← hu]
  rw [List.drop_left, hu]

theorem length_drop_token_lt (c : Char) (t : Text) :
    ((c :: t).drop (token A c t).text.length).length < (c :: t).length := by
  have := List.length_pos_of_ne_nil (token_ne_nil (A := A) c t)
  rw [List.length_drop, List.length_cons]
  omega

/-! ## The tokens of a text -/

/-- Fuel for the length of the text is enough. -/
theorem lexFuel_eq {n : Nat} {t : Text} (h : t.length ≤ n) : lexFuel A n t = lex A t := by
  induction n using Nat.strong_induction_on generalizing t with
  | _ n ih =>
    cases t with
    | nil => cases n <;> rfl
    | cons c t =>
      obtain ⟨n, rfl⟩ : ∃ m, n = m + 1 := ⟨n - 1, by rw [List.length_cons] at h; omega⟩
      have hlt := length_drop_token_lt (A := A) c t
      rw [List.length_cons] at h hlt
      rw [lexFuel, lex, List.length_cons, lexFuel, ih n (by omega) (by omega)]
      rcases Nat.lt_or_ge t.length n with hn | hn
      · rw [ih t.length (by omega) (by omega)]
      · rw [show t.length = n by omega, ih n (by omega) (by omega)]

theorem lex_nil : lex A [] = [] := rfl

theorem lex_cons (c : Char) (t : Text) :
    lex A (c :: t) = token A c t :: lex A ((c :: t).drop (token A c t).text.length) := by
  have := length_drop_token_lt (A := A) c t
  rw [List.length_cons] at this
  rw [lex, List.length_cons, lexFuel, lexFuel_eq (by omega)]

/-- The induction rule of `lex`. -/
theorem lex_induction {P : Text → Prop} (nil : P [])
    (cons : ∀ c t, P ((c :: t).drop (token A c t).text.length) → P (c :: t)) (t : Text) : P t := by
  induction hn : t.length using Nat.strong_induction_on generalizing t with
  | _ n ih =>
    cases t with
    | nil => exact nil
    | cons c t => exact cons c t (ih _ (hn ▸ length_drop_token_lt c t) _ rfl)

/-- **The tokens are cut from the text.** -/
@[simp] theorem textOf_lex (t : Text) : textOf (lex A t) = t := by
  induction t using lex_induction (A := A) with
  | nil => rfl
  | cons c t ih => rw [lex_cons, textOf_cons, ih, token_append]

/-- What follows some of the tokens is the tokens of what follows their text. -/
theorem lex_append {t : Text} {ts us : List Token} (h : lex A t = ts ++ us) :
    lex A (t.drop (textOf ts).length) = us := by
  induction ts generalizing t with
  | nil => simpa using h
  | cons k ts ih =>
    cases t with
    | nil => simp [lex_nil] at h
    | cons c t =>
      rw [lex_cons, List.cons_append, List.cons.injEq] at h
      obtain ⟨rfl, h⟩ := h
      rw [textOf_cons, List.length_append, ← List.drop_drop]
      exact ih h

/-- A token in the middle is the token of the text that starts there. -/
theorem token_of_lex_append {t : Text} {ts us : List Token} {k : Token} (h : lex A t = ts ++ k :: us) :
    ∃ c t', t.drop (textOf ts).length = c :: t' ∧ k = token A c t' := by
  have h := lex_append h
  generalize t.drop (textOf ts).length = s at h
  cases s with
  | nil => simp [lex_nil] at h
  | cons c t' =>
    rw [lex_cons, List.cons.injEq] at h
    exact ⟨c, t', rfl, h.1.symm⟩

/-- A word token starts as an identifier does and goes on as far as it can. -/
theorem word_of_token {c : Char} {t w : Text} (h : token A c t = .word w) :
    identStart A c = true ∧ w = c :: t.takeWhile (identPart A) := by
  unfold token at h
  split_ifs at h with _ _ h3
  · exact ⟨h3, (Token.word.inj h).symm⟩
  · split at h <;> simp at h

theorem identPart_of_identStart {c : Char} (h : identStart A c = true) : identPart A c = true := by
  simp [identPart, h]

theorem drop_length_takeWhile (p : Char → Bool) (t : Text) : t.drop (t.takeWhile p).length = t.dropWhile p := by
  calc t.drop (t.takeWhile p).length = (t.takeWhile p ++ t.dropWhile p).drop (t.takeWhile p).length := by
        rw [List.takeWhile_append_dropWhile]
    _ = t.dropWhile p := List.drop_left

theorem not_of_head_dropWhile {p : Char → Bool} {t : Text} {d : Char} (h : (t.dropWhile p).head? = some d) :
    p d = false := by
  have := List.head?_dropWhile_not p t
  rwa [h] at this

/-- After a word token comes a character that cannot go on with it. -/
theorem head_after_word {t w : Text} {ts us : List Token} (h : lex A t = ts ++ .word w :: us) {d : Char}
    (hd : (textOf us).head? = some d) : identPart A d = false := by
  obtain ⟨c, t', hdrop, hk⟩ := token_of_lex_append h
  obtain ⟨-, rfl⟩ := word_of_token hk.symm
  have hus := lex_append (show lex A t = (ts ++ [.word (c :: t'.takeWhile (identPart A))]) ++ us by simpa using h)
  rw [textOf_append, List.length_append, ← List.drop_drop, hdrop] at hus
  simp only [textOf_cons, textOf_nil, List.append_nil, Token.text, List.length_cons, List.drop_succ_cons,
    drop_length_takeWhile] at hus
  rw [← hus, textOf_lex] at hd
  exact not_of_head_dropWhile hd

/-- A word token in the middle starts as an identifier does. -/
theorem head_of_word {t w : Text} {ts us : List Token} (h : lex A t = ts ++ .word w :: us) :
    ∃ d, (textOf (.word w :: us)).head? = some d ∧ identStart A d = true := by
  obtain ⟨c, t', -, hk⟩ := token_of_lex_append h
  obtain ⟨hc, rfl⟩ := word_of_token hk.symm
  exact ⟨c, rfl, hc⟩

theorem not_wordChar_of_isSpace {c : Char} (h : Python.isSpace c = true) : (c.isAlphanum || c == '_') = false := by
  rw [Python.isSpace_iff] at h
  rw [Bool.or_eq_false_iff, ← Bool.not_eq_true, Python.isAlphanum_iff, beq_eq_false_iff_ne]
  refine ⟨by omega, ?_⟩
  rintro rfl
  simp at h

theorem not_wordChar_of_closer {c q : Char} (h : closer c = some q) : (q.isAlphanum || q == '_') = false := by
  unfold closer at h
  split_ifs at h with _ hc
  · obtain rfl : ']' = q := by simpa using h
    decide
  · obtain rfl : c = q := by simpa using h
    rcases hc with rfl | rfl <;> decide

/-- In an ASCII text the last character of a token that is followed by a word is no letter, digit or underscore,
unless the token is a numeric literal. -/
theorem last_before_word {t w : Text} {ts us : List Token} {k : Token} (hascii : ∀ c ∈ t, c.toNat < 128)
    (h : lex A t = ts ++ k :: .word w :: us) (hnum : ∀ n, k ≠ .number n) {x : Char}
    (hx : k.text.getLast? = some x) : (x.isAlphanum || x == '_') = false := by
  obtain ⟨c, t', hdrop, hk⟩ := token_of_lex_append h
  have h' : lex A t = (ts ++ [k]) ++ .word w :: us := by simpa using h
  have hword := head_of_word h'
  have hrest := lex_append h'
  rw [textOf_append, List.length_append, ← List.drop_drop, hdrop, textOf_cons, textOf_nil, List.append_nil] at hrest
  have hmem : ∀ d ∈ c :: t', d.toNat < 128 := fun d hd => hascii d (List.mem_of_mem_drop (hdrop ▸ hd))
  have hxmem : x ∈ k.text := List.mem_of_getLast? hx
  have hxascii : x.toNat < 128 := hmem x ((hk ▸ token_isPrefix (A := A) c t').subset hxmem)
  unfold token at hk
  split_ifs at hk with hblank hnumeral hstart
  · subst hk
    refine not_wordChar_of_isSpace ?_
    rw [← A.blank_ascii x hxascii]
    rcases List.mem_cons.mp hxmem with rfl | hxmem
    · exact hblank
    · exact List.mem_takeWhile_imp hxmem
  · exact absurd hk (hnum _)
  · subst hk
    obtain ⟨d, hd, hdstart⟩ := hword
    have := head_after_word h hd
    rw [identPart_of_identStart hdstart] at this
    exact absurd this (by decide)
  · split at hk
    · rename_i q hq
      subst hk
      rcases closeQuote_getLast q t' with hall | hlast
      · rw [Token.text, hall, List.drop_length, lex_nil] at hrest
        exact absurd hrest (by simp)
      · obtain rfl : q = x := by simpa [Token.text, List.getLast?_cons, hlast] using hx
        exact not_wordChar_of_closer hq
    · subst hk
      obtain rfl : c = x := by simpa [Token.text] using hx
      rw [Bool.not_eq_true] at hstart hnumeral
      simp only [identStart, startsNumeral, A.letter_ascii c hxascii, Bool.or_eq_false_iff] at hstart hnumeral
      simp [Char.isAlphanum, hstart, hnumeral]

end

end DataAgent.TSql
