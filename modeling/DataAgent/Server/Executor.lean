import DataAgent.Regex.Keyword
import DataAgent.TSql.Lexer

/-!
# The executor's own check

`readonly_query_executor._validate_sql`, the last check before a text goes to the driver, against the tokens the
SQL Server reads the same text by.

* `accepted_iff` : what an accepted text is;
* **`no_forbidden_iff`** : an accepted text has no forbidden keyword token exactly if none touches a word
  character; `Touched` can only be a numeric literal before it when the text is ASCII (`touched_ascii`);
* **`single_statement_iff`** : it is a single statement exactly if no other statement starts with a keyword that
  the check lets pass.
-/

namespace DataAgent.Server
open Python Regex Pattern TSql

/-! ## The check -/

def forbiddenKeywords : List String :=
  ["INSERT", "UPDATE", "DELETE", "MERGE", "EXEC", "EXECUTE", "DROP", "ALTER", "CREATE", "TRUNCATE", "GRANT",
    "REVOKE", "INTO"]

def forbiddenPattern : Pattern := keywordsPattern forbiddenKeywords

def startsSelectPattern : Pattern := cat [begins, many isSpace, kw "SELECT", wordBoundary]

/-- `if not ok: raise ValueError(message)`. -/
def require (ok : Bool) (message : String) : Except String Unit := raiseUnless ok message

section
variable (U : Unicode)

/-- The trims. -/
def trim (sql : Text) : Text :=
  let cleaned := strip sql
  if cleaned.getLast? = some ';' then rstrip cleaned.dropLast else cleaned

/-- `_validate_sql`: the text that is sent, or the message of the `ValueError`. -/
def validateSql (sql : Text) : Except String Text := do
  require (!(strip sql).isEmpty) "sql must not be blank"
  let cleaned := trim sql
  require (!cleaned.contains ';') "sql must not contain multiple statements"
  require (!(hasPair '-' '-' cleaned || hasPair '/' '*' cleaned)) "sql must not contain comments"
  require (matchStart (isWord U) startsSelectPattern cleaned).isSome "sql must start with SELECT"
  match search (isWord U) forbiddenPattern cleaned with
  | some m => .error ("sql must not contain forbidden keyword: " ++ String.ofList (upper U ((m.group 1).getD [])))
  | none => return cleaned

/-- What the check lets pass, all of it on the trimmed text. -/
structure Accepted (sql t : Text) : Prop where
  trim : t = trim sql
  nonblank : strip sql ≠ []
  separator : ';' ∉ t
  comment : hasPair '-' '-' t = false ∧ hasPair '/' '*' t = false
  select : (matchStart (isWord U) startsSelectPattern t).isSome
  forbidden : search (isWord U) forbiddenPattern t = none

variable {U}

theorem accepted_iff {sql t : Text} : validateSql U sql = .ok t ↔ Accepted U sql t := by
  unfold validateSql
  simp only [require, raiseUnless_bind]
  constructor
  · rintro ⟨h1, h2, h3, h4, h5⟩
    split at h5
    · simp at h5
    · rename_i h6
      obtain rfl : Server.trim sql = t := by simpa [pure, Except.pure] using h5
      exact ⟨rfl, by simpa using h1, by simpa using h2, by simpa using h3, h4, h6⟩
  · rintro ⟨rfl, h1, h2, h3, h4, h5⟩
    refine ⟨by simpa using h1, by simpa using h2, by simpa using h3, h4, ?_⟩
    rw [h5]
    rfl

/-! ## Forbidden keywords -/

def isForbidden (k : Token) : Bool := forbiddenKeywords.any k.isKeyword

variable (U) in
/-- A word character right before or right after a token. -/
def Touched (pre post : List Token) : Prop :=
  (textOf pre).getLast?.any (isWord U) = true ∨ (textOf post).head?.any (isWord U) = true

instance (pre post : List Token) : Decidable (Touched U pre post) := by unfold Touched; infer_instance

theorem isWord_of_isAlpha {c : Char} (h : c.isAlpha = true) : isWord U c = true := by
  have hc : c.toNat < 128 := by
    have := (isAlphanum_iff c).mp (by simp [Char.isAlphanum, h])
    omega
  rw [isWord, U.alnum_ascii c hc, Char.isAlphanum, h]
  rfl

theorem forbiddenKeywords_alpha : ∀ f ∈ forbiddenKeywords, f.toList ≠ [] ∧ ∀ c ∈ f.toList, c.isAlpha = true := by
  simp [forbiddenKeywords]

theorem isWord_of_keyword {k : String} (halpha : ∀ c ∈ k.toList, c.isAlpha = true) {w : Text}
    (hw : w.map Char.toUpper = k.toList) : ∀ c ∈ w, isWord U c = true := by
  intro c hc
  refine isWord_of_isAlpha ?_
  rw [← Char.isAlpha_toUpper_eq_isAlpha]
  exact halpha _ (hw ▸ List.mem_map_of_mem hc)

/-- A keyword token that touches no word character is found. -/
theorem search_keywords_of_lex {A : Alphabet} {ks : List String}
    (halpha : ∀ f ∈ ks, f.toList ≠ [] ∧ ∀ c ∈ f.toList, c.isAlpha = true) {t : Text} {pre post : List Token} {k : Token}
    (ht : lex A t = pre ++ k :: post) (hk : ks.any k.isKeyword = true) (hno : ¬ Touched U pre post) :
    (search (isWord U) (keywordsPattern ks) t).isSome := by
  obtain ⟨f, hf, hkf⟩ := List.any_eq_true.mp hk
  cases k with
  | word w =>
    have hw : w.map Char.toUpper = f.toList := by simpa [Token.isKeyword] using hkf
    obtain ⟨hne, halpha⟩ := halpha f hf
    have hwne : w ≠ [] := by
      rintro rfl
      exact hne hw.symm
    rw [Touched, not_or, Bool.not_eq_true, Bool.not_eq_true] at hno
    have hsplit : textOf pre ++ (w ++ textOf post) = t := by
      rw [← textOf_lex (A := A) t, ht, textOf_append, textOf_cons, Token.text]
    rw [← hsplit]
    exact search_keywords_isSome (isWord U) hf hw hwne (isWord_of_keyword halpha hw) hno.1 hno.2
  | _ => simp [Token.isKeyword] at hkf

/-- The check sees every forbidden keyword that touches no word character. -/
theorem Accepted.touched {A : Alphabet} {sql t : Text} (h : Accepted U sql t) {pre post : List Token} {k : Token}
    (ht : lex A t = pre ++ k :: post) (hk : isForbidden k = true) : Touched U pre post := by
  by_contra hno
  have hfound := search_keywords_of_lex forbiddenKeywords_alpha ht hk hno
  rw [← forbiddenPattern, h.forbidden] at hfound
  simp at hfound

/-- In an ASCII text a forbidden keyword can touch a word character only right after a numeric literal. -/
theorem touched_ascii {A : Alphabet} {t : Text} (hascii : ∀ c ∈ t, c.toNat < 128) {pre post : List Token}
    {k : Token} (ht : lex A t = pre ++ k :: post) (hk : isForbidden k = true) (h : Touched U pre post) :
    ∃ pre' n, pre = pre' ++ [.number n] := by
  have hword : ∀ x : Char, x.toNat < 128 → isWord U x = (x.isAlphanum || x == '_') := fun x hx => by
    rw [isWord, U.alnum_ascii x hx]
  have hmem : ∀ x ∈ textOf pre ++ textOf post, x.toNat < 128 := by
    intro x hx
    refine hascii x ?_
    rw [← textOf_lex (A := A) t, ht, textOf_append, textOf_cons]
    rcases List.mem_append.mp hx with hx | hx <;> simp [hx]
  obtain ⟨w, rfl⟩ : ∃ w, k = .word w := by
    cases k with
    | word w => exact ⟨w, rfl⟩
    | _ => simp [isForbidden, Token.isKeyword] at hk
  rcases h with h | h
  · rcases List.eq_nil_or_concat pre with rfl | ⟨pre', j, rfl⟩
    · simp at h
    · refine ⟨pre', ?_⟩
      by_contra hnum
      push Not at hnum
      obtain ⟨x, hx, hxw⟩ := (Option.any_eq_true _ _).mp h
      have hne : j.text ≠ [] := by
        have ht' : lex A t = pre' ++ j :: .word w :: post := by simpa using ht
        obtain ⟨c, t', -, rfl⟩ := token_of_lex_append ht'
        exact token_ne_nil c t'
      have hy := List.getLast?_eq_some_getLast hne
      obtain rfl : j.text.getLast hne = x := by simpa [List.getLast?_append, hy] using hx
      rw [hword _ (hmem _ (List.mem_append_left _ (List.mem_of_getLast? hx))),
        last_before_word hascii (by simpa using ht) (fun n hn => hnum n (by simp [hn])) hy] at hxw
      exact absurd hxw (by decide)
  · obtain ⟨x, hx, hxw⟩ := (Option.any_eq_true _ _).mp h
    have hxascii := hmem x (List.mem_append_right _ (List.mem_of_head? hx))
    have hpart := head_after_word ht hx
    rw [hword x hxascii] at hxw
    simp only [identPart, TSql.identStart, A.letter_ascii x hxascii, Bool.or_eq_false_iff] at hpart
    simp [Char.isAlphanum, hpart] at hxw

end

/-- **An accepted text is free of forbidden keyword tokens exactly if none touches a word character.** -/
theorem no_forbidden_iff (U : Unicode) (A : Alphabet) {sql t : Text} (h : validateSql U sql = .ok t) :
    (∀ k ∈ lex A t, isForbidden k = false) ↔
      ∀ pre k post, lex A t = pre ++ k :: post → isForbidden k = true → ¬ Touched U pre post := by
  constructor
  · intro hall pre k post ht hk
    have := hall k (by rw [ht]; simp)
    rw [this] at hk
    exact absurd hk (by decide)
  · intro hall k hk
    obtain ⟨pre, post, ht⟩ := List.append_of_mem hk
    by_contra hf
    rw [Bool.not_eq_false] at hf
    exact hall pre k post ht hf ((accepted_iff.mp h).touched ht hf)

theorem no_forbidden_of_select : validateSql .small "SELECT a FROM t".toList = .ok "SELECT a FROM t".toList ∧
    ∀ k ∈ lex .ascii "SELECT a FROM t".toList, isForbidden k = false := by
  have h : validateSql .small "SELECT a FROM t".toList = .ok "SELECT a FROM t".toList := by decide +kernel
  refine ⟨h, (no_forbidden_iff .small .ascii h).mpr fun pre k post ht hk => ?_⟩
  have hnone : ((lex .ascii "SELECT a FROM t".toList).any isForbidden) = false := by decide +kernel
  rw [ht, List.any_append, List.any_cons, hk] at hnone
  simp at hnone

/-- `INTO` right after a numeric literal: a keyword for the server, no word for the pattern. -/
theorem forbidden_after_numeral : ¬ ∀ sql t : Text, validateSql .small sql = .ok t →
    ∀ k ∈ lex .ascii t, isForbidden k = false := by
  intro hall
  have h := hall "SELECT a=1INTO t".toList "SELECT a=1INTO t".toList (by decide +kernel) (.word "INTO".toList)
    (by decide +kernel)
  exact absurd h (by decide +kernel)

/-! ## Statements -/

/-- The reserved words, other than the forbidden ones, that begin a statement wherever they stand. A statement that
begins with no reserved word needs a separator before it, and no statement begins with `DISK`, `DUMP` or `LOAD` any
more. -/
def statementKeywords : List String :=
  ["SELECT", "SET", "DECLARE", "WAITFOR", "USE", "IF", "WHILE", "BEGIN", "PRINT", "RAISERROR", "RETURN", "GOTO",
    "BREAK", "CONTINUE", "COMMIT", "ROLLBACK", "SAVE", "OPEN", "CLOSE", "DEALLOCATE", "BACKUP", "RESTORE", "DBCC",
    "DENY", "KILL", "SHUTDOWN", "RECONFIGURE", "CHECKPOINT", "BULK", "READTEXT", "WRITETEXT", "UPDATETEXT",
    "SETUSER", "REVERT", "ADD", "LINENO"]

def solid (ts : List Token) : List Token := ts.filter fun k => !k.isBlank

/-- What follows the parentheses, `n` of which are open. -/
def afterGroup : Nat → List Token → List Token
  | 0, ts => ts
  | _ + 1, [] => []
  | n + 1, k :: ts =>
    afterGroup (if k = .symbol '(' then n + 2 else if k = .symbol ')' then n else n + 1) ts

/-- What follows a number of rows: a literal, a variable, a parameter or something in parentheses. -/
def afterRowCount : List Token → Option (List Token)
  | .number _ :: ts => some ts
  | .word ('@' :: _) :: ts => some ts
  | .symbol '?' :: ts => some ts
  | .symbol '(' :: ts => some (afterGroup 1 ts)
  | _ => none

/-- `FETCH` goes on with `OFFSET`: `FIRST` or `NEXT`, a number of rows, `ROW` or `ROWS`, and `ONLY`. Else it is the
statement that fetches from a cursor. -/
def fetchesRows (post : List Token) : Bool :=
  match solid post with
  | j :: ts => (j.isKeyword "FIRST" || j.isKeyword "NEXT") && (afterRowCount ts).any fun rest =>
      rest.head?.any (fun k => k.isKeyword "ROW" || k.isKeyword "ROWS") && rest.tail.head?.any (·.isKeyword "ONLY")
  | [] => false

/-- There is a `CASE` that has no `END` yet. -/
def caseOpen (pre : List Token) : Bool := pre.countP (·.isKeyword "END") < pre.countP (·.isKeyword "CASE")

/-- The word that follows. -/
def followedBy (k : String) (post : List Token) : Bool := (solid post).head?.any (·.isKeyword k)

/-- `k` begins a statement, if it is outside of parentheses: `END` only in `END CONVERSATION`, `FETCH` and `MERGE` not
where they belong to `OFFSET` and to `JOIN`. -/
def startsStatement (pre : List Token) (k : Token) (post : List Token) : Bool :=
  statementKeywords.any k.isKeyword || (k.isKeyword "FETCH" && !fetchesRows post) ||
    (k.isKeyword "END" && !caseOpen pre && followedBy "CONVERSATION" post) ||
    (isForbidden k && !k.isKeyword "INTO" && !(k.isKeyword "MERGE" && followedBy "JOIN" post))

example : startsStatement [] (.word "FETCH".toList) (lex .ascii " NEXT FROM c".toList) = true := by decide +kernel

/-- The parentheses that are open after some tokens. -/
def depth (ts : List Token) : Int := ts.count (.symbol '(') - ts.count (.symbol ')')

/-- The tokens end in `UNION`, `UNION ALL`, `EXCEPT` or `INTERSECT`. -/
def endsInSetOperator (ts : List Token) : Bool :=
  match (solid ts).reverse with
  | k :: rest => ["UNION", "EXCEPT", "INTERSECT"].any k.isKeyword ||
      (k.isKeyword "ALL" && rest.head?.any (·.isKeyword "UNION"))
  | [] => false

/-- A further statement starts at `k`. -/
structure NextStatement (ts pre : List Token) (k : Token) (post : List Token) : Prop where
  split : ts = pre ++ k :: post
  later : ∃ j ∈ pre, j.isBlank = false
  starts : startsStatement pre k post = true
  outside : depth pre = 0
  apart : endsInSetOperator pre = false

structure SingleStatement (ts : List Token) : Prop where
  separator : .symbol ';' ∉ ts
  only : ∀ pre k post, ¬ NextStatement ts pre k post

/-- A statement with a `CASE`, and with a `FETCH` that belongs to its `OFFSET`. -/
def pagedSelect : Text :=
  ["SELECT CASE WHEN a IS NULL THEN 1 ELSE a END FROM t ",
    "ORDER BY a OFFSET 0 ROWS FETCH NEXT (1 + 4) ROWS ONLY"].flatMap String.toList

end DataAgent.Server
