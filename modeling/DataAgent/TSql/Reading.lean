import DataAgent.TSql.Lexer

/-!
# Keywords and names of T-SQL

* `reservedKeywords` : the words that are a name in brackets or double quotes only;
* `reading` : what the tokens of a text say: keywords, names and symbols, in upper case;
* `Name` : a plain identifier, bare or in brackets; `Plain` : the tokens that a scan for words reads as they are.
-/

namespace DataAgent.TSql
open Python (Text)

def reservedKeywords : List String :=
  ["ADD", "ALL", "ALTER", "AND", "ANY", "AS", "ASC", "AUTHORIZATION", "BACKUP", "BEGIN", "BETWEEN", "BREAK",
    "BROWSE", "BULK", "BY", "CASCADE", "CASE", "CHECK", "CHECKPOINT", "CLOSE", "CLUSTERED", "COALESCE", "COLLATE",
    "COLUMN", "COMMIT", "COMPUTE", "CONSTRAINT", "CONTAINS", "CONTAINSTABLE", "CONTINUE", "CONVERT", "CREATE",
    "CROSS", "CURRENT", "CURRENT_DATE", "CURRENT_TIME", "CURRENT_TIMESTAMP", "CURRENT_USER", "CURSOR", "DATABASE",
    "DBCC", "DEALLOCATE", "DECLARE", "DEFAULT", "DELETE", "DENY", "DESC", "DISK", "DISTINCT", "DISTRIBUTED",
    "DOUBLE", "DROP", "DUMP", "ELSE", "END", "ERRLVL", "ESCAPE", "EXCEPT", "EXEC", "EXECUTE", "EXISTS", "EXIT",
    "EXTERNAL", "FETCH", "FILE", "FILLFACTOR", "FOR", "FOREIGN", "FREETEXT", "FREETEXTTABLE", "FROM", "FULL",
    "FUNCTION", "GOTO", "GRANT", "GROUP", "HAVING", "HOLDLOCK", "IDENTITY", "IDENTITY_INSERT", "IDENTITYCOL", "IF",
    "IN", "INDEX", "INNER", "INSERT", "INTERSECT", "INTO", "IS", "JOIN", "KEY", "KILL", "LEFT", "LIKE", "LINENO",
    "LOAD", "MERGE", "NATIONAL", "NOCHECK", "NONCLUSTERED", "NOT", "NULL", "NULLIF", "OF", "OFF", "OFFSETS", "ON",
    "OPEN", "OPENDATASOURCE", "OPENQUERY", "OPENROWSET", "OPENXML", "OPTION", "OR", "ORDER", "OUTER", "OVER",
    "PERCENT", "PIVOT", "PLAN", "PRECISION", "PRIMARY", "PRINT", "PROC", "PROCEDURE", "PUBLIC", "RAISERROR", "READ",
    "READTEXT", "RECONFIGURE", "REFERENCES", "REPLICATION", "RESTORE", "RESTRICT", "RETURN", "REVERT", "REVOKE",
    "RIGHT", "ROLLBACK", "ROWCOUNT", "ROWGUIDCOL", "RULE", "SAVE", "SCHEMA", "SECURITYAUDIT", "SELECT",
    "SEMANTICKEYPHRASETABLE", "SEMANTICSIMILARITYDETAILSTABLE", "SEMANTICSIMILARITYTABLE", "SESSION_USER", "SET",
    "SETUSER", "SHUTDOWN", "SOME", "STATISTICS", "SYSTEM_USER", "TABLE", "TABLESAMPLE", "TEXTSIZE", "THEN", "TO",
    "TOP", "TRAN", "TRANSACTION", "TRIGGER", "TRUNCATE", "TRY_CONVERT", "TSEQUAL", "UNION", "UNIQUE", "UNPIVOT",
    "UPDATE", "UPDATETEXT", "USE", "USER", "VALUES", "VARYING", "VIEW", "WAITFOR", "WHEN", "WHERE", "WHILE", "WITH",
    "WITHIN", "WRITETEXT"]

@[simp] theorem Token.text_blank (w : Text) : (Token.blank w).text = w := rfl
@[simp] theorem Token.text_word (w : Text) : (Token.word w).text = w := rfl
@[simp] theorem Token.text_symbol (c : Char) : (Token.symbol c).text = [c] := rfl

/-- Names and keywords are compared in upper case. -/
def fold (w : Text) : Text := w.map Char.toUpper

def isReserved (w : Text) : Bool := reservedKeywords.any fun k => fold w == k.toList

/-! ## Reading -/

/-- The identifier in quotes: the quote that closes it is left out, a doubled one stands for one. -/
def unquote (q : Char) : Text → Text
  | [] => []
  | [c] => if c = q then [] else [c]
  | c :: d :: t =>
    if c = q then if d = q then c :: unquote q t else []
    else c :: unquote q (d :: t)

inductive Lexeme where
  | keyword (w : Text)
  | name (w : Text)
  | symbol (c : Char)
  /-- A numeric or a character literal. -/
  | literal (w : Text)
  deriving DecidableEq, Repr

/-- What a token says; a blank says nothing. -/
def Token.lexeme : Token → Option Lexeme
  | blank _ => none
  | word w => some (if isReserved w then .keyword (fold w) else .name (fold w))
  | number w => some (.literal w)
  | quoted q w => some (match closer q with
    | some c => if c = '\x27' then .literal w else .name (fold (unquote c w))
    | none => .literal w)
  | symbol c => some (.symbol c)

def reading (ts : List Token) : List Lexeme := ts.filterMap Token.lexeme

@[simp] theorem reading_nil : reading [] = [] := rfl

@[simp] theorem reading_append (ts us : List Token) : reading (ts ++ us) = reading ts ++ reading us :=
  List.filterMap_append

theorem reading_cons (k : Token) (ts : List Token) : reading (k :: ts) = k.lexeme.toList ++ reading ts := by
  rw [reading, List.filterMap_cons]
  cases h : k.lexeme <;> simp [reading]

def kwLexeme (s : String) : Lexeme := .keyword s.toList

/-! ## Plain names -/

/-- The characters of a plain identifier. -/
def plainStart (c : Char) : Bool := c.isAlpha || c == '_'
def plainPart (c : Char) : Bool := c.isAlphanum || c == '_'

theorem plainPart_of_plainStart {c : Char} (h : plainStart c = true) : plainPart c = true := by
  rw [plainStart, Bool.or_eq_true] at h
  rw [plainPart, Char.isAlphanum]
  rcases h with h | h <;> simp [h]

/-- An identifier that is no reserved word, bare or in brackets. -/
structure Name where
  bracketed : Bool
  text : Text
  start : text.head?.any plainStart = true
  part : ∀ c ∈ text, plainPart c = true
  free : isReserved text = false
  deriving DecidableEq

namespace Name

def token (n : Name) : Token := if n.bracketed then .quoted '[' (n.text ++ [']']) else .word n.text

theorem ne_nil (n : Name) : n.text ≠ [] := by
  intro h
  have := n.start
  simp [h] at this

theorem unquote_text {q : Char} {w : Text} (h : q ∉ w) : unquote q (w ++ [q]) = w := by
  induction w with
  | nil => simp [unquote]
  | cons c w ih =>
    rw [List.mem_cons, not_or] at h
    obtain ⟨d, t, ht⟩ : ∃ d t, w ++ [q] = d :: t := List.exists_cons_of_ne_nil (by simp)
    rw [List.cons_append, ht, unquote, if_neg (Ne.symm h.1), ← ht, ih h.2]

theorem bracket_notMem (n : Name) : ']' ∉ n.text := fun h => absurd (n.part _ h) (by decide)

@[simp] theorem lexeme_token (n : Name) : n.token.lexeme = some (.name (fold n.text)) := by
  unfold token
  split
  · simp [Token.lexeme, closer, unquote_text n.bracket_notMem]
  · simp [Token.lexeme, n.free]

end Name

/-- The tokens whose words a scan of the text finds as they are. -/
inductive Plain : Token → Prop
  | blank {w : Text} (hne : w ≠ []) (h : ∀ c ∈ w, Python.isSpace c = true) : Plain (.blank w)
  | keyword {w : Text} (h : isReserved w = true) : Plain (.word w)
  | name (n : Name) : Plain n.token
  | symbol {c : Char} (hc : c.toNat < 128) (hpart : plainPart c = false) (hspace : Python.isSpace c = false)
      (hbracket : c ≠ '[' ∧ c ≠ ']') : Plain (.symbol c)

/-- The text is that of a name. -/
def isName (w : Text) : Bool := w.head?.any plainStart && w.all plainPart && !isReserved w

/-- `Plain`, decided. -/
def isPlain : Token → Bool
  | .blank w => !w.isEmpty && w.all Python.isSpace
  | .word w => isReserved w || isName w
  | .number _ => false
  | .quoted q w => q == '[' && w.getLast? == some ']' && isName w.dropLast
  | .symbol c => c.toNat < 128 && !plainPart c && !Python.isSpace c && c != '[' && c != ']'

theorem name_of_isName (bracketed : Bool) {w : Text} (h : isName w = true) :
    ∃ n : Name, n.bracketed = bracketed ∧ n.text = w := by
  simp only [isName, Bool.and_eq_true, List.all_eq_true, Bool.not_eq_true'] at h
  exact ⟨⟨bracketed, w, h.1.1, h.1.2, h.2⟩, rfl, rfl⟩

theorem plain_of_isPlain {k : Token} (h : isPlain k = true) : Plain k := by
  cases k with
  | blank w =>
    simp only [isPlain, Bool.and_eq_true, Bool.not_eq_true', List.isEmpty_eq_false_iff, List.all_eq_true] at h
    exact .blank h.1 h.2
  | word w =>
    rw [isPlain, Bool.or_eq_true] at h
    rcases h with h | h
    · exact .keyword h
    · obtain ⟨n, hb, rfl⟩ := name_of_isName false h
      have := Plain.name n
      rwa [Name.token, hb, if_neg (by simp)] at this
  | number w => simp [isPlain] at h
  | quoted q w =>
    simp only [isPlain, Bool.and_eq_true, beq_iff_eq] at h
    obtain ⟨⟨rfl, hlast⟩, hn⟩ := h
    obtain ⟨n, hb, hw⟩ := name_of_isName true hn
    have := Plain.name n
    rwa [Name.token, hb, if_pos rfl, hw, List.dropLast_append_getLast? _ hlast] at this
  | symbol c =>
    simp only [isPlain, Bool.and_eq_true, Bool.not_eq_true', decide_eq_true_eq, bne_iff_ne] at h
    exact .symbol h.1.1.1.1 h.1.1.1.2 h.1.1.2 ⟨h.1.2, h.2⟩

/-! ## Where tokens are -/

/-- The offsets of the tokens with a property; the first token is at `n`. -/
def offsets (p : Token → Bool) : Nat → List Token → List Nat
  | _, [] => []
  | n, k :: ts => (if p k then [n] else []) ++ offsets p (n + k.text.length) ts

theorem mem_offsets {p : Token → Bool} {n o : Nat} {ts : List Token} : o ∈ offsets p n ts ↔
    ∃ x k y, ts = x ++ k :: y ∧ p k = true ∧ o = n + (textOf x).length := by
  induction ts generalizing n with
  | nil => simp [offsets]
  | cons j ts ih =>
    rw [offsets, List.mem_append, ih]
    constructor
    · rintro (h | ⟨x, k, y, rfl, hk, rfl⟩)
      · split at h
        · rename_i hj
          exact ⟨[], j, ts, rfl, hj, by simpa using h⟩
        · simp at h
      · exact ⟨j :: x, k, y, rfl, hk, by simp [Nat.add_assoc]⟩
    · rintro ⟨x, k, y, h, hk, rfl⟩
      cases x with
      | nil =>
        obtain ⟨rfl, rfl⟩ := List.cons.inj h
        exact Or.inl (by simp [hk])
      | cons i x =>
        obtain ⟨rfl, rfl⟩ := List.cons.inj h
        exact Or.inr ⟨x, k, y, rfl, hk, by simp [Nat.add_assoc]⟩

/-! ## Reserved words and plain tokens -/

theorem plainPart_toUpper (c : Char) : plainPart c.toUpper = plainPart c := by
  by_cases h : c.isLower = true
  · have ha : c.isAlpha = true := by simp [Char.isAlpha, h]
    simp [plainPart, Char.isAlphanum, ha]
  · rw [Char.toUpper_eq_of_not_isLower h]

theorem plainStart_toUpper (c : Char) : plainStart c.toUpper = plainStart c := by
  by_cases h : c.isLower = true
  · have ha : c.isAlpha = true := by simp [Char.isAlpha, h]
    simp [plainStart, ha]
  · rw [Char.toUpper_eq_of_not_isLower h]

theorem reservedKeywords_plain : ∀ k ∈ reservedKeywords, k.toList ≠ [] ∧ ∀ c ∈ k.toList, plainStart c = true := by
  have h : reservedKeywords.all (fun k => !k.toList.isEmpty && k.toList.all plainStart) = true := by decide +kernel
  simpa [List.all_eq_true] using h

/-- A reserved word is made of letters and underscores. -/
theorem plainStart_of_isReserved {w : Text} (h : isReserved w = true) : w ≠ [] ∧ ∀ c ∈ w, plainStart c = true := by
  obtain ⟨k, hk, hw⟩ := List.any_eq_true.mp h
  rw [beq_iff_eq] at hw
  obtain ⟨hne, hpart⟩ := reservedKeywords_plain k hk
  refine ⟨fun hnil => hne ?_, fun c hc => ?_⟩
  · rw [← hw, hnil]
    rfl
  · rw [← plainStart_toUpper]
    exact hpart _ (hw ▸ List.mem_map_of_mem hc)

/-! ## Tokens side by side -/

section
variable {A : Alphabet}

/-- A blank token goes on as far as it can. -/
theorem blank_of_token {c : Char} {t w : Text} (h : token A c t = .blank w) :
    A.blank c = true ∧ w = c :: t.takeWhile A.blank := by
  unfold token at h
  split_ifs at h with hc
  · exact ⟨hc, (Token.blank.inj h).symm⟩
  · split at h <;> simp at h

/-- After a blank token comes no blank. -/
theorem head_after_blank {t w : Text} {ts us : List Token} (h : lex A t = ts ++ .blank w :: us) {d : Char}
    (hd : (textOf us).head? = some d) : A.blank d = false := by
  obtain ⟨c, t', hdrop, hk⟩ := token_of_lex_append h
  obtain ⟨-, rfl⟩ := blank_of_token hk.symm
  have hus := lex_append (show lex A t = (ts ++ [.blank (c :: t'.takeWhile A.blank)]) ++ us by simpa using h)
  rw [textOf_append, List.length_append, ← List.drop_drop, hdrop] at hus
  simp only [textOf_cons, textOf_nil, List.append_nil, Token.text, List.length_cons, List.drop_succ_cons,
    drop_length_takeWhile] at hus
  rw [← hus, textOf_lex] at hd
  exact not_of_head_dropWhile hd

theorem not_blank_after_blank {t w v : Text} {ts us : List Token} : lex A t ≠ ts ++ .blank w :: .blank v :: us := by
  intro h
  obtain ⟨c, t', -, hk⟩ := token_of_lex_append (show lex A t = (ts ++ [.blank w]) ++ .blank v :: us by simpa using h)
  obtain ⟨hc, rfl⟩ := blank_of_token hk.symm
  have hblank := head_after_blank h (d := c) rfl
  rw [hc] at hblank
  exact absurd hblank (by simp)

end

end DataAgent.TSql
