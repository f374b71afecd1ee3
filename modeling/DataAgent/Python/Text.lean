import Mathlib

/-!
# Python text

A Python `str` is a list of characters. This module has the string operations the repository's
validators call:

* `surrogate`, `encodable` : the lone surrogates that a `str` may have, and the texts without any;
* `isSpace`, `strip`, `rstrip` : `str.isspace` on one character and the two trims that use it;
* `Unicode` : the part of the interpreter's character database that is versioned data (`str.isalnum`,
  decimal digit values, `str.upper`, `str.lower`), with the facts that hold in every version of it;
* `isWord` : the class `\w`, whose edges are the boundaries `\b`;
* `intOf` : `int(text)` on a run of decimal digits, with CPython's limit on its length;
* `raiseUnless` : a guard that raises; `raiseUnless_bind`, `bind_eq_ok` : what a run without an exception went
  through.
-/

namespace DataAgent.Python

abbrev Text := List Char

/-! ## Surrogates -/

/-- The lone surrogate with this code, from U+D800 to U+DFFF. `Char` has none: the code points in the same place of
plane 13 stand for them, which is not assigned in any version of Unicode and is in no text here on its own. -/
def surrogate (n : Nat) : Char := Char.ofNat (0xd0000 + n)

def isSurrogate (c : Char) : Bool := 0xdd800 ≤ c.toNat && c.toNat ≤ 0xddfff

/-- `t.encode("utf-8")` raises no `UnicodeEncodeError`. -/
def encodable (t : Text) : Bool := t.all fun c => !isSurrogate c

/-! ## Characters -/

/-- `str.isspace` on one character; the class `\s` is the same set. -/
def isSpace (c : Char) : Bool :=
  let n := c.toNat
  (9 ≤ n && n ≤ 13) || (28 ≤ n && n ≤ 32) || n == 0x85 || n == 0xa0 || n == 0x1680 ||
    (0x2000 ≤ n && n ≤ 0x200a) || n == 0x2028 || n == 0x2029 || n == 0x202f || n == 0x205f ||
    n == 0x3000

theorem isSpace_iff (c : Char) : isSpace c = true ↔
    (9 ≤ c.toNat ∧ c.toNat ≤ 13) ∨ (28 ≤ c.toNat ∧ c.toNat ≤ 32) ∨ c.toNat = 0x85 ∨ c.toNat = 0xa0 ∨
      c.toNat = 0x1680 ∨ (0x2000 ≤ c.toNat ∧ c.toNat ≤ 0x200a) ∨ c.toNat = 0x2028 ∨ c.toNat = 0x2029 ∨
      c.toNat = 0x202f ∨ c.toNat = 0x205f ∨ c.toNat = 0x3000 := by
  simp only [isSpace, Bool.or_eq_true, Bool.and_eq_true, decide_eq_true_eq, beq_iff_eq, or_assoc]

theorem isAlphanum_iff (c : Char) : c.isAlphanum = true ↔
    (65 ≤ c.toNat ∧ c.toNat ≤ 90) ∨ (97 ≤ c.toNat ∧ c.toNat ≤ 122) ∨ (48 ≤ c.toNat ∧ c.toNat ≤ 57) := by
  simp only [Char.isAlphanum, Char.isAlpha, Char.isUpper, Char.isLower, Char.isDigit, Bool.or_eq_true,
    Bool.and_eq_true, decide_eq_true_eq, UInt32.le_iff_toNat_le, ge_iff_le, or_assoc]
  rfl

theorem isDigit_iff (c : Char) : c.isDigit = true ↔ 48 ≤ c.toNat ∧ c.toNat ≤ 57 := by
  simp only [Char.isDigit, Bool.and_eq_true, decide_eq_true_eq, UInt32.le_iff_toNat_le, ge_iff_le]
  rfl

/-- A decidable fact about ASCII characters is checked on the 128 code points. -/
theorem forall_ascii {P : Char → Prop} (h : ∀ n < 128, P (Char.ofNat n)) (c : Char) (hc : c.toNat < 128) : P c := by
  have := h c.toNat hc
  rwa [Char.ofNat_toNat] at this

/-- The four characters outside ASCII that an ignore-case pattern matches with an ASCII letter. -/
def foldChars : Text := ['\u0130', '\u0131', '\u017f', '\u212a']

/-- The character database of the interpreter. -/
structure Unicode where
  alnum : Char → Bool
  decimal : Char → Option Nat
  upper : Char → Text
  lower : Text → Text
  alnum_ascii : ∀ c : Char, c.toNat < 128 → alnum c = c.isAlphanum
  alnum_fold : ∀ c ∈ foldChars, alnum c = true
  alnum_space : ∀ c : Char, isSpace c = true → alnum c = false
  decimal_ascii : ∀ c : Char, c.toNat < 128 →
    decimal c = if c.isDigit then some (c.toNat - 48) else none
  alnum_of_decimal : ∀ c : Char, (decimal c).isSome → alnum c = true
  upper_ascii : ∀ c : Char, c.toNat < 128 → upper c = [c.toUpper]
  lower_ascii : ∀ t : Text, (∀ c ∈ t, c.toNat < 128) → lower t = t.map Char.toLower

/-- A database that knows the ASCII characters and the ignore-case four; it agrees with every version on
texts of these. -/
def Unicode.small : Unicode where
  alnum c := c.isAlphanum || foldChars.contains c
  decimal c := if c.isDigit then some (c.toNat - 48) else none
  upper c := if c = '\u0131' then ['I'] else if c = '\u017f' then ['S'] else [c.toUpper]
  lower t := t.map Char.toLower
  alnum_ascii c h := by
    have hf : foldChars.contains c = false := by
      simp only [foldChars, List.contains_eq_mem, decide_eq_false_iff_not, List.mem_cons, List.not_mem_nil, or_false]
      rintro (rfl | rfl | rfl | rfl) <;> exact absurd h (by decide)
    rw [hf, Bool.or_false]
  alnum_fold c h := by simp [h]
  alnum_space c h := by
    rw [isSpace_iff] at h
    rw [Bool.or_eq_false_iff]
    constructor
    · rw [← Bool.not_eq_true, isAlphanum_iff]
      omega
    · simp only [foldChars, List.contains_eq_mem, decide_eq_false_iff_not, List.mem_cons, List.not_mem_nil, or_false]
      rintro (rfl | rfl | rfl | rfl) <;> exact absurd h (by decide)
  decimal_ascii _ _ := rfl
  alnum_of_decimal c h := by
    split at h
    · rename_i hd
      rw [isDigit_iff] at hd
      rw [Bool.or_eq_true, isAlphanum_iff]
      exact Or.inl (Or.inr (Or.inr hd))
    · simp at h
  upper_ascii c h := by
    rw [if_neg, if_neg] <;> rintro rfl <;> exact absurd h (by decide)
  lower_ascii _ _ := rfl

variable (U : Unicode)

/-- The class `\w`. -/
def isWord (c : Char) : Bool := U.alnum c || c == '_'

/-- `str.upper`. -/
def upper (t : Text) : Text := t.flatMap U.upper

/-- `str.rstrip`. -/
def rstrip (t : Text) : Text := t.rdropWhile isSpace

/-- `str.strip`. -/
def strip (t : Text) : Text := rstrip (t.dropWhile isSpace)

/-- Two characters next to each other: `"ab" in text`. -/
def hasPair (a b : Char) : Text → Bool
  | x :: y :: rest => (x == a && y == b) || hasPair a b (y :: rest)
  | _ => false

/-- The most digits `int` reads (`sys.set_int_max_str_digits`). -/
def maxStrDigits : Nat := 4300

/-- `int(t)` on a text of decimal digits; `none` is the `ValueError` for a text over the limit. -/
def intOf (t : Text) : Option Nat :=
  if t.length ≤ maxStrDigits then some (t.foldl (fun n c => 10 * n + (U.decimal c).getD 0) 0) else none

/-! ## Messages -/

/-- `repr` of a text without quotes or control characters. -/
def reprText (t : Text) : String := "'" ++ String.ofList t ++ "'"

/-- `sorted` on texts. -/
def sorted (ts : List Text) : List Text := ts.insertionSort (· ≤ ·)

/-- `str` of a list of such texts. -/
def reprList (ts : List Text) : String := "[" ++ ", ".intercalate (ts.map reprText) ++ "]"

/-! ## Raising -/

/-- `if not ok: raise e`. -/
def raiseUnless {ε : Type} (ok : Bool) (e : ε) : Except ε Unit := if ok then .ok () else .error e

theorem raiseUnless_bind {ε α : Type} {ok : Bool} {e : ε} {f : Unit → Except ε α} {x : α} :
    (raiseUnless ok e >>= f) = .ok x ↔ ok = true ∧ f () = .ok x := by
  cases ok <;> simp [raiseUnless, bind, Except.bind]

theorem raiseUnless_eq_ok {ε : Type} {ok : Bool} {e : ε} {x : Unit} : raiseUnless ok e = .ok x ↔ ok = true := by
  cases ok <;> simp [raiseUnless]

theorem bind_eq_ok {ε α β : Type} {m : Except ε α} {f : α → Except ε β} {x : β} :
    (m >>= f) = .ok x ↔ ∃ a, m = .ok a ∧ f a = .ok x := by
  cases m <;> simp [bind, Except.bind]

end DataAgent.Python
