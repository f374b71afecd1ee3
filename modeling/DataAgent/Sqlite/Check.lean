import Mathlib.Algebra.Order.Ring.Rat
import Mathlib.Data.List.DropRight
import Mathlib.Data.List.Lex
import Mathlib.Data.Rat.Cast.Order
import Mathlib.Data.String.Basic
import Mathlib.Order.Compare
import Mathlib.Order.WithBot

/-!
# The checks of SQLite

The expressions that a `CHECK` constraint is made of, with the three-valued logic of SQL.

* `Value`, `Engine`, `Expr`, `eval` : a null is unknown, and an expression may raise; a check fails on false only
  (`passes`);
* `passes_notBlank`, `passes_isIn`, `passes_between`, `passes_nonemptyArray` : what the usual checks say of a value.
-/

namespace DataAgent.Sqlite

/-- What a `REAL` is: a number or an infinity. -/
abbrev Double := WithBot (WithTop ℚ)

def Double.ofInt (i : Int) : Double := ((i : ℚ) : WithTop ℚ)

theorem Double.ofInt_le {i j : Int} : Double.ofInt i ≤ Double.ofInt j ↔ i ≤ j := by
  simp only [Double.ofInt, WithBot.coe_le_coe, WithTop.coe_le_coe, Int.cast_le]

/-- The storage classes, but for `BLOB`. -/
inductive Value where
  | null
  | int (i : Int)
  | real (x : Double)
  | text (t : List Char)
  deriving DecidableEq

/-- What is taken from the database engine as it is. -/
structure Engine where
  /-- The type of a well-formed JSON text, and the length of its array. -/
  json : List Char → Option (String × Nat)
  /-- The number that a text is written as. -/
  number : List Char → Option (Int ⊕ Double)
  /-- A real number as a text. -/
  written : Double → List Char

namespace Value

def ofBool (b : Bool) : Value := .int (if b then 1 else 0)

/-- The order of two values that are not null: numbers, then texts by their characters. -/
def order : Value → Value → Ordering
  | .int i, .int j => compareOfLessAndEq i j
  | .int i, .real y => compareOfLessAndEq (Double.ofInt i) y
  | .real x, .int j => compareOfLessAndEq x (Double.ofInt j)
  | .real x, .real y => compareOfLessAndEq x y
  | .text s, .text t => if s = t then .eq else if s < t then .lt else .gt
  | .text _, _ => .gt
  | _, _ => .lt

/-- The characters of a value, as functions on texts see it. -/
def chars (E : Engine) : Value → Option (List Char)
  | .null => none
  | .int i => some (toString i).toList
  | .real x => some (E.written x)
  | .text t => some t

/-- The number that a value is. -/
def toDouble : Value → Option Double
  | .int i => some (.ofInt i)
  | .real x => some x
  | _ => none

end Value

/-- `trim(x)`: it takes spaces away, and no other whitespace. -/
def trim (t : List Char) : List Char := (t.dropWhile (· = ' ')).rdropWhile (· = ' ')

/-- `length(x)`: the characters before the first `NUL`. -/
def length (t : List Char) : Nat := (t.takeWhile (· ≠ '\x00')).length

inductive Comparison where
  | lt | le | eq | ge | gt
  deriving DecidableEq

def Comparison.holds : Comparison → Ordering → Bool
  | lt, o => o = .lt
  | le, o => o ≠ .gt
  | eq, o => o = .eq
  | ge, o => o ≠ .lt
  | gt, o => o = .gt

inductive Expr where
  | column (name : String)
  | literal (v : Value)
  | length (e : Expr)
  | trim (e : Expr)
  | jsonValid (e : Expr)
  | jsonType (e : Expr)
  | jsonArrayLength (e : Expr)
  | compare (op : Comparison) (a b : Expr)
  | isIn (e : Expr) (values : List Value)
  | and (a b : Expr)

section
variable (E : Engine)

/-- A function of one argument, which is null for null. -/
def onChars (f : List Char → Option Value) (v : Value) : Option Value :=
  match v.chars E with
  | none => some .null
  | some t => f t

def compareValues (op : Comparison) : Value → Value → Value
  | .null, _ => .null
  | _, .null => .null
  | x, y => .ofBool (op.holds (x.order y))

/-- `x IN (values)`, without nulls among the values. -/
def inValues (x : Value) (values : List Value) : Value :=
  match x with
  | .null => .null
  | x => .ofBool (values.any fun v => x.order v = .eq)

/-- The value of an expression in a row; nothing for an error. -/
def eval (row : String → Value) : Expr → Option Value
  | .column name => some (row name)
  | .literal v => some v
  | .length e => (eval row e).bind (onChars E fun t => some (.int (length t)))
  | .trim e => (eval row e).bind (onChars E fun t => some (.text (trim t)))
  | .jsonValid e => (eval row e).bind (onChars E fun t => some (.ofBool (E.json t).isSome))
  | .jsonType e => (eval row e).bind (onChars E fun t => (E.json t).map fun j => .text j.1.toList)
  | .jsonArrayLength e => (eval row e).bind (onChars E fun t => (E.json t).map fun j => .int j.2)
  | .compare op a b => do
    let x ← eval row a
    let y ← eval row b
    return compareValues op x y
  | .isIn e values => (eval row e).map fun x => inValues x values
  | .and a b => do
    let x ← eval row a
    -- the right side is not looked at if the left one is false
    if x = .int 0 then return .int 0
    let y ← eval row b
    if y = .int 0 then return .int 0
    if x = .null ∨ y = .null then return .null
    return .int 1

/-- A check passes unless it is false or raises. -/
def passes (row : String → Value) (e : Expr) : Bool :=
  match eval E row e with
  | none => false
  | some v => v ≠ .int 0

/-! ## The usual checks -/

variable {E} {row : String → Value} {c : String}

/-- `length(trim(c)) > 0`. -/
def notBlank (c : String) : Expr := .compare .gt (.length (.trim (.column c))) (.literal (.int 0))

/-- The comparison of two numbers. -/
def Comparison.ofInt : Comparison → Int → Int → Bool
  | lt, i, j => i < j
  | le, i, j => i ≤ j
  | eq, i, j => i = j
  | ge, i, j => j ≤ i
  | gt, i, j => j < i

theorem compareValues_int (op : Comparison) (i j : Int) :
    compareValues op (.int i) (.int j) = .ofBool (op.ofInt i j) := by
  have horder : Value.order (.int i) (.int j) = if i < j then .lt else if i = j then .eq else .gt := rfl
  show Value.ofBool (op.holds (Value.order (.int i) (.int j))) = _
  rw [horder]
  congr 1
  rcases lt_trichotomy i j with h | rfl | h
  · rw [if_pos h]
    cases op <;> simp [Comparison.holds, Comparison.ofInt] <;> omega
  · rw [if_neg (by omega), if_pos rfl]
    cases op <;> simp [Comparison.holds, Comparison.ofInt]
  · rw [if_neg (by omega), if_neg (by omega)]
    cases op <;> simp [Comparison.holds, Comparison.ofInt] <;> omega

/-- A text passes that has something between its spaces, which does not start with `NUL`. -/
theorem passes_notBlank {t : List Char} (h : row c = .text t) :
    passes E row (notBlank c) = true ↔ length (trim t) ≠ 0 := by
  have heval : eval E row (notBlank c) = some (compareValues .gt (.int (length (trim t))) (.int 0)) := by
    simp only [notBlank, eval, h, onChars, Value.chars, Option.bind_some, Option.bind_eq_bind, pure]
  rw [passes, heval, compareValues_int]
  rcases Nat.eq_zero_or_pos (length (trim t)) with h0 | h0
  · simp [h0, Value.ofBool, Comparison.ofInt]
  · simp [h0, Value.ofBool, Comparison.ofInt, Nat.pos_iff_ne_zero.mp h0]

theorem order_text_eq {s : List Char} {v : Value} : Value.order (.text s) v = .eq ↔ v = .text s := by
  cases v with
  | text t =>
    have horder : Value.order (.text s) (.text t) = if s = t then .eq else if s < t then .lt else .gt := rfl
    rw [horder, Value.text.injEq, eq_comm (a := t)]
    split
    · simp [*]
    · split <;> simp [*]
  | _ => simp [Value.order]

/-- `c IN (values)`. -/
theorem passes_isIn {values : List Value} (h : row c ≠ .null) :
    passes E row (.isIn (.column c) values) = true ↔ ∃ v ∈ values, (row c).order v = .eq := by
  have heval : eval E row (.isIn (.column c) values) =
      some (.ofBool (values.any fun v => (row c).order v = .eq)) := by
    show some (inValues (row c) values) = _
    unfold inValues
    split
    · exact absurd ‹row c = .null› h
    · rfl
  rw [passes, heval]
  cases hany : values.any fun v => (row c).order v = .eq <;> simp_all [Value.ofBool]

/-- `c >= low AND c <= high`. -/
def between (c : String) (low high : Int) : Expr :=
  .and (.compare .ge (.column c) (.literal (.int low))) (.compare .le (.column c) (.literal (.int high)))

theorem compareOfLessAndEq_holds {α : Type} [LinearOrder α] (x y : α) :
    Comparison.ge.holds (compareOfLessAndEq x y) = decide (y ≤ x) ∧
      Comparison.le.holds (compareOfLessAndEq x y) = decide (x ≤ y) := by
  unfold compareOfLessAndEq
  rcases lt_trichotomy x y with h | rfl | h
  · simp [h, h.le, h.not_ge, Comparison.holds]
  · simp [Comparison.holds]
  · simp [h.not_gt, h.ne', h.le, h.not_ge, Comparison.holds]

theorem compareValues_double {v : Value} {x : Double} (h : v.toDouble = some x) (i : Int) :
    compareValues .ge v (.int i) = .ofBool (decide (Double.ofInt i ≤ x)) ∧
      compareValues .le v (.int i) = .ofBool (decide (x ≤ Double.ofInt i)) := by
  cases v with
  | int j =>
    obtain rfl := Option.some.inj h
    simp only [Double.ofInt_le]
    exact (compareOfLessAndEq_holds j i).imp (congrArg Value.ofBool) (congrArg Value.ofBool)
  | real y =>
    obtain rfl := Option.some.inj h
    exact (compareOfLessAndEq_holds y (Double.ofInt i)).imp (congrArg Value.ofBool) (congrArg Value.ofBool)
  | _ => simp [Value.toDouble] at h

/-- Numbers between the bounds pass; texts are greater than any number. -/
theorem passes_between {low high : Int} (h : row c ≠ .null) : passes E row (between c low high) = true ↔
    ∃ x, (row c).toDouble = some x ∧ Double.ofInt low ≤ x ∧ x ≤ Double.ofInt high := by
  have heval : eval E row (between c low high) = (do
      if compareValues .ge (row c) (.int low) = .int 0 then return .int 0
      if compareValues .le (row c) (.int high) = .int 0 then return .int 0
      if compareValues .ge (row c) (.int low) = .null ∨ compareValues .le (row c) (.int high) = .null then return .null
      return .int 1) := rfl
  rw [passes, heval]
  cases hx : (row c).toDouble with
  | none =>
    cases hrow : row c with
    | null => exact absurd hrow h
    | text t => simp [compareValues, Comparison.holds, Value.order, Value.ofBool]
    | _ => simp [hrow, Value.toDouble] at hx
  | some x =>
    rw [(compareValues_double hx low).1, (compareValues_double hx high).2]
    by_cases hlow : Double.ofInt low ≤ x <;> by_cases hhigh : x ≤ Double.ofInt high <;>
      simp [Value.ofBool, hlow, hhigh]

/-- `json_valid(c) AND json_type(c) = 'array' AND json_array_length(c) >= 1`. -/
def nonemptyArray (c : String) : Expr :=
  .and (.and (.jsonValid (.column c)) (.compare .eq (.jsonType (.column c)) (.literal (.text "array".toList))))
    (.compare .ge (.jsonArrayLength (.column c)) (.literal (.int 1)))

theorem eval_and_false {a b : Expr} (h : eval E row a = some (.ofBool false)) :
    eval E row (.and a b) = some (.ofBool false) := by
  simp [eval, h, Value.ofBool]

theorem eval_and {a b : Expr} {p q : Bool} (ha : eval E row a = some (.ofBool p))
    (hb : eval E row b = some (.ofBool q)) : eval E row (.and a b) = some (.ofBool (p && q)) := by
  cases p <;> cases q <;> simp [eval, ha, hb, Value.ofBool]

theorem passes_of_eval {e : Expr} {p : Bool} (h : eval E row e = some (.ofBool p)) : passes E row e = p := by
  cases p <;> simp [passes, h, Value.ofBool]

theorem passes_nonemptyArray {t : List Char} (h : (row c).chars E = some t) :
    passes E row (nonemptyArray c) = true ↔ ∃ n, E.json t = some ("array", n) ∧ 1 ≤ n := by
  have heval (f : List Char → Option Value) : (eval E row (.column c)).bind (onChars E f) = f t := by
    simp [eval, onChars, h]
  have hvalid : eval E row (.jsonValid (.column c)) = some (.ofBool (E.json t).isSome) := heval _
  have htype : eval E row (.jsonType (.column c)) = (E.json t).map fun j => .text j.1.toList := heval _
  have hlength : eval E row (.jsonArrayLength (.column c)) = (E.json t).map fun j => .int j.2 := heval _
  cases hj : E.json t with
  | none =>
    rw [hj] at hvalid
    have hpasses : passes E row (nonemptyArray c) = false := passes_of_eval (eval_and_false (eval_and_false hvalid))
    simp [hpasses]
  | some j =>
    obtain ⟨kind, n⟩ := j
    rw [hj] at hvalid htype hlength
    have hkind : eval E row (.compare .eq (.jsonType (.column c)) (.literal (.text "array".toList))) =
        some (.ofBool (decide (kind = "array"))) := by
      have horder : Value.order (.text kind.toList) (.text "array".toList) = .eq ↔ kind = "array" := by
        rw [order_text_eq, Value.text.injEq, String.toList_inj, eq_comm]
      rw [← decide_eq_decide.mpr horder]
      exact congrArg (Option.bind · _) htype
    have hcount : eval E row (.compare .ge (.jsonArrayLength (.column c)) (.literal (.int 1))) =
        some (.ofBool (decide (1 ≤ (n : Int)))) := by
      have hcompare : compareValues .ge (.int n) (.int 1) = .ofBool (decide (1 ≤ (n : Int))) :=
        compareValues_int .ge n 1
      rw [← hcompare]
      exact congrArg (Option.bind · _) hlength
    have hpasses : passes E row (nonemptyArray c) = (true && decide (kind = "array") && decide (1 ≤ (n : Int))) :=
      passes_of_eval (eval_and (eval_and hvalid hkind) hcount)
    rw [hpasses]
    simp only [Bool.true_and, Bool.and_eq_true, decide_eq_true_eq, Option.some.injEq, Prod.mk.injEq]
    constructor
    · rintro ⟨rfl, hn⟩
      exact ⟨n, ⟨rfl, rfl⟩, by omega⟩
    · rintro ⟨m, ⟨rfl, rfl⟩, hm⟩
      exact ⟨rfl, by omega⟩

end

end DataAgent.Sqlite
