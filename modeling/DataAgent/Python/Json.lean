import DataAgent.Python.Text

/-!
# `json.loads`

CPython's decoder on a `str`, with its three ways to fail: the `JSONDecodeError` of a malformed text, the plain
`ValueError` of an integer literal over the digit limit, and the `RecursionError` of a text nested too deeply.
The decoder reads from the left, so the first of them is the one raised.

* `scanOnce`, `scanElements`, `scanMembers` : the scanner, with one unit of fuel for each call and the levels of
  nesting that are left;
* `loads` : the whole text; **`loads_ne_outOfFuel`** : its fuel is enough.
-/

namespace DataAgent.Python

/-- A decoded value. The digits of a float are kept as text. -/
inductive Json where
  | null
  | bool (b : Bool)
  | int (n : Int)
  | float (digits : Text)
  | str (s : Text)
  | arr (xs : List Json)
  | obj (fields : List (Text × Json))

inductive LoadsError where
  | jsonDecodeError
  | valueError
  | recursionError
  /-- Never returned by `loads`. -/
  | outOfFuel
  deriving DecidableEq, Repr

namespace Json

abbrev Scan (α : Type) := Except LoadsError (α × Text)

/-- `[ \t\n\r]*`. -/
def skip (t : Text) : Text := t.dropWhile fun c => c == ' ' || c == '\t' || c == '\n' || c == '\r'

/-! ## Strings -/

def hexDigit (c : Char) : Option Nat :=
  if c.isDigit then some (c.toNat - 48)
  else if 'a' ≤ c ∧ c ≤ 'f' then some (c.toNat - 87)
  else if 'A' ≤ c ∧ c ≤ 'F' then some (c.toNat - 55)
  else none

/-- The value of four hexadecimal digits. -/
def hex4 (a b c d : Char) : Option Nat := do
  return ((((← hexDigit a) * 16 + (← hexDigit b)) * 16 + (← hexDigit c)) * 16 + (← hexDigit d))

def isHigh (n : Nat) : Bool := 0xd800 ≤ n && n ≤ 0xdbff
def isLow (n : Nat) : Bool := 0xdc00 ≤ n && n ≤ 0xdfff

def escape (c : Char) : Option Char :=
  match c with
  | '\x22' => some '\x22'
  | '\\' => some '\\'
  | '/' => some '/'
  | 'b' => some '\x08'
  | 'f' => some '\x0c'
  | 'n' => some '\n'
  | 'r' => some '\r'
  | 't' => some '\t'
  | _ => none

/-- A high surrogate that was read and is part of no pair. -/
def pending (high : Option Nat) : Text := (high.map surrogate).toList

/-- The rest of a string after its opening quote; `acc` is what was read, and `high` a high surrogate just read. -/
def scanString : Option Nat → Text → Text → Scan Text
  | high, acc, '\x22' :: t => .ok (acc ++ pending high, t)
  | high, acc, '\\' :: 'u' :: a :: b :: c :: d :: t =>
    match hex4 a b c d with
    | none => .error .jsonDecodeError
    | some n =>
      match high with
      | some h =>
        if isLow n then scanString none (acc ++ [Char.ofNat (0x10000 + (h - 0xd800) * 0x400 + (n - 0xdc00))]) t
        else if isHigh n then scanString (some n) (acc ++ [surrogate h]) t
        else scanString none (acc ++ [surrogate h, Char.ofNat n]) t
      | none =>
        if isHigh n then scanString (some n) acc t
        else if isLow n then scanString none (acc ++ [surrogate n]) t
        else scanString none (acc ++ [Char.ofNat n]) t
  | high, acc, '\\' :: e :: t =>
    match escape e with
    | none => .error .jsonDecodeError
    | some c => scanString none (acc ++ pending high ++ [c]) t
  | high, acc, c :: t =>
    if c = '\\' ∨ c.toNat < 0x20 then .error .jsonDecodeError
    else scanString none (acc ++ pending high ++ [c]) t
  | _, _, [] => .error .jsonDecodeError

/-! ## Numbers -/

/-- The fraction at the start of a text: a point and at least one digit. -/
def fraction (t : Text) : Text :=
  match t with
  | '.' :: d :: t => if d.isDigit then '.' :: d :: t.takeWhile Char.isDigit else []
  | _ => []

/-- The exponent at the start of a text, if it has a digit. -/
def exponent (t : Text) : Text :=
  match t with
  | e :: t =>
    if e = 'e' ∨ e = 'E' then
      let sign := (t.take 1).filter fun c => c == '+' || c == '-'
      let digits := (t.drop sign.length).takeWhile Char.isDigit
      if digits.isEmpty then [] else e :: sign ++ digits
    else []
  | [] => []

/-- The value of a run of ASCII digits. -/
def natOf (digits : Text) : Nat := digits.foldl (fun n c => 10 * n + (c.toNat - 48)) 0

/-- A number without its sign. -/
def scanNumber (negative : Bool) (t : Text) : Scan Json :=
  let whole := match t with
    | '0' :: _ => ['0']
    | _ => t.takeWhile Char.isDigit
  if whole.isEmpty then .error .jsonDecodeError
  else
    let rest := t.drop whole.length
    let tail := fraction rest ++ exponent (rest.drop (fraction rest).length)
    if tail.isEmpty then
      if maxStrDigits < whole.length then .error .valueError
      else .ok (.int (if negative then -natOf whole else natOf whole), rest)
    else .ok (.float ((if negative then ['-'] else []) ++ whole ++ tail), rest.drop tail.length)

/-- `d[key] = value`. -/
def setField (fields : List (Text × Json)) (key : Text) (value : Json) : List (Text × Json) :=
  if fields.any (·.1 = key) then fields.map fun f => if f.1 = key then (key, value) else f
  else fields ++ [(key, value)]

/-! ## The scanner -/

mutual

/-- One value, with `depth` levels of nesting left. -/
def scanOnce : Nat → Nat → Text → Scan Json
  | 0, _, _ => .error .outOfFuel
  | _ + 1, _, '\x22' :: t => (scanString none [] t).map fun x => (.str x.1, x.2)
  | _ + 1, 0, '\x7b' :: _ => .error .recursionError
  | fuel + 1, depth + 1, '\x7b' :: t =>
    match skip t with
    | '\x7d' :: t => .ok (.obj [], t)
    | t => scanMembers fuel depth [] t
  | _ + 1, 0, '[' :: _ => .error .recursionError
  | fuel + 1, depth + 1, '[' :: t =>
    match skip t with
    | ']' :: t => .ok (.arr [], t)
    | t => scanElements fuel depth [] t
  | _ + 1, _, 'n' :: 'u' :: 'l' :: 'l' :: t => .ok (.null, t)
  | _ + 1, _, 't' :: 'r' :: 'u' :: 'e' :: t => .ok (.bool true, t)
  | _ + 1, _, 'f' :: 'a' :: 'l' :: 's' :: 'e' :: t => .ok (.bool false, t)
  | _ + 1, _, 'N' :: 'a' :: 'N' :: t => .ok (.float ['n', 'a', 'n'], t)
  | _ + 1, _, 'I' :: 'n' :: 'f' :: 'i' :: 'n' :: 'i' :: 't' :: 'y' :: t => .ok (.float ['i', 'n', 'f'], t)
  | _ + 1, _, '-' :: 'I' :: 'n' :: 'f' :: 'i' :: 'n' :: 'i' :: 't' :: 'y' :: t => .ok (.float ['-', 'i', 'n', 'f'], t)
  | _ + 1, _, '-' :: t => scanNumber true t
  | _ + 1, _, t => scanNumber false t

/-- The elements of an array, from the first or from the one after a comma. -/
def scanElements : Nat → Nat → List Json → Text → Scan Json
  | 0, _, _, _ => .error .outOfFuel
  | fuel + 1, depth, xs, t =>
    match scanOnce fuel depth t with
    | .error e => .error e
    | .ok (x, t) =>
      match skip t with
      | ']' :: t => .ok (.arr (xs ++ [x]), t)
      | ',' :: t => scanElements fuel depth (xs ++ [x]) (skip t)
      | _ => .error .jsonDecodeError

/-- The members of an object, from the first or from the one after a comma. -/
def scanMembers : Nat → Nat → List (Text × Json) → Text → Scan Json
  | 0, _, _, _ => .error .outOfFuel
  | fuel + 1, depth, fields, '\x22' :: t =>
    match scanString none [] t with
    | .error e => .error e
    | .ok (key, t) =>
      match skip t with
      | ':' :: t =>
        match scanOnce fuel depth (skip t) with
        | .error e => .error e
        | .ok (value, t) =>
          match skip t with
          | '\x7d' :: t => .ok (.obj (setField fields key value), t)
          | ',' :: t => scanMembers fuel depth (setField fields key value) (skip t)
          | _ => .error .jsonDecodeError
      | _ => .error .jsonDecodeError
  | _ + 1, _, _, _ => .error .jsonDecodeError

end

/-- `json.loads`, with `depth` levels of nesting before the recursion limit. -/
def loads (depth : Nat) (t : Text) : Except LoadsError Json :=
  if t.head? = some '\ufeff' then .error .jsonDecodeError
  else match scanOnce (2 * t.length + 1) depth (skip t) with
    | .error e => .error e
    | .ok (value, rest) => if (skip rest).isEmpty then .ok value else .error .jsonDecodeError

/-! ## The fuel is enough -/

/-- A scan that fails as the source does, or leaves fewer than `n` characters. -/
def Progress {α : Type} (x : Scan α) (n : Nat) : Prop :=
  match x with
  | .error e => e ≠ .outOfFuel
  | .ok y => y.2.length < n

theorem Progress.mono {α : Type} {x : Scan α} {n k : Nat} (h : Progress x n) (hnk : n ≤ k) : Progress x k := by
  unfold Progress at *
  split <;> simp_all
  omega

theorem Progress.map {α β : Type} {x : Scan α} {n : Nat} (h : Progress x n) (f : α → β) :
    Progress (x.map fun y => (f y.1, y.2)) n := by
  cases x <;> exact h

theorem length_skip_le (t : Text) : (skip t).length ≤ t.length := List.length_dropWhile_le _ _

theorem scanString_progress (high : Option Nat) (acc : Text) (t : Text) :
    Progress (scanString high acc t) t.length := by
  -- an error, the end of the string, or a call on a shorter text
  fun_induction scanString high acc t
  all_goals first
    | (rename_i ih; exact ih.mono (by simp only [List.length_cons]; omega))
    | simp [Progress]

theorem scanNumber_progress (negative : Bool) (t : Text) : Progress (scanNumber negative t) t.length := by
  unfold scanNumber
  extract_lets whole rest tail
  split
  · simp [Progress]
  · rename_i hne
    have hrest : rest.length < t.length := by
      have hpos : whole.length ≠ 0 := by simpa using hne
      have hle : whole.length ≤ t.length := by
        show (match t with | '0' :: _ => ['0'] | _ => t.takeWhile Char.isDigit : Text).length ≤ t.length
        split
        · simp
        · exact (List.takeWhile_prefix _).length_le
      show (t.drop whole.length).length < t.length
      rw [List.length_drop]
      omega
    split
    · split
      · simp [Progress]
      · exact hrest
    · show (rest.drop tail.length).length < t.length
      rw [List.length_drop]
      omega

/-- What a scan of a text with an element before it leaves. -/
theorem scan_progress (fuel : Nat) :
    (∀ depth t, 2 * t.length + 1 ≤ fuel → Progress (scanOnce fuel depth t) t.length) ∧
    (∀ depth xs t, 2 * t.length + 2 ≤ fuel → Progress (scanElements fuel depth xs t) t.length) ∧
    (∀ depth fields t, 2 * t.length + 2 ≤ fuel → Progress (scanMembers fuel depth fields t) t.length) := by
  induction fuel with
  | zero => refine ⟨?_, ?_, ?_⟩ <;> intros <;> omega
  | succ fuel ih =>
    obtain ⟨ihOnce, ihElements, ihMembers⟩ := ih
    refine ⟨fun depth t ht => ?_, fun depth xs t ht => ?_, fun depth fields t ht => ?_⟩
    · -- a nested value has one character less before it
      have hopen : ∀ {u v : Text}, t = u → u.length = v.length + 1 → 2 * (skip v).length + 2 ≤ fuel ∧
          (skip v).length ≤ t.length := by
        rintro u v rfl hu
        have := length_skip_le v
        omega
      unfold scanOnce
      split
      · omega
      · exact ((scanString_progress _ _ _).mono (by simp)).map _
      · simp [Progress]
      · rename_i fuel' depth' v hf
        obtain rfl : fuel = fuel' := by omega
        obtain ⟨h1, h2⟩ := hopen (v := v) rfl rfl
        split
        · rename_i r hr
          show r.length < _
          rw [hr] at h2
          simpa using h2
        · exact (ihMembers _ _ _ h1).mono h2
      · simp [Progress]
      · rename_i fuel' depth' v hf
        obtain rfl : fuel = fuel' := by omega
        obtain ⟨h1, h2⟩ := hopen (v := v) rfl rfl
        split
        · rename_i r hr
          show r.length < _
          rw [hr] at h2
          simpa using h2
        · exact (ihElements _ _ _ h1).mono h2
      all_goals first
        | exact (scanNumber_progress _ _).mono (by simp)
        | (simp only [Progress, List.length_cons]; omega)
    · have h := ihOnce depth t (by omega)
      rw [scanElements]
      cases hx : scanOnce fuel depth t with
      | error e => exact (by rwa [hx] at h : Progress (Except.error e : Scan Json) t.length)
      | ok y =>
        obtain ⟨x, r⟩ := y
        rw [hx] at h
        replace h : r.length < t.length := h
        have hr := length_skip_le r
        simp only
        split
        · rename_i u hu
          rw [hu, List.length_cons] at hr
          exact (by omega : u.length < t.length)
        · rename_i u hu
          rw [hu, List.length_cons] at hr
          have hu := length_skip_le u
          exact (ihElements _ _ _ (by omega)).mono (by omega)
        · simp [Progress]
    · unfold scanMembers
      split
      · omega
      · rename_i depth _ _ _ _ _ fuel' v hf
        obtain rfl : fuel = fuel' := by omega
        rw [List.length_cons] at ht
        have h := scanString_progress none [] v
        cases hx : scanString none [] v with
        | error e => exact (by rwa [hx] at h : Progress (Except.error e : Scan Json) _)
        | ok y =>
          obtain ⟨key, r⟩ := y
          rw [hx] at h
          replace h : r.length < v.length := h
          have hr := length_skip_le r
          simp only
          split
          · rename_i u hu
            rw [hu, List.length_cons] at hr
            have hu := length_skip_le u
            have h' := ihOnce depth (skip u) (by omega)
            cases hx' : scanOnce fuel depth (skip u) with
            | error e => exact (by rwa [hx'] at h' : Progress (Except.error e : Scan Json) _)
            | ok y =>
              obtain ⟨value, r'⟩ := y
              rw [hx'] at h'
              replace h' : r'.length < (skip u).length := h'
              have hr' := length_skip_le r'
              simp only
              split
              · rename_i w hw
                rw [hw, List.length_cons] at hr'
                show w.length < v.length + 1
                omega
              · rename_i w hw
                rw [hw, List.length_cons] at hr'
                have hw := length_skip_le w
                exact (ihMembers _ _ _ (by omega)).mono (by rw [List.length_cons]; omega)
              · simp [Progress]
          · simp [Progress]
      · simp [Progress]

/-- **The fuel of `loads` is enough.** -/
theorem loads_ne_outOfFuel (depth : Nat) (t : Text) : loads depth t ≠ .error .outOfFuel := by
  unfold loads
  split
  · simp
  · have hle := length_skip_le t
    have h := (scan_progress (2 * t.length + 1)).1 depth (skip t) (by omega)
    cases hx : scanOnce (2 * t.length + 1) depth (skip t) with
    | error e =>
      rw [hx] at h
      simpa [Progress] using h
    | ok y =>
      simp only
      split <;> simp

end Json

end DataAgent.Python
