import DataAgent.Python.Json

/-!
# `json.dumps`

CPython's encoder with `ensure_ascii=False` and the default separators.

* `escaped`, `quoted` : a string literal; `decimal`, `integer` : `str` of an integer; `FloatFormat` : floats;
* `dumps` : a value as text, with the levels of nesting that are left; nothing for what raises;
* `rewritten` : the value with its floats as they are written;
* **`loads_dumps`** : the decoder reads back what was written, for a value whose objects have no key twice;
* **`encodable_dumps`** : the text can be encoded exactly if the strings can.
-/

namespace DataAgent.Python
namespace Json

/-! ## Strings -/

/-- A hexadecimal digit, in lower case. -/
def hexChar (n : Nat) : Char := Char.ofNat (if n < 10 then 48 + n else 87 + n)

/-- One character inside a string literal. -/
def escaped (c : Char) : Text :=
  if c = '\x22' then ['\\', '\x22']
  else if c = '\\' then ['\\', '\\']
  else if c = '\n' then ['\\', 'n']
  else if c = '\r' then ['\\', 'r']
  else if c = '\t' then ['\\', 't']
  else if c = '\x0c' then ['\\', 'f']
  else if c = '\x08' then ['\\', 'b']
  else if c.toNat < 0x20 then ['\\', 'u', '0', '0', hexChar (c.toNat / 16), hexChar (c.toNat % 16)]
  else [c]

def quoted (s : Text) : Text := '\x22' :: (s.flatMap escaped ++ ['\x22'])

theorem hex4_control : ∀ n < 32, hex4 '0' '0' (hexChar (n / 16)) (hexChar (n % 16)) = some n := by decide

theorem scanString_escaped (c : Char) (acc t : Text) :
    scanString none acc (escaped c ++ t) = scanString none (acc ++ [c]) t := by
  unfold escaped
  split_ifs with h1 h2 h3 h4 h5 h6 h7 h8
  iterate 7 subst c; simp [scanString, escape, pending]
  · -- a control character is written by its code
    have hcode := hex4_control c.toNat h8
    have hhigh : isHigh c.toNat = false := by simp [isHigh]; omega
    have hlow : isLow c.toNat = false := by simp [isLow]; omega
    simp [scanString, hcode, hhigh, hlow, Char.ofNat_toNat]
  · rw [List.singleton_append, scanString]
    · simp [h2, h8, pending]
    all_goals simp_all

theorem scanString_body (s acc t : Text) :
    scanString none acc (s.flatMap escaped ++ '\x22' :: t) = .ok (acc ++ s, t) := by
  induction s generalizing acc with
  | nil => simp [scanString, pending]
  | cons c s ih => rw [List.flatMap_cons, List.append_assoc, scanString_escaped, ih, List.append_assoc]; rfl

/-- A literal is read back. -/
theorem scanString_quoted (s t : Text) :
    scanString none [] (s.flatMap escaped ++ '\x22' :: t) = .ok (s, t) :=
  scanString_body s [] t

/-! ## Integers -/

def digitChar (d : Nat) : Char := Char.ofNat (48 + d)

/-- `str(n)`. -/
def decimal (n : Nat) : Text := if n = 0 then ['0'] else (Nat.digits 10 n).reverse.map digitChar

def integer (n : Int) : Text := if n < 0 then '-' :: decimal n.natAbs else decimal n.natAbs

theorem digitChar_spec : ∀ d < 10, (digitChar d).isDigit = true ∧ (digitChar d).toNat - 48 = d ∧
    (digitChar d = '0' → d = 0) := by decide

theorem isDigit_decimal (n : Nat) : ∀ c ∈ decimal n, c.isDigit = true := by
  intro c hc
  rw [decimal] at hc
  split at hc
  · obtain rfl := List.mem_singleton.mp hc
    rfl
  · obtain ⟨d, hd, rfl⟩ := List.mem_map.mp hc
    exact (digitChar_spec d (Nat.digits_lt_base (by norm_num) (List.mem_reverse.mp hd))).1

theorem natOf_digits {l : List Nat} (h : ∀ d ∈ l, d < 10) : natOf (l.reverse.map digitChar) = Nat.ofDigits 10 l := by
  induction l with
  | nil => rfl
  | cons d l ih =>
    have ih := ih fun e he => h e (List.mem_cons_of_mem d he)
    have hd := (digitChar_spec d (h d (by simp))).2.1
    rw [List.reverse_cons, List.map_append, natOf, List.foldl_append, ← natOf, ih, Nat.ofDigits_cons]
    simp [hd, Nat.add_comm]

theorem natOf_decimal (n : Nat) : natOf (decimal n) = n := by
  rw [decimal]
  split
  · rename_i h
    rw [h]
    rfl
  · rw [natOf_digits fun d hd => Nat.digits_lt_base (by norm_num) hd, Nat.ofDigits_digits]

/-- No digit is missing, and there is a leading zero only for zero. -/
theorem decimal_cases (n : Nat) : decimal n = ['0'] ∨ ∃ c u, decimal n = c :: u ∧ c ≠ '0' := by
  rw [decimal]
  split
  · exact Or.inl rfl
  · rename_i h
    have hne : Nat.digits 10 n ≠ [] := Nat.digits_ne_nil_iff_ne_zero.mpr h
    have hlast := Nat.getLast_digit_ne_zero 10 h
    obtain ⟨d, l, hl⟩ := List.exists_cons_of_ne_nil (List.reverse_ne_nil_iff.mpr hne)
    have hd : d = (Nat.digits 10 n).getLast hne := by
      rw [← List.head_reverse (List.reverse_ne_nil_iff.mpr hne)]
      simp [hl]
    refine Or.inr ⟨digitChar d, l.map digitChar, by rw [hl, List.map_cons], fun h0 => hlast ?_⟩
    have hlt : d < 10 := Nat.digits_lt_base (by norm_num) (List.mem_reverse.mp (hl ▸ List.mem_cons_self))
    rw [← hd]
    exact (digitChar_spec d hlt).2.2 h0

/-- What may come after a value. -/
def Boundary (t : Text) : Prop := ∀ c ∈ t.head?, c ∈ [',', ']', '\x7d']

theorem Boundary.stops {t : Text} (h : Boundary t) :
    t.takeWhile Char.isDigit = [] ∧ fraction t = [] ∧ exponent t = [] := by
  cases t with
  | nil => exact ⟨rfl, rfl, rfl⟩
  | cons c t =>
    have hc := h c rfl
    simp only [List.mem_cons, List.not_mem_nil, or_false] at hc
    rcases hc with rfl | rfl | rfl <;> exact ⟨rfl, rfl, rfl⟩

/-- The digits before the first character that is none. -/
theorem takeWhile_decimal (n : Nat) {t : Text} (h : Boundary t) :
    (decimal n ++ t).takeWhile Char.isDigit = decimal n := by
  rw [List.takeWhile_append_of_pos (isDigit_decimal n), h.stops.1, List.append_nil]

/-- A number is read back. -/
theorem scanNumber_decimal (negative : Bool) {n : Nat} {t : Text} (hn : (decimal n).length ≤ maxStrDigits)
    (h : Boundary t) : scanNumber negative (decimal n ++ t) = .ok (.int (if negative then -n else n), t) := by
  obtain ⟨-, hfraction, hexponent⟩ := h.stops
  unfold scanNumber
  extract_lets whole rest tail
  have hwhole : whole = decimal n := by
    simp only [whole]
    split
    · rename_i u hu
      rcases decimal_cases n with hz | ⟨c, v, hc, hne⟩
      · exact hz.symm
      · rw [hc, List.cons_append] at hu
        exact absurd (List.cons.inj hu).1 hne
    · exact takeWhile_decimal n h
  have hrest : rest = t := by
    show (decimal n ++ t).drop whole.length = t
    rw [hwhole, List.drop_left]
  have htail : tail = [] := by
    show fraction rest ++ exponent (rest.drop (fraction rest).length) = []
    rw [hrest, hfraction, List.length_nil, List.drop_zero, hexponent, List.append_nil]
  have hne : decimal n ≠ [] := by
    rcases decimal_cases n with hz | ⟨c, u, hc, -⟩ <;> simp [*]
  rw [hwhole, hrest, htail, if_neg (by simpa using hne), if_pos List.isEmpty_nil, if_neg (by omega), natOf_decimal]

/-! ## Floats -/

/-- A character that is no blank, closes nothing and is no byte order mark. -/
def Starts (c : Char) : Prop := c ∉ [' ', '\t', '\n', '\r', ']', '\x7d', '\ufeff']

theorem Starts.skip {c : Char} (h : Starts c) (t : Text) : skip (c :: t) = c :: t := by
  simp only [Starts, List.mem_cons, List.not_mem_nil, or_false, not_or] at h
  simp [Json.skip, h]

theorem starts_digit {c : Char} (h : c.isDigit = true) : Starts c := by
  rw [isDigit_iff] at h
  simp only [Starts, List.mem_cons, List.not_mem_nil, or_false]
  rintro (rfl | rfl | rfl | rfl | rfl | rfl | rfl) <;> exact absurd h (by decide)

/-- `float.__repr__`, and `NaN`, `Infinity` and `-Infinity`. What is written is the shortest text for the value, and it
is read as a float. -/
structure FloatFormat where
  /-- What is written for the value of these digits. -/
  write : Text → Text
  /-- The digits that the decoder keeps of it. -/
  digits : Text → Text
  starts : ∀ d, ∃ c u, write d = c :: u ∧ Starts c
  reads : ∀ d fuel depth rest, Boundary rest →
    scanOnce (fuel + 1) depth (write d ++ rest) = .ok (.float (digits d), rest)
  encodable : ∀ d, Python.encodable (write d) = true

/-! ## Values -/

variable (F : FloatFormat)

mutual

/-- `json.dumps`, with `depth` levels of nesting before the recursion limit. -/
def dumps : Json → Nat → Option Text
  | .null, _ => some "null".toList
  | .bool true, _ => some "true".toList
  | .bool false, _ => some "false".toList
  | .int n, _ => if maxStrDigits < (decimal n.natAbs).length then none else some (integer n)
  | .float digits, _ => some (F.write digits)
  | .str s, _ => some (quoted s)
  | .arr _, 0 => none
  | .arr xs, depth + 1 => (dumpsElements xs depth).map fun t => '[' :: (t ++ [']'])
  | .obj _, 0 => none
  | .obj fields, depth + 1 => (dumpsMembers fields depth).map fun t => '\x7b' :: (t ++ ['\x7d'])

/-- `", ".join` of the elements. -/
def dumpsElements : List Json → Nat → Option Text
  | [], _ => some []
  | [x], depth => dumps x depth
  | x :: y :: xs, depth =>
    (dumps x depth).bind fun t => (dumpsElements (y :: xs) depth).map fun u => t ++ ',' :: ' ' :: u

/-- `", ".join` of the members, each `key: value`. -/
def dumpsMembers : List (Text × Json) → Nat → Option Text
  | [], _ => some []
  | [(key, value)], depth => (dumps value depth).map fun t => quoted key ++ ':' :: ' ' :: t
  | (key, value) :: f :: fields, depth =>
    (dumps value depth).bind fun t => (dumpsMembers (f :: fields) depth).map fun u =>
      (quoted key ++ ':' :: ' ' :: t) ++ ',' :: ' ' :: u

end

mutual

/-- The value with every float as it is written. -/
def rewritten : Json → Json
  | .float digits => .float (F.digits digits)
  | .arr xs => .arr (rewrittenElements xs)
  | .obj fields => .obj (rewrittenMembers fields)
  | j => j

def rewrittenElements : List Json → List Json
  | [] => []
  | x :: xs => rewritten x :: rewrittenElements xs

def rewrittenMembers : List (Text × Json) → List (Text × Json)
  | [] => []
  | f :: fields => (f.1, rewritten f.2) :: rewrittenMembers fields

end

variable {F}

mutual

/-- No object has a key twice. -/
def distinctKeys : Json → Bool
  | .arr xs => distinctElements xs
  | .obj fields => decide (fields.map Prod.fst).Nodup && distinctMembers fields
  | _ => true

def distinctElements : List Json → Bool
  | [] => true
  | x :: xs => distinctKeys x && distinctElements xs

def distinctMembers : List (Text × Json) → Bool
  | [] => true
  | f :: fields => distinctKeys f.2 && distinctMembers fields

end

/-! ## What a value starts with -/

theorem decimal_head (n : Nat) : ∃ c u, decimal n = c :: u ∧ c.isDigit = true := by
  obtain ⟨c, u, h⟩ : ∃ c u, decimal n = c :: u := by
    rcases decimal_cases n with h | ⟨c, u, h, -⟩ <;> exact ⟨_, _, h⟩
  exact ⟨c, u, h, isDigit_decimal n c (by simp [h])⟩

theorem dumps_head {v : Json} {depth : Nat} {t : Text} (h : dumps F v depth = some t) :
    ∃ c u, t = c :: u ∧ Starts c := by
  cases v with
  | null => exact ⟨'n', _, (Option.some.inj h).symm, by simp [Starts]⟩
  | bool b =>
    cases b
    · exact ⟨'f', _, (Option.some.inj h).symm, by simp [Starts]⟩
    · exact ⟨'t', _, (Option.some.inj h).symm, by simp [Starts]⟩
  | int n =>
    rw [dumps] at h
    split at h
    · simp at h
    · obtain rfl := Option.some.inj h
      rw [integer]
      split
      · exact ⟨'-', _, rfl, by simp [Starts]⟩
      · obtain ⟨c, u, hc, hd⟩ := decimal_head n.natAbs
        exact ⟨c, u, hc, starts_digit hd⟩
  | float digits =>
    obtain rfl := Option.some.inj h
    exact F.starts digits
  | str s => exact ⟨'\x22', _, (Option.some.inj h).symm, by simp [Starts]⟩
  | arr xs =>
    cases depth with
    | zero => simp [dumps] at h
    | succ depth =>
      obtain ⟨u, -, rfl⟩ := Option.map_eq_some_iff.mp h
      exact ⟨'[', _, rfl, by simp [Starts]⟩
  | obj fields =>
    cases depth with
    | zero => simp [dumps] at h
    | succ depth =>
      obtain ⟨u, -, rfl⟩ := Option.map_eq_some_iff.mp h
      exact ⟨'\x7b', _, rfl, by simp [Starts]⟩

theorem dumpsElements_head {x : Json} {xs : List Json} {depth : Nat} {t : Text}
    (h : dumpsElements F (x :: xs) depth = some t) : ∃ c u, t = c :: u ∧ Starts c := by
  cases xs with
  | nil => exact dumps_head h
  | cons y xs =>
    obtain ⟨a, ha, h⟩ := Option.bind_eq_some_iff.mp h
    obtain ⟨u, -, rfl⟩ := Option.map_eq_some_iff.mp h
    obtain ⟨c, v, rfl, hc⟩ := dumps_head ha
    exact ⟨c, _, rfl, hc⟩

/-- The members one after another, from the literal of a key. -/
theorem dumpsMembers_cons {f : Text × Json} {fields : List (Text × Json)} {depth : Nat} {t : Text}
    (h : dumpsMembers F (f :: fields) depth = some t) : ∃ a, dumps F f.2 depth = some a ∧
      ((fields = [] ∧ t = quoted f.1 ++ ':' :: ' ' :: a) ∨ ∃ u, dumpsMembers F fields depth = some u ∧ fields ≠ [] ∧
        t = (quoted f.1 ++ ':' :: ' ' :: a) ++ ',' :: ' ' :: u) := by
  cases fields with
  | nil =>
    obtain ⟨a, ha, rfl⟩ := Option.map_eq_some_iff.mp h
    exact ⟨a, ha, Or.inl ⟨rfl, rfl⟩⟩
  | cons g fields =>
    obtain ⟨a, ha, h⟩ := Option.bind_eq_some_iff.mp h
    obtain ⟨u, hu, rfl⟩ := Option.map_eq_some_iff.mp h
    exact ⟨a, ha, Or.inr ⟨u, hu, by simp, rfl⟩⟩

/-! ### Floats in a value -/

theorem rewrittenMembers_eq (fields : List (Text × Json)) :
    rewrittenMembers F fields = fields.map fun f => (f.1, rewritten F f.2) := by
  induction fields with
  | nil => rfl
  | cons f fields ih => rw [rewrittenMembers, ih, List.map_cons]

/-! ## Reading back -/

variable (F) in
/-- With this fuel the scanner reads every value back. -/
def Reads (fuel : Nat) : Prop := ∀ v depth t rest, dumps F v depth = some t → distinctKeys v = true → Boundary rest →
  2 * t.length + 1 ≤ fuel → scanOnce fuel depth (t ++ rest) = .ok (rewritten F v, rest)

variable (F) in
def ReadsElements (fuel : Nat) : Prop := ∀ xs depth t acc rest, xs ≠ [] → dumpsElements F xs depth = some t →
  distinctElements xs = true → 2 * t.length + 2 ≤ fuel →
    scanElements fuel depth acc (t ++ ']' :: rest) = .ok (.arr (acc ++ rewrittenElements F xs), rest)

variable (F) in
def ReadsMembers (fuel : Nat) : Prop := ∀ fields depth t acc rest, fields ≠ [] →
  dumpsMembers F fields depth = some t → distinctMembers fields = true → ((acc ++ fields).map Prod.fst).Nodup →
    2 * t.length + 2 ≤ fuel →
      scanMembers fuel depth acc (t ++ '\x7d' :: rest) = .ok (.obj (acc ++ rewrittenMembers F fields), rest)

theorem skip_space (t : Text) : skip (' ' :: t) = skip t := by simp [skip]

theorem boundary_cons {c : Char} (h : c ∈ [',', ']', '\x7d']) (t : Text) : Boundary (c :: t) := by
  intro d hd
  obtain rfl : c = d := by simpa using hd
  exact h

theorem readsElements_succ {fuel : Nat} (hOnce : Reads F fuel) (hElements : ReadsElements F fuel) :
    ReadsElements F (fuel + 1) := by
  intro xs depth t acc rest hne ht hk hfuel
  obtain ⟨x, xs, rfl⟩ := List.exists_cons_of_ne_nil hne
  rw [distinctElements, Bool.and_eq_true] at hk
  rw [scanElements]
  cases xs with
  | nil =>
    rw [hOnce x depth t (']' :: rest) ht hk.1 (boundary_cons (by simp) rest) (by omega)]
    rfl
  | cons y ys =>
    obtain ⟨a, ha, ht⟩ := Option.bind_eq_some_iff.mp ht
    obtain ⟨u, hu, rfl⟩ := Option.map_eq_some_iff.mp ht
    rw [List.length_append, List.length_cons, List.length_cons] at hfuel
    have hscan := hOnce x depth a (',' :: ' ' :: (u ++ ']' :: rest)) ha hk.1 (boundary_cons (by simp) _) (by omega)
    obtain ⟨c, v, rfl, hc⟩ := dumpsElements_head hu
    simp only [List.append_assoc, List.cons_append] at hscan ⊢
    rw [hscan]
    show scanElements fuel depth (acc ++ [rewritten F x]) (skip (' ' :: c :: (v ++ ']' :: rest))) = _
    rw [skip_space, hc.skip, ← List.cons_append, hElements (y :: ys) depth (c :: v) (acc ++ [rewritten F x]) rest
      (by simp) hu hk.2 (by omega), List.append_assoc]
    rfl

theorem setField_of_notMem {fields : List (Text × Json)} {key : Text} (h : key ∉ fields.map Prod.fst)
    (value : Json) : setField fields key value = fields ++ [(key, value)] := by
  rw [setField, if_neg]
  rw [List.any_eq_true]
  rintro ⟨f, hf, he⟩
  exact h (List.mem_map.mpr ⟨f, hf, by simpa using he⟩)

/-- What follows a member: the end of the object, or a comma and more members. -/
def scanAfterMember (fuel depth : Nat) (fields : List (Text × Json)) : Text → Scan Json
  | '\x7d' :: t => .ok (.obj fields, t)
  | ',' :: t => scanMembers fuel depth fields (skip t)
  | _ => .error .jsonDecodeError

theorem readsMembers_succ {fuel : Nat} (hOnce : Reads F fuel) (hMembers : ReadsMembers F fuel) :
    ReadsMembers F (fuel + 1) := by
  intro fields depth t acc rest hne ht hk hnodup hfuel
  obtain ⟨⟨key, value⟩, fields, rfl⟩ := List.exists_cons_of_ne_nil hne
  rw [distinctMembers, Bool.and_eq_true] at hk
  obtain ⟨a, ha, hcases⟩ := dumpsMembers_cons ht
  obtain ⟨c, v, rfl, hc⟩ := dumps_head ha
  have hnew : key ∉ acc.map Prod.fst := by
    rw [List.map_append, List.map_cons] at hnodup
    exact fun hmem => List.disjoint_of_nodup_append hnodup hmem (by simp)
  have hset := setField_of_notMem hnew (rewritten F value)
  -- the key, the colon and the value
  have hstart : ∀ w, 2 * (c :: v).length + 1 ≤ fuel → Boundary w →
      scanMembers (fuel + 1) depth acc ((quoted key ++ ':' :: ' ' :: (c :: v)) ++ w) =
        scanAfterMember fuel depth (setField acc key (rewritten F value)) (skip w) := by
    intro w hw hb
    have hscan := hOnce value depth (c :: v) w ha hk.1 hb hw
    simp only [quoted, List.cons_append, List.append_assoc, List.nil_append] at hscan ⊢
    have hcolon : skip (':' :: ' ' :: c :: (v ++ w)) = ':' :: ' ' :: c :: (v ++ w) := rfl
    rw [scanMembers, scanString_quoted]
    simp only [hcolon, skip_space, hc.skip, hscan]
    rfl
  rcases hcases with ⟨rfl, rfl⟩ | ⟨u, hu, hne', rfl⟩
  · rw [hstart _ (by simp at hfuel ⊢; omega) (boundary_cons (by simp) rest), hset]
    rfl
  · have hlen : 2 * (c :: v).length + 2 * u.length + 4 ≤ fuel := by
      simp only [List.length_append, List.length_cons] at hfuel ⊢
      omega
    have hstep := hstart (',' :: ' ' :: (u ++ '\x7d' :: rest)) (by omega) (boundary_cons (by simp) _)
    obtain ⟨g, gs, rfl⟩ := List.exists_cons_of_ne_nil hne'
    obtain ⟨b, -, hu'⟩ := dumpsMembers_cons hu
    have hquote : ∃ x, u = '\x22' :: x := by
      rcases hu' with ⟨-, rfl⟩ | ⟨w, -, -, rfl⟩ <;> exact ⟨_, rfl⟩
    obtain ⟨x, rfl⟩ := hquote
    have hnodup' : ((acc ++ [(key, rewritten F value)] ++ g :: gs).map Prod.fst).Nodup := by
      simpa using hnodup
    rw [List.append_assoc, List.cons_append, List.cons_append, hstep, hset]
    show scanMembers fuel depth (acc ++ [(key, rewritten F value)]) (skip (' ' :: '\x22' :: (x ++ '\x7d' :: rest))) = _
    rw [skip_space, (show Starts '\x22' by simp [Starts]).skip, ← List.cons_append,
      hMembers (g :: gs) depth _ _ rest (by simp) hu hk.2 hnodup' (by omega), List.append_assoc]
    rfl

theorem scanOnce_digit {c : Char} (h : c.isDigit = true) (fuel depth : Nat) (t : Text) :
    scanOnce (fuel + 1) depth (c :: t) = scanNumber false (c :: t) := by
  have hne : ∀ d : Char, d.isDigit = false → c ≠ d := by
    rintro d hd rfl
    rw [h] at hd
    exact absurd hd (by decide)
  rw [scanOnce]
  -- no other value starts with a digit
  all_goals
    intros
    simp_all

theorem scanOnce_minus {c : Char} (h : c.isDigit = true) (fuel depth : Nat) (t : Text) :
    scanOnce (fuel + 1) depth ('-' :: c :: t) = scanNumber true (c :: t) := by
  have hne : c ≠ 'I' := by
    rintro rfl
    exact absurd h (by decide)
  rw [scanOnce]
  intro u hu
  exact hne (List.cons.inj hu).1

theorem reads_succ {fuel : Nat} (hElements : ReadsElements F fuel) (hMembers : ReadsMembers F fuel) :
    Reads F (fuel + 1) := by
  intro v depth t rest ht hk hrest hfuel
  cases v with
  | null =>
    obtain rfl := Option.some.inj ht
    cases depth <;> rfl
  | bool b => cases b <;> obtain rfl := Option.some.inj ht <;> cases depth <;> rfl
  | int n =>
    rw [dumps] at ht
    split at ht
    · simp at ht
    rename_i hlen
    obtain rfl := Option.some.inj ht
    obtain ⟨c, u, hc, hd⟩ := decimal_head n.natAbs
    have hread := fun negative => scanNumber_decimal negative (n := n.natAbs) (by omega) hrest
    rw [hc, List.cons_append] at hread
    rw [integer, hc]
    split
    · rw [List.cons_append, List.cons_append, scanOnce_minus hd, hread, if_pos rfl]
      congr 3
      omega
    · rw [List.cons_append, scanOnce_digit hd, hread, if_neg (by simp)]
      congr 3
      omega
  | float digits =>
    obtain rfl := Option.some.inj ht
    exact F.reads digits fuel depth rest hrest
  | str s =>
    obtain rfl := Option.some.inj ht
    rw [quoted, List.cons_append, List.append_assoc, scanOnce, List.singleton_append, scanString_quoted]
    rfl
  | arr xs =>
    cases depth with
    | zero => simp [dumps] at ht
    | succ depth =>
      obtain ⟨u, hu, rfl⟩ := Option.map_eq_some_iff.mp ht
      rw [List.cons_append, List.append_assoc, List.singleton_append, scanOnce]
      cases xs with
      | nil =>
        obtain rfl := Option.some.inj hu
        rfl
      | cons x xs =>
        obtain ⟨c, w, rfl, hc⟩ := dumpsElements_head hu
        have hread := hElements (x :: xs) depth (c :: w) [] rest (by simp) hu hk (by simp at hfuel ⊢; omega)
        rw [List.cons_append, hc.skip]
        split
        · rename_i he
          exact absurd (List.cons.inj he).1 (by rintro rfl; simp [Starts] at hc)
        · exact hread
  | obj fields =>
    cases depth with
    | zero => simp [dumps] at ht
    | succ depth =>
      obtain ⟨u, hu, rfl⟩ := Option.map_eq_some_iff.mp ht
      rw [distinctKeys, Bool.and_eq_true, decide_eq_true_eq] at hk
      rw [List.cons_append, List.append_assoc, List.singleton_append, scanOnce]
      cases fields with
      | nil =>
        obtain rfl := Option.some.inj hu
        rfl
      | cons f fields =>
        obtain ⟨a, -, hu'⟩ := dumpsMembers_cons hu
        have hread := hMembers (f :: fields) depth u [] rest (by simp) hu hk.2 (by simpa using hk.1)
          (by simp at hfuel ⊢; omega)
        obtain ⟨x, rfl⟩ : ∃ x, u = '\x22' :: x := by
          rcases hu' with ⟨-, rfl⟩ | ⟨w, -, -, rfl⟩ <;> exact ⟨_, rfl⟩
        rw [List.cons_append, (show Starts '\x22' by simp [Starts]).skip]
        exact hread

theorem reads_all (fuel : Nat) : Reads F fuel ∧ ReadsElements F fuel ∧ ReadsMembers F fuel := by
  induction fuel with
  | zero => refine ⟨?_, ?_, ?_⟩ <;> intro <;> intros <;> omega
  | succ fuel ih =>
    obtain ⟨hOnce, hElements, hMembers⟩ := ih
    exact ⟨reads_succ hElements hMembers, readsElements_succ hOnce hElements, readsMembers_succ hOnce hMembers⟩

/-- **`json.loads` reads back what `json.dumps` writes**, at the same limit of nesting. -/
theorem loads_dumps {v : Json} {depth : Nat} {t : Text} (h : dumps F v depth = some t) (hk : distinctKeys v = true) :
    loads depth t = .ok (rewritten F v) := by
  obtain ⟨c, u, rfl, hc⟩ := dumps_head h
  have hread := (reads_all (2 * (c :: u).length + 1)).1 v depth (c :: u) [] h hk (by simp [Boundary]) le_rfl
  rw [List.append_nil] at hread
  have hbom : c ≠ '\ufeff' := by
    rintro rfl
    simp [Starts] at hc
  rw [loads, if_neg (by simpa using hbom), hc.skip, hread]
  rfl

/-- The values of two texts are equal, up to how floats are written, if the texts are. -/
theorem dumps_injective {v w : Json} {depth : Nat} {t : Text} (hv : dumps F v depth = some t)
    (hw : dumps F w depth = some t) (hkv : distinctKeys v = true) (hkw : distinctKeys w = true) :
    rewritten F v = rewritten F w :=
  Except.ok.inj ((loads_dumps hv hkv).symm.trans (loads_dumps hw hkw))

/-! ## What can be written -/

theorem dumpsElements_isSome {xs : List Json} {depth : Nat} :
    (dumpsElements F xs depth).isSome = true ↔ ∀ x ∈ xs, (dumps F x depth).isSome = true := by
  induction xs with
  | nil => simp [dumpsElements]
  | cons x xs ih =>
    cases xs with
    | nil => simp [dumpsElements]
    | cons y ys =>
      rw [List.forall_mem_cons, ← ih, dumpsElements]
      cases dumps F x depth <;> simp

theorem dumpsMembers_isSome {fields : List (Text × Json)} {depth : Nat} :
    (dumpsMembers F fields depth).isSome = true ↔ ∀ f ∈ fields, (dumps F f.2 depth).isSome = true := by
  induction fields with
  | nil => simp [dumpsMembers]
  | cons f fields ih =>
    obtain ⟨key, value⟩ := f
    cases fields with
    | nil => simp [dumpsMembers]
    | cons g gs =>
      rw [List.forall_mem_cons, ← ih, dumpsMembers]
      cases dumps F value depth <;> simp

theorem distinctElements_iff {xs : List Json} : distinctElements xs = true ↔ ∀ x ∈ xs, distinctKeys x = true := by
  induction xs with
  | nil => simp [distinctElements]
  | cons x xs ih => rw [distinctElements, Bool.and_eq_true, ih, List.forall_mem_cons]

theorem distinctMembers_iff {fields : List (Text × Json)} :
    distinctMembers fields = true ↔ ∀ f ∈ fields, distinctKeys f.2 = true := by
  induction fields with
  | nil => simp [distinctMembers]
  | cons f fields ih => rw [distinctMembers, Bool.and_eq_true, ih, List.forall_mem_cons]

/-! ## Floats and surrogates -/

mutual

/-- There is no float. -/
def floatFree : Json → Bool
  | .float _ => false
  | .arr xs => floatFreeElements xs
  | .obj fields => floatFreeMembers fields
  | _ => true

def floatFreeElements : List Json → Bool
  | [] => true
  | x :: xs => floatFree x && floatFreeElements xs

def floatFreeMembers : List (Text × Json) → Bool
  | [] => true
  | f :: fields => floatFree f.2 && floatFreeMembers fields

end

mutual

/-- No text in it has a lone surrogate. -/
def encodable : Json → Bool
  | .str s => Python.encodable s
  | .arr xs => encodableElements xs
  | .obj fields => encodableMembers fields
  | _ => true

def encodableElements : List Json → Bool
  | [] => true
  | x :: xs => encodable x && encodableElements xs

def encodableMembers : List (Text × Json) → Bool
  | [] => true
  | f :: fields => Python.encodable f.1 && encodable f.2 && encodableMembers fields

end

mutual

theorem floatFree_rewritten : ∀ v : Json, floatFree (rewritten F v) = floatFree v
  | .null | .bool _ | .int _ | .str _ | .float _ => rfl
  | .arr xs => floatFree_rewrittenElements xs
  | .obj fields => floatFree_rewrittenMembers fields

theorem floatFree_rewrittenElements : ∀ xs : List Json,
    floatFreeElements (rewrittenElements F xs) = floatFreeElements xs
  | [] => rfl
  | x :: xs => by
    rw [rewrittenElements, floatFreeElements, floatFree_rewritten x, floatFree_rewrittenElements xs, floatFreeElements]

theorem floatFree_rewrittenMembers : ∀ fields : List (Text × Json),
    floatFreeMembers (rewrittenMembers F fields) = floatFreeMembers fields
  | [] => rfl
  | f :: fields => by
    rw [rewrittenMembers, floatFreeMembers, floatFree_rewritten f.2, floatFree_rewrittenMembers fields,
      floatFreeMembers]

end

mutual

/-- A value without floats is written as it is. -/
theorem rewritten_of_floatFree : ∀ v : Json, floatFree v = true → rewritten F v = v
  | .null, _ | .bool _, _ | .int _, _ | .str _, _ => rfl
  | .float _, h => by simp [floatFree] at h
  | .arr xs, h => congrArg Json.arr (rewrittenElements_of_floatFree xs h)
  | .obj fields, h => congrArg Json.obj (rewrittenMembers_of_floatFree fields h)

theorem rewrittenElements_of_floatFree : ∀ xs : List Json, floatFreeElements xs = true → rewrittenElements F xs = xs
  | [], _ => rfl
  | x :: xs, h => by
    rw [floatFreeElements, Bool.and_eq_true] at h
    rw [rewrittenElements, rewritten_of_floatFree x h.1, rewrittenElements_of_floatFree xs h.2]

theorem rewrittenMembers_of_floatFree : ∀ fields : List (Text × Json), floatFreeMembers fields = true →
    rewrittenMembers F fields = fields
  | [], _ => rfl
  | f :: fields, h => by
    rw [floatFreeMembers, Bool.and_eq_true] at h
    rw [rewrittenMembers, rewritten_of_floatFree f.2 h.1, rewrittenMembers_of_floatFree fields h.2]

end

theorem encodable_append (t u : Text) : Python.encodable (t ++ u) = (Python.encodable t && Python.encodable u) :=
  List.all_append

theorem encodable_cons (c : Char) (t : Text) : Python.encodable (c :: t) = (!isSurrogate c && Python.encodable t) := rfl

theorem encodable_hexChar : ∀ n < 16, isSurrogate (hexChar n) = false := by decide

theorem encodable_escaped (c : Char) : Python.encodable (escaped c) = !isSurrogate c := by
  unfold escaped
  split_ifs with h1 h2 h3 h4 h5 h6 h7 h8
  iterate 7 subst c; decide
  · -- a control character
    have hcode : isSurrogate c = false := by simp [isSurrogate]; omega
    have hhigh := encodable_hexChar (c.toNat / 16) (by omega)
    have hlow := encodable_hexChar (c.toNat % 16) (by omega)
    have hstart : Python.encodable ['\\', 'u', '0', '0'] = true := by decide
    show Python.encodable (['\\', 'u', '0', '0'] ++ [hexChar (c.toNat / 16), hexChar (c.toNat % 16)]) = _
    rw [encodable_append, hstart, encodable_cons, encodable_cons, hhigh, hlow, hcode]
    rfl
  · simp [Python.encodable]

theorem encodable_quoted (s : Text) : Python.encodable (quoted s) = Python.encodable s := by
  have hbody : Python.encodable (s.flatMap escaped) = Python.encodable s := by
    induction s with
    | nil => rfl
    | cons c s ih => rw [List.flatMap_cons, encodable_append, encodable_escaped, ih, encodable_cons]
  have hquote : isSurrogate '\x22' = false := by decide
  rw [quoted, encodable_cons, encodable_append, hbody, encodable_cons, hquote]
  simp [Python.encodable]

theorem encodable_integer (n : Int) : Python.encodable (integer n) = true := by
  have hdecimal : Python.encodable (decimal n.natAbs) = true := by
    refine List.all_eq_true.mpr fun c hc => ?_
    have hc := (isDigit_iff c).mp (isDigit_decimal n.natAbs c hc)
    simp [isSurrogate]
    omega
  have hminus : isSurrogate '-' = false := by decide
  rw [integer]
  split
  · rw [encodable_cons, hminus, hdecimal]
    rfl
  · exact hdecimal

mutual

/-- **The text can be encoded exactly if the strings in the value can.** -/
theorem encodable_dumps : ∀ (v : Json) {depth : Nat} {t : Text}, dumps F v depth = some t →
    Python.encodable t = encodable v
  | .null, _, _, h => by obtain rfl := Option.some.inj h; decide
  | .bool true, _, _, h => by obtain rfl := Option.some.inj h; decide
  | .bool false, _, _, h => by obtain rfl := Option.some.inj h; decide
  | .int n, _, _, h => by
    rw [dumps] at h
    split at h
    · simp at h
    · obtain rfl := Option.some.inj h
      exact encodable_integer n
  | .float digits, _, _, h => by
    obtain rfl := Option.some.inj h
    exact F.encodable digits
  | .str s, _, _, h => by
    obtain rfl := Option.some.inj h
    exact encodable_quoted s
  | .arr _, 0, _, h => by simp [dumps] at h
  | .arr xs, depth + 1, _, h => by
    obtain ⟨u, hu, rfl⟩ := Option.map_eq_some_iff.mp h
    have hopen : isSurrogate '[' = false := by decide
    have hclose : Python.encodable [']'] = true := by decide
    rw [encodable_cons, encodable_append, encodable_dumpsElements xs hu, hopen, hclose, encodable]
    simp
  | .obj _, 0, _, h => by simp [dumps] at h
  | .obj fields, depth + 1, _, h => by
    obtain ⟨u, hu, rfl⟩ := Option.map_eq_some_iff.mp h
    have hopen : isSurrogate '\x7b' = false := by decide
    have hclose : Python.encodable ['\x7d'] = true := by decide
    rw [encodable_cons, encodable_append, encodable_dumpsMembers fields hu, hopen, hclose, encodable]
    simp

theorem encodable_dumpsElements : ∀ (xs : List Json) {depth : Nat} {t : Text}, dumpsElements F xs depth = some t →
    Python.encodable t = encodableElements xs
  | [], _, _, h => by obtain rfl := Option.some.inj h; rfl
  | [x], _, _, h => by
    rw [encodableElements, encodableElements, Bool.and_true]
    exact encodable_dumps x h
  | x :: y :: xs, _, _, h => by
    obtain ⟨a, ha, h⟩ := Option.bind_eq_some_iff.mp h
    obtain ⟨u, hu, rfl⟩ := Option.map_eq_some_iff.mp h
    have hcomma : isSurrogate ',' = false ∧ isSurrogate ' ' = false := by decide
    have hcons : encodableElements (x :: y :: xs) = (encodable x && encodableElements (y :: xs)) := rfl
    rw [encodable_append, encodable_cons, encodable_cons, hcomma.1, hcomma.2, encodable_dumps x ha,
      encodable_dumpsElements (y :: xs) hu, hcons]
    simp

theorem encodable_dumpsMembers : ∀ (fields : List (Text × Json)) {depth : Nat} {t : Text},
    dumpsMembers F fields depth = some t → Python.encodable t = encodableMembers fields
  | [], _, _, h => by obtain rfl := Option.some.inj h; rfl
  | (key, value) :: fields, _, _, h => by
    have hcolon : isSurrogate ':' = false ∧ isSurrogate ' ' = false ∧ isSurrogate ',' = false := by decide
    obtain ⟨a, ha, ⟨rfl, rfl⟩ | ⟨u, hu, -, rfl⟩⟩ := dumpsMembers_cons h
    · rw [encodable_append, encodable_cons, encodable_cons, hcolon.1, hcolon.2.1, encodable_quoted,
        encodable_dumps value ha, encodableMembers, encodableMembers]
      simp
    · rw [encodable_append, encodable_append, encodable_cons, encodable_cons, encodable_cons, encodable_cons, hcolon.1,
        hcolon.2.1, hcolon.2.2, encodable_quoted, encodable_dumps value ha, encodable_dumpsMembers fields hu,
        encodableMembers]
      simp

end

theorem floatFreeElements_iff {xs : List Json} : floatFreeElements xs = true ↔ ∀ x ∈ xs, floatFree x = true := by
  induction xs with
  | nil => simp [floatFreeElements]
  | cons x xs ih => rw [floatFreeElements, Bool.and_eq_true, ih, List.forall_mem_cons]

theorem floatFreeMembers_iff {fields : List (Text × Json)} : floatFreeMembers fields = true ↔
    ∀ f ∈ fields, floatFree f.2 = true := by
  induction fields with
  | nil => simp [floatFreeMembers]
  | cons f fields ih => rw [floatFreeMembers, Bool.and_eq_true, ih, List.forall_mem_cons]

/-- Every float is written as this one. -/
def FloatFormat.half : FloatFormat where
  write _ := "0.5".toList
  digits _ := "0.5".toList
  starts _ := ⟨'0', _, rfl, starts_digit (by decide)⟩
  reads _ fuel depth rest hrest := by
    show scanOnce (fuel + 1) depth ('0' :: ('.' :: '5' :: rest)) = _
    rw [scanOnce_digit (by decide)]
    obtain ⟨htake, -, hexponent⟩ := hrest.stops
    simp [scanNumber, fraction, htake, hexponent]
  encodable _ := by decide

theorem length_decimal_le {n k : Nat} (h : n < 10 ^ k) (hk : 0 < k) : (decimal n).length ≤ k := by
  rw [decimal]
  split
  · exact hk
  · rw [List.length_map, List.length_reverse, Nat.digits_length_le_iff (by norm_num)]
    exact h

end Json

end DataAgent.Python
