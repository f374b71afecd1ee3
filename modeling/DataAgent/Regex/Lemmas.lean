import DataAgent.Regex.Basic

/-!
# Rules for `run` and `first`

* a pattern with one success hands its cursor on (`first_seq_of_run`);
* a greedy repetition tries every length, the longest first (`stops_eq`);
* a literal succeeds in one way (`run_lit`);
* `Refuses q p` : `q` fails before every character of the class `p`, built up along the pattern.
-/

namespace DataAgent.Regex
open Python (Text)
open Pattern

/-- The cursor `n` characters on. -/
def Cursor.advance (s : Cursor) (n : Nat) : Cursor := ⟨(s.after.take n).reverse ++ s.before, s.after.drop n⟩

@[simp] theorem Cursor.advance_zero (s : Cursor) : s.advance 0 = s := by simp [Cursor.advance]

@[simp] theorem Cursor.advance_mk_succ (b : Text) (c : Char) (t : Text) (n : Nat) :
    (⟨b, c :: t⟩ : Cursor).advance (n + 1) = (⟨c :: b, t⟩ : Cursor).advance n := by
  simp [Cursor.advance]

theorem Cursor.advance_append (b x y : Text) : (⟨b, x ++ y⟩ : Cursor).advance x.length = ⟨x.reverse ++ b, y⟩ := by
  simp [Cursor.advance]

theorem consumed_append (b b' x y : Text) : consumed ⟨b, x ++ y⟩ ⟨b', y⟩ = x := by
  simp [consumed]

section
variable {word : Char → Bool}

/-! ## Sequences -/

theorem first_seq (r q : Pattern) (s : Cursor) : first word (seq r q) s =
    (run word r s).findSome? fun x => (first word q x.1).map fun y => (y.1, y.2 ++ x.2) := by
  simp only [first, run, List.head?_flatMap, List.head?_map]

theorem run_seq_of_nil {r : Pattern} (q : Pattern) {s : Cursor} (h : run word r s = []) :
    run word (seq r q) s = [] := by
  simp [run, h]

theorem first_seq_of_run {r : Pattern} (q : Pattern) {s u : Cursor} {g : Groups} (h : run word r s = [(u, g)]) :
    first word (seq r q) s = (first word q u).map fun y => (y.1, y.2 ++ g) := by
  rw [first_seq, h]
  simp

theorem run_seq_of_run {r : Pattern} (q : Pattern) {s u : Cursor} {g : Groups} (h : run word r s = [(u, g)]) :
    run word (seq r q) s = (run word q u).map fun y => (y.1, y.2 ++ g) := by
  simp [run, h]

theorem first_eq_none {r : Pattern} {s : Cursor} : first word r s = none ↔ run word r s = [] := by
  simp [first]

/-! ## Repetition -/

theorem stops_eq (p : Char → Bool) (b t : Text) :
    stops p b t = (List.range ((t.takeWhile p).length + 1)).reverse.map (⟨b, t⟩ : Cursor).advance := by
  induction t generalizing b with
  | nil => simp [stops]
  | cons c t ih =>
    by_cases hc : p c = true
    · rw [stops, if_pos hc, ih, List.takeWhile_cons_of_pos hc, List.length_cons,
        List.range_succ_eq_map (n := (t.takeWhile p).length + 1), List.reverse_cons, List.map_append,
        ← List.map_reverse, List.map_map]
      simp [Function.comp_def]
    · rw [stops, if_neg hc, List.takeWhile_cons_of_neg hc]
      simp

theorem stops_eq_cons (p : Char → Bool) (b t : Text) : stops p b t =
    (⟨b, t⟩ : Cursor).advance (t.takeWhile p).length ::
      (List.range (t.takeWhile p).length).reverse.map (⟨b, t⟩ : Cursor).advance := by
  rw [stops_eq, List.range_succ, List.reverse_append]
  simp

/-- Before the last stop of `p*` the next character is in the class. -/
theorem advance_after_of_lt {p : Char → Bool} {b t : Text} {k : Nat} (hk : k < (t.takeWhile p).length) :
    ∃ b' c t', (⟨b, t⟩ : Cursor).advance k = ⟨b', c :: t'⟩ ∧ p c = true := by
  induction t generalizing b k with
  | nil => simp at hk
  | cons c t ih =>
    by_cases hc : p c = true
    · rw [List.takeWhile_cons_of_pos hc, List.length_cons] at hk
      cases k with
      | zero => exact ⟨b, c, t, by simp, hc⟩
      | succ k =>
        rw [Cursor.advance_mk_succ]
        exact ih (by omega)
    · rw [List.takeWhile_cons_of_neg hc] at hk
      simp at hk

/-- `q` fails before every character of the class `p`. -/
def Refuses (word : Char → Bool) (q : Pattern) (p : Char → Bool) : Prop :=
  ∀ b c t, p c = true → run word q ⟨b, c :: t⟩ = []

/-! ## Literals -/

/-- The text begins with the literal, up to `eqv`. -/
def startsWith (eqv : Char → Char → Bool) : Text → Text → Bool
  | [], _ => true
  | _ :: _, [] => false
  | p :: ps, c :: t => eqv p c && startsWith eqv ps t

theorem run_lit (eqv : Char → Char → Bool) (p : Text) (s : Cursor) : run word (lit eqv p) s =
    if startsWith eqv p s.after then [(s.advance p.length, [])] else [] := by
  induction p generalizing s with
  | nil => simp [lit, run, startsWith]
  | cons a p ih =>
    obtain ⟨b, t⟩ := s
    cases t with
    | nil => simp [lit, run, startsWith]
    | cons c t =>
      rw [lit, List.foldr_cons, ← lit, startsWith]
      by_cases hc : eqv a c = true
      · rw [run_seq_of_run (u := ⟨c :: b, t⟩) (g := []) _ (by simp [run, hc]), ih, hc, Bool.true_and,
          List.length_cons, Cursor.advance_mk_succ]
        split <;> simp
      · rw [run_seq_of_nil _ (by simp [run, hc])]
        simp [hc]

theorem startsWith_append_of_length {eqv : Char → Char → Bool} {p x : Text} (y : Text) (h : p.length ≤ x.length) :
    startsWith eqv p (x ++ y) = startsWith eqv p x := by
  induction p generalizing x with
  | nil => simp [startsWith]
  | cons a p ih =>
    cases x with
    | nil => simp at h
    | cons c x =>
      rw [List.cons_append, startsWith, startsWith, ih (by simpa using h)]

/-- A literal that begins a text covers characters equivalent to its own. -/
theorem forall₂_of_startsWith {eqv : Char → Char → Bool} {p t : Text} (h : startsWith eqv p t = true) :
    List.Forall₂ (fun a c => eqv a c = true) p (t.take p.length) := by
  induction p generalizing t with
  | nil => simp
  | cons a p ih =>
    cases t with
    | nil => simp [startsWith] at h
    | cons c t =>
      rw [startsWith, Bool.and_eq_true] at h
      exact .cons h.1 (ih h.2)

/-! ## Refusing a class -/

theorem Refuses.char {p p' : Char → Bool} (h : ∀ c, p c = true → p' c = false) : Refuses word (char p') p := by
  intro b c t hc
  simp [run, h c hc]

theorem Refuses.seq {r : Pattern} (q : Pattern) {p : Char → Bool} (h : Refuses word r p) :
    Refuses word (seq r q) p :=
  fun b c t hc => run_seq_of_nil q (h b c t hc)

theorem Refuses.plus {p p' : Char → Bool} (h : ∀ c, p c = true → p' c = false) : Refuses word (plus p') p :=
  (Refuses.char h).seq _

theorem Refuses.group {r : Pattern} {p : Char → Bool} (i : Nat) (h : Refuses word r p) :
    Refuses word (group i r) p := by
  intro b c t hc
  simp [run, h b c t hc]

/-- An optional pattern is skipped when it refuses. -/
theorem Refuses.opt_seq {r q : Pattern} {p : Char → Bool} (hr : Refuses word r p) (hq : Refuses word q p) :
    Refuses word (Pattern.seq (opt r) q) p := by
  intro b c t hc
  rw [run_seq_of_run (u := ⟨b, c :: t⟩) (g := []) q (by simp [run, hr b c t hc]), hq b c t hc, List.map_nil]

/-! ## Optional patterns -/

theorem first_opt_seq_of_nil {r : Pattern} (q : Pattern) {s : Cursor} (h : run word r s = []) :
    first word (Pattern.seq (opt r) q) s = first word q s := by
  rw [first_seq_of_run (u := s) (g := []) q (by simp [run, h])]
  cases first word q s <;> simp

theorem first_opt_seq_some {r q : Pattern} {s s' : Cursor} {g : Groups} {y : Cursor × Groups}
    (h : run word r s = [(s', g)]) (hq : first word q s' = some y) :
    first word (Pattern.seq (opt r) q) s = some (y.1, y.2 ++ g) := by
  rw [first_seq]
  simp [run, h, hq]

theorem first_opt_seq_none {r q : Pattern} {s s' : Cursor} {g : Groups}
    (h : run word r s = [(s', g)]) (hq : first word q s' = none) :
    first word (Pattern.seq (opt r) q) s = first word q s := by
  rw [first_seq]
  simp only [run, h, List.cons_append, List.nil_append, List.findSome?_cons, hq, Option.map_none,
    List.findSome?_nil, List.append_nil]
  cases first word q s <;> simp

end

end DataAgent.Regex
