import DataAgent.Regex.Lemmas

/-!
# Texts cut into words

A text is cut into runs of word characters, runs of whitespace and other characters one by one (`cut`). The cut
is unique (`cut_join`), and it is all that a pattern beginning with `\b` and a word character can see of where
it may start: its search runs over the words of the cut (`searchFrom_anchored`, `findFrom_anchored`).
-/

namespace DataAgent.Regex
open Python (Text)
open Pattern

inductive Piece where
  | word (w : Text)
  | space (w : Text)
  | sym (c : Char)
  deriving DecidableEq, Repr

namespace Piece

def text : Piece → Text
  | word w => w
  | space w => w
  | sym c => [c]

def isWord : Piece → Bool
  | word _ => true
  | _ => false

@[simp] theorem text_word (w : Text) : (word w).text = w := rfl
@[simp] theorem text_space (w : Text) : (space w).text = w := rfl
@[simp] theorem text_sym (c : Char) : (sym c).text = [c] := rfl

/-- Two pieces that a cut can have side by side. -/
def Apart : Piece → Piece → Prop
  | word _, word _ => False
  | space _, space _ => False
  | _, _ => True

instance : DecidableRel Apart := fun p q => by
  cases p <;> cases q <;> unfold Apart <;> infer_instance

end Piece

/-- The text of a list of pieces. -/
def join (ps : List Piece) : Text := ps.flatMap Piece.text

@[simp] theorem join_nil : join [] = [] := rfl
@[simp] theorem join_cons (p : Piece) (ps : List Piece) : join (p :: ps) = p.text ++ join ps := rfl
@[simp] theorem join_append (ps qs : List Piece) : join (ps ++ qs) = join ps ++ join qs := List.flatMap_append

section Cut
variable (word space : Char → Bool)

/-- One character put before a cut. -/
def push (c : Char) (ps : List Piece) : List Piece :=
  if word c then
    match ps with
    | .word w :: qs => .word (c :: w) :: qs
    | _ => .word [c] :: ps
  else if space c then
    match ps with
    | .space w :: qs => .space (c :: w) :: qs
    | _ => .space [c] :: ps
  else .sym c :: ps

def cut (t : Text) : List Piece := t.foldr (push word space) []

/-- A piece holds the characters of its kind. -/
def Piece.Ok : Piece → Prop
  | .word w => w ≠ [] ∧ ∀ c ∈ w, word c = true
  | .space w => w ≠ [] ∧ ∀ c ∈ w, word c = false ∧ space c = true
  | .sym c => word c = false ∧ space c = false

instance (p : Piece) : Decidable (p.Ok word space) := by
  cases p <;> unfold Piece.Ok <;> infer_instance

/-- The lists of pieces that are the cut of their text. -/
structure Segmented (ps : List Piece) : Prop where
  ok : ∀ p ∈ ps, p.Ok word space
  chain : ps.IsChain Piece.Apart

variable {word space}

theorem join_push (c : Char) (ps : List Piece) : join (push word space c ps) = c :: join ps := by
  unfold push
  split_ifs
  · split <;> simp
  · split <;> simp
  · simp

@[simp] theorem join_cut (t : Text) : join (cut word space t) = t := by
  induction t with
  | nil => rfl
  | cons c t ih => rw [cut, List.foldr_cons, ← cut, join_push, ih]

theorem Segmented.nil : Segmented word space [] := ⟨by simp, .nil⟩

theorem Segmented.tail {p : Piece} {ps : List Piece} (h : Segmented word space (p :: ps)) :
    Segmented word space ps :=
  ⟨fun q hq => h.ok q (List.mem_cons_of_mem _ hq), h.chain.tail⟩

theorem Segmented.head {p : Piece} {ps : List Piece} (h : Segmented word space (p :: ps)) : p.Ok word space :=
  h.ok p List.mem_cons_self

theorem Segmented.right {ps qs : List Piece} (h : Segmented word space (ps ++ qs)) : Segmented word space qs :=
  ⟨fun q hq => h.ok q (List.mem_append_right _ hq), h.chain.right_of_append⟩

theorem Segmented.append {ps qs : List Piece} (hp : Segmented word space ps) (hq : Segmented word space qs)
    (h : ∀ p ∈ ps.getLast?, ∀ q ∈ qs.head?, p.Apart q) : Segmented word space (ps ++ qs) :=
  ⟨fun p hm => (List.mem_append.mp hm).elim (hp.ok p) (hq.ok p), hp.chain.append hq.chain h⟩

theorem segmented_cons {p : Piece} {ps : List Piece} : Segmented word space (p :: ps) ↔
    p.Ok word space ∧ (∀ q ∈ ps.head?, p.Apart q) ∧ Segmented word space ps := by
  constructor
  · intro h
    refine ⟨h.head, fun q hq => ?_, h.tail⟩
    cases ps with
    | nil => simp at hq
    | cons r ps =>
      obtain rfl : r = q := by simpa using hq
      exact h.chain.rel
  · rintro ⟨hp, hq, h⟩
    refine ⟨List.forall_mem_cons.mpr ⟨hp, h.ok⟩, ?_⟩
    cases ps with
    | nil => exact .singleton _
    | cons r ps => exact .cons_cons (hq r rfl) h.chain

theorem Piece.apart_word {w w' : Text} {q : Piece} (h : (Piece.word w).Apart q) : (Piece.word w').Apart q := by
  cases q <;> exact h

theorem Piece.apart_space {w w' : Text} {q : Piece} (h : (Piece.space w).Apart q) : (Piece.space w').Apart q := by
  cases q <;> exact h

theorem segmented_push (c : Char) {ps : List Piece} (h : Segmented word space ps) :
    Segmented word space (push word space c ps) := by
  unfold push
  split_ifs with hw hs
  · split
    · obtain ⟨⟨-, hall⟩, hq, htail⟩ := segmented_cons.mp h
      exact segmented_cons.mpr ⟨⟨by simp, List.forall_mem_cons.mpr ⟨hw, hall⟩⟩,
        fun q h => Piece.apart_word (hq q h), htail⟩
    · rename_i hne
      refine segmented_cons.mpr ⟨⟨by simp, by simpa using hw⟩, fun q hq => ?_, h⟩
      cases q with
      | word w => obtain ⟨qs, rfl⟩ := List.head?_eq_some_iff.mp hq; exact (hne w qs rfl).elim
      | space w => trivial
      | sym d => trivial
  · have hw : word c = false := by simpa using hw
    split
    · obtain ⟨⟨-, hall⟩, hq, htail⟩ := segmented_cons.mp h
      exact segmented_cons.mpr ⟨⟨by simp, List.forall_mem_cons.mpr ⟨⟨hw, hs⟩, hall⟩⟩,
        fun q h => Piece.apart_space (hq q h), htail⟩
    · rename_i hne
      refine segmented_cons.mpr ⟨⟨by simp, by simpa using ⟨hw, hs⟩⟩, fun q hq => ?_, h⟩
      cases q with
      | word w => trivial
      | space w => obtain ⟨qs, rfl⟩ := List.head?_eq_some_iff.mp hq; exact (hne w qs rfl).elim
      | sym d => trivial
  · exact segmented_cons.mpr ⟨⟨by simpa using hw, by simpa using hs⟩, fun q _ => by cases q <;> trivial, h⟩

theorem segmented_cut (t : Text) : Segmented word space (cut word space t) := by
  induction t with
  | nil => exact .nil
  | cons c t ih => exact segmented_push c ih

theorem foldr_push_word {w : Text} {ps : List Piece} (hne : w ≠ []) (hw : ∀ c ∈ w, word c = true)
    (hp : ∀ q ∈ ps.head?, (Piece.word w).Apart q) : w.foldr (push word space) ps = .word w :: ps := by
  induction w with
  | nil => exact absurd rfl hne
  | cons c w ih =>
    rw [List.foldr_cons]
    by_cases hnil : w = []
    · subst hnil
      rw [List.foldr_nil]
      unfold push
      rw [if_pos (hw c (by simp))]
      split
      · exact (hp _ rfl).elim
      · rfl
    · rw [ih hnil (fun d hd => hw d (List.mem_cons_of_mem _ hd)) (fun q hq => Piece.apart_word (hp q hq)), push,
        if_pos (hw c (by simp))]

theorem foldr_push_space {w : Text} {ps : List Piece} (hne : w ≠ [])
    (hw : ∀ c ∈ w, word c = false ∧ space c = true) (hp : ∀ q ∈ ps.head?, (Piece.space w).Apart q) :
    w.foldr (push word space) ps = .space w :: ps := by
  induction w with
  | nil => exact absurd rfl hne
  | cons c w ih =>
    rw [List.foldr_cons]
    have hc := hw c (by simp)
    have hc' : ¬ word c = true := by simp [hc.1]
    by_cases hnil : w = []
    · subst hnil
      rw [List.foldr_nil]
      unfold push
      rw [if_neg hc', if_pos hc.2]
      split
      · exact (hp _ rfl).elim
      · rfl
    · rw [ih hnil (fun d hd => hw d (List.mem_cons_of_mem _ hd)) (fun q hq => Piece.apart_space (hp q hq)), push,
        if_neg hc', if_pos hc.2]

/-- The cut of a text is the only one. -/
theorem cut_join {ps : List Piece} (h : Segmented word space ps) : cut word space (join ps) = ps := by
  induction ps with
  | nil => rfl
  | cons p ps ih =>
    obtain ⟨hp, hq, htail⟩ := segmented_cons.mp h
    rw [join_cons, cut, List.foldr_append, ← cut, ih htail]
    cases p with
    | word w => exact foldr_push_word hp.1 hp.2 hq
    | space w => exact foldr_push_space hp.1 hp.2 hq
    | sym c => simp [push, hp.1, hp.2]

theorem push_ne_nil (c : Char) (ps : List Piece) : push word space c ps ≠ [] := by
  unfold push
  split_ifs
  · split <;> simp
  · split <;> simp
  · simp

/-- What is put before a cut changes its first piece only. -/
theorem push_append (c : Char) {ps : List Piece} (hne : ps ≠ []) (qs : List Piece) :
    push word space c (ps ++ qs) = push word space c ps ++ qs := by
  obtain ⟨p, ps, rfl⟩ := List.exists_cons_of_ne_nil hne
  cases p <;> simp [push] <;> split_ifs <;> simp

theorem foldr_push_append (x : Text) {ps : List Piece} (hne : ps ≠ []) (qs : List Piece) :
    x.foldr (push word space) (ps ++ qs) = x.foldr (push word space) ps ++ qs := by
  induction x with
  | nil => rfl
  | cons c x ih =>
    rw [List.foldr_cons, List.foldr_cons, ih, push_append]
    cases x with
    | nil => exact hne
    | cons d x => exact push_ne_nil _ _

/-- **A run of word characters with none next to it is a word of the cut.** -/
theorem mem_cut_of_run {x w y : Text} (hne : w ≠ []) (hw : ∀ c ∈ w, word c = true) (hx : x.getLast?.any word = false)
    (hy : y.head?.any word = false) : Piece.word w ∈ cut word space (x ++ (w ++ y)) := by
  have hapart : ∀ q ∈ (cut word space y).head?, (Piece.word w).Apart q := by
    intro q hq
    obtain ⟨ps, hps⟩ := List.head?_eq_some_iff.mp hq
    have hok : Segmented word space (cut word space y) := segmented_cut y
    have hjoin : join (cut word space y) = y := join_cut y
    rw [hps] at hok hjoin
    cases q with
    | word v =>
      obtain ⟨c, v, rfl⟩ := List.exists_cons_of_ne_nil hok.head.1
      rw [← hjoin] at hy
      simp [hok.head.2 c (by simp)] at hy
    | space v => trivial
    | sym c => trivial
  have hright : cut word space (w ++ y) = .word w :: cut word space y := by
    rw [cut, List.foldr_append, ← cut, foldr_push_word hne hw hapart]
  rw [cut, List.foldr_append, ← cut, hright]
  rcases List.eq_nil_or_concat x with rfl | ⟨x, c, rfl⟩
  · exact List.mem_cons_self
  · have hc : word c = false := by simpa using hx
    have hlast : ∃ p, push word space c (.word w :: cut word space y) = [p] ++ (.word w :: cut word space y) := by
      unfold push
      rw [if_neg (by simp [hc])]
      split_ifs
      · exact ⟨_, rfl⟩
      · exact ⟨_, rfl⟩
    obtain ⟨p, hp⟩ := hlast
    rw [List.concat_eq_append, List.foldr_append, List.foldr_cons, List.foldr_nil, hp,
      foldr_push_append x (by simp)]
    exact List.mem_append_right _ List.mem_cons_self

end Cut

/-! ## Patterns that start at a word -/

/-- `q` succeeds only before a word character. -/
structure StartsAtWord (word : Char → Bool) (q : Pattern) : Prop where
  refuses : Refuses word q fun c => !word c
  atEnd : ∀ b, run word q ⟨b, []⟩ = []

/-- The search over the words of a cut; `b` is the text before it. -/
def searchWords (m : Cursor → Option Match) : Text → List Piece → Option Match
  | _, [] => none
  | b, p :: ps =>
    match if p.isWord then m ⟨b, join (p :: ps)⟩ else none with
    | some x => some x
    | none => searchWords m (p.text.reverse ++ b) ps

/-- The matches at the words of a cut, the first `skip` characters being inside an earlier match. -/
def findWords (m : Cursor → Option Match) : Nat → Text → List Piece → List Match
  | _, _, [] => []
  | skip, b, p :: ps =>
    match if skip = 0 ∧ p.isWord then m ⟨b, join (p :: ps)⟩ else none with
    | some x => x :: findWords m (x.stop.before.length - x.start.before.length - p.text.length)
        (p.text.reverse ++ b) ps
    | none => findWords m (skip - p.text.length) (p.text.reverse ++ b) ps

section Anchored
variable {word space : Char → Bool} {q : Pattern}

/-- The text before a cut does not end inside its first word. -/
def LeftOf (word : Char → Bool) (b : Text) (ps : List Piece) : Prop :=
  b.head?.any word = false ∨ ∀ p ∈ ps.head?, p.isWord = false

theorem leftOf_next (hs : Segmented word space (p :: ps)) (b : Text) :
    LeftOf word (p.text.reverse ++ b) ps := by
  obtain ⟨hp, hq, -⟩ := segmented_cons.mp hs
  cases p with
  | word w =>
    refine Or.inr fun q hqm => ?_
    have := hq q hqm
    cases q with
    | word _ => exact this.elim
    | space _ => rfl
    | sym _ => rfl
  | space w =>
    left
    obtain ⟨hne, hw⟩ := hp
    rw [Piece.text_space, List.head?_append, List.head?_reverse]
    cases h : w.getLast? with
    | none => exact absurd (List.getLast?_eq_none_iff.mp h) hne
    | some c => simpa using (hw c (List.mem_of_getLast? h)).1
  | sym c => exact Or.inl (by simpa using hp.1)

theorem leftOf_append {x y : List Piece} (hs : Segmented word space (x ++ y)) {b : Text}
    (hb : LeftOf word b (x ++ y)) : LeftOf word ((join x).reverse ++ b) y := by
  induction x generalizing b with
  | nil => exact hb
  | cons p x ih =>
    have := ih hs.tail (leftOf_next hs b)
    rwa [← List.append_assoc, ← List.reverse_append, ← join_cons] at this

theorem matchAt_of_run_nil {r : Pattern} {s : Cursor} (h : run word r s = []) : matchAt word r s = none := by
  simp [matchAt, first, h]

theorem run_anchored_of_boundary {s : Cursor} (h : atBoundary word s = true) :
    run word (seq wordBoundary q) s = run word q s := by
  rw [run_seq_of_run (u := s) (g := []) q (by simp [run, h])]
  simp

theorem matchAt_anchored_inside (b : Text) {c d : Char} (t : Text) (hc : word c = true) (hd : word d = true) :
    matchAt word (seq wordBoundary q) ⟨c :: b, d :: t⟩ = none :=
  matchAt_of_run_nil (run_seq_of_nil q (by simp [run, atBoundary, hc, hd]))

theorem StartsAtWord.matchAt_anchored_of_not (hq : StartsAtWord word q) (b : Text) {c : Char} (t : Text)
    (hc : word c = false) : matchAt word (seq wordBoundary q) ⟨b, c :: t⟩ = none := by
  refine matchAt_of_run_nil ?_
  by_cases hb : atBoundary word ⟨b, c :: t⟩ = true
  · rw [run_anchored_of_boundary hb]
    exact hq.refuses b c t (by simp [hc])
  · exact run_seq_of_nil q (by simp [run, hb])

theorem StartsAtWord.matchAt_anchored_nil (hq : StartsAtWord word q) (b : Text) :
    matchAt word (seq wordBoundary q) ⟨b, []⟩ = none := by
  refine matchAt_of_run_nil ?_
  by_cases hb : atBoundary word ⟨b, []⟩ = true
  · rw [run_anchored_of_boundary hb]
    exact hq.atEnd b
  · exact run_seq_of_nil q (by simp [run, hb])

theorem matchAt_anchored_word (hb : b.head?.any word = false) {c : Char} (t : Text) (hc : word c = true) :
    matchAt word (seq wordBoundary q) ⟨b, c :: t⟩ = matchAt word q ⟨b, c :: t⟩ := by
  unfold matchAt first
  rw [run_anchored_of_boundary (by simp [atBoundary, hb, hc])]

/-! ### Characters where no match starts -/

theorem searchFrom_skip {r : Pattern} (x y b : Text)
    (h : ∀ x₁ c x₂, x = x₁ ++ c :: x₂ → matchAt word r ⟨x₁.reverse ++ b, c :: x₂ ++ y⟩ = none) :
    searchFrom word r b (x ++ y) = searchFrom word r (x.reverse ++ b) y := by
  induction x generalizing b with
  | nil => rfl
  | cons c x ih =>
    rw [List.cons_append, searchFrom, show matchAt word r ⟨b, c :: (x ++ y)⟩ = none from h [] c x rfl,
      ih (c :: b) fun x₁ d x₂ e => by simpa using h (c :: x₁) d x₂ (by rw [e]; rfl)]
    simp

theorem findFrom_skip {r : Pattern} (x y b : Text)
    (h : ∀ x₁ c x₂, x = x₁ ++ c :: x₂ → matchAt word r ⟨x₁.reverse ++ b, c :: x₂ ++ y⟩ = none) :
    findFrom word r 0 b (x ++ y) = findFrom word r 0 (x.reverse ++ b) y := by
  induction x generalizing b with
  | nil => rfl
  | cons c x ih =>
    rw [List.cons_append, findFrom, show matchAt word r ⟨b, c :: (x ++ y)⟩ = none from h [] c x rfl,
      ih (c :: b) fun x₁ d x₂ e => by simpa using h (c :: x₁) d x₂ (by rw [e]; rfl)]
    simp

theorem findFrom_drop (r : Pattern) (x y b : Text) {k : Nat} (hk : x.length ≤ k) :
    findFrom word r k b (x ++ y) = findFrom word r (k - x.length) (x.reverse ++ b) y := by
  induction x generalizing b k with
  | nil => simp
  | cons c x ih =>
    cases k with
    | zero => simp at hk
    | succ k =>
      rw [List.cons_append, findFrom, ih (c :: b) (by simpa using hk)]
      simp

/-- What is left of a match that ends inside `x` costs nothing when no match starts in `x`. -/
theorem findFrom_skip_any {r : Pattern} (x y b : Text) (k : Nat)
    (h : ∀ x₁ c x₂, x = x₁ ++ c :: x₂ → matchAt word r ⟨x₁.reverse ++ b, c :: x₂ ++ y⟩ = none) :
    findFrom word r k b (x ++ y) = findFrom word r (k - x.length) (x.reverse ++ b) y := by
  rcases Nat.le_total x.length k with hk | hk
  · exact findFrom_drop r x y b hk
  · have hsplit : x = x.take k ++ x.drop k := (List.take_append_drop k x).symm
    have hlen : (x.take k).length = k := by simpa using hk
    conv_lhs => rw [hsplit, List.append_assoc]
    rw [findFrom_drop r _ _ b (by omega), hlen, Nat.sub_self,
      findFrom_skip _ _ _ fun x₁ c x₂ e => by
        have := h (x.take k ++ x₁) c x₂ (by rw [List.append_assoc, ← e, ← hsplit])
        simpa using this,
      Nat.sub_eq_zero_of_le hk, ← List.append_assoc, ← List.reverse_append, ← hsplit]

theorem no_match_of_not_word (hq : StartsAtWord word q) {x : Text} (hx : ∀ c ∈ x, word c = false) (y b : Text) :
    ∀ x₁ c x₂, x = x₁ ++ c :: x₂ → matchAt word (seq wordBoundary q) ⟨x₁.reverse ++ b, c :: x₂ ++ y⟩ = none := by
  rintro x₁ c x₂ rfl
  exact hq.matchAt_anchored_of_not _ _ (hx c (by simp))

theorem no_match_inside {d : Char} (hd : word d = true) {x : Text} (hx : ∀ c ∈ x, word c = true) (y b : Text) :
    ∀ x₁ c x₂, x = x₁ ++ c :: x₂ →
      matchAt word (seq wordBoundary q) ⟨x₁.reverse ++ d :: b, c :: x₂ ++ y⟩ = none := by
  rintro x₁ c x₂ rfl
  have hc := hx c (by simp)
  cases hr : x₁.reverse with
  | nil => exact matchAt_anchored_inside b _ hd hc
  | cons e x₁' =>
    have he : e ∈ x₁ := by
      rw [← List.mem_reverse, hr]
      exact List.mem_cons_self
    exact matchAt_anchored_inside _ _ (hx e (List.mem_append_left _ he)) hc

/-! ### The two searches -/

theorem Piece.Ok.not_word {p : Piece} (hp : p.Ok word space) (h : p.isWord = false) : ∀ c ∈ p.text, word c = false := by
  cases p with
  | word w => simp [Piece.isWord] at h
  | space w => exact fun c hc => (hp.2 c hc).1
  | sym c => simpa using hp.1

/-- **A search of an anchored pattern runs over the words of the cut.** -/
theorem searchFrom_anchored (hq : StartsAtWord word q) {ps : List Piece} (hs : Segmented word space ps) (b : Text)
    (hb : LeftOf word b ps) :
    searchFrom word (seq wordBoundary q) b (join ps) = searchWords (matchAt word q) b ps := by
  induction ps generalizing b with
  | nil => exact hq.matchAt_anchored_nil b
  | cons p ps ih =>
    have ih := ih hs.tail (p.text.reverse ++ b) (leftOf_next hs b)
    rw [searchWords]
    by_cases hp : p.isWord = true
    · rw [if_pos hp]
      cases p with
      | space _ => simp [Piece.isWord] at hp
      | sym _ => simp [Piece.isWord] at hp
      | word w =>
        obtain ⟨hne, hw⟩ := hs.head
        have hb' : b.head?.any word = false := hb.resolve_right fun h => by simpa [Piece.isWord] using h _ rfl
        cases w with
        | nil => exact absurd rfl hne
        | cons c w =>
          have hc := hw c (by simp)
          simp only [join_cons, Piece.text_word, List.cons_append, searchFrom] at ih ⊢
          rw [matchAt_anchored_word hb' _ hc]
          cases matchAt word q ⟨b, c :: (w ++ join ps)⟩ with
          | some m => rfl
          | none =>
            rw [searchFrom_skip w _ _ (no_match_inside hc (fun d hd => hw d (List.mem_cons_of_mem _ hd)) _ b)]
            simpa using ih
    · have hp : p.isWord = false := by simpa using hp
      rw [if_neg (by simp [hp]), join_cons, searchFrom_skip _ _ _ (no_match_of_not_word hq (hs.head.not_word hp) _ _)]
      exact ih

theorem search_anchored (hq : StartsAtWord word q) {ps : List Piece} (hs : Segmented word space ps) :
    search word (seq wordBoundary q) (join ps) = searchWords (matchAt word q) [] ps :=
  searchFrom_anchored hq hs [] (Or.inl rfl)

/-- **The matches of an anchored pattern start at the words of the cut.** -/
theorem findFrom_anchored (hq : StartsAtWord word q) {ps : List Piece} (hs : Segmented word space ps) (k : Nat)
    (b : Text) (hb : LeftOf word b ps) :
    findFrom word (seq wordBoundary q) k b (join ps) = findWords (matchAt word q) k b ps := by
  induction ps generalizing k b with
  | nil =>
    cases k with
    | zero => simp [findFrom, findWords, hq.matchAt_anchored_nil b]
    | succ k => rfl
  | cons p ps ih =>
    have ih := fun k => ih hs.tail k (p.text.reverse ++ b) (leftOf_next hs b)
    rw [findWords]
    by_cases hp : p.isWord = true
    · cases p with
      | space _ => simp [Piece.isWord] at hp
      | sym _ => simp [Piece.isWord] at hp
      | word w =>
        obtain ⟨hne, hw⟩ := hs.head
        have hb' : b.head?.any word = false := hb.resolve_right fun h => by simpa [Piece.isWord] using h _ rfl
        cases w with
        | nil => exact absurd rfl hne
        | cons c w =>
          have hc := hw c (by simp)
          have hrest := fun k => findFrom_skip_any w (join ps) (c :: b) k
            (no_match_inside (q := q) hc (fun d hd => hw d (List.mem_cons_of_mem _ hd)) _ b)
          simp only [join_cons, Piece.text_word, List.cons_append, List.length_cons, List.reverse_cons,
            List.append_assoc, List.nil_append] at ih hrest ⊢
          cases k with
          | zero =>
            rw [if_pos ⟨rfl, hp⟩, findFrom, matchAt_anchored_word hb' _ hc]
            cases matchAt word q ⟨b, c :: (w ++ join ps)⟩ with
            | some m =>
              simp only
              rw [hrest, ih]
              congr 2
              omega
            | none => simp only; rw [hrest, ih]; simp
          | succ k =>
            rw [if_neg (by simp), findFrom, hrest, ih]
            simp
    · have hp : p.isWord = false := by simpa using hp
      rw [if_neg (by simp [hp]), join_cons,
        findFrom_skip_any _ _ _ _ (no_match_of_not_word hq (hs.head.not_word hp) _ _)]
      exact ih _

theorem findIter_anchored (hq : StartsAtWord word q) {ps : List Piece} (hs : Segmented word space ps) :
    findIter word (seq wordBoundary q) (join ps) = findWords (matchAt word q) 0 [] ps :=
  findFrom_anchored hq hs 0 [] (Or.inl rfl)

end Anchored

end DataAgent.Regex
