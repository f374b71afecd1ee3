import DataAgent.Guardrail.Layout

/-!
# Edits of layout and letter case

Changes of a text's whitespace and of the case of its ASCII letters, outside of the names that follow the word `AS`.

* `inNameAfterAs` : a character of such a name, for a comparison of letters that reads the word `AS`;
* `Edit` : one change; `Relaid` : the same characters that count, and all characters of these names;
* **`relaid_of_edits`** : edits leave what counts; **`asName_eq`** : the patterns read the same names after `AS`.
-/

namespace DataAgent.Guardrail
open Python Regex Pattern

variable {U : Unicode}

/-! ## Names after `AS` -/

section
variable (U) (eqv : Char → Char → Bool)

/-- A part of a name has the word `AS` before it; `before` is read from its end, each run of whitespace a gap. -/
def afterAs (before : List (Option Char)) : Bool :=
  let rest := before.dropWhile (·.any identChar)
  let rest := if rest.head? = some (some '[') then rest.tail else rest
  match rest with
  | none :: some s :: some a :: more => eqv 'S' s && eqv 'A' a && !more.head?.any (·.any (isWord U))
  | _ => false

/-- The character `c` after `before` is in a name that follows the word `AS`. -/
def inNameAfterAs (before : List (Option Char)) (c : Char) : Bool :=
  identChar c && identStart ((before.takeWhile (·.any identChar)).getLast?.join.getD c) && afterAs U eqv before

end

variable {eqv : Char → Char → Bool}

theorem any_lower {p : Char → Bool} (hp : ∀ c : Char, c.toNat < 128 → p c.toLower = p c) :
    (fun o : Option Char => o.any p) ∘ Option.map Char.toLower = fun o => o.any p := by
  funext o
  cases o with
  | none => rfl
  | some c => simpa using of_toLower_eq hp (Char.toLower_toLower_eq_toLower c)

theorem afterAs_lower (heqv : ∀ a c : Char, c.toNat < 128 → eqv a c.toLower = eqv a c) (k : List (Option Char)) :
    afterAs U eqv (k.map (Option.map Char.toLower)) = afterAs U eqv k := by
  have hself : ∀ a c : Char, eqv a c.toLower = eqv a c :=
    fun a c => of_toLower_eq (heqv a) (Char.toLower_toLower_eq_toLower c)
  unfold afterAs
  rw [List.dropWhile_map, any_lower fun _ => identChar_toLower]
  generalize k.dropWhile (fun o => o.any identChar) = r
  dsimp only
  have hopen : ((r.map (Option.map Char.toLower)).head? = some (some '[')) ↔ r.head? = some (some '[') := by
    rcases r with _ | ⟨_ | c, r⟩
    · simp
    · simp
    · simp only [List.map_cons, Option.map_some, List.head?_cons, Option.some.injEq]
      exact ⟨fun h => eq_of_toLower (a := '[') (by decide) (by rw [h]; decide), fun h => by rw [h]; decide⟩
  simp only [hopen, ← List.map_tail, ← apply_ite (List.map (Option.map Char.toLower))]
  generalize (if r.head? = some (some '[') then r.tail else r) = rest
  have hword : ∀ more : List (Option Char), (more.map (Option.map Char.toLower)).head?.any (fun o => o.any (isWord U)) =
      more.head?.any fun o => o.any (isWord U) := by
    intro more
    have hany := any_lower fun _ => isWord_toLower U
    rw [List.head?_map, Option.any_map]
    exact congrArg (fun p => more.head?.any p) hany
  rcases rest with _ | ⟨_ | x, _ | ⟨_ | s, _ | ⟨_ | a, more⟩⟩⟩ <;> try rfl
  simp only [List.map_cons, Option.map_some, Option.map_none, hself, hword]

/-- The kind of whitespace and the case of the letters before a name make no difference. -/
theorem inNameAfterAs_lower (heqv : ∀ a c : Char, c.toNat < 128 → eqv a c.toLower = eqv a c) (k : List (Option Char))
    {c d : Char} (h : c.toLower = d.toLower) :
    inNameAfterAs U eqv (k.map (Option.map Char.toLower)) c = inNameAfterAs U eqv k d := by
  have hchar : identChar c = identChar d := of_toLower_eq (fun _ => identChar_toLower) h
  have hstart : ∀ {c d : Char}, c.toLower = d.toLower → identStart c = identStart d :=
    of_toLower_eq fun _ => identStart_toLower
  unfold inNameAfterAs
  rw [afterAs_lower heqv, hchar, List.takeWhile_map, any_lower fun _ => identChar_toLower, List.getLast?_map]
  congr 2
  apply hstart
  generalize (k.takeWhile fun o => o.any identChar).getLast? = last
  rcases last with _ | _ | e
  · exact h
  · exact h
  · exact Char.toLower_toLower_eq_toLower e

/-- So does whitespace that begins the text. -/
theorem inNameAfterAs_lead (k : List (Option Char)) (c : Char) :
    inNameAfterAs U eqv (k ++ [none]) c = inNameAfterAs U eqv k c := by
  have htake : (k ++ [none]).takeWhile (fun o => o.any identChar) = k.takeWhile fun o => o.any identChar := by
    rw [List.takeWhile_append]
    split
    · rename_i hlen
      rw [List.takeWhile_cons_of_neg (by simp), List.append_nil, (List.takeWhile_prefix _).eq_of_length hlen]
    · rfl
  have hdrop : (k ++ [none]).dropWhile (fun o => o.any identChar) =
      k.dropWhile (fun o => o.any identChar) ++ [none] := by
    rw [List.dropWhile_append]
    split
    · rename_i hnil
      rw [List.isEmpty_iff.mp hnil]
      rfl
    · rfl
  unfold inNameAfterAs afterAs
  rw [htake, hdrop]
  generalize k.dropWhile (fun o => o.any identChar) = r
  dsimp only
  have hopen : (if (r ++ [none]).head? = some (some '[') then (r ++ [none]).tail else r ++ [none]) =
      (if r.head? = some (some '[') then r.tail else r) ++ [none] := by
    rcases r with _ | ⟨o, r⟩
    · rfl
    · by_cases ho : o = some '['
      · rw [ho]
        rfl
      · rw [if_neg (by simpa using ho), if_neg (by simpa using ho)]
  rw [hopen]
  generalize (if r.head? = some (some '[') then r.tail else r) = rest
  congr 1
  rcases rest with _ | ⟨_ | x, _ | ⟨_ | s, _ | ⟨_ | a, _ | ⟨y, more⟩⟩⟩⟩ <;> rfl

/-! ### The characters that count -/

variable (U) in
/-- A collapsed text with the letters in lower case, but for those of names after `AS`. -/
def keyed : List (Option Char) → List (Option Char) → List (Option Char)
  | _, [] => []
  | before, none :: rest => none :: keyed (none :: before) rest
  | before, some c :: rest =>
    some (if inNameAfterAs U eqvIgnoreCase before c then c else c.toLower) :: keyed (some c.toLower :: before) rest

theorem keyed_append (before x y : List (Option Char)) : keyed U before (x ++ y) =
    keyed U before x ++ keyed U ((x.map (Option.map Char.toLower)).reverse ++ before) y := by
  induction x generalizing before with
  | nil => rfl
  | cons o x ih =>
    cases o with
    | none => simp [keyed, ih]
    | some c => simp [keyed, ih]

theorem keyed_lower (before x : List (Option Char)) :
    (keyed U before x).map (Option.map Char.toLower) = x.map (Option.map Char.toLower) := by
  induction x generalizing before with
  | nil => rfl
  | cons o x ih =>
    cases o with
    | none => simp [keyed, ih]
    | some c =>
      rw [keyed, List.map_cons, List.map_cons, ih]
      split <;> simp

theorem length_keyed (before x : List (Option Char)) : (keyed U before x).length = x.length := by
  have h := congrArg List.length (keyed_lower (U := U) before x)
  simpa using h

theorem collapse_map (κ : Char → Char) (t : Text) : collapse κ t = (collapse id t).map (Option.map κ) := by
  induction t with
  | nil => rfl
  | cons c t ih =>
    rw [collapse, collapse, ih]
    split
    · split <;> rfl
    · rfl

variable (U) in
/-- Two texts with the same characters that count. -/
def Relaid (x y : Text) : Prop := keyed U [] (collapse id x) = keyed U [] (collapse id y)

theorem Relaid.same {x y : Text} (h : Relaid U x y) : SameText x y := by
  have hmap := congrArg (List.map (Option.map Char.toLower)) h
  rw [keyed_lower, keyed_lower, ← collapse_map, ← collapse_map] at hmap
  exact hmap

/-! ### Edits -/

section
variable (U) (eqv : Char → Char → Bool)

/-- A change of layout or of letter case, outside of the names that follow `AS` as `eqv` reads it. Only ASCII letters
have a lower case here. -/
inductive Edit : Text → Text → Prop
  | gap {w v : Text} (a b : Text) (hw : Run w) (hv : Run v) : Edit (a ++ (w ++ b)) (a ++ (v ++ b))
  | lead {w : Text} (t : Text) (hw : ∀ c ∈ w, isSpace c = true) : Edit t (w ++ t)
  | trail {w : Text} (t : Text) (hw : ∀ c ∈ w, isSpace c = true) : Edit t (t ++ w)
  | letter {c d : Char} (a b : Text) (h : c.toLower = d.toLower)
      (hname : inNameAfterAs U eqv (collapse id a.reverse) c = false) : Edit (a ++ c :: b) (a ++ d :: b)

end

/-- The whitespace that begins a text does not belong to what is before a name. -/
theorem inNameAfterAs_dropWhile (a : Text) (c : Char) :
    inNameAfterAs U eqv (collapse id (a.dropWhile isSpace).reverse) c =
      inNameAfterAs U eqv (collapse id a.reverse) c := by
  have hsplit : a.reverse = (a.dropWhile isSpace).reverse ++ (a.takeWhile isSpace).reverse := by
    rw [← List.reverse_append, List.takeWhile_append_dropWhile]
  have hedge : ¬ ((a.dropWhile isSpace).reverse.getLast?.any isSpace = true ∧
      (a.takeWhile isSpace).reverse.head?.any isSpace = true) := by
    rw [List.getLast?_reverse, head_dropWhile]
    simp
  rw [hsplit, collapse_append hedge]
  by_cases hnil : a.takeWhile isSpace = []
  · rw [hnil, List.reverse_nil, collapse, List.append_nil]
  · have hrun : Run (a.takeWhile isSpace) := ⟨hnil, fun d hd => List.mem_takeWhile_imp hd⟩
    have hone := collapse_run (κ := id) hrun.reverse (y := []) rfl
    rw [List.append_nil] at hone
    rw [hone, collapse, inNameAfterAs_lead]

/-- **An edit leaves the characters that count.** -/
theorem Edit.relaid {x y : Text} (h : Edit U eqvIgnoreCase x y) : Relaid U (strip x) (strip y) := by
  cases h with
  | gap a b hw hv => rw [Relaid, collapse_strip, collapse_strip, collapse_gap hw hv]
  | lead t hw => rw [strip_append_left hw]; rfl
  | trail t hw => rw [strip_append_right hw]; rfl
  | @letter c d a b h hname =>
    by_cases hc : isSpace c = true
    · -- whitespace has no case
      have halpha : c.isAlpha = false := by
        have hstart := solid_identStart.not hc
        rw [identStart, Bool.or_eq_false_iff, Bool.or_eq_false_iff] at hstart
        exact hstart.1.1
      rw [eq_of_toLower halpha h.symm]
      rfl
    · have hc : isSpace c = false := by simpa using hc
      have hd : isSpace d = false := by rw [← isSpace_toLower, ← h, isSpace_toLower, hc]
      have hpart : ∀ {c : Char}, isSpace c = false → collapse id (strip (a ++ c :: b)) =
          collapse id (a.dropWhile isSpace) ++ some c :: collapse id (b.rdropWhile isSpace) := by
        intro c hc
        rw [strip_around hc, collapse_append (by simp [hc]), collapse_solid hc]
        rfl
      have hbefore : ((collapse id (a.dropWhile isSpace)).map (Option.map Char.toLower)).reverse ++ [] =
          (collapse id (a.dropWhile isSpace).reverse).map (Option.map Char.toLower) := by
        rw [List.append_nil, collapse_reverse, List.map_reverse]
      have hkey : ∀ {e : Char}, c.toLower = e.toLower → inNameAfterAs U eqvIgnoreCase
          ((collapse id (a.dropWhile isSpace).reverse).map (Option.map Char.toLower)) e = false := by
        intro e he
        rw [inNameAfterAs_lower (fun a c => eqv_toLower a) _ he.symm, inNameAfterAs_dropWhile, hname]
      rw [Relaid, hpart hc, hpart hd, keyed_append, keyed_append, hbefore, keyed, keyed, hkey rfl, hkey h, h]
      rfl

theorem relaid_of_edits {x y : Text} (h : Relation.EqvGen (Edit U eqvIgnoreCase) x y) :
    Relaid U (strip x) (strip y) := by
  induction h with
  | rel x y h => exact h.relaid
  | refl x => rfl
  | symm x y _ ih => exact ih.symm
  | trans x y z _ _ ih ih' => exact ih.trans ih'

/-! ### The names that the patterns read -/

theorem mem_run_opt_chr {a : Char} {b t : Text} {u : Cursor} {g : Groups}
    (h : (u, g) ∈ run (isWord U) (opt (chr a)) ⟨b, t⟩) : ∃ o t', (o = [] ∨ o = [a]) ∧ t = o ++ t' ∧
      u = ⟨o.reverse ++ b, t'⟩ := by
  rcases List.mem_append.mp h with h | h
  · obtain ⟨c, t', rfl, hc, rfl, -⟩ := mem_run_char.mp h
    obtain rfl : c = a := beq_iff_eq.mp hc
    exact ⟨[c], t', Or.inr rfl, rfl, rfl⟩
  · obtain ⟨rfl, -⟩ := Prod.mk.inj (List.mem_singleton.mp h)
    exact ⟨[], t, Or.inl rfl, rfl, rfl⟩

/-- A name as `ident` reads it, with what there is of its brackets. -/
structure ReadName (n : Text) where
  opening : Text
  first : Char
  rest : Text
  closing : Text
  text : n = opening ++ first :: rest ++ closing
  opens : opening = [] ∨ opening = ['[']
  starts : identStart first = true
  chars : ∀ c ∈ rest, identChar c = true
  closes : closing = [] ∨ closing = [']']

theorem ReadName.solid {n : Text} (h : ReadName n) : ∀ c ∈ n, isSpace c = false := by
  obtain ⟨o, f, w, p, rfl, ho, hf, hw, hp⟩ := h
  have hmark : ∀ {a c : Char} {o : Text}, isSpace a = false → o = [] ∨ o = [a] → c ∈ o → isSpace c = false := by
    rintro a c o ha (rfl | rfl) hc
    · exact absurd hc List.not_mem_nil
    · rwa [List.mem_singleton.mp hc]
  intro c hc
  rw [List.mem_append, List.mem_append, List.mem_cons] at hc
  rcases hc with (hc | rfl | hc) | hc
  · exact hmark (by decide) ho hc
  · exact solid_identStart c hf
  · exact solid_identChar c (hw c hc)
  · exact hmark (by decide) hp hc

theorem mem_run_ident {b t : Text} {u : Cursor} {g : Groups} (h : (u, g) ∈ run (isWord U) ident ⟨b, t⟩) :
    ∃ n t', Nonempty (ReadName n) ∧ t = n ++ t' ∧ u = ⟨n.reverse ++ b, t'⟩ := by
  obtain ⟨v1, g1, k1, h1, hr1, -⟩ := mem_run_seq.mp h
  obtain ⟨o, t1, ho, rfl, rfl⟩ := mem_run_opt_chr h1
  obtain ⟨v2, g2, k2, h2, hr2, -⟩ := mem_run_seq.mp hr1
  obtain ⟨c, t2, rfl, hc, rfl, rfl⟩ := mem_run_char.mp h2
  obtain ⟨v3, g3, k3, h3, hr3, -⟩ := mem_run_seq.mp hr2
  obtain ⟨w, t3, rfl, hw, rfl, rfl⟩ := mem_run_many.mp h3
  obtain ⟨v4, g4, k4, h4, hr4, -⟩ := mem_run_seq.mp hr3
  obtain ⟨p, t4, hp, rfl, rfl⟩ := mem_run_opt_chr h4
  obtain ⟨rfl, rfl⟩ := mem_run_empty.mp hr4
  exact ⟨o ++ c :: w ++ p, t4, ⟨⟨o, c, w, p, rfl, ho, hc, hw, hp⟩⟩, by simp, by simp⟩

variable (U) in
/-- A gap and the word `AS` as the patterns read it. -/
def AsBefore (k : List (Option Char)) : Prop := ∃ s a more, k = none :: some s :: some a :: more ∧
  eqvIgnoreCase 'S' s = true ∧ eqvIgnoreCase 'A' a = true ∧ more.head?.any (fun o => o.any (isWord U)) = false

/-- What a match of the pattern has read, and what stood before it. -/
theorem as_reads {s : Cursor} {m : Match} (hm : matchAt (isWord U) asPattern s = some m) : ∃ n k, m.group 1 = some n ∧
    m.stop.before = n.reverse ++ k ∧ Nonempty (ReadName n) ∧ AsBefore U (collapse Char.toLower k) := by
  have hkw : kw "AS" = seq (char (eqvIgnoreCase 'A')) (seq (char (eqvIgnoreCase 'S')) empty) := rfl
  have hkeyword : Keyword (isWord U) "AS" := keyword U (by simp [patternKeywords])
  obtain ⟨b, t⟩ := s
  obtain ⟨v1, g1, k1, h1, hr1, hg1⟩ := mem_run_seq.mp (mem_run_of_matchAt hm)
  rw [run] at h1
  split at h1
  · rename_i hboundary
    obtain ⟨rfl, rfl⟩ := Prod.mk.inj (List.mem_singleton.mp h1)
    obtain ⟨v2, g2, k2, h2, hr2, hg2⟩ := mem_run_seq.mp hr1
    rw [hkw] at h2
    obtain ⟨v3, g3, k3, h3, hr3, hg3⟩ := mem_run_seq.mp h2
    obtain ⟨a, t1, rfl, ha, rfl, rfl⟩ := mem_run_char.mp h3
    obtain ⟨v4, g4, k4, h4, hr4, hg4⟩ := mem_run_seq.mp hr3
    obtain ⟨e, t2, rfl, he, rfl, rfl⟩ := mem_run_char.mp h4
    obtain ⟨rfl, rfl⟩ := mem_run_empty.mp hr4
    obtain ⟨v5, g5, k5, h5, hr5, hg5⟩ := mem_run_seq.mp hr2
    obtain ⟨v6, g6, k6, h6, hr6, hg6⟩ := mem_run_seq.mp h5
    obtain ⟨d, t3, rfl, hd, rfl, rfl⟩ := mem_run_char.mp h6
    obtain ⟨w, t4, rfl, hw, rfl, rfl⟩ := mem_run_many.mp hr6
    obtain ⟨v7, g7, k7, h7, hr7, hg7⟩ := mem_run_seq.mp hr5
    obtain ⟨g8, h8, rfl⟩ := mem_run_group.mp h7
    obtain ⟨n, t5, hn, rfl, rfl⟩ := mem_run_ident h8
    obtain ⟨hstop, rfl⟩ := mem_run_empty.mp hr7
    have haw : isWord U a = true := hkeyword.word 'A' (by simp) a ha
    have hew : isWord U e = true := hkeyword.word 'S' (by simp) e he
    have hb : b.head?.any (isWord U) = false := by simpa [atBoundary, haw] using hboundary
    have hrun : Run (w.reverse ++ [d]) :=
      ⟨by simp, by simpa [or_imp, forall_and, hd] using fun c hc => hw c hc⟩
    refine ⟨n, w.reverse ++ [d] ++ e :: a :: b, ?_, ?_, hn, e.toLower, a.toLower, collapse Char.toLower b,
      ?_, ?_, ?_, ?_⟩
    · rw [Match.group, hg1, hg2, hg5, hg7, consumed_append]
      rfl
    · rw [hstop]
      simp
    · rw [collapse_run hrun (by simpa using not_isSpace_of_isWord U hew), collapse_solid (not_isSpace_of_isWord U hew),
        collapse_solid (not_isSpace_of_isWord U haw)]
    · rw [← he]
      exact of_toLower_eq (fun c => eqv_toLower 'S') (Char.toLower_toLower_eq_toLower e)
    · rw [← ha]
      exact of_toLower_eq (fun c => eqv_toLower 'A') (Char.toLower_toLower_eq_toLower a)
    · rw [head_collapse]
      cases b with
      | nil => rfl
      | cons c b =>
        have hc : isWord U c.toLower = false := by
          rw [of_toLower_eq (fun c hc => isWord_toLower U hc) (Char.toLower_toLower_eq_toLower c)]
          simpa using hb
        simp only [List.head?_cons, Option.map_some, Option.any_some]
        split
        · rfl
        · exact hc
  · exact absurd h1 List.not_mem_nil

theorem identChar_of_identStart {c : Char} (h : identStart c = true) : identChar c = true := by
  rw [identStart, Bool.or_eq_true, Bool.or_eq_true] at h
  rw [identChar, Char.isAlphanum]
  rcases h with (h | h) | h <;> simp only [h, Bool.true_or, Bool.or_true]

section
variable {q o k : List (Option Char)} (hk : AsBefore U k) (ho : o = [] ∨ o = [some '['])
include hk ho

theorem head_read : (o ++ k).head?.any (fun x => x.any identChar) = false := by
  obtain ⟨s, a, more, rfl, -⟩ := hk
  rcases ho with rfl | rfl <;> rfl

theorem afterAs_read (hq : ∀ x ∈ q, x.any identChar = true) : afterAs U eqvIgnoreCase (q ++ (o ++ k)) = true := by
  have hdrop : (o ++ k).dropWhile (fun x => x.any identChar) = o ++ k := by
    have hhead := head_read hk ho
    cases hok : o ++ k with
    | nil => rfl
    | cons x l =>
      rw [hok] at hhead
      rw [List.dropWhile_cons_of_neg (by simpa using hhead)]
  unfold afterAs
  rw [List.dropWhile_append_of_pos hq, hdrop]
  obtain ⟨s, a, more, rfl, hs, ha, hmore⟩ := hk
  rcases ho with rfl | rfl <;> simp [hs, ha, hmore]

/-- The first character of a name. -/
theorem inNameAfterAs_first {c : Char} (hc : identStart c = true) :
    inNameAfterAs U eqvIgnoreCase (o ++ k) c = true := by
  have htake : (o ++ k).takeWhile (fun x => x.any identChar) = [] := by
    have hhead := head_read hk ho
    cases hok : o ++ k with
    | nil => rfl
    | cons x l =>
      rw [hok] at hhead
      rw [List.takeWhile_cons_of_neg (by simpa using hhead)]
  have hafter := afterAs_read (q := []) hk ho (by simp)
  rw [List.nil_append] at hafter
  rw [inNameAfterAs, htake, hafter, identChar_of_identStart hc]
  simpa using hc

/-- The others. -/
theorem inNameAfterAs_rest {f c : Char} (hq : ∀ x ∈ q, x.any identChar = true) (hf : identStart f = true)
    (hc : identChar c = true) : inNameAfterAs U eqvIgnoreCase (q ++ some f :: (o ++ k)) c = true := by
  have hread : ∀ x ∈ q ++ [some f], x.any identChar = true := by
    intro x hx
    rcases List.mem_append.mp hx with hx | hx
    · exact hq x hx
    · rw [List.mem_singleton.mp hx]
      exact identChar_of_identStart hf
  have htake : ((q ++ [some f]) ++ (o ++ k)).takeWhile (fun x => x.any identChar) = q ++ [some f] := by
    rw [List.takeWhile_append_of_pos hread]
    have hhead := head_read hk ho
    cases hok : o ++ k with
    | nil => simp
    | cons x l =>
      rw [hok] at hhead
      rw [List.takeWhile_cons_of_neg (by simpa using hhead), List.append_nil]
  have hsplit : q ++ some f :: (o ++ k) = (q ++ [some f]) ++ (o ++ k) := by simp
  rw [hsplit, inNameAfterAs, htake, afterAs_read hk ho hread, hc]
  simpa using hf

theorem keyed_rest {f : Char} (hf : identStart f = true) {w : Text} (hw : ∀ c ∈ w, identChar c = true)
    (hq : ∀ x ∈ q, x.any identChar = true) : keyed U (q ++ some f :: (o ++ k)) (w.map some) = w.map some := by
  induction w generalizing q with
  | nil => rfl
  | cons c w ih =>
    rw [List.forall_mem_cons] at hw
    have hgrow : ∀ x ∈ some c.toLower :: q, x.any identChar = true := by
      rw [List.forall_mem_cons]
      refine ⟨?_, hq⟩
      rw [Option.any_some, of_toLower_eq (fun _ => identChar_toLower) (Char.toLower_toLower_eq_toLower c), hw.1]
    rw [List.map_cons, keyed, inNameAfterAs_rest hk ho hq hf hw.1, if_pos rfl, ← List.cons_append, ih hw.2 hgrow]

end

/-- **All characters of a name after `AS` count.** -/
theorem keyed_name {k : List (Option Char)} (hk : AsBefore U k) {n : Text} (hn : ReadName n) :
    keyed U k (n.map some) = n.map some := by
  obtain ⟨o, f, w, p, rfl, ho, hf, hw, hp⟩ := hn
  have hopen : keyed U k (o.map some) = o.map some := by
    rcases ho with rfl | rfl
    · rfl
    · show [some (if inNameAfterAs U eqvIgnoreCase k '[' then '[' else '['.toLower)] = [some '[']
      split <;> rfl
  have ho' : ((o.map some).map (Option.map Char.toLower)).reverse = [] ∨
      ((o.map some).map (Option.map Char.toLower)).reverse = [some '['] := by
    rcases ho with rfl | rfl
    · exact Or.inl rfl
    · exact Or.inr rfl
  have hlower : identStart f.toLower = true := by
    rw [of_toLower_eq (fun _ => identStart_toLower) (Char.toLower_toLower_eq_toLower f), hf]
  have hclose : ∀ k, keyed U k (p.map some) = p.map some := by
    intro k
    rcases hp with rfl | rfl
    · rfl
    · show [some (if inNameAfterAs U eqvIgnoreCase k ']' then ']' else ']'.toLower)] = [some ']']
      split <;> rfl
  rw [List.map_append, keyed_append, hclose, List.map_append, keyed_append, hopen, List.map_cons, keyed,
    inNameAfterAs_first hk ho' hf, if_pos rfl]
  have hrest := keyed_rest (q := []) hk ho' hlower hw (by simp)
  rw [List.nil_append] at hrest
  rw [hrest]

/-- The text before a place counts as far as the whole text does. -/
theorem Relaid.before {x y : Text} (h : Relaid U x y) {u v : Cursor} (hu : u.On x) (hv : v.On y)
    (huv : Aligned Char.toLower u v) :
    keyed U [] (collapse id u.before.reverse) = keyed U [] (collapse id v.before.reverse) := by
  have hcut : ∀ {x : Text} {u : Cursor}, u.On x →
      ¬ (u.before.head?.any isSpace = true ∧ u.after.head?.any isSpace = true) →
      collapse id x = collapse id u.before.reverse ++ collapse id u.after := by
    intro x u hu hedge
    rw [← show u.before.reverse ++ u.after = x from hu, collapse_append]
    rwa [List.getLast?_reverse]
  have hlen : (collapse id u.before.reverse).length = (collapse id v.before.reverse).length := by
    have hmap := congrArg List.length huv.before
    rw [collapse_map, collapse_map Char.toLower v.before, List.length_map, List.length_map] at hmap
    rw [collapse_reverse, collapse_reverse, List.length_reverse, List.length_reverse, hmap]
  rw [Relaid, hcut hu huv.edge, hcut hv huv.symm.edge, keyed_append, keyed_append] at h
  exact (List.append_inj h (by rw [length_keyed, length_keyed, hlen])).1

/-- **The names after `AS` are the same.** -/
theorem asName_eq {x y : Text} (h : Relaid U x y) {m m' : Match} (hm : m ∈ findIter (isWord U) asPattern x)
    (hm' : m' ∈ findIter (isWord U) asPattern y) (hsame : SameMatch Char.toLower m m') : m.group 1 = m'.group 1 := by
  have hread : ∀ {x : Text} {m : Match}, m ∈ findIter (isWord U) asPattern x → ∃ n k, m.group 1 = some n ∧
      keyed U [] (collapse id m.stop.before.reverse) = keyed U [] (collapse id k) ++ n.map some := by
    intro x m hm
    obtain ⟨u, v, -, -, hmatch⟩ := findIter_sound hm
    obtain ⟨n, k, hgroup, hstop, ⟨hn⟩, hk⟩ := as_reads hmatch
    refine ⟨n, k.reverse, hgroup, ?_⟩
    have hhead : n.head?.any isSpace = false := by
      cases n with
      | nil => rfl
      | cons c n => simpa using hn.solid c (by simp)
    rw [hstop, List.reverse_append, List.reverse_reverse, collapse_append (by simp [hhead]), collapse_of_solid hn.solid,
      List.map_id, keyed_append, List.append_nil, ← List.map_reverse, ← collapse_reverse, List.reverse_reverse,
      ← collapse_map, keyed_name hk hn]
  obtain ⟨n, k, hn, hkey⟩ := hread hm
  obtain ⟨n', k', hn', hkey'⟩ := hread hm'
  have hlower : n.map Char.toLower = n'.map Char.toLower := by
    have hgroup := hsame.group 1
    rw [hn, hn'] at hgroup
    cases hgroup with
    | some hmap => exact hmap
  have hwhole := h.before (findIter_on hm).2 (findIter_on hm').2 hsame.stop
  rw [hkey, hkey'] at hwhole
  have hlen := congrArg List.length hlower
  rw [List.length_map, List.length_map] at hlen
  have hname := (List.append_inj' hwhole (by simpa using hlen)).2
  rw [hn, hn', List.map_injective_iff.mpr (Option.some_injective _) hname]

end DataAgent.Guardrail
