import DataAgent.Guardrail.Clauses
import DataAgent.Guardrail.References

/-!
# The scan of a FROM clause

What the pattern for table references makes of the tokens of a FROM clause.

* `quiet` : a name follows no `FROM` and no `JOIN` of a text, so that the scan finds nothing (`scanRefs_quiet`);
* `FromTokens` : a text cut at its FROM clause, and quiet outside of it;
* `scan_ref` : one step of the scan, at a `FROM` or `JOIN` that whitespace follows;
* **`references_of_scan`** : a clause with two matches and whitespace after each keyword has two references;
* **`spaced_of_pair`** : two matches at two keywords need the whitespace.
-/

namespace DataAgent.Guardrail
open Python Regex Pattern
open TSql (Alphabet Token Lexeme Name Plain lex textOf reading plainStart plainPart fold isReserved kwLexeme)

variable {U : Unicode} {A : Alphabet}

/-! ## `FROM` and `JOIN` -/

def refWords : List String := ["FROM", "JOIN"]

/-- There is no `FROM` and no `JOIN`. -/
def NoRef (l : List Lexeme) : Prop := ∀ s ∈ refWords, kwLexeme s ∉ l

theorem NoRef.append {l l' : List Lexeme} : NoRef (l ++ l') ↔ NoRef l ∧ NoRef l' := by
  simp only [NoRef, List.mem_append, not_or]
  exact ⟨fun h => ⟨fun s hs => (h s hs).1, fun s hs => (h s hs).2⟩, fun h s hs => ⟨h.1 s hs, h.2 s hs⟩⟩

theorem Reference.noRef (r : Reference) : NoRef r.lexemes := by
  intro s hs
  refine r.keyword_notMem ?_
  rintro rfl
  simp [refWords] at hs

def reads (s : String) (k : Token) : Bool := k.lexeme == some (kwLexeme s)

def isRef (k : Token) : Bool := refWords.any fun s => reads s k

/-- Whitespace follows `FROM` and `JOIN`. -/
def Spaced (k j : Token) : Prop := isRef k = true → j.isBlank = true

instance : DecidableRel Spaced := fun k j => inferInstanceAs (Decidable (isRef k = true → j.isBlank = true))

theorem word_of_isRef {k : Token} (h : isRef k = true) : ∃ w, k = .word w ∧ IsRef w := by
  obtain ⟨s, hs, hk⟩ := List.any_eq_true.mp h
  have hk : k.lexeme = some (.keyword s.toList) := by simpa [reads, kwLexeme] using hk
  obtain ⟨w, rfl, hres, hw⟩ := plain_keyword (plain_of_keyword hk) hk
  refine ⟨w, rfl, hres, ?_⟩
  simp only [refWords, List.mem_cons, List.not_mem_nil, or_false] at hs
  rcases hs with rfl | rfl
  · exact Or.inl hw
  · exact Or.inr hw

theorem IsRef.lexeme {w : Text} (h : IsRef w) : ∃ s ∈ refWords, (Token.word w).lexeme = some (kwLexeme s) := by
  rcases h.fold with hw | hw
  · exact ⟨"FROM", by simp [refWords], by simp [Token.lexeme, h.reserved, hw, kwLexeme]⟩
  · exact ⟨"JOIN", by simp [refWords], by simp [Token.lexeme, h.reserved, hw, kwLexeme]⟩

theorem IsRef.isRef {w : Text} (h : IsRef w) : isRef (.word w) = true := by
  obtain ⟨s, hs, hw⟩ := h.lexeme
  exact List.any_eq_true.mpr ⟨s, hs, by simp [reads, hw]⟩

theorem IsRef.not_noRef {w : Text} (h : IsRef w) {ts : List Token} (hw : .word w ∈ ts) : ¬ NoRef (reading ts) := by
  obtain ⟨s, hs, hlex⟩ := h.lexeme
  exact fun hno => hno s hs (List.mem_filterMap.mpr ⟨_, hw, hlex⟩)

theorem noRef_iff {ts : List Token} : NoRef (reading ts) ↔ ∀ k ∈ ts, isRef k = false := by
  constructor
  · intro h k hk
    by_contra hr
    obtain ⟨w, rfl, hw⟩ := word_of_isRef (by simpa using hr)
    exact hw.not_noRef hk h
  · intro h s hs hmem
    obtain ⟨k, hk, hlex⟩ := List.mem_filterMap.mp hmem
    have hr : isRef k = true := List.any_eq_true.mpr ⟨s, hs, by simp [reads, hlex]⟩
    rw [h k hk] at hr
    exact absurd hr (by decide)

/-- The first `FROM` or `JOIN`. -/
theorem exists_first_ref {ts : List Token} (h : ¬ NoRef (reading ts)) :
    ∃ x w y, ts = x ++ .word w :: y ∧ IsRef w ∧ NoRef (reading x) := by
  have hsome : (ts.find? isRef).isSome = true := by
    rw [List.find?_isSome]
    by_contra hno
    refine h (noRef_iff.mpr fun k hk => ?_)
    by_contra hr
    exact hno ⟨k, hk, by simpa using hr⟩
  obtain ⟨k, hk⟩ := Option.isSome_iff_exists.mp hsome
  obtain ⟨hr, x, y, rfl, hx⟩ := List.find?_eq_some_iff_append.mp hk
  obtain ⟨w, rfl, hw⟩ := word_of_isRef hr
  exact ⟨x, w, y, rfl, hw, noRef_iff.mpr fun j hj => by simpa using hx j hj⟩

/-- What has been read without a `FROM` or `JOIN` comes before the next one. -/
theorem append_of_noRef {as zs x y : List Token} {w : Text} (h : as ++ zs = x ++ .word w :: y) (hw : IsRef w)
    (has : NoRef (reading as)) : ∃ d, x = as ++ d := by
  rcases List.append_eq_append_iff.mp h with ⟨d, rfl, -⟩ | ⟨d, rfl, hd⟩
  · exact ⟨d, rfl⟩
  · cases d with
    | nil => exact ⟨[], by simp⟩
    | cons k d =>
      obtain ⟨rfl, -⟩ := List.cons.inj hd
      exact absurd has (hw.not_noRef (by simp))

/-! ## Where whitespace follows them -/

theorem spaced_of_noRef {ts : List Token} (h : NoRef (reading ts)) : ts.IsChain Spaced := by
  rw [noRef_iff] at h
  induction ts with
  | nil => exact .nil
  | cons k ts ih =>
    refine List.isChain_cons.mpr ⟨fun j _ hr => ?_, ih fun j hj => h j (List.mem_cons_of_mem _ hj)⟩
    rw [h k (by simp)] at hr
    exact absurd hr (by decide)

theorem spaced_append {x ts : List Token} (hx : NoRef (reading x)) (h : ts.IsChain Spaced) :
    (x ++ ts).IsChain Spaced := by
  rw [noRef_iff] at hx
  refine (spaced_of_noRef (noRef_iff.mpr hx)).append h fun k hk j _ hr => ?_
  rw [hx k (List.mem_of_getLast? hk)] at hr
  exact absurd hr (by decide)

theorem blank_of_spaced {y x ts us : List Token} {w : Text}
    (h : (y ++ (x ++ .word w :: (ts ++ us))).IsChain Spaced) (hw : IsRef w) (hne : ts ≠ []) :
    ∃ g ts', ts = .blank g :: ts' := by
  obtain ⟨j, ts, rfl⟩ := List.exists_cons_of_ne_nil hne
  have hj : j.isBlank = true := h.right_of_append.right_of_append.rel hw.isRef
  cases j with
  | blank g => exact ⟨g, ts, rfl⟩
  | word w => simp [Token.isBlank] at hj
  | number w => simp [Token.isBlank] at hj
  | quoted q w => simp [Token.isBlank] at hj
  | symbol c => simp [Token.isBlank] at hj

/-! ## The pattern at one of them -/

/-- The pattern for table references without its boundary. -/
def refBody : Pattern :=
  seq (oneOf (["FROM", "JOIN"].map kw)) (seq (plus isSpace) (seq (opt schemaPart) namePart))

theorem tableRefPattern_body : tableRefPattern = seq wordBoundary refBody := rfl

theorem refBody_starts : StartsAtWord (isWord U) refBody := startsAtWord_kws refKeywords _

theorem refBody_leads : Leads (isWord U) isSpace refWords refBody := leads_kws refKeywords (plus_isSpace_outside _)

/-- The scan over the words of a cut. -/
def scanRefs (U : Unicode) (k : Nat) (b : Text) (ps : List Piece) : List Match :=
  findWords (matchAt (isWord U) refBody) k b ps

/-- Whitespace and a name. -/
def refFollows (t : Text) : Bool := t.head?.any isSpace && startsName (t.dropWhile isSpace)

theorem run_ref_of_not {t : Text} (h : refFollows t = false) (b : Text) :
    run (isWord U) (seq (plus isSpace) refPart) ⟨b, t⟩ = [] := by
  by_cases hs : t.head?.any isSpace = true
  · rw [refFollows, hs, Bool.true_and] at h
    obtain ⟨c, s, rfl⟩ := List.exists_cons_of_ne_nil (show t ≠ [] by rintro rfl; simp at hs)
    have hc : isSpace c = true := by simpa using hs
    have hhead : ((c :: s).dropWhile isSpace).head?.any isSpace = false := by
      rw [← Bool.not_eq_true, Option.any_eq_true]
      rintro ⟨d, hd, hspace⟩
      rw [TSql.not_of_head_dropWhile hd] at hspace
      exact absurd hspace (by decide)
    rw [← List.takeWhile_append_dropWhile (p := isSpace) (l := c :: s), run_plus_seq refPart_refuses
      (by simp [hc]) (fun d hd => List.mem_takeWhile_imp hd) hhead, run_refPart_of_not h]
  · exact run_plus_seq_of_not _ (by simpa using hs)

/-- In the pieces of a text, with `t` after them, whitespace and a name follow no `FROM` and no `JOIN`. -/
def quiet : List Piece → Text → Bool
  | [], _ => true
  | .word w :: ps, t => !(refWords.any (isKw · w) && refFollows (join ps ++ t)) && quiet ps t
  | _ :: ps, t => quiet ps t

theorem quiet_append (x y : List Piece) (t : Text) : quiet (x ++ y) t = (quiet x (join y ++ t) && quiet y t) := by
  induction x with
  | nil => rfl
  | cons p x ih => cases p <;> simp [quiet, ih, join_append, Bool.and_assoc]

theorem quiet_of_free {ps : List Piece} (h : Free refWords ps) (t : Text) : quiet ps t = true := by
  induction ps with
  | nil => rfl
  | cons p ps ih =>
    have ih := ih fun w hw => h w (List.mem_cons_of_mem _ hw)
    cases p with
    | word w =>
      have hno : refWords.any (isKw · w) = false := List.any_eq_false.mpr fun s hs => by simp [h w (by simp) s hs]
      rw [quiet, hno, ih]
      rfl
    | space g => exact ih
    | sym c => exact ih

/-- The scan finds nothing in quiet pieces. -/
theorem scanRefs_quiet {x y : List Piece} (hs : Segmented (isWord U) isSpace (x ++ y)) (hq : quiet x (join y) = true)
    (k : Nat) (b : Text) :
    scanRefs U k b (x ++ y) = scanRefs U (k - (join x).length) ((join x).reverse ++ b) y := by
  refine findWords_pass (fun u w v hx b => ?_) k b
  subst hx
  rw [List.append_assoc, List.cons_append] at hs
  have hword := hs.right
  rw [quiet_append, Bool.and_eq_true, quiet, Bool.and_eq_true, Bool.not_eq_true', Bool.and_eq_false_iff] at hq
  refine matchAt_of_run_nil ?_
  rw [refBody, run_kws_seq_word refKeywords (plus_isSpace_outside _) hword.head.2 (head_after_word hword),
    List.flatMap_eq_nil_iff]
  intro s hmem
  split
  · rename_i hkw
    have hfollows := hq.2.1.resolve_left fun hno => List.any_eq_false.mp hno s hmem hkw
    rw [← refPart_eq, run_ref_of_not (by rwa [join_append])]
  · rfl

theorem free_of_noRef {ts : List Token} (hp : ∀ k ∈ ts, Plain k) (h : NoRef (reading ts)) :
    Free refWords (allPieces ts) := by
  refine free_of_reading hp ?_ h
  intro s hs
  simp only [refWords, List.mem_cons, List.not_mem_nil, or_false] at hs
  rcases hs with rfl | rfl <;> simp [patternKeywords, clauseBoundaryKeywords]

theorem allPieces_word (x z : List Token) (w : Text) (ps : List Piece) :
    allPieces (x ++ .word w :: z) ++ ps = allPieces x ++ .word w :: (allPieces z ++ ps) := by
  rw [allPieces_append, List.append_assoc]
  rfl

theorem join_pieces (U : Unicode) {z : List Token} (hz : ∀ k ∈ z, Plain k) (a b : List Token) :
    join (allPieces z ++ cut (isWord U) isSpace (textOf (a ++ b))) = textOf (z ++ a ++ b) := by
  rw [join_append, join_cut, join_allPieces hz, ← TSql.textOf_append, List.append_assoc]

/-- Before a word of a cut no word ends. -/
theorem head_of_leftOf {b w : Text} {ps : List Piece} (h : LeftOf (isWord U) b (.word w :: ps)) :
    b.head?.any (isWord U) = false :=
  h.resolve_right fun h => by simpa [Piece.isWord] using h _ rfl

theorem IsRef.matchAt {w b : Text} (hw : IsRef w) (hb : b.head?.any (isWord U) = false) (t : Text) :
    matchAt (isWord U) refBody ⟨b, w ++ t⟩ = matchAt (isWord U) tableRefPattern ⟨b, w ++ t⟩ := by
  obtain ⟨c, w', rfl⟩ := List.exists_cons_of_ne_nil (TSql.plainStart_of_isReserved hw.reserved).1
  rw [tableRefPattern_body, List.cons_append, matchAt_anchored_word hb _ (hw.word U c (by simp))]

/-- **A step of the scan**, at a `FROM` or `JOIN` that whitespace follows: there is a match, and if it has an alias it
covers the reference that the server reads. -/
theorem scan_ref {t : Text} {pre x z us : List Token} {w : Text} {ps : List Piece} {k : Nat} {b : Text}
    (hl : lex A t = pre ++ (x ++ .word w :: (z ++ us))) (hx : ∀ j ∈ x, Plain j) (hfree : NoRef (reading x))
    (hw : IsRef w) (hz : Ahead (.word w :: z)) (hblank : ∃ g z', z = .blank g :: z')
    (hs : Segmented (isWord U) isSpace (allPieces x ++ .word w :: ps)) (hps : join ps = textOf (z ++ us))
    (hb : LeftOf (isWord U) b (allPieces x ++ .word w :: ps)) (hk : k ≤ (textOf x).length) :
    ∃ m k' b', scanRefs U k b (allPieces x ++ .word w :: ps) = m :: scanRefs U k' b' ps ∧
      LeftOf (isWord U) b' ps ∧ ((m.group 2).isSome → ∃ (r : Reference) (as zs : List Token), z = as ++ zs ∧
        reading as = r.lexemes ∧ r.SchemaOk ∧ entry U m = (r.tableAlias, r.table) ∧ k' = (textOf as).length) := by
  have hleft := leftOf_append hs hb
  obtain ⟨g, z', hz'⟩ := hblank
  have hl' : lex A t = (pre ++ x) ++ .word w :: (z ++ us) := by rw [hl, List.append_assoc]
  obtain ⟨m, hm, hread⟩ := reference_of_blank hl' hw hz hz' (head_of_leftOf hleft)
  have hm' : matchAt (isWord U) refBody ⟨(join (allPieces x)).reverse ++ b, w ++ join ps⟩ = some m := by
    rw [hw.matchAt (head_of_leftOf hleft), hps]
    exact hm
  have hscan := findWords_skip refBody_leads hs (free_of_noRef hx hfree) k b
  rw [join_allPieces hx, Nat.sub_eq_zero_of_le hk, ← join_allPieces hx, findWords_word hm'] at hscan
  refine ⟨m, _, _, hscan, leftOf_next hs.right _, fun h2 => ?_⟩
  obtain ⟨r, as, zs, rfl, has, hok, he, hafter⟩ := hread h2
  refine ⟨r, as, zs, rfl, has, hok, he, ?_⟩
  -- the match covers the keyword and the tokens of the reference
  obtain ⟨v, hv, hbefore⟩ := run_reads (mem_run_of_matchAt hm)
  have hlen := congrArg List.length hv
  rw [matchAt_start hm, hbefore]
  simp only [hafter, TSql.textOf_cons, TSql.textOf_append, Token.text_word, List.length_append] at hlen ⊢
  simp only [List.length_reverse]
  omega

/-- What lies ahead after some of it. -/
theorem Ahead.right {x ts : List Token} (h : Ahead (x ++ ts)) (hx : kwLexeme "GROUP" ∉ reading x) : Ahead ts := by
  induction x with
  | nil => exact h
  | cons k x ih =>
    rw [TSql.reading_cons, List.mem_append, not_or] at hx
    refine ih (h.tail ?_) hx.2
    intro hk
    exact hx.1 (by simp [hk])

/-- The scan at the last word that is one of them. -/
theorem scan_last {x : List Token} {w : Text} {ps : List Piece}
    (hs : Segmented (isWord U) isSpace (allPieces x ++ .word w :: ps)) (hx : ∀ k ∈ x, Plain k)
    (hfree : NoRef (reading x)) (hps : quiet ps [] = true) (k : Nat) (b : Text) :
    scanRefs U k b (allPieces x ++ .word w :: ps) = [] ∨
      ∃ m, matchAt (isWord U) refBody ⟨(join (allPieces x)).reverse ++ b, w ++ join ps⟩ = some m ∧
        scanRefs U k b (allPieces x ++ .word w :: ps) = [m] := by
  have hrest : ∀ k b, scanRefs U k b ps = [] := by
    intro k b
    have hscan := scanRefs_quiet (y := []) (by simpa using hs.right.tail) hps k b
    rwa [List.append_nil] at hscan
  rw [scanRefs, findWords_skip refBody_leads hs (free_of_noRef hx hfree) k b]
  rcases findWords_word_cases (matchAt (isWord U) refBody) (k - (join (allPieces x)).length)
    ((join (allPieces x)).reverse ++ b) w ps with ⟨m, k', hm, heq⟩ | ⟨k', heq⟩
  · exact Or.inr ⟨m, hm, by rw [heq, ← scanRefs, hrest]⟩
  · exact Or.inl (by rw [heq, ← scanRefs, hrest])

/-! ## The clause -/

/-- The tokens of a text: `pre`, the FROM clause `w :: rest`, the `GROUP BY` in `a`, and `b`. The clause and the `GROUP
BY` are plain, the text outside the clause has no place where the pattern for table references can match, and the one
before it none for `ON`. -/
structure FromTokens (U : Unicode) (ts pre : List Token) (w : Text) (rest a b : List Token) : Prop where
  tokens : ts = pre ++ (.word w :: rest ++ (a ++ b))
  from_ : IsRef w
  group : reading a = [kwLexeme "GROUP", kwLexeme "BY"]
  plain : ∀ k ∈ .word w :: rest ++ a, Plain k
  ends : kwLexeme "GROUP" ∉ reading rest
  apart : (textOf pre).getLast?.any (isWord U) = false
  before : quiet (cut (isWord U) isSpace (textOf pre)) (textOf (.word w :: rest ++ (a ++ b))) = true
  beforeOn : Free ["ON"] (cut (isWord U) isSpace (textOf pre))
  after : quiet (cut (isWord U) isSpace (textOf (a ++ b))) [] = true

namespace FromTokens
variable {t : Text} {pre rest a b : List Token} {w : Text}

theorem plain_rest (h : FromTokens U (lex A t) pre w rest a b) : ∀ k ∈ rest, Plain k :=
  fun k hk => h.plain k (by simp [hk])

theorem plain_group (h : FromTokens U (lex A t) pre w rest a b) : ∀ k ∈ a, Plain k :=
  fun k hk => h.plain k (by simp [hk])

theorem group_ne_nil (h : FromTokens U (lex A t) pre w rest a b) : a ≠ [] := by
  rintro rfl
  exact absurd h.group (by simp)

/-- The clause is cut where its tokens are. -/
theorem segmented (h : FromTokens U (lex A t) pre w rest a b) : Segmented (isWord U) isSpace
    (cut (isWord U) isSpace (textOf pre) ++
      .word w :: (allPieces rest ++ cut (isWord U) isSpace (textOf (a ++ b)))) := by
  obtain ⟨k, a', ha⟩ := List.exists_cons_of_ne_nil h.group_ne_nil
  have hclause := segmented_of_lex (U := U) (x := pre) (y := .word w :: rest) (k := k) (z := a' ++ b)
    (by rw [h.tokens, ha]; rfl) (fun j hj => h.plain j (List.mem_append_left _ hj)) (h.plain_group k (by simp [ha]))
  rw [← List.cons_append, ← ha] at hclause
  refine (segmented_cut _).append hclause fun p hp q hq => ?_
  obtain rfl : Piece.word w = q := by simpa [allPieces, tokenPieces] using hq
  -- the last piece is no word
  have hcut : Segmented (isWord U) isSpace (cut (isWord U) isSpace (textOf pre)) := segmented_cut _
  have hok := hcut.ok p (List.mem_of_getLast? hp)
  obtain ⟨ps, hps⟩ := List.getLast?_eq_some_iff.mp hp
  have hjoin : join (cut (isWord U) isSpace (textOf pre)) = textOf pre := join_cut _
  rw [hps, join_append] at hjoin
  cases p with
  | space v => trivial
  | sym c => trivial
  | word v =>
    obtain ⟨v, c, rfl⟩ := (List.eq_nil_or_concat v).resolve_left hok.1
    have hapart := h.apart
    rw [← hjoin] at hapart
    simp [hok.2 c (by simp)] at hapart

theorem text_eq (h : FromTokens U (lex A t) pre w rest a b) : t =
    join (cut (isWord U) isSpace (textOf pre) ++
      .word w :: (allPieces rest ++ cut (isWord U) isSpace (textOf (a ++ b)))) := by
  have ht := congrArg textOf h.tokens
  rw [TSql.textOf_lex] at ht
  rw [ht, join_append, join_cons, join_append, join_cut, join_cut, join_allPieces h.plain_rest]
  simp

/-- The scan for table references begins at the clause. -/
theorem tableRefs_eq (h : FromTokens U (lex A t) pre w rest a b) : tableRefs U t =
    scanRefs U 0 (textOf pre).reverse (.word w :: (allPieces rest ++ cut (isWord U) isSpace (textOf (a ++ b)))) := by
  have hjoin : join (.word w :: (allPieces rest ++ cut (isWord U) isSpace (textOf (a ++ b)))) =
      textOf (.word w :: rest ++ (a ++ b)) := by
    rw [join_cons, join_append, join_cut, join_allPieces h.plain_rest]
    simp
  have hscan := scanRefs_quiet h.segmented (hjoin ▸ h.before) 0 []
  rw [join_cut, List.append_nil, Nat.zero_sub] at hscan
  conv_lhs => rw [h.text_eq, tableRefs, tableRefPattern_body, findIter_anchored refBody_starts h.segmented]
  exact hscan

theorem leftOf (h : FromTokens U (lex A t) pre w rest a b) : LeftOf (isWord U) (textOf pre).reverse
    (.word w :: (allPieces rest ++ cut (isWord U) isSpace (textOf (a ++ b)))) :=
  Or.inl (by rw [List.head?_reverse]; exact h.apart)

theorem ahead (h : FromTokens U (lex A t) pre w rest a b)
    (hnames : (reading (.word w :: rest) ++ [kwLexeme "GROUP"]).IsChain NameAfter) :
    Ahead (.word w :: (rest ++ a)) := by
  have hread : reading (.word w :: (rest ++ a)) =
      reading (.word w :: rest) ++ [kwLexeme "GROUP"] ++ [kwLexeme "BY"] := by
    rw [← List.cons_append, TSql.reading_append, h.group]
    simp
  refine ⟨h.plain, ?_, ?_⟩
  · rw [hread]
    refine hnames.append (.singleton _) fun x hx y _ hleads => ?_
    obtain rfl : kwLexeme "GROUP" = x := by simpa using hx
    exact absurd hleads (by decide)
  · rw [hread, List.append_assoc]
    exact List.suffix_append _ _

/-- What lies ahead in the middle of the clause. -/
theorem ahead_right {x z : List Token} (h : FromTokens U (lex A t) pre w (x ++ z) a b)
    (hnames : (reading (.word w :: (x ++ z)) ++ [kwLexeme "GROUP"]).IsChain NameAfter) : Ahead (z ++ a) := by
  have hahead := h.ahead hnames
  have hends := h.ends
  obtain ⟨s, hs, hw⟩ := h.from_.lexeme
  rw [TSql.reading_append, List.mem_append, not_or] at hends
  rw [List.append_assoc, ← List.cons_append] at hahead
  refine hahead.right ?_
  rw [TSql.reading_cons, hw, Option.toList_some, List.singleton_append, List.mem_cons, not_or]
  refine ⟨fun heq => ?_, hends.1⟩
  obtain rfl := kwLexeme_inj.mp heq
  simp [refWords] at hs

/-- **An accepted clause with whitespace after each `FROM` and `JOIN` has two of them**, each with a reference that the
pattern reads as the server does. -/
theorem references_of_scan (h : FromTokens U (lex A t) pre w rest a b)
    (hnames : (reading (.word w :: rest) ++ [kwLexeme "GROUP"]).IsChain NameAfter)
    (hspaced : (lex A t).IsChain Spaced) (hjoin : ¬ NoRef (reading rest)) {m₁ m₂ : Match}
    (hrefs : tableRefs U t = [m₁, m₂]) (h2 : ∀ m ∈ tableRefs U t, (m.group 2).isSome) :
    ∃ (r₁ r₂ : Reference) (s : String) (d₁ l d₂ : List Lexeme), s ∈ refWords ∧
      reading rest = r₁.lexemes ++ d₁ ++ kwLexeme s :: l ∧ NoRef (r₁.lexemes ++ d₁) ∧ NoRef l ∧
      l ++ [kwLexeme "GROUP", kwLexeme "BY"] = r₂.lexemes ++ d₂ ∧ (r₁.SchemaOk ∧ r₂.SchemaOk) ∧
      entry U m₁ = (r₁.tableAlias, r₁.table) ∧ entry U m₂ = (r₂.tableAlias, r₂.table) := by
  have hahead := h.ahead hnames
  have hne : ∀ z : List Token, z ++ a ≠ [] := fun z hnil => h.group_ne_nil (List.append_eq_nil_iff.mp hnil).2
  -- the `FROM`
  have hl₁ : lex A t = pre ++ ([] ++ .word w :: (rest ++ a ++ b)) := by rw [h.tokens]; simp
  obtain ⟨m, k₁, b₁, hscan₁, hb₁, hread₁⟩ := scan_ref (b := (textOf pre).reverse) (k := 0) hl₁ (by simp)
    (by simp [NoRef]) h.from_ hahead (blank_of_spaced (hl₁ ▸ hspaced) h.from_ (hne rest)) h.segmented.right
    (join_pieces U h.plain_rest a b) h.leftOf (Nat.zero_le _)
  have hmatches : m :: scanRefs U k₁ b₁ (allPieces rest ++ cut (isWord U) isSpace (textOf (a ++ b))) = [m₁, m₂] := by
    rw [← hrefs, h.tableRefs_eq]
    exact hscan₁.symm
  obtain ⟨rfl, hrest⟩ := List.cons.inj hmatches
  obtain ⟨r₁, as₁, zs₁, htokens₁, has₁, hok₁, he₁, rfl⟩ := hread₁ (h2 m (by simp [hrefs]))
  -- the keyword after it
  obtain ⟨x₁, w₂, z₁, rfl, hw₂, hx₁⟩ := exists_first_ref hjoin
  have hp := h.plain_rest
  obtain ⟨d₁, rfl⟩ := append_of_noRef
    (show as₁ ++ zs₁ = x₁ ++ .word w₂ :: (z₁ ++ a) by rw [← htokens₁]; simp) hw₂
    (by rw [has₁]; exact r₁.noRef)
  have hseg := h.segmented.right.tail
  rw [allPieces_word] at hseg hrest hb₁
  have hl₂ : lex A t = (pre ++ [.word w]) ++ (as₁ ++ d₁ ++ .word w₂ :: (z₁ ++ a ++ b)) := by rw [h.tokens]; simp
  have hahead₂ : Ahead (.word w₂ :: (z₁ ++ a)) := h.ahead_right hnames
  have hz₁ : ∀ k ∈ z₁, Plain k := fun k hk => hp k (by simp [hk])
  obtain ⟨m, k₂, b₂, hscan₂, hb₂, hread₂⟩ := scan_ref (b := b₁) (k := (textOf as₁).length) hl₂
    (fun k hk => hp k (by simp at hk ⊢; tauto)) hx₁ hw₂ hahead₂ (blank_of_spaced (hl₂ ▸ hspaced) hw₂ (hne z₁)) hseg
    (join_pieces U hz₁ a b) hb₁ (by simp)
  have hmatches₂ : m :: scanRefs U k₂ b₂ (allPieces z₁ ++ cut (isWord U) isSpace (textOf (a ++ b))) = [m₂] := by
    rw [← hrest]
    exact hscan₂.symm
  obtain ⟨rfl, hrest₂⟩ := List.cons.inj hmatches₂
  obtain ⟨r₂, as₂, zs₂, htokens₂, has₂, hok₂, he₂, rfl⟩ := hread₂ (h2 m (by simp [hrefs]))
  -- there is no third one
  have hlast : NoRef (reading z₁) := by
    by_contra hthird
    obtain ⟨x₂, w₃, z₂, rfl, hw₃, hx₂⟩ := exists_first_ref hthird
    obtain ⟨d₂, rfl⟩ := append_of_noRef
      (show as₂ ++ zs₂ = x₂ ++ .word w₃ :: (z₂ ++ a) by rw [← htokens₂]; simp) hw₃
      (by rw [has₂]; exact r₂.noRef)
    have hseg₂ := hseg.right.tail
    rw [allPieces_word] at hseg₂ hrest₂ hb₂
    have hl₃ : lex A t = (pre ++ [.word w] ++ (as₁ ++ d₁) ++ [.word w₂]) ++
        (as₂ ++ d₂ ++ .word w₃ :: (z₂ ++ a ++ b)) := by rw [h.tokens]; simp
    have hahead₃ : Ahead (.word w₃ :: (z₂ ++ a)) := by
      have hsplit : as₁ ++ d₁ ++ .word w₂ :: (as₂ ++ d₂ ++ .word w₃ :: z₂) =
          (as₁ ++ d₁ ++ .word w₂ :: (as₂ ++ d₂)) ++ .word w₃ :: z₂ := by simp
      rw [hsplit] at h hnames
      exact h.ahead_right hnames
    obtain ⟨m₃, k₃, b₃, hscan₃, -, -⟩ := scan_ref (b := b₂) (k := (textOf as₂).length) hl₃
      (fun k hk => hz₁ k (by simp at hk ⊢; tauto)) hx₂ hw₃ hahead₃ (blank_of_spaced (hl₃ ▸ hspaced) hw₃ (hne z₂)) hseg₂
      (join_pieces U (fun k hk => hz₁ k (by simp [hk])) a b) hb₂ (by simp)
    have hnil : m₃ :: scanRefs U k₃ b₃ (allPieces z₂ ++ cut (isWord U) isSpace (textOf (a ++ b))) = [] := by
      rw [← hrest₂]
      exact hscan₃.symm
    exact absurd hnil (by simp)
  obtain ⟨s, hs, hlex⟩ := hw₂.lexeme
  rw [TSql.reading_append, has₁] at hx₁
  refine ⟨r₁, r₂, s, reading d₁, reading z₁, reading zs₂, hs, ?_, hx₁, hlast, ?_, ⟨hok₁, hok₂⟩, he₁, he₂⟩
  · rw [TSql.reading_append, TSql.reading_append, has₁, TSql.reading_cons, hlex]
    rfl
  · rw [← h.group, ← TSql.reading_append, htokens₂, TSql.reading_append, has₂]

/-- **Two references at two keywords need whitespace after each of them.** -/
theorem spaced_of_pair {x z : List Token} {w₂ : Text} (h : FromTokens U (lex A t) pre w (x ++ .word w₂ :: z) a b)
    (hnames : (reading (.word w :: (x ++ .word w₂ :: z)) ++ [kwLexeme "GROUP"]).IsChain NameAfter) (hw₂ : IsRef w₂)
    (hx : NoRef (reading x)) (hz : NoRef (reading z)) (hpre : NoRef (reading pre)) (hpost : NoRef (reading (a ++ b)))
    (hlen : (tableRefs U t).length = 2) : (lex A t).IsChain Spaced := by
  have hp := h.plain_rest
  have hxp : ∀ k ∈ x, Plain k := fun k hk => hp k (by simp [hk])
  have hzp : ∀ k ∈ z, Plain k := fun k hk => hp k (by simp [hk])
  have hseg := h.segmented.right
  have hleft := h.leftOf
  have hrefs := h.tableRefs_eq
  have htext := join_pieces U hp a b
  rw [scanRefs] at hrefs
  rw [allPieces_word] at hseg hleft hrefs htext
  have hfree : quiet (allPieces z ++ cut (isWord U) isSpace (textOf (a ++ b))) [] = true := by
    rw [quiet_append, quiet_of_free (free_of_noRef hzp hz), h.after]
    rfl
  have hscan := fun k c => scan_last hseg.tail hxp hx hfree k c
  rcases findWords_word_cases (matchAt (isWord U) refBody) 0 (textOf pre).reverse w
    (allPieces x ++ .word w₂ :: (allPieces z ++ cut (isWord U) isSpace (textOf (a ++ b)))) with
    ⟨m₁, k, hm₁, heq⟩ | ⟨k, heq⟩
  · rcases hscan k (w.reverse ++ (textOf pre).reverse) with hnil | ⟨m₂, hm₂, -⟩
    · rw [hrefs, heq, ← scanRefs, hnil] at hlen
      exact absurd hlen (by simp)
    -- a blank follows each of them
    have hleft₂ := leftOf_append hseg.tail (leftOf_next hseg (textOf pre).reverse)
    rw [Piece.text_word] at hleft₂
    have hl₁ : lex A t = pre ++ .word w :: (x ++ .word w₂ :: z ++ a ++ b) := by rw [h.tokens]; simp
    have hl₂ : lex A t = (pre ++ .word w :: x) ++ .word w₂ :: (z ++ a ++ b) := by rw [h.tokens]; simp
    rw [h.from_.matchAt (head_of_leftOf hleft), htext] at hm₁
    rw [hw₂.matchAt (head_of_leftOf hleft₂), join_pieces U hzp] at hm₂
    obtain ⟨g₁, y₁, hg₁⟩ := blank_of_match hl₁ h.from_ (h.ahead hnames) (Option.isSome_of_eq_some hm₁)
    obtain ⟨g₂, y₂, hg₂⟩ := blank_of_match hl₂ hw₂ (h.ahead_right hnames) (Option.isSome_of_eq_some hm₂)
    have hlast : NoRef (reading (z ++ a ++ b)) := by
      rw [List.append_assoc, TSql.reading_append]
      exact NoRef.append.mpr ⟨hz, hpost⟩
    have hchain₂ : (Token.word w₂ :: (z ++ a ++ b)).IsChain Spaced := by
      refine List.isChain_cons.mpr ⟨fun j hj _ => ?_, spaced_of_noRef hlast⟩
      rw [hg₂] at hj
      obtain rfl : .blank g₂ = j := by simpa using hj
      rfl
    have hchain₁ : (Token.word w :: (x ++ .word w₂ :: (z ++ a ++ b))).IsChain Spaced := by
      refine List.isChain_cons.mpr ⟨fun j hj _ => ?_, spaced_append hx hchain₂⟩
      rw [show x ++ .word w₂ :: (z ++ a ++ b) = x ++ .word w₂ :: z ++ a ++ b by simp, hg₁] at hj
      obtain rfl : .blank g₁ = j := by simpa using hj
      rfl
    rw [hl₁, show x ++ .word w₂ :: z ++ a ++ b = x ++ .word w₂ :: (z ++ a ++ b) by simp]
    exact spaced_append hpre hchain₁
  · rcases hscan k (w.reverse ++ (textOf pre).reverse) with hnil | ⟨m₂, -, hone⟩
    · rw [hrefs, heq, ← scanRefs, hnil] at hlen
      exact absurd hlen (by simp)
    · rw [hrefs, heq, ← scanRefs, hone] at hlen
      exact absurd hlen (by simp)

end FromTokens

end DataAgent.Guardrail
