import DataAgent.Guardrail.Accepts
import DataAgent.Guardrail.Tokens

/-!
# Table references, read two ways

Where the pattern for table references matches a `FROM` or a `JOIN` and finds an alias, it reads the table and the
alias that the server reads there; it matches where whitespace follows the keyword, and nowhere else
(**`reference_of_blank`**, `blank_of_match`).
-/

namespace DataAgent.Guardrail
open Python Regex Pattern
open TSql (Alphabet Token Lexeme Name Plain lex textOf reading plainStart plainPart fold isReserved kwLexeme)

variable {U : Unicode} {A : Alphabet}

/-- `[schema .] table AS alias`, in upper case. -/
structure Reference where
  schema : Option Text
  table : Text
  tableAlias : Text
  deriving DecidableEq

/-- What comes before the alias and its `AS`. -/
def Reference.path (r : Reference) : List Lexeme :=
  (r.schema.toList.flatMap fun s => [.name s, .symbol '.']) ++ [.name r.table]

def Reference.lexemes (r : Reference) : List Lexeme :=
  (r.schema.toList.flatMap fun s => [.name s, .symbol '.']) ++ [.name r.table, kwLexeme "AS", .name r.tableAlias]

/-- No schema, or the approved one. -/
def Reference.SchemaOk (r : Reference) : Prop := ∀ s ∈ r.schema, s = allowedSchemaToken

theorem Reference.lexemes_eq (r : Reference) : r.lexemes = r.path ++ kwLexeme "AS" :: [.name r.tableAlias] := by
  simp [lexemes, path]

theorem Reference.keyword_notMem_path (r : Reference) (s : String) : kwLexeme s ∉ r.path := by
  cases h : r.schema <;> simp [path, h, kwLexeme]

theorem Reference.keyword_notMem (r : Reference) {s : String} (hs : s ≠ "AS") : kwLexeme s ∉ r.lexemes := by
  rw [lexemes_eq, List.mem_append, not_or]
  refine ⟨r.keyword_notMem_path s, ?_⟩
  simp only [List.mem_cons, List.not_mem_nil, or_false, not_or]
  exact ⟨mt kwLexeme_inj.mp hs, by simp [kwLexeme]⟩

theorem Reference.path_inj {r r' : Reference} (h : r.path = r'.path) (ha : r.tableAlias = r'.tableAlias) : r = r' := by
  obtain ⟨s, t, a⟩ := r
  obtain ⟨s', t', a'⟩ := r'
  obtain rfl : a = a' := ha
  cases s <;> cases s' <;> simp_all [path]

/-- Two readings with one `AS` and an alias after it begin with the same reference. -/
theorem Reference.eq_of_append {r : Reference} {u l l' : List Lexeme} {a : Text} (hu : kwLexeme "AS" ∉ u)
    (h : u ++ kwLexeme "AS" :: .name a :: l = r.lexemes ++ l') : u = r.path ∧ a = r.tableAlias ∧ l = l' := by
  rw [r.lexemes_eq, List.append_assoc, List.cons_append] at h
  obtain ⟨hpath, h⟩ := append_cons_inj_first hu (r.keyword_notMem_path _) h
  simp only [List.cons_append, List.nil_append, List.cons.injEq, Lexeme.name.injEq] at h
  exact ⟨hpath, h⟩

theorem Reference.append_inj {r r' : Reference} {l l' : List Lexeme} (h : r.lexemes ++ l = r'.lexemes ++ l') :
    r = r' ∧ l = l' := by
  have h' : r.path ++ kwLexeme "AS" :: .name r.tableAlias :: l = r'.lexemes ++ l' := by
    rw [← h, r.lexemes_eq]
    simp
  obtain ⟨hpath, halias, hl⟩ := Reference.eq_of_append (r.keyword_notMem_path _) h'
  exact ⟨Reference.path_inj hpath halias, hl⟩

theorem stripBrackets_raw (n : Name) : stripBrackets (raw n) = n.text := by
  have hbr : ∀ c ∈ n.text, (c == '[' || c == ']') = false := by
    intro c hc
    obtain ⟨h1, h2, -⟩ := plainPart_neutral (n.part c hc)
    simp [h1, h2]
  have hdrop : ∀ t : Text, (n.text ++ t).dropWhile (fun c => c == '[' || c == ']') = n.text ++ t := by
    intro t
    obtain ⟨c, w, hw⟩ := List.exists_cons_of_ne_nil n.ne_nil
    rw [hw, List.cons_append, List.dropWhile_cons_of_neg]
    simpa using hbr c (by simp [hw])
  have hrdrop : n.text.rdropWhile (fun c => c == '[' || c == ']') = n.text := by
    rw [List.rdropWhile_eq_self_iff]
    intro hne h
    rw [hbr _ (List.getLast_mem hne)] at h
    exact absurd h (by decide)
  rw [raw_eq, stripBrackets]
  split
  · rw [List.dropWhile_cons_of_pos (by decide), hdrop, List.rdropWhile_concat_pos _ _ _ (by decide), hrdrop]
  · have := hdrop []
    rw [List.append_nil] at this
    rw [this, hrdrop]

/-! ## What lies ahead -/

/-- A name must come after it. -/
def isLeader (x : Lexeme) : Bool :=
  x == kwLexeme "FROM" || x == kwLexeme "JOIN" || x == kwLexeme "AS" || x == .symbol '.'

def isNameLexeme : Lexeme → Bool
  | .name _ => true
  | _ => false

def NameAfter (x y : Lexeme) : Prop := isLeader x = true → isNameLexeme y = true

instance : DecidableRel NameAfter := fun x y => inferInstanceAs (Decidable (isLeader x = true → isNameLexeme y = true))

/-- Plain tokens up to a `GROUP BY`, with a name wherever one must come. -/
structure Ahead (ts : List Token) : Prop where
  plain : ∀ k ∈ ts, Plain k
  names : (reading ts).IsChain NameAfter
  last : [kwLexeme "GROUP", kwLexeme "BY"] <:+ reading ts

theorem Ahead.ne_nil {ts : List Token} (h : Ahead ts) : reading ts ≠ [] := by
  intro hnil
  have hlast := h.last
  rw [hnil, List.suffix_nil] at hlast
  exact absurd hlast (by simp)

theorem Ahead.next {ts : List Token} (h : Ahead ts) (us : List Token) : ∃ k vs, ts ++ us = k :: vs ∧ Plain k :=
  exists_plain_of_reading h.plain h.ne_nil

/-- The blanks before the first token that says something. -/
theorem Ahead.head {ts : List Token} {x : Lexeme} {l : List Lexeme} (h : Ahead ts) (hr : reading ts = x :: l) :
    ∃ bs k us, ts = bs ++ k :: us ∧ (∀ b ∈ bs, Plain b) ∧ (∀ b ∈ bs, b.lexeme = none) ∧ k.lexeme = some x ∧
      reading us = l ∧ Ahead (k :: us) := by
  obtain ⟨bs, k, us, rfl, hbs, hk, hus⟩ := reading_eq_cons hr
  have hread : reading (k :: us) = reading (bs ++ k :: us) := by
    rw [TSql.reading_cons, hk, hus, hr]
    rfl
  exact ⟨bs, k, us, rfl, fun b hb => h.plain b (by simp [hb]), hbs, hk, hus,
    fun j hj => h.plain j (List.mem_append_right _ hj), hread ▸ h.names, hread ▸ h.last⟩

theorem Ahead.reading_ne_nil {k : Token} {ts : List Token} (h : Ahead (k :: ts)) : reading ts ≠ [] := by
  intro hnil
  have hlast := h.last
  rw [TSql.reading_cons, hnil, List.append_nil] at hlast
  cases hk : k.lexeme with
  | none => simp [hk] at hlast
  | some x => exact absurd hlast.length_le (by simp [hk])

theorem Ahead.tail {k : Token} {ts : List Token} (h : Ahead (k :: ts)) (hk : k.lexeme ≠ some (kwLexeme "GROUP")) :
    Ahead ts := by
  have hplain : ∀ j ∈ ts, Plain j := fun j hj => h.plain j (List.mem_cons_of_mem _ hj)
  have hnames := h.names
  have hlast := h.last
  rw [TSql.reading_cons] at hnames hlast
  cases hx : k.lexeme with
  | none =>
    rw [hx] at hnames hlast
    exact ⟨hplain, hnames, hlast⟩
  | some x =>
    rw [hx] at hk hnames hlast
    refine ⟨hplain, hnames.tail, ?_⟩
    rcases List.suffix_cons_iff.mp hlast with heq | hlast
    · exact absurd (congrArg some (List.cons.inj heq).1.symm) hk
    · exact hlast

/-- The name that must come after a leader. -/
theorem Ahead.name {k : Token} {ts : List Token} {x : Lexeme} (h : Ahead (k :: ts)) (hk : k.lexeme = some x)
    (hx : isLeader x = true) : ∃ bs n us, ts = bs ++ Name.token n :: us ∧ (∀ b ∈ bs, Plain b) ∧
      (∀ b ∈ bs, b.lexeme = none) ∧ Ahead us := by
  obtain ⟨y, l, hy⟩ := List.exists_cons_of_ne_nil h.reading_ne_nil
  have hgroup : k.lexeme ≠ some (kwLexeme "GROUP") := by
    rw [hk]
    rintro heq
    obtain rfl := Option.some.inj heq
    exact absurd hx (by decide)
  obtain ⟨bs, j, us, rfl, hbs, hnone, hjy, -, hus⟩ := (h.tail hgroup).head hy
  have hnames := h.names
  rw [TSql.reading_cons, hk, hy] at hnames
  have hname : isNameLexeme y = true := hnames.rel hx
  obtain ⟨v, rfl⟩ : ∃ v, y = .name v := by
    cases y with
    | name v => exact ⟨v, rfl⟩
    | keyword v => simp [isNameLexeme] at hname
    | symbol c => simp [isNameLexeme] at hname
    | literal v => simp [isNameLexeme] at hname
  obtain ⟨n, rfl, -⟩ := plain_name (hus.plain j (by simp)) hjy
  exact ⟨bs, n, us, rfl, hbs, hnone, hus.tail (by simp [kwLexeme])⟩

/-! ## The alias -/

/-- At a token that is no `AS` there is no alias. -/
theorem noAlias_of_token {t g : Text} {x us : List Token} {k j : Token} (hg : Blank g)
    (hl : lex A t = x ++ k :: j :: us) (hk : Plain k) (hj : Plain j) (hlex : k.lexeme ≠ some (kwLexeme "AS"))
    (hblank : k.lexeme ≠ none) :
    NoAlias U (g ++ textOf (k :: j :: us)) := by
  intro b
  obtain ⟨y, hy⟩ := Option.ne_none_iff_exists'.mp hblank
  have hspace : (textOf (k :: j :: us)).head?.any isSpace = false := by
    rw [TSql.textOf_cons]
    exact head_of_lexeme hk hy _
  rw [aliasPart, cat_cons, cat_cons, run_plus_seq (kw_refuses_isSpace (by simp [patternKeywords]) _) hg.1 hg.2 hspace]
  exact run_kw_token (by simp [patternKeywords]) (plus_isSpace_outside _) hl hk hj hlex hblank _

/-- After the name of a table the pattern finds the alias that the server reads there, or none. -/
theorem first_alias_tokens {t : Text} {x ts us : List Token} {n : Name} (hl : lex A t = x ++ n.token :: (ts ++ us))
    (h : Ahead ts) (b : Text) : ∃ y, first (isWord U) (opt aliasPart) ⟨b, textOf (ts ++ us)⟩ = some y ∧
      (y.2 = [] ∨ ∃ (na : Name) (as zs : List Token), y.2 = [(2, raw na)] ∧ ts = as ++ zs ∧
        reading as = [kwLexeme "AS", .name (fold na.text)] ∧ y.1.after = textOf (zs ++ us)) := by
  obtain ⟨x₁, l, hr⟩ := List.exists_cons_of_ne_nil h.ne_nil
  obtain ⟨bs, k, ts₁, rfl, hbs, hnone, hkx, hr₁, hk⟩ := h.head hr
  by_cases has : x₁ = kwLexeme "AS"
  · subst has
    obtain ⟨bs', na, zs, rfl, hbs', hnone', hzs⟩ := hk.name hkx (by decide)
    obtain ⟨w, rfl, hres, hw⟩ := plain_keyword (hk.plain k (by simp)) hkx
    have hwplain := reserved_part hres
    have hwword : ∀ c ∈ w, isWord U c = true := fun c hc => isWord_of_plainPart U (hwplain c hc)
    have hwne := (TSql.plainStart_of_isReserved hres).1
    have htext : textOf (bs ++ .word w :: (bs' ++ na.token :: zs) ++ us) =
        textOf bs ++ (w ++ (textOf bs' ++ (raw na ++ textOf (zs ++ us)))) := by
      simp [raw_token]
    rw [htext]
    rcases spaces_of_silent hbs hnone with hg | hg
    · -- no whitespace before `AS`
      rw [hg, List.nil_append]
      exact ⟨_, first_opt_of_nil (noAlias_of_head (head_word _ hwne hwword) b), Or.inl rfl⟩
    rcases spaces_of_silent hbs' hnone' with hg' | hg'
    · -- no whitespace after `AS`
      obtain ⟨j, vs, hj, hjp⟩ := exists_plain_of_reading (x := bs' ++ na.token :: zs) (y := us)
        (fun j hj => h.plain j (by simp at hj ⊢; tauto)) (by simp [TSql.reading_cons])
      have hl' : lex A t = (x ++ n.token :: bs) ++ .word w :: j :: vs := by rw [hl, ← hj]; simp
      have hafter := (head_after_word_token (U := U) hl' hjp).1
      have hnext : textOf (j :: vs) = raw na ++ textOf (zs ++ us) := by
        rw [← hj]
        simp [raw_token, hg']
      rw [hnext] at hafter
      rw [hg', List.nil_append]
      exact ⟨_, first_opt_of_nil (noAlias_of_word hg hwne hwword hafter (Or.inr (head_raw_not_space na _)) b),
        Or.inl rfl⟩
    · obtain ⟨j, vs, hj, hjp⟩ := hzs.next us
      have hl' : lex A t = (x ++ n.token :: (bs ++ .word w :: bs')) ++ na.token :: j :: vs := by
        rw [hl, ← hj]
        simp
      have hends : Ends U na (textOf (zs ++ us)) := by
        rw [hj]
        exact ends_of_lex na hl' hjp
      have hkw : isKw "AS" w = true := (isKw_iff hwplain).mpr (by rw [hw]; rfl)
      refine ⟨_, first_opt (first_aliasPart na hg hwword hkw hg' hends b),
        Or.inr ⟨na, bs ++ .word w :: (bs' ++ [na.token]), zs, rfl, by simp, ?_, rfl⟩⟩
      have hnil : reading bs = [] := List.filterMap_eq_nil_iff.mpr hnone
      have hnil' : reading bs' = [] := List.filterMap_eq_nil_iff.mpr hnone'
      rw [TSql.reading_append, hnil, TSql.reading_cons, hkx, TSql.reading_append, hnil', TSql.reading_cons,
        Name.lexeme_token]
      rfl
  · have hkp := hk.plain k (by simp)
    have htext : textOf (bs ++ k :: ts₁ ++ us) = textOf bs ++ textOf (k :: (ts₁ ++ us)) := by simp
    rw [htext]
    rcases spaces_of_silent hbs hnone with hg | hg
    · -- no whitespace after the name
      rw [hg, List.nil_append, TSql.textOf_cons]
      exact ⟨_, first_opt_of_nil (noAlias_of_head (head_of_lexeme hkp hkx _) b), Or.inl rfl⟩
    · obtain ⟨j, vs, hj, hjp⟩ := exists_plain_of_reading (y := us)
        (fun j hj => hk.plain j (List.mem_cons_of_mem _ hj)) hk.reading_ne_nil
      have hl' : lex A t = (x ++ n.token :: bs) ++ k :: j :: vs := by rw [hl, ← hj]; simp
      rw [hj]
      exact ⟨_, first_opt_of_nil (noAlias_of_token hg hl' hkp hjp (by simpa [hkx] using has) (by simp [hkx]) b),
        Or.inl rfl⟩

/-! ## The reference -/

/-- The pattern has read the reference that the server reads at the start of `ts`. -/
def ReadAs (ts us : List Token) (y : Cursor × Groups) : Prop :=
  ∃ (r : Reference) (nt na : Name) (as zs : List Token), ts = as ++ zs ∧ reading as = r.lexemes ∧ r.SchemaOk ∧
    y.1.after = textOf (zs ++ us) ∧ fold nt.text = r.table ∧ fold na.text = r.tableAlias ∧
    y.2 = [(2, raw na), (1, nt.text)]

theorem isKw_production {w : Text} (hw : ∀ c ∈ w, plainPart c = true) (h : isKw "Production" w = true) :
    fold w = allowedSchemaToken := by
  rw [isKw_iff hw] at h
  rw [h]
  decide

/-- A plain token that is no dot does not start with one. -/
theorem dot_notMem_head {k : Token} (hk : Plain k) (hne : k ≠ .symbol '.') (v : Text) : '.' ∉ (k.text ++ v).head? := by
  obtain ⟨c, s, hs, -⟩ := plain_head hk
  rw [hs, List.cons_append, List.head?_cons, Option.mem_def, Option.some.injEq]
  rintro rfl
  have hmem : '.' ∈ k.text := by simp [hs]
  cases hk with
  | blank _ hw => exact absurd (hw '.' hmem) (by decide)
  | keyword hr => exact absurd (reserved_part hr '.' hmem) (by decide)
  | name n =>
    obtain ⟨d, hd, hn⟩ := head_raw n []
    rw [List.append_nil, ← raw_token, hs] at hd
    obtain rfl : '.' = d := by simpa using hd
    exact absurd hn (by decide)
  | symbol => exact hne (by rw [List.mem_singleton.mp hmem])

/-- **At a name the pattern finds a reference without an alias, or the one that the server reads.** -/
theorem first_refPart_tokens {t : Text} {x ts us : List Token} {n : Name} (hl : lex A t = x ++ n.token :: (ts ++ us))
    (h : Ahead ts) (b : Text) : ∃ y, first (isWord U) refPart ⟨b, raw n ++ textOf (ts ++ us)⟩ = some y ∧
      (y.2.lookup 2 = none ∨ ReadAs (n.token :: ts) us y) := by
  obtain ⟨j, vs, hj, hjp⟩ := h.next us
  by_cases hdot : j = .symbol '.'
  · subst hdot
    obtain ⟨ts₁, rfl⟩ : ∃ ts₁, ts = .symbol '.' :: ts₁ := by
      cases ts with
      | nil => exact absurd rfl h.ne_nil
      | cons k ts => exact ⟨ts, by rw [(List.cons.inj hj).1]⟩
    obtain ⟨bs', nt, zs, rfl, hbs', hnone', hzs⟩ := h.name (x := .symbol '.') rfl (by decide)
    have htext : textOf (.symbol '.' :: (bs' ++ nt.token :: zs) ++ us) =
        '.' :: (textOf bs' ++ (raw nt ++ textOf (zs ++ us))) := by
      simp [raw_token]
    rw [htext]
    rcases spaces_of_silent hbs' hnone' with hg | hg
    · rw [hg, List.nil_append]
      by_cases hprod : isKw "Production" n.text = true
      · have hl' : lex A t = (x ++ n.token :: .symbol '.' :: bs') ++ nt.token :: (zs ++ us) := by rw [hl]; simp
        obtain ⟨y, hy, hya⟩ := first_alias_tokens (U := U) hl' hzs ((raw nt).reverse ++ '.' :: ((raw n).reverse ++ b))
        obtain ⟨i, ws, hi, hip⟩ := hzs.next us
        have hends : Ends U nt (textOf (zs ++ us)) := by
          rw [hi] at hl' ⊢
          exact ends_of_lex nt hl' hip
        refine ⟨_, first_refPart_schema n nt hprod hends b hy, ?_⟩
        rcases hya with hnil | ⟨na, as, zs, hg2, rfl, has, hafter⟩
        · exact Or.inl (by rw [hnil]; rfl)
        · refine Or.inr ⟨⟨some (fold n.text), fold nt.text, fold na.text⟩, nt, na,
            n.token :: .symbol '.' :: (bs' ++ nt.token :: as), zs, by simp, ?_, ?_, hafter, rfl, rfl, by rw [hg2]; rfl⟩
          · have hnil' : reading bs' = [] := List.filterMap_eq_nil_iff.mpr hnone'
            rw [TSql.reading_cons, Name.lexeme_token, TSql.reading_cons, TSql.reading_append, hnil', TSql.reading_cons,
              Name.lexeme_token, has]
            rfl
          · intro s hs
            obtain rfl : fold n.text = s := by simpa using hs
            exact isKw_production n.part hprod
      · -- the name before the dot is taken for the table
        refine ⟨_, first_refPart n (ends_dot n _) (Or.inl (by simpa using hprod)) b
          (first_opt_of_nil (noAlias_of_head ?_ _)), Or.inl rfl⟩
        simp
        decide
    · -- whitespace after the dot
      obtain ⟨c, g, hc⟩ := List.exists_cons_of_ne_nil hg.1
      refine ⟨_, first_refPart_dangling n ?_ b, Or.inl rfl⟩
      rw [hc]
      simpa using hg.2 c (by simp [hc])
  · have hl' := hl
    rw [hj] at hl'
    have hends : Ends U n (textOf (ts ++ us)) := by
      rw [hj]
      exact ends_of_lex n hl' hjp
    have hhead : '.' ∉ (textOf (ts ++ us)).head? := by
      rw [hj]
      exact dot_notMem_head hjp hdot _
    obtain ⟨y, hy, hya⟩ := first_alias_tokens (U := U) hl h ((raw n).reverse ++ b)
    refine ⟨_, first_refPart n hends (Or.inr hhead) b hy, ?_⟩
    rcases hya with hnil | ⟨na, as, zs, hg2, rfl, has, hafter⟩
    · exact Or.inl (by rw [hnil]; rfl)
    · refine Or.inr ⟨⟨none, fold n.text, fold na.text⟩, n, na, n.token :: as, zs, by simp, ?_,
        by simp [Reference.SchemaOk], hafter, rfl, rfl, by rw [hg2]; rfl⟩
      rw [TSql.reading_cons, Name.lexeme_token, has]
      rfl

/-! ## The keyword before it -/

section Keyword
variable {t : Text} {x ts us : List Token} {w b : Text}

/-- A word that is `FROM` or `JOIN`, in any letter case. -/
structure IsRef (w : Text) : Prop where
  reserved : isReserved w = true
  fold : fold w = "FROM".toList ∨ fold w = "JOIN".toList

theorem IsRef.word (U : Unicode) (h : IsRef w) : ∀ c ∈ w, isWord U c = true :=
  fun c hc => isWord_of_plainPart U (reserved_part h.reserved c hc)

theorem IsRef.isKw (h : IsRef w) : isKw "FROM" w = true ∨ isKw "JOIN" w = true := by
  rw [isKw_iff (reserved_part h.reserved), isKw_iff (reserved_part h.reserved)]
  exact h.fold

/-- The name after the keyword, where whitespace is between them or not. -/
theorem IsRef.name (h : IsRef w) (hts : Ahead (.word w :: ts)) : ∃ bs n zs, ts = bs ++ Name.token n :: zs ∧ Ahead zs ∧
    (textOf bs = [] ∨ Blank (textOf bs)) ∧ (∀ b ∈ bs, b.lexeme = none) := by
  have hk : (Token.word w).lexeme = some (.keyword (TSql.fold w)) := by simp [Token.lexeme, h.reserved]
  have hleads : isLeader (.keyword (TSql.fold w)) = true := by
    rcases h.fold with h | h <;> rw [h] <;> decide
  obtain ⟨bs, n, zs, rfl, hbs, hnone, hzs⟩ := hts.name hk hleads
  exact ⟨bs, n, zs, rfl, hzs, spaces_of_silent hbs hnone, hnone⟩

/-- Where the pattern matches, a blank follows the keyword. -/
theorem blank_of_match (hl : lex A t = x ++ .word w :: (ts ++ us)) (hw : IsRef w) (h : Ahead (.word w :: ts))
    (hm : (matchAt (isWord U) tableRefPattern ⟨b, textOf (.word w :: (ts ++ us))⟩).isSome) :
    ∃ g ts', ts = .blank g :: ts' := by
  obtain ⟨bs, n, zs, rfl, hzs, hg, hnone⟩ := hw.name h
  cases bs with
  | cons j bs =>
    obtain ⟨g, rfl⟩ : ∃ g, j = .blank g := by
      have hj := hnone j (by simp)
      cases j <;> simp_all [Token.lexeme]
    exact ⟨g, _, rfl⟩
  | nil =>
    obtain ⟨j, vs, hj, hjp⟩ := exists_plain_of_reading (x := n.token :: zs) (y := us)
      (fun j hj => h.plain j (by simp at hj ⊢; tauto)) (by simp [TSql.reading_cons])
    have hafter := (head_after_word_token (U := U) (by rw [hl, List.nil_append, hj]) hjp).1
    have htext : textOf (j :: vs) = raw n ++ textOf (zs ++ us) := by
      rw [← hj]
      simp [raw_token]
    rw [List.nil_append, hj, TSql.textOf_cons, htext] at hm
    rw [htext] at hafter
    rw [Token.text_word, matchAt_tableRef_unspaced (hw.word U) (head_raw_not_space n _) hafter] at hm
    exact absurd hm (by simp)

/-- Where a blank follows the keyword, the pattern matches; if it finds an alias, it has read the reference that the
server reads. -/
theorem reference_of_blank (hl : lex A t = x ++ .word w :: (ts ++ us)) (hw : IsRef w) (h : Ahead (.word w :: ts))
    {g : Text} {ts' : List Token} (hblank : ts = .blank g :: ts') (hb : b.head?.any (isWord U) = false) :
    ∃ m, matchAt (isWord U) tableRefPattern ⟨b, textOf (.word w :: (ts ++ us))⟩ = some m ∧ ((m.group 2).isSome →
      ∃ (r : Reference) (as zs : List Token), ts = as ++ zs ∧ reading as = r.lexemes ∧ r.SchemaOk ∧
        entry U m = (r.tableAlias, r.table) ∧ m.stop.after = textOf (zs ++ us)) := by
  obtain ⟨bs, n, zs, rfl, hzs, hg, hnone⟩ := hw.name h
  have hg : Blank (textOf bs) := by
    refine hg.resolve_left fun hnil => ?_
    cases bs with
    | nil =>
      obtain ⟨hn, -⟩ := List.cons.inj hblank
      have hread := congrArg Token.lexeme hn
      rw [Name.lexeme_token] at hread
      exact absurd hread (by simp [Token.lexeme])
    | cons j bs =>
      obtain ⟨c, s, hs, -⟩ := plain_head (h.plain j (by simp))
      simp [hs] at hnil
  have hl' : lex A t = (x ++ .word w :: bs) ++ n.token :: (zs ++ us) := by rw [hl]; simp
  obtain ⟨y, hy, hread⟩ := first_refPart_tokens (U := U) hl' hzs ((textOf bs).reverse ++ (w.reverse ++ b))
  have htext : textOf (.word w :: (bs ++ n.token :: zs ++ us)) = w ++ (textOf bs ++ (raw n ++ textOf (zs ++ us))) := by
    simp [raw_token]
  refine ⟨⟨⟨b, w ++ (textOf bs ++ (raw n ++ textOf (zs ++ us)))⟩, y.1, y.2⟩, ?_, fun h2 => ?_⟩
  · rw [htext, matchAt_tableRef (hw.word U) hw.isKw hg (head_raw_not_space n _) hb, hy]
    rfl
  rcases hread with hno | ⟨r, nt, na, as, zs', hts, has, hs, hafter, hnt, hna, hgroups⟩
  · simp [Match.group, hno] at h2
  · have hnil : reading bs = [] := List.filterMap_eq_nil_iff.mpr hnone
    refine ⟨r, bs ++ as, zs', by rw [hts]; simp, by rw [TSql.reading_append, hnil, has]; rfl, hs, ?_, hafter⟩
    have h2' : ([(2, raw na), (1, nt.text)] : Groups).lookup 2 = some (raw na) := rfl
    have h1' : ([(2, raw na), (1, nt.text)] : Groups).lookup 1 = some nt.text := rfl
    rw [entry, Match.group, Match.group, hgroups, h2', h1', Option.getD_some, Option.getD_some, stripBrackets_raw,
      upper_plain na.part, upper_plain nt.part, hnt, hna]

end Keyword

end DataAgent.Guardrail
