import DataAgent.Guardrail.Validate

/-!
# What `validate` accepts

* `Passes` : the checks that a cleaned text went through; **`validate_ok_iff`** : they are all of them;
* one lemma for each check: when it lets a text pass, in terms of what its patterns find.
-/

namespace DataAgent.Guardrail
open Python Regex
open Agent (MetadataContext)

/-- The table references that the pattern finds. -/
def tableRefs (U : Unicode) (t : Text) : List Match := findIter (isWord U) tableRefPattern t

/-- The checks on a cleaned text, and what they hand on. -/
structure Passes (U : Unicode) (t : Text) (topMatch : Match) (d : AliasMap) (outs : List Text) (p i : Text) :
    Prop where
  select : checkSelect U t = .ok ()
  top : checkTop U t = .ok topMatch
  refs : collectTableRefs U [] (tableRefs U t) = .ok d
  found : tableRefs U t ≠ []
  output : collectOutputAliases ((tableRefs U t).map Match.span) (findIter (isWord U) asPattern t) = .ok outs
  identifiers : checkIdentifiers U (allowedIdentifiers U d outs) (findIter (isWord U) identifierPattern t) = .ok ()
  orderBy : checkOrderBy U t = .ok ()
  both : checkBothTables d = .ok ()
  product : nextAlias d tblProduct = .ok p
  inventory : nextAlias d tblProductInventory = .ok i
  on : checkOn U p i t = .ok ()
  groupBy : checkGroupBy U d t = .ok ()
  having : checkHaving U p i t = .ok ()
  selectList : checkSelectList U p i topMatch = .ok ()

variable {U : Unicode}

/-- **A text is accepted exactly if what is left after the trims passes every check.** -/
theorem validate_ok_iff {sql t : Text} {context : MetadataContext} : validate U sql context = .ok t ↔
    clean sql = .ok t ∧ ∃ topMatch d outs p i, Passes U t topMatch d outs p i := by
  unfold validate
  simp only [bind_eq_ok]
  constructor
  · rintro ⟨c, hc, _, h1, m, h2, d, h3, _, h4, outs, h5, _, h6, _, h7, _, h8, p, h9, i, h10, _, h11, _, h12, _, h13,
      _, h14, h15⟩
    obtain rfl : c = t := by simpa [pure, Except.pure] using h15
    refine ⟨hc, m, d, outs, p, i, h1, h2, h3, ?_, h5, h6, h7, h8, h9, h10, h11, h12, h13, h14⟩
    simpa [tableRefs, require, raiseUnless_eq_ok] using h4
  · rintro ⟨hc, m, d, outs, p, i, h⟩
    refine ⟨t, hc, (), h.select, m, h.top, d, h.refs, (), ?_, outs, h.output, (), h.identifiers, (), h.orderBy, (),
      h.both, p, h.product, i, h.inventory, (), h.on, (), h.groupBy, (), h.having, (), h.selectList, rfl⟩
    simpa [tableRefs, require, raiseUnless_eq_ok] using h.found

/-! ## Table references -/

/-- The entry of the alias map for a table reference. -/
def entry (U : Unicode) (m : Match) : Text × Text :=
  (upper U (stripBrackets ((m.group 2).getD [])), upper U ((m.group 1).getD []))

/-- No two entries with one alias or one table. -/
def Distinct (d : AliasMap) : Prop := (d.map Prod.fst).Nodup ∧ (d.map Prod.snd).Nodup

theorem distinct_append {d : AliasMap} {e : Text × Text} : Distinct (d ++ [e]) ↔
    Distinct d ∧ e.1 ∉ d.map Prod.fst ∧ e.2 ∉ d.map Prod.snd := by
  have hn : ∀ (l : List Text) (x : Text), (l ++ [x]).Nodup ↔ l.Nodup ∧ x ∉ l := fun l x => by
    rw [← List.concat_eq_append, List.nodup_concat]
    exact and_comm
  simp only [Distinct, List.map_append, List.map_cons, List.map_nil, hn]
  tauto

theorem Distinct.left {d d' : AliasMap} (h : Distinct (d ++ d')) : Distinct d := by
  rw [Distinct, List.map_append, List.map_append] at h
  exact ⟨h.1.of_append_left, h.2.of_append_left⟩

theorem collectTableRefs_cons {d d' : AliasMap} {m : Match} {ms : List Match} :
    collectTableRefs U d (m :: ms) = .ok d' ↔ (entry U m).2 ∈ allowedTables ∧ (m.group 2).isSome ∧
      (entry U m).1 ∉ d.map Prod.fst ∧ (entry U m).2 ∉ d.map Prod.snd ∧
      collectTableRefs U (d ++ [entry U m]) ms = .ok d' := by
  rw [collectTableRefs, require, raiseUnless_bind]
  cases hg : m.group 2 with
  | none => simp
  | some tableAlias =>
    have he : entry U m = (upper U (stripBrackets tableAlias), upper U ((m.group 1).getD [])) := by
      simp [entry, hg]
    simp only [require, raiseUnless_bind, he, Bool.not_eq_true', List.contains_eq_mem, decide_eq_false_iff_not,
      decide_eq_true_eq, Option.isSome_some, true_and]

/-- The references are to allowed tables, each with an alias, and no alias or table comes twice. -/
theorem collectTableRefs_ok {d d' : AliasMap} {ms : List Match} (hd : Distinct d) :
    collectTableRefs U d ms = .ok d' ↔ d' = d ++ ms.map (entry U) ∧ Distinct d' ∧
      ∀ m ∈ ms, (entry U m).2 ∈ allowedTables ∧ (m.group 2).isSome := by
  induction ms generalizing d with
  | nil =>
    simp only [collectTableRefs, List.map_nil, List.append_nil, Except.ok.injEq]
    constructor
    · rintro rfl
      exact ⟨rfl, hd, by simp⟩
    · rintro ⟨rfl, -⟩
      rfl
  | cons m ms ih =>
    rw [collectTableRefs_cons, List.map_cons, List.forall_mem_cons]
    constructor
    · rintro ⟨h1, h2, h3, h4, h5⟩
      obtain ⟨rfl, h6, h7⟩ := (ih (distinct_append.mpr ⟨hd, h3, h4⟩)).mp h5
      rw [List.append_assoc] at h6
      exact ⟨by simp, by simpa using h6, ⟨h1, h2⟩, h7⟩
    · rintro ⟨rfl, h6, ⟨h1, h2⟩, h7⟩
      have h8 : Distinct ((d ++ [entry U m]) ++ ms.map (entry U)) := by simpa using h6
      obtain ⟨-, h3, h4⟩ := distinct_append.mp h8.left
      exact ⟨h1, h2, h3, h4, (ih h8.left).mpr ⟨by simp, h6, h7⟩⟩

/-- The alias of a table is the one that the map has for it. -/
theorem nextAlias_eq_ok {d : AliasMap} (hd : Distinct d) {name a : Text} :
    nextAlias d name = .ok a ↔ (a, name) ∈ d := by
  unfold nextAlias
  constructor
  · intro h
    split at h
    · rename_i x hx
      obtain rfl : x.1 = a := by simpa using h
      have h2 : x.2 = name := by simpa using List.find?_some hx
      rw [← h2]
      exact List.mem_of_find?_eq_some hx
    · simp at h
  · intro h
    cases hf : d.find? (fun x => decide (x.2 = name)) with
    | none =>
      rw [List.find?_eq_none] at hf
      exact absurd (hf _ h) (by simp)
    | some x =>
      have h2 : x.2 = name := by simpa using List.find?_some hf
      have hx := List.mem_of_find?_eq_some hf
      have : x = (a, name) := List.inj_on_of_nodup_map hd.2 hx h (by rw [h2])
      rw [this]

/-- **Both tables are there exactly once**: the references are two, to the two tables, in one order or the other. -/
theorem refs_of_both {d : AliasMap} (hd : Distinct d) (hall : ∀ e ∈ d, e.2 ∈ allowedTables)
    (h : checkBothTables d = .ok ()) : d.map Prod.snd = [tblProduct, tblProductInventory] ∨
      d.map Prod.snd = [tblProductInventory, tblProduct] := by
  have hboth : ∀ t ∈ allowedTables, t ∈ d.map Prod.snd := by
    unfold checkBothTables require at h
    rw [raiseUnless_eq_ok, List.isEmpty_iff, List.filter_eq_nil_iff] at h
    intro t ht
    simpa using h t ht
  have hperm : (d.map Prod.snd).Perm allowedTables := by
    refine (List.perm_ext_iff_of_nodup hd.2 (by decide)).mpr fun t => ⟨fun ht => ?_, hboth t⟩
    obtain ⟨e, he, rfl⟩ := List.mem_map.mp ht
    exact hall e he
  rw [allowedTables] at hperm
  generalize d.map Prod.snd = l at hperm
  match l, hperm.length_eq with
  | [a, b], _ =>
    rw [List.perm_pair] at hperm
    grind

/-- **An accepted text has two table references**, each with an alias, to the two tables. -/
theorem Passes.pair {t : Text} {topMatch : Match} {d : AliasMap} {outs : List Text} {p i : Text}
    (h : Passes U t topMatch d outs p i) : ∃ m₁ m₂, tableRefs U t = [m₁, m₂] ∧ d = [entry U m₁, entry U m₂] ∧
      Distinct d ∧ (d.map Prod.snd = [tblProduct, tblProductInventory] ∨
        d.map Prod.snd = [tblProductInventory, tblProduct]) ∧
      (∀ m ∈ tableRefs U t, (m.group 2).isSome) ∧ (p, tblProduct) ∈ d ∧ (i, tblProductInventory) ∈ d := by
  obtain ⟨hd, hdist, hall⟩ := (collectTableRefs_ok (d := []) ⟨by simp, by simp⟩).mp h.refs
  rw [List.nil_append] at hd
  have htables : ∀ e ∈ d, e.2 ∈ allowedTables := by
    intro e he
    rw [hd, List.mem_map] at he
    obtain ⟨m, hm, rfl⟩ := he
    exact (hall m hm).1
  have hboth := refs_of_both hdist htables h.both
  have hlen : (tableRefs U t).length = 2 := by
    have : d.length = 2 := by
      rcases hboth with h | h <;> simpa using congrArg List.length h
    rwa [hd, List.length_map] at this
  obtain ⟨m₁, m₂, hm⟩ := List.length_eq_two.mp hlen
  refine ⟨m₁, m₂, hm, by rw [hd, hm]; rfl, hdist, hboth, fun m hmem => (hall m hmem).2, ?_, ?_⟩
  · exact (nextAlias_eq_ok hdist).mp h.product
  · exact (nextAlias_eq_ok hdist).mp h.inventory

/-! ## Clauses -/

theorem checkOn_ok {p i cleaned : Text} {u : Unit} : checkOn U p i cleaned = .ok u ↔
    ∃ c, extractClauseAfter U cleaned onKeywordPattern = some c ∧ normalizePredicate U c ∈ allowedOnPredicates p i := by
  unfold checkOn
  cases extractClauseAfter U cleaned onKeywordPattern <;> simp [require, raiseUnless_eq_ok]

end DataAgent.Guardrail
