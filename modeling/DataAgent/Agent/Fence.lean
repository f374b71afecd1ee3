import DataAgent.Agent.Service
import DataAgent.Python.Strip

/-!
# Code fences

`sql_generator._extract_sql` on the answers a model gives: a statement by itself, or between two Markdown fences.

* `Answer`, `Layout` : a statement with what stands around it, and where the closing fence is;
* `extractSql_fenced` : what is left of a fenced text;
* **`recovered_iff`** : the statement comes out, unless the closing fence follows it on a line with other text.
-/

namespace DataAgent.Agent
open Python

/-- A fence: three backticks or more. -/
def fence (extra : Nat) : Text := List.replicate (3 + extra) '\x60'

/-- A statement, and what an answer has around it. -/
structure Answer where
  statement : Text
  tag : Text
  before : Text
  after : Text
  /-- What stands before a closing fence on a line of its own. -/
  indent : Text
  opening : Nat
  closing : Nat
  notBlank : strip statement ≠ []
  plain : '\x60' ∉ statement
  tag_line : '\n' ∉ tag
  tag_plain : '\x60' ∉ tag
  before_space : ∀ c ∈ before, isSpace c = true
  after_space : ∀ c ∈ after, isSpace c = true
  indent_space : ∀ c ∈ indent, isSpace c = true

inductive Layout where
  | bare
  /-- The closing fence is on a line of its own. -/
  | fenceBelow
  /-- The closing fence follows the last character. -/
  | fenceAfter
  deriving DecidableEq, Repr

/-- A text between an opening fence and a closing one that follows it directly. -/
def fenced (tag z : Text) (j k : Nat) : Text := fence j ++ (tag ++ '\n' :: (z ++ fence k))

def Answer.text (a : Answer) : Layout → Text
  | .bare => a.before ++ (a.statement ++ a.after)
  | .fenceBelow => a.before ++ (fenced a.tag (a.statement ++ '\n' :: a.indent) a.opening a.closing ++ a.after)
  | .fenceAfter => a.before ++ (fenced a.tag a.statement a.opening a.closing ++ a.after)

/-- Only whitespace follows the last line break of the text. -/
def BlankLastLine (s : Text) : Prop := ∃ y l, s = y ++ '\n' :: l ∧ ∀ c ∈ l, isSpace c = true

/-! ## Fences -/

theorem fence_eq_cons (k : Nat) : fence k = '\x60' :: List.replicate (2 + k) '\x60' := by
  rw [fence, show 3 + k = (2 + k) + 1 by omega, List.replicate_succ]

theorem startsFence_fence (k : Nat) (t : Text) : startsFence (fence k ++ t) = true := by
  rw [startsFence, List.isPrefixOf_iff_prefix, fence, List.replicate_add, List.append_assoc]
  exact List.prefix_append _ _

theorem not_startsFence {c : Char} (hc : c ≠ '\x60') (t : Text) : startsFence (c :: t) = false := by
  rw [startsFence, List.replicate_succ, List.isPrefixOf_cons_cons, beq_eq_false_iff_ne.mpr hc.symm, Bool.false_and]

theorem newline_notMem_fence (k : Nat) : '\n' ∉ fence k := by
  intro h
  exact absurd (List.eq_of_mem_replicate h) (by decide)

/-- A text that ends with a fence has nothing to trim at its end. -/
theorem last_fence (t : Text) (k : Nat) : (t ++ fence k).getLast?.any isSpace = false := by
  have h : (fence k).getLast? = some '\x60' := by
    rw [fence, List.getLast?_replicate, if_neg (by omega)]
  rw [List.getLast?_append, h]
  rfl

theorem strip_fence (k : Nat) : strip (fence k) = fence k := by
  refine Trimmed.strip_eq ⟨?_, last_fence [] k⟩
  rw [fence_eq_cons]
  rfl

/-- What is trimmed off a line before its fence is whitespace alone. -/
theorem strip_append_fence {l : Text} (hl : strip l ≠ []) (k : Nat) :
    ∃ c t, strip (l ++ fence k) = c :: t ∧ c ∈ l := by
  obtain ⟨g, h, hsplit, hg, -⟩ := strip_split l
  obtain ⟨c, t, hc⟩ := List.exists_cons_of_ne_nil hl
  have hspace : isSpace c = false := by
    have hhead := (trimmed_strip l).1
    rw [hc] at hhead
    simpa using hhead
  refine ⟨c, (t ++ h) ++ fence k, ?_, mem_of_mem_strip (by rw [hc]; simp)⟩
  have htext : l ++ fence k = g ++ ((c :: (t ++ h)) ++ fence k) := by
    conv_lhs => rw [hsplit, hc]
    simp
  rw [htext, strip_append_left hg]
  exact Trimmed.strip_eq ⟨by simpa using hspace, last_fence _ k⟩

/-- A character that is no whitespace is left by a trim. -/
theorem mem_strip {t : Text} {c : Char} (h : c ∈ t) (hc : isSpace c = false) : c ∈ strip t := by
  obtain ⟨g, k, hsplit, hg, hk⟩ := strip_split t
  rw [hsplit, List.mem_append, List.mem_append] at h
  rcases h with h | h | h
  · exact absurd (hg c h) (by simp [hc])
  · exact h
  · exact absurd (hk c h) (by simp [hc])

/-! ## Lines -/

/-- The text after the last line break, if there is one. -/
theorem last_line (z : Text) : '\n' ∉ z ∨ ∃ y l, z = y ++ '\n' :: l ∧ '\n' ∉ l := by
  by_cases h : '\n' ∈ z
  · obtain ⟨l, y, hz, hl⟩ := List.eq_append_cons_of_mem (List.mem_reverse.mpr h)
    refine Or.inr ⟨y.reverse, l.reverse, ?_, by simpa using hl⟩
    rw [← List.reverse_reverse z, hz]
    simp
  · exact Or.inl h

theorem blank_of_blankLastLine {y l : Text} (hl : '\n' ∉ l) (h : BlankLastLine (y ++ '\n' :: l)) :
    ∀ c ∈ l, isSpace c = true := by
  obtain ⟨y', l', heq, hspace⟩ := h
  rcases List.append_eq_append_iff.mp heq with ⟨x, rfl, hx⟩ | ⟨x, rfl, hx⟩
  · cases x with
    | nil =>
      obtain ⟨-, rfl⟩ : True ∧ l = l' := by simpa using hx
      exact hspace
    | cons c x =>
      -- a later line break would be in the last line
      obtain ⟨rfl, rfl⟩ : '\n' = c ∧ l = x ++ '\n' :: l' := by simpa using hx
      exact absurd (by simp) hl
  · cases x with
    | nil =>
      obtain ⟨-, rfl⟩ : True ∧ l' = l := by simpa using hx
      exact hspace
    | cons c x =>
      obtain ⟨rfl, rfl⟩ : '\n' = c ∧ l' = x ++ '\n' :: l := by simpa using hx
      exact fun c hc => hspace c (by simp [hc])

/-- **What is left of a fenced text**: the closing fence goes only with a line that has nothing else. -/
theorem extractSql_fenced {before after tag z : Text} {j k : Nat} (hb : ∀ c ∈ before, isSpace c = true)
    (ha : ∀ c ∈ after, isSpace c = true) (htag : '\n' ∉ tag) (hz : '\x60' ∉ z) (hne : strip z ≠ []) :
    (BlankLastLine z → extractSql (before ++ (fenced tag z j k ++ after)) = strip z) ∧
      (¬ BlankLastLine z → extractSql (before ++ (fenced tag z j k ++ after)) = strip (z ++ fence k)) := by
  have htrim : strip (before ++ (fenced tag z j k ++ after)) = fenced tag z j k := by
    rw [strip_append_left hb, strip_append_right ha]
    refine Trimmed.strip_eq ⟨?_, ?_⟩
    · rw [fenced, fence_eq_cons]
      rfl
    · have h := last_fence (fence j ++ (tag ++ '\n' :: z)) k
      simpa [fenced] using h
  have hstarts : startsFence (fenced tag z j k) = true := startsFence_fence j _
  have hlines : (splitLines (fenced tag z j k)).drop 1 = (z ++ fence k).splitOn '\n' := by
    have hfirst : '\n' ∉ fence j ++ tag := by
      rw [List.mem_append]
      exact not_or.mpr ⟨newline_notMem_fence j, htag⟩
    rw [splitLines, fenced, ← List.append_assoc, List.splitOn_append_cons_self_of_not_mem hfirst]
    rfl
  -- the last line of the rest, without its fence
  have hfound : ∀ l : Text, '\x60' ∉ l → (startsFence (strip (l ++ fence k)) = true ↔ ∀ c ∈ l, isSpace c = true) := by
    intro l hl
    constructor
    · intro h
      by_contra hblank
      obtain ⟨c, t, hc, hmem⟩ := strip_append_fence (fun hnil => hblank (strip_eq_nil.mp hnil)) k
      rw [hc, not_startsFence (fun he => hl (he ▸ hmem))] at h
      exact absurd h (by decide)
    · intro h
      rw [strip_append_left h, strip_fence, ← List.append_nil (fence k)]
      exact startsFence_fence k _
  simp only [extractSql, htrim, hstarts, if_true, hlines]
  rcases last_line z with hno | ⟨y, l, rfl, hl⟩
  · have hsingle : (z ++ fence k).splitOn '\n' = [z ++ fence k] := by
      refine List.splitOn_eq_singleton ?_
      rw [List.mem_append]
      exact not_or.mpr ⟨hno, newline_notMem_fence k⟩
    have hkeep : startsFence (strip (z ++ fence k)) = false := by
      rw [← Bool.not_eq_true, hfound z hz]
      exact fun h => hne (strip_eq_nil.mpr h)
    refine ⟨fun ⟨y, l, h, _⟩ => absurd (by rw [h]; simp) hno, fun _ => ?_⟩
    simp [hsingle, hkeep]
  · have hl' : '\x60' ∉ l := fun hm => hz (by simp [hm])
    have hsplit : ((y ++ '\n' :: l) ++ fence k).splitOn '\n' = y.splitOn '\n' ++ [l ++ fence k] := by
      have hline : '\n' ∉ l ++ fence k := by
        rw [List.mem_append]
        exact not_or.mpr ⟨hl, newline_notMem_fence k⟩
      rw [List.append_assoc, List.cons_append, List.splitOn_append_cons_self, List.splitOn_eq_singleton hline]
    constructor
    · intro hblank
      have hspace := blank_of_blankLastLine hl hblank
      have hdrop := (hfound l hl').mpr hspace
      simp only [hsplit, List.getLast?_concat, Option.any_some, hdrop, if_true, List.dropLast_concat,
        List.intercalate_splitOn]
      refine (strip_append_right (fun c hc => ?_) y).symm
      rcases List.mem_cons.mp hc with rfl | hc
      · rfl
      · exact hspace c hc
    · intro hblank
      have hkeep : startsFence (strip (l ++ fence k)) = false := by
        rw [← Bool.not_eq_true, hfound l hl']
        exact fun h => hblank ⟨y, l, rfl, h⟩
      simp only [hsplit, List.getLast?_concat, Option.any_some, hkeep]
      rw [← hsplit, if_neg (by simp), List.intercalate_splitOn]

/-! ## Answers -/

/-- The statement comes out trimmed, with no backtick. -/
def Recovered (a : Answer) (layout : Layout) : Prop :=
  extractSql (a.text layout) = strip a.statement ∧ '\x60' ∉ extractSql (a.text layout)

theorem recovered_of_eq {a : Answer} {layout : Layout} (h : extractSql (a.text layout) = strip a.statement) :
    Recovered a layout :=
  ⟨h, fun hm => a.plain (mem_of_mem_strip (h ▸ hm))⟩

/-- **The statement is recovered exactly if no closing fence follows it on a line that has other text.** -/
theorem recovered_iff (a : Answer) (layout : Layout) :
    Recovered a layout ↔ (layout = .fenceAfter → BlankLastLine a.statement) := by
  cases layout with
  | bare =>
    refine iff_of_true (recovered_of_eq ?_) (by simp)
    have hstrip : strip (a.text .bare) = strip a.statement := by
      rw [Answer.text, strip_append_left a.before_space, strip_append_right a.after_space]
    obtain ⟨c, t, hc⟩ := List.exists_cons_of_ne_nil a.notBlank
    have hne : c ≠ '\x60' := fun he => a.plain (mem_of_mem_strip (by rw [hc, he]; simp))
    rw [extractSql, hstrip, hc, not_startsFence hne]
    rfl
  | fenceBelow =>
    refine iff_of_true (recovered_of_eq ?_) (by simp)
    have hspace : ∀ c ∈ '\n' :: a.indent, isSpace c = true := List.forall_mem_cons.mpr ⟨rfl, a.indent_space⟩
    have hstrip : strip (a.statement ++ '\n' :: a.indent) = strip a.statement := strip_append_right hspace _
    have hplain : '\x60' ∉ a.statement ++ '\n' :: a.indent := by
      rw [List.mem_append]
      exact not_or.mpr ⟨a.plain, fun hm => absurd (hspace _ hm) (by decide)⟩
    have h := extractSql_fenced (j := a.opening) (k := a.closing) a.before_space a.after_space a.tag_line hplain
      (by rw [hstrip]; exact a.notBlank)
    rw [Answer.text, h.1 ⟨_, _, rfl, a.indent_space⟩, hstrip]
  | fenceAfter =>
    have h := extractSql_fenced (j := a.opening) (k := a.closing) a.before_space a.after_space a.tag_line a.plain
      a.notBlank
    constructor
    · rintro ⟨-, hno⟩ -
      by_contra hblank
      rw [Answer.text, h.2 hblank] at hno
      exact hno (mem_strip (by rw [fence_eq_cons]; simp) (by decide))
    · exact fun hblank => recovered_of_eq (h.1 (hblank rfl))

/-- One line of SQL with the closing fence at its end. -/
def oneLine : Answer where
  statement := "SELECT 1".toList
  tag := "sql".toList
  before := []
  after := []
  indent := []
  opening := 0
  closing := 0
  notBlank := by decide
  plain := by decide
  tag_line := by decide
  tag_plain := by decide
  before_space := by simp
  after_space := by simp
  indent_space := by simp

/-- The closing fence stays in the statement. -/
theorem fence_left : ¬ ∀ (a : Answer) (layout : Layout), Recovered a layout := by
  intro hall
  exact absurd (hall oneLine .fenceAfter).1 (by decide +kernel)

end DataAgent.Agent
