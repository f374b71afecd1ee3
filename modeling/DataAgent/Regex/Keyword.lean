import DataAgent.Regex.Words

/-!
# Keyword patterns

`re.IGNORECASE` is `eqvIgnoreCase` on a literal and `identStart`, `identChar` on the classes of an identifier.

* `kw`, `keywordPattern`, `keywordsPattern` : keywords in any letter case, with word boundaries around them;
* `search_keywords_isSome` : a keyword that touches no word character is found.
-/

namespace DataAgent.Regex
open Python Pattern

/-- A pattern character against a text character under `re.IGNORECASE`. -/
def eqvIgnoreCase (p c : Char) : Bool :=
  p.toLower == c.toLower || (p.toLower == 'i' && (c == '\u0130' || c == '\u0131')) ||
    (p.toLower == 's' && c == '\u017f') || (p.toLower == 'k' && c == '\u212a')

/-- `[A-Za-z_]` under `re.IGNORECASE`. -/
def identStart (c : Char) : Bool := c.isAlpha || c == '_' || foldChars.contains c

/-- `[A-Za-z0-9_]` under `re.IGNORECASE`. -/
def identChar (c : Char) : Bool := c.isAlphanum || c == '_' || foldChars.contains c

def chr (c : Char) : Pattern := char (· == c)

/-- A keyword of a pattern, in any letter case. -/
def kw (s : String) : Pattern := lit eqvIgnoreCase s.toList

/-- `\b(K)\b`. -/
def keywordPattern (s : String) : Pattern := cat [wordBoundary, kw s, wordBoundary]

/-- `\b(K1|K2|...)\b`. -/
def keywordsPattern (ks : List String) : Pattern :=
  cat [wordBoundary, group 1 (oneOf (ks.map kw)), wordBoundary]

/-! ## Finding a keyword -/

theorem searchFrom_isSome {word : Char → Bool} {r : Pattern} (x y b : Text)
    (h : (matchAt word r ⟨x.reverse ++ b, y⟩).isSome) : (searchFrom word r b (x ++ y)).isSome := by
  induction x generalizing b with
  | nil =>
    cases y with
    | nil => exact h
    | cons c y =>
      obtain ⟨m, hm⟩ := Option.isSome_iff_exists.mp h
      rw [List.nil_append, searchFrom, show matchAt word r ⟨b, c :: y⟩ = some m from hm]
      rfl
  | cons c x ih =>
    rw [List.cons_append, searchFrom]
    split
    · rfl
    · exact ih (c :: b) (by simpa using h)

theorem matchAt_isSome {word : Char → Bool} {r : Pattern} {s : Cursor} :
    (matchAt word r s).isSome ↔ run word r s ≠ [] := by
  simp [matchAt, first]

theorem run_seq_ne_nil {word : Char → Bool} {r q : Pattern} {s : Cursor} {x : Cursor × Groups}
    (hx : x ∈ run word r s) (hq : run word q x.1 ≠ []) : run word (seq r q) s ≠ [] := by
  obtain ⟨y, hy⟩ := List.exists_mem_of_ne_nil _ hq
  refine List.ne_nil_of_mem (a := (y.1, y.2 ++ x.2)) ?_
  exact List.mem_flatMap.mpr ⟨x, hx, List.mem_map.mpr ⟨y, hy, rfl⟩⟩

theorem mem_run_oneOf {word : Char → Bool} {rs : List Pattern} {r : Pattern} {s : Cursor} {x : Cursor × Groups}
    (hr : r ∈ rs) (hx : x ∈ run word r s) : x ∈ run word (oneOf rs) s := by
  induction rs with
  | nil => simp at hr
  | cons q rs ih =>
    cases rs with
    | nil =>
      obtain rfl : r = q := by simpa using hr
      exact hx
    | cons q' rs =>
      show x ∈ run word q s ++ run word (oneOf (q' :: rs)) s
      rw [List.mem_append]
      rcases List.mem_cons.mp hr with rfl | hr
      · exact Or.inl hx
      · exact Or.inr (ih hr)

theorem startsWith_eqvIgnoreCase {k w : Text} (y : Text) (h : w.map Char.toUpper = k) :
    startsWith eqvIgnoreCase k (w ++ y) = true := by
  subst h
  induction w with
  | nil => rfl
  | cons c w ih => simp [startsWith, eqvIgnoreCase, ih]

/-- **A keyword that touches no word character is found.** -/
theorem search_keywords_isSome (word : Char → Bool) {ks : List String} {k : String} (hk : k ∈ ks) {x w y : Text}
    (hw : w.map Char.toUpper = k.toList) (hne : w ≠ []) (hword : ∀ c ∈ w, word c = true)
    (hx : x.getLast?.any word = false) (hy : y.head?.any word = false) :
    (search word (keywordsPattern ks) (x ++ (w ++ y))).isSome := by
  have hlen : k.toList.length = w.length := by rw [← hw, List.length_map]
  refine searchFrom_isSome x (w ++ y) [] ?_
  rw [List.append_nil, matchAt_isSome]
  have hstart : atBoundary word ⟨x.reverse, w ++ y⟩ = true := by
    obtain ⟨c, w', rfl⟩ := List.exists_cons_of_ne_nil hne
    simp [atBoundary, List.head?_reverse, hx, hword c]
  have hlit : (⟨w.reverse ++ x.reverse, y⟩, []) ∈ run word (kw k) ⟨x.reverse, w ++ y⟩ := by
    rw [kw, run_lit, if_pos (startsWith_eqvIgnoreCase y hw), hlen, Cursor.advance_append]
    exact List.mem_singleton.mpr rfl
  have hend : atBoundary word ⟨w.reverse ++ x.reverse, y⟩ = true := by
    obtain ⟨w', c, rfl⟩ := List.eq_nil_or_concat w |>.resolve_left hne
    simp [atBoundary, hy, hword c]
  refine run_seq_ne_nil (x := (⟨x.reverse, w ++ y⟩, [])) (by simp [run, hstart]) ?_
  refine run_seq_ne_nil (x := (⟨w.reverse ++ x.reverse, y⟩, [(1, w)])) ?_ ?_
  · rw [run, List.mem_map]
    exact ⟨_, mem_run_oneOf (List.mem_map.mpr ⟨k, hk, rfl⟩) hlit, by rw [consumed_append]⟩
  · exact run_seq_ne_nil (x := (⟨w.reverse ++ x.reverse, y⟩, [])) (by simp [run, hend]) (by simp [run])

end DataAgent.Regex
