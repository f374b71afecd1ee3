import Mathlib

/-!
# ODBC connection strings

Attributes `key=value` with semicolons between them, read one character at a time. A value that begins with a brace
goes on to the first closing brace that is not doubled.

* `scan`, `parse` : the reader; `Reads` : what it gives, the first occurrence of a key winning;
* `Field`, `render` : attributes written one after another, in braces or bare, without any escape;
* **`reads_render_iff`** : what is written is what is read exactly if every field is `Safe`.
-/

namespace DataAgent.Odbc

/-- Where the reader is: the key so far, and the value so far. -/
inductive Mode where
  | key (k : List Char)
  /-- After the `=`. -/
  | start (k : List Char)
  | bare (k v : List Char)
  | braced (k v : List Char)
  /-- After a closing brace, which may turn out to be doubled. -/
  | closed (k v : List Char)

/-- The attributes in the order of the text; nothing if the text is malformed. -/
def scan : Mode → List Char → Option (List (List Char × List Char))
  | .key [], [] => some []
  | .key _, [] => none
  | .start k, [] => some [(k, [])]
  | .bare k v, [] => some [(k, v)]
  | .braced _ _, [] => none
  | .closed k v, [] => some [(k, v)]
  | .key k, c :: t => if c = '=' then scan (.start k) t else scan (.key (k ++ [c])) t
  | .start k, c :: t =>
    if c = '{' then scan (.braced k []) t
    else if c = ';' then (scan (.key []) t).map ((k, []) :: ·)
    else scan (.bare k [c]) t
  | .bare k v, c :: t =>
    if c = ';' then (scan (.key []) t).map ((k, v) :: ·) else scan (.bare k (v ++ [c])) t
  | .braced k v, c :: t => if c = '}' then scan (.closed k v) t else scan (.braced k (v ++ [c])) t
  | .closed k v, c :: t =>
    if c = '}' then scan (.braced k (v ++ ['}'])) t
    else if c = ';' then (scan (.key []) t).map ((k, v) :: ·)
    else none

def parse (t : List Char) : Option (List (List Char × List Char)) := scan (.key []) t

/-- The text reads as the attributes: it is well formed, and under every key the first occurrence has the value that
is expected there, if one is. -/
def Reads (t : List Char) (expected : List (List Char × List Char)) : Prop :=
  ∃ pairs, parse t = some pairs ∧ ∀ k, pairs.lookup k = expected.lookup k

/-! ## Values -/

/-- The content of a value in braces, after the opening one. -/
def content : List Char → Option (List Char)
  | [] => none
  | '}' :: '}' :: t => (content t).map ('}' :: ·)
  | '}' :: _ => some []
  | c :: t => (content t).map (c :: ·)

theorem content_cons {c : Char} (hc : c ≠ '}') (t : List Char) : content (c :: t) = (content t).map (c :: ·) := by
  rw [content]
  · rintro u rfl
    exact absurd rfl hc
  · rintro rfl
    exact absurd rfl hc

theorem content_close {c : Char} (hc : c ≠ '}') (t : List Char) : content ('}' :: c :: t) = some [] := by
  rw [content]
  rintro u h
  obtain ⟨rfl, -⟩ := List.cons.inj h
  exact absurd rfl hc

theorem content_append {u : List Char} (hu : '}' ∉ u) (t : List Char) :
    content (u ++ t) = (content t).map (u ++ ·) := by
  induction u with
  | nil => simp
  | cons c u ih =>
    rw [List.mem_cons, not_or] at hu
    rw [List.cons_append, content_cons (Ne.symm hu.1), ih hu.2, Option.map_map]
    rfl

/-- What is read in braces is the content. -/
theorem scan_braced {k v t : List Char} {pairs : List (List Char × List Char)}
    (h : scan (.braced k v) t = some pairs) : ∃ w rest, content t = some w ∧ pairs = (k, v ++ w) :: rest := by
  fun_induction content t generalizing v with
  | case1 => simp [scan] at h
  | case2 t ih =>
    simp only [scan, if_true] at h
    obtain ⟨w, rest, hw, rfl⟩ := ih h
    exact ⟨'}' :: w, rest, by rw [hw]; rfl, by simp⟩
  | case3 t ht =>
    rw [scan, if_pos rfl] at h
    refine ⟨[], ?_⟩
    cases t with
    | nil =>
      obtain rfl : [(k, v)] = pairs := by simpa [scan] using h
      exact ⟨[], rfl, by simp⟩
    | cons c t =>
      have hc : c ≠ '}' := by
        rintro rfl
        exact ht t rfl
      rw [scan, if_neg hc] at h
      split at h
      · obtain ⟨rest, -, rfl⟩ := Option.map_eq_some_iff.mp h
        exact ⟨rest, rfl, by simp⟩
      · simp at h
  | case4 c t h1 h2 ih =>
    have hc : c ≠ '}' := fun he => h2 he
    rw [scan, if_neg hc] at h
    obtain ⟨w, rest, hw, rfl⟩ := ih h
    exact ⟨c :: w, rest, by rw [hw]; rfl, by simp⟩

/-- No value is read back with more closing braces before it: each doubled brace that is read as one leaves the rest
one brace short. -/
theorem content_ne_of_braces (t v : List Char) (n : Nat) :
    content (v ++ '}' :: ';' :: t) ≠ some (List.replicate (n + 1) '}' ++ v) := by
  fun_induction content v generalizing n with
  | case1 =>
    rw [List.nil_append, content_close (by decide)]
    simp [List.replicate_succ]
  | case2 v ih =>
    intro h
    rw [List.cons_append, List.cons_append, content] at h
    obtain ⟨w, hw, hcons⟩ := Option.map_eq_some_iff.mp h
    rw [List.replicate_succ, List.cons_append, List.cons.injEq] at hcons
    refine ih (n + 1) (hw.trans (congrArg some ?_))
    rw [hcons.2, List.replicate_succ', List.append_assoc, List.singleton_append, List.replicate_succ',
      List.append_assoc]
    rfl
  | case3 v hv =>
    cases v with
    | nil =>
      rw [show ['}'] ++ '}' :: ';' :: t = '}' :: '}' :: ';' :: t from rfl, content, content_cons (by decide)]
      cases content t <;> cases n <;> simp [List.replicate_succ]
    | cons c v =>
      have hc : c ≠ '}' := by
        rintro rfl
        exact hv v rfl
      rw [List.cons_append, List.cons_append, content_close hc]
      simp [List.replicate_succ]
  | case4 c v h1 h2 ih =>
    have hc : c ≠ '}' := fun he => h2 he
    rw [List.cons_append, content_cons hc]
    cases content (v ++ '}' :: ';' :: t) <;> simp [List.replicate_succ, hc]

/-- **A value with a closing brace in it is not read back from braces.** -/
theorem content_ne_of_mem {x : List Char} (hx : '}' ∈ x) (t : List Char) : content (x ++ '}' :: ';' :: t) ≠ some x := by
  obtain ⟨u, v, rfl, hu⟩ := List.eq_append_cons_of_mem hx
  intro h
  rw [List.append_assoc, content_append hu] at h
  obtain ⟨w, hw, hcons⟩ := Option.map_eq_some_iff.mp h
  rw [List.append_cancel_left hcons] at hw
  cases v with
  | nil =>
    rw [show ['}'] ++ '}' :: ';' :: t = '}' :: '}' :: ';' :: t from rfl, content, content_cons (by decide)] at hw
    cases ht : content t <;> simp [ht] at hw
  | cons c v =>
    by_cases hc : c = '}'
    · subst hc
      rw [List.cons_append, List.cons_append, content] at hw
      obtain ⟨w', hw', hcons'⟩ := Option.map_eq_some_iff.mp hw
      exact content_ne_of_braces t v 0 (hw'.trans (congrArg some (List.cons.inj hcons').2))
    · rw [List.cons_append, List.cons_append, content_close hc] at hw
      simp at hw

theorem content_ne_opening (t w : List Char) : content ('}' :: t) ≠ some ('{' :: w) := by
  cases t with
  | nil => simp [content]
  | cons c t =>
    by_cases hc : c = '}'
    · subst hc
      rw [content]
      cases content t <;> simp
    · rw [content_close hc]
      simp

/-- A bare value that begins with a brace is not read back: what is read as its content is one brace short. -/
theorem content_ne_of_opening (t r : List Char) (n : Nat) :
    content (r ++ ';' :: t) ≠ some (List.replicate (n + 1) '{' ++ r) := by
  induction r with
  | nil =>
    rw [List.nil_append, content_cons (by decide)]
    cases content t <;> simp [List.replicate_succ]
  | cons c r ih =>
    intro h
    by_cases hclose : c = '}'
    · subst hclose
      exact content_ne_opening _ _ h
    · rw [List.cons_append, content_cons hclose] at h
      obtain ⟨w, hw, hcons⟩ := Option.map_eq_some_iff.mp h
      rw [List.replicate_succ, List.cons_append, List.cons.injEq] at hcons
      obtain ⟨rfl, hcons⟩ := hcons
      refine ih (hw.trans (congrArg some ?_))
      rw [hcons, List.replicate_succ', List.append_assoc]
      rfl

/-! ## Fields -/

/-- An attribute to be written, its value in braces or bare. -/
structure Field where
  key : List Char
  inBraces : Bool
  value : List Char

def Field.pair (f : Field) : List Char × List Char := (f.key, f.value)

def Field.render (f : Field) : List Char :=
  f.key ++ '=' :: ((if f.inBraces then '{' :: (f.value ++ ['}']) else f.value) ++ [';'])

def render (fs : List Field) : List Char := fs.flatMap Field.render

/-- What is written of the value is what is read: no brace closes it early, or no semicolon ends it and no brace
opens it. -/
def Field.Safe (f : Field) : Prop :=
  if f.inBraces then '}' ∉ f.value else ';' ∉ f.value ∧ f.value.head? ≠ some '{'

theorem scan_key {key : List Char} (h : '=' ∉ key) (k t : List Char) :
    scan (.key k) (key ++ '=' :: t) = scan (.start (k ++ key)) t := by
  induction key generalizing k with
  | nil => simp [scan]
  | cons c key ih =>
    rw [List.mem_cons, not_or] at h
    rw [List.cons_append, scan, if_neg (Ne.symm h.1), ih h.2]
    simp

theorem scan_bare {u : List Char} (h : ';' ∉ u) (k v t : List Char) :
    scan (.bare k v) (u ++ ';' :: t) = (scan (.key []) t).map ((k, v ++ u) :: ·) := by
  induction u generalizing v with
  | nil => simp [scan]
  | cons c u ih =>
    rw [List.mem_cons, not_or] at h
    rw [List.cons_append, scan, if_neg (Ne.symm h.1), ih h.2]
    simp

theorem scan_start_bare {u : List Char} (h : ';' ∉ u) (hu : u.head? ≠ some '{') (k t : List Char) :
    scan (.start k) (u ++ ';' :: t) = (scan (.key []) t).map ((k, u) :: ·) := by
  cases u with
  | nil => simp [scan]
  | cons c u =>
    rw [List.mem_cons, not_or] at h
    rw [List.cons_append, scan, if_neg (by simpa using hu), if_neg (Ne.symm h.1), scan_bare h.2]
    simp

theorem scan_braced_plain {u : List Char} (h : '}' ∉ u) (k v t : List Char) :
    scan (.braced k v) (u ++ '}' :: ';' :: t) = (scan (.key []) t).map ((k, v ++ u) :: ·) := by
  induction u generalizing v with
  | nil => simp [scan]
  | cons c u ih =>
    rw [List.mem_cons, not_or] at h
    rw [List.cons_append, scan, if_neg (Ne.symm h.1), ih h.2]
    simp

/-- **A safe field is read as it was written.** -/
theorem Field.Safe.scan {f : Field} (h : f.Safe) (hkey : '=' ∉ f.key) (t : List Char) :
    Odbc.scan (.key []) (f.render ++ t) = (Odbc.scan (.key []) t).map (f.pair :: ·) := by
  obtain ⟨key, inBraces, value⟩ := f
  cases inBraces with
  | true =>
    have hv : '}' ∉ value := by simpa [Field.Safe] using h
    have htext : Field.render ⟨key, true, value⟩ ++ t = key ++ '=' :: '{' :: (value ++ '}' :: ';' :: t) := by
      simp [Field.render]
    rw [htext, scan_key hkey, Odbc.scan, if_pos rfl, scan_braced_plain hv]
    rfl
  | false =>
    have hv : ';' ∉ value ∧ value.head? ≠ some '{' := by simpa [Field.Safe] using h
    have htext : Field.render ⟨key, false, value⟩ ++ t = key ++ '=' :: (value ++ ';' :: t) := by
      simp [Field.render]
    rw [htext, scan_key hkey, scan_start_bare hv.1 hv.2]
    rfl

/-- **Any other field is read with another value, if at all.** -/
theorem scan_of_not_safe {f : Field} (h : ¬ f.Safe) (hkey : '=' ∉ f.key) (t : List Char)
    {pairs : List (List Char × List Char)} (hp : scan (.key []) (f.render ++ t) = some pairs) :
    pairs.lookup f.key ≠ some f.value := by
  obtain ⟨key, inBraces, value⟩ := f
  have hfirst : ∀ (w : List Char) (rest : List (List Char × List Char)),
      ((key, w) :: rest).lookup key = some value → w = value := by
    intro w rest hl
    simpa [List.lookup] using hl
  intro hl
  cases inBraces with
  | true =>
    have hv : '}' ∈ value := by simpa [Field.Safe] using h
    have htext : Field.render ⟨key, true, value⟩ ++ t = key ++ '=' :: '{' :: (value ++ '}' :: ';' :: t) := by
      simp [Field.render]
    rw [htext, scan_key hkey, scan, if_pos rfl] at hp
    obtain ⟨w, rest, hw, rfl⟩ := scan_braced hp
    have hwv : w = value := hfirst w rest hl
    exact content_ne_of_mem hv t (hwv ▸ hw)
  | false =>
    have htext : Field.render ⟨key, false, value⟩ ++ t = key ++ '=' :: (value ++ ';' :: t) := by
      simp [Field.render]
    rw [htext, scan_key hkey] at hp
    by_cases hopen : value.head? = some '{'
    · obtain ⟨r, rfl⟩ : ∃ r, value = '{' :: r := by
        cases value with
        | nil => simp at hopen
        | cons c r => exact ⟨r, by rw [(Option.some.inj hopen : c = '{')]⟩
      rw [List.cons_append, scan, if_pos rfl] at hp
      obtain ⟨w, rest, hw, rfl⟩ := scan_braced hp
      have hwv : w = '{' :: r := hfirst w rest hl
      exact content_ne_of_opening t r 0 (hw.trans (congrArg some hwv))
    · have hv : ';' ∈ value := by
        by_contra hno
        exact h (by simpa [Field.Safe] using ⟨hno, hopen⟩)
      obtain ⟨u, x, rfl, hu⟩ := List.eq_append_cons_of_mem hv
      have hhead : u.head? ≠ some '{' := by
        intro he
        rw [List.head?_append, he] at hopen
        exact hopen rfl
      rw [List.append_assoc, List.cons_append, scan_start_bare hu hhead] at hp
      obtain ⟨rest, -, rfl⟩ := Option.map_eq_some_iff.mp hp
      have hlen := congrArg List.length (hfirst u rest hl)
      simp at hlen

/-- The keys of the fields differ, and none has an equals sign in it. -/
structure Keys (fs : List Field) : Prop where
  nodup : (fs.map Field.key).Nodup
  plain : ∀ f ∈ fs, '=' ∉ f.key

/-- The induction over the fields; `ks` are the keys that have been read. -/
theorem scan_render_iff {fs : List Field} (hfs : Keys fs) (ks : List (List Char))
    (hks : ∀ f ∈ fs, f.key ∉ ks) :
    (∃ pairs, scan (.key []) (render fs) = some pairs ∧
      ∀ k, k ∉ ks → pairs.lookup k = (fs.map Field.pair).lookup k) ↔ ∀ f ∈ fs, f.Safe := by
  induction fs generalizing ks with
  | nil => simp [render, scan]
  | cons f fs ih =>
    have hnodup := List.nodup_cons.mp hfs.nodup
    have hplain := List.forall_mem_cons.mp hfs.plain
    have hfresh : f.key ∉ ks := hks f (by simp)
    have hrender : render (f :: fs) = f.render ++ render fs := rfl
    rw [List.forall_mem_cons, hrender]
    by_cases hsafe : f.Safe
    · have ih := ih ⟨hnodup.2, hplain.2⟩ (f.key :: ks) fun g hg hmem => by
        rcases List.mem_cons.mp hmem with he | hmem
        · exact hnodup.1 (he ▸ List.mem_map_of_mem hg)
        · exact hks g (by simp [hg]) hmem
      rw [hsafe.scan hplain.1, and_iff_right hsafe, ← ih]
      have hskip : ∀ (k : List Char) (l : List (List Char × List Char)), k ≠ f.key →
          (f.pair :: l).lookup k = l.lookup k := by
        intro k l hk
        rw [Field.pair, List.lookup_cons, beq_eq_false_iff_ne.mpr hk]
      constructor
      · rintro ⟨pairs, hpairs, hlookup⟩
        obtain ⟨rest, hrest, rfl⟩ := Option.map_eq_some_iff.mp hpairs
        refine ⟨rest, hrest, fun k hk => ?_⟩
        rw [List.mem_cons, not_or] at hk
        have h := hlookup k hk.2
        rwa [List.map_cons, hskip k _ hk.1, hskip k _ hk.1] at h
      · rintro ⟨rest, hrest, hlookup⟩
        refine ⟨f.pair :: rest, by rw [hrest]; rfl, fun k hk => ?_⟩
        rw [List.map_cons]
        by_cases he : k = f.key
        · simp [he, Field.pair]
        · rw [hskip k _ he, hskip k _ he, hlookup k (by simp [he, hk])]
    · refine iff_of_false ?_ fun h => hsafe h.1
      rintro ⟨pairs, hpairs, hlookup⟩
      have h := hlookup f.key hfresh
      rw [List.map_cons, Field.pair, List.lookup_cons_self] at h
      exact scan_of_not_safe hsafe hplain.1 _ hpairs h

/-- **What is written is what is read exactly if every field is safe.** -/
theorem reads_render_iff {fs : List Field} (hfs : Keys fs) :
    Reads (render fs) (fs.map Field.pair) ↔ ∀ f ∈ fs, f.Safe := by
  rw [← scan_render_iff hfs [] (by simp)]
  simp [Reads, parse]

end DataAgent.Odbc
