import Mathlib.Data.List.Induction
import Mathlib.Data.List.Nodup

/-!
# Dictionaries

A Python `dict`: entries in the order in which their keys came first, no key twice.

* `Dict.alter` : `d[k] = f(d.get(k))`, in place or at the end; `get?_alter`, `mem_keys_alter`;
* `Dict.group` : the loop that files rows under their keys;
* **`get?_group`** : what is filed under a key comes from the rows with this key, in their order; **`keys_group`** :
  the keys come in the order of their first rows.
-/

namespace DataAgent.Python

variable {K V R α : Type*} [DecidableEq K]

/-! ## First occurrences -/

/-- The distinct values of a list, in the order in which they came first. -/
def firsts : List K → List K
  | [] => []
  | k :: l => k :: (firsts l).filter (· ≠ k)

theorem mem_firsts (k : K) (l : List K) : k ∈ firsts l ↔ k ∈ l := by
  induction l with
  | nil => rfl
  | cons a l ih =>
    rw [firsts, List.mem_cons, List.mem_cons, List.mem_filter, ih]
    by_cases h : k = a <;> simp [h]

theorem nodup_firsts (l : List K) : (firsts l).Nodup := by
  induction l with
  | nil => exact List.nodup_nil
  | cons a l ih => exact List.nodup_cons.mpr ⟨by simp, ih.filter _⟩

theorem firsts_concat (l : List K) (k : K) : firsts (l ++ [k]) = if k ∈ l then firsts l else firsts l ++ [k] := by
  induction l with
  | nil => rfl
  | cons a l ih =>
    rw [List.cons_append, firsts, firsts, ih]
    by_cases hl : k ∈ l
    · rw [if_pos hl, if_pos (List.mem_cons_of_mem _ hl)]
    · rw [if_neg hl, List.filter_append]
      by_cases ha : k = a <;> simp [ha, hl]

theorem filter_firsts (p : K → Bool) (l : List K) : (firsts l).filter p = firsts (l.filter p) := by
  induction l using List.reverseRecOn with
  | nil => rfl
  | append_singleton l k ih =>
    rw [firsts_concat, List.filter_append]
    by_cases hp : p k
    · have hmem : k ∈ l.filter p ↔ k ∈ l := by rw [List.mem_filter, and_iff_left hp]
      rw [List.filter_cons_of_pos hp, List.filter_nil, firsts_concat, if_congr hmem rfl rfl]
      split
      · exact ih
      · rw [List.filter_append, ih, List.filter_cons_of_pos hp, List.filter_nil]
    · rw [List.filter_cons_of_neg hp, List.filter_nil, List.append_nil, ← ih]
      split
      · rfl
      · rw [List.filter_append, List.filter_cons_of_neg hp, List.filter_nil, List.append_nil]

/-- Repetitions that are dropped first do not matter. -/
theorem firsts_map_firsts {L : Type*} [DecidableEq L] (f : K → L) (l : List K) :
    firsts ((firsts l).map f) = firsts (l.map f) := by
  induction l using List.reverseRecOn with
  | nil => rfl
  | append_singleton l k ih =>
    rw [firsts_concat, List.map_append, List.map_cons, List.map_nil, firsts_concat, ← ih]
    by_cases hk : k ∈ l
    · rw [if_pos hk, if_pos (List.mem_map_of_mem hk)]
    · have hmem : f k ∈ (firsts l).map f ↔ f k ∈ l.map f := by simp [mem_firsts]
      rw [if_neg hk, List.map_append, List.map_cons, List.map_nil, firsts_concat, if_congr hmem rfl rfl]

theorem map_firsts_of_injOn {L : Type*} [DecidableEq L] {f : K → L} {l : List K}
    (hf : ∀ a ∈ l, ∀ b ∈ l, f a = f b → a = b) : (firsts l).map f = firsts (l.map f) := by
  induction l using List.reverseRecOn with
  | nil => rfl
  | append_singleton l k ih =>
    have ih := ih fun a ha b hb => hf a (by simp [ha]) b (by simp [hb])
    have hmem : f k ∈ l.map f ↔ k ∈ l := by
      refine ⟨fun h => ?_, List.mem_map_of_mem⟩
      obtain ⟨a, ha, he⟩ := List.mem_map.mp h
      exact hf a (by simp [ha]) k (by simp) he ▸ ha
    rw [firsts_concat, List.map_append, List.map_cons, List.map_nil, firsts_concat, ← ih, if_congr hmem rfl rfl]
    split
    · rfl
    · simp

/-! ## Entries -/

structure Dict (K V : Type*) where
  entries : List (K × V)
  nodup : (entries.map Prod.fst).Nodup

namespace Dict

/-- The value of the first entry with a key. -/
def lookup (k : K) : List (K × V) → Option V
  | [] => none
  | (a, v) :: l => if k = a then some v else lookup k l

def empty : Dict K V := ⟨[], List.nodup_nil⟩

def keys (d : Dict K V) : List K := d.entries.map Prod.fst

def values (d : Dict K V) : List V := d.entries.map Prod.snd

/-- `d.get(k)`. -/
def get? (d : Dict K V) (k : K) : Option V := lookup k d.entries

def alterEntries (k : K) (f : Option V → V) : List (K × V) → List (K × V)
  | [] => [(k, f none)]
  | (a, v) :: l => if a = k then (a, f (some v)) :: l else (a, v) :: alterEntries k f l

theorem keys_alterEntries (k : K) (f : Option V → V) (l : List (K × V)) : (alterEntries k f l).map Prod.fst =
    if k ∈ l.map Prod.fst then l.map Prod.fst else l.map Prod.fst ++ [k] := by
  induction l with
  | nil => rfl
  | cons x l ih =>
    obtain ⟨a, v⟩ := x
    rw [alterEntries]
    by_cases h : a = k
    · simp [h]
    · simp only [h, if_false, List.map_cons, ih, List.mem_cons, Ne.symm h, false_or]
      split <;> simp

/-- `d[k] = f(d.get(k))`. -/
def alter (d : Dict K V) (k : K) (f : Option V → V) : Dict K V where
  entries := alterEntries k f d.entries
  nodup := by
    rw [keys_alterEntries]
    split
    · exact d.nodup
    · rename_i h
      exact List.nodup_append'.mpr ⟨d.nodup, by simp, by simpa using h⟩

theorem keys_alter (d : Dict K V) (k : K) (f : Option V → V) :
    (d.alter k f).keys = if k ∈ d.keys then d.keys else d.keys ++ [k] := keys_alterEntries k f d.entries

theorem lookup_alterEntries (k a : K) (f : Option V → V) (l : List (K × V)) : lookup a (alterEntries k f l) =
    if a = k then some (f (lookup k l)) else lookup a l := by
  induction l with
  | nil => rfl
  | cons x l ih =>
    obtain ⟨b, v⟩ := x
    rw [alterEntries, lookup, lookup]
    by_cases hb : b = k
    · subst hb
      rw [if_pos rfl, lookup, if_pos rfl]
      split <;> rfl
    · rw [if_neg hb, lookup, ih, if_neg (Ne.symm hb)]
      by_cases h : a = k
      · rw [if_pos h, if_pos h, if_neg (h ▸ Ne.symm hb)]
      · rw [if_neg h, if_neg h]

@[simp] theorem get?_alter (d : Dict K V) (k a : K) (f : Option V → V) :
    (d.alter k f).get? a = if a = k then some (f (d.get? k)) else d.get? a :=
  lookup_alterEntries k a f d.entries

@[simp] theorem get?_empty (k : K) : (empty : Dict K V).get? k = none := rfl

theorem lookup_isSome {l : List (K × V)} {k : K} : (lookup k l).isSome ↔ k ∈ l.map Prod.fst := by
  induction l with
  | nil => simp [lookup]
  | cons x l ih =>
    obtain ⟨a, v⟩ := x
    rw [lookup, List.map_cons, List.mem_cons, ← ih]
    by_cases hk : k = a <;> simp [hk]

theorem lookup_eq_none {l : List (K × V)} {k : K} (h : k ∉ l.map Prod.fst) : lookup k l = none := by
  rwa [← lookup_isSome, Option.not_isSome_iff_eq_none] at h

theorem mem_keys {d : Dict K V} {k : K} : k ∈ d.keys ↔ (d.get? k).isSome := lookup_isSome.symm

theorem mem_entries {d : Dict K V} {k : K} {v : V} : (k, v) ∈ d.entries ↔ d.get? k = some v := by
  have h : ∀ l : List (K × V), (l.map Prod.fst).Nodup → ((k, v) ∈ l ↔ lookup k l = some v) := by
    intro l hl
    induction l with
    | nil => simp [lookup]
    | cons x l ih =>
      obtain ⟨a, w⟩ := x
      rw [List.map_cons, List.nodup_cons] at hl
      rw [lookup]
      by_cases hk : k = a
      · subst hk
        have hnot : (k, v) ∉ l := fun hm => hl.1 (List.mem_map.mpr ⟨_, hm, rfl⟩)
        simp [hnot, eq_comm]
      · rw [if_neg hk, ← ih hl.2]
        simp [hk]
  exact h d.entries d.nodup

theorem forall₂_entries (d : Dict K V) : List.Forall₂ (fun k v => d.get? k = some v) d.keys d.values := by
  rw [keys, values, List.forall₂_map_left_iff, List.forall₂_map_right_iff, List.forall₂_same]
  rintro ⟨k, v⟩ h
  exact mem_entries.mp h

/-! ## Grouping -/

/-- Rows filed under their keys, one after another. -/
def group (key : R → K) (f : R → Option V → V) (rows : List R) : Dict K V :=
  rows.foldl (fun d r => d.alter (key r) (f r)) empty

/-- **Under a key are its rows**, in their order. -/
theorem get?_group (key : R → K) (f : R → Option V → V) (rows : List R) (k : K) : (group key f rows).get? k =
    (rows.filter fun r => key r = k).foldl (fun o r => some (f r o)) none := by
  have h : ∀ (rows : List R) (d : Dict K V), (rows.foldl (fun d r => d.alter (key r) (f r)) d).get? k =
      (rows.filter fun r => key r = k).foldl (fun o r => some (f r o)) (d.get? k) := by
    intro rows
    induction rows with
    | nil => exact fun d => rfl
    | cons r rows ih =>
      intro d
      rw [List.foldl_cons, ih, get?_alter]
      by_cases hr : key r = k
      · simp [hr]
      · simp [hr, Ne.symm hr]
  exact h rows empty

/-- **The keys come in the order of their first rows.** -/
theorem keys_group (key : R → K) (f : R → Option V → V) (rows : List R) :
    (group key f rows).keys = firsts (rows.map key) := by
  induction rows using List.reverseRecOn with
  | nil => rfl
  | append_singleton rows r ih =>
    have hconcat : group key f (rows ++ [r]) = (group key f rows).alter (key r) (f r) := by simp [group]
    have hmem : key r ∈ firsts (rows.map key) ↔ key r ∈ rows.map key := mem_firsts _ _
    rw [hconcat, keys_alter, ih, List.map_append, List.map_cons, List.map_nil, firsts_concat, if_congr hmem rfl rfl]

/-- The last row decides where each row replaces what was there. -/
theorem get?_group_last (key : R → K) (g : R → V) (rows : List R) (k : K) :
    (group key (fun r _ => g r) rows).get? k = (rows.filter fun r => key r = k).getLast?.map g := by
  rw [get?_group]
  rcases List.eq_nil_or_concat (rows.filter fun r => key r = k) with h | ⟨l, r, h⟩
  · rw [h]
    rfl
  · rw [h]
    simp

/-- `d.setdefault(k, []).append(x)`. -/
def append (x : α) (o : Option (List α)) : List α := o.getD [] ++ [x]

theorem foldl_append (g : R → α) (rows : List R) (h : rows ≠ []) :
    rows.foldl (fun o r => some (append (g r) o)) none = some (rows.map g) := by
  have haux : ∀ (rows : List R) (l : List α), rows.foldl (fun o r => some (append (g r) o)) (some l) =
      some (l ++ rows.map g) := by
    intro rows
    induction rows with
    | nil => simp
    | cons r rows ih =>
      intro l
      rw [List.foldl_cons, append, Option.getD_some, ih]
      simp
  obtain ⟨r, rows, rfl⟩ := List.exists_cons_of_ne_nil h
  rw [List.foldl_cons, append, Option.getD_none, List.nil_append, haux]
  rfl

/-- Rows collected in a list under each key. -/
theorem get?_group_append (key : R → K) (g : R → α) (rows : List R) (k : K) :
    (group key (fun r => append (g r)) rows).get? k =
      if (rows.filter fun r => key r = k) = [] then none else some ((rows.filter fun r => key r = k).map g) := by
  rw [get?_group]
  split
  · rename_i h
    rw [h]
    rfl
  · rename_i h
    exact foldl_append g _ h

end Dict

end DataAgent.Python
