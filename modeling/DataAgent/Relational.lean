import Mathlib.Data.List.Nodup
import Mathlib.Data.List.ProdSigma

/-!
# Inner joins

Tables are lists of rows, in no particular order; a query filters the product of its tables.

* `innerJoin` : `xs JOIN ys ON on`;
* `Unique` : a key that no two rows share; **`Unique.map`** : a query whose rows are told apart by a key.
-/

namespace DataAgent.Relational

universe u v w
variable {α : Type u} {β : Type v} {κ : Type w}

def innerJoin (xs : List α) (ys : List β) (on : α → β → Bool) : List (α × β) :=
  (xs ×ˢ ys).filter fun p => on p.1 p.2

section
variable {xs : List α} {ys : List β} {on : α → β → Bool}

@[simp] theorem mem_innerJoin {p : α × β} : p ∈ innerJoin xs ys on ↔ (p.1 ∈ xs ∧ p.2 ∈ ys) ∧ on p.1 p.2 = true := by
  rw [innerJoin, List.mem_filter, List.mem_product.symm]

theorem nodup_innerJoin (hx : xs.Nodup) (hy : ys.Nodup) : (innerJoin xs ys on).Nodup :=
  (List.Nodup.product hx hy).filter _

end

/-- No two rows share the key `f`. -/
def Unique (f : α → κ) (xs : List α) : Prop := (xs.map f).Nodup

instance [DecidableEq κ] (f : α → κ) (xs : List α) : Decidable (Unique f xs) :=
  inferInstanceAs (Decidable (xs.map f).Nodup)

namespace Unique
variable {f : α → κ} {xs ys : List α}

theorem nodup (h : Unique f xs) : xs.Nodup := List.Nodup.of_map f h

theorem eq (h : Unique f xs) {x y : α} (hx : x ∈ xs) (hy : y ∈ xs) (he : f x = f y) : x = y :=
  List.inj_on_of_nodup_map h hx hy he

theorem perm (h : Unique f xs) (hp : ys.Perm xs) : Unique f ys := (hp.map f).nodup_iff.mpr h

theorem filter (h : Unique f xs) (p : α → Bool) : Unique f (xs.filter p) := by
  rw [Unique] at h ⊢
  exact h.sublist (List.filter_sublist.map f)

/-- The rows that a query selects from distinct tuples, if their key tells the tuples apart. -/
theorem map {g : β → α} {ps : List β} (hn : ps.Nodup) (h : ∀ p ∈ ps, ∀ q ∈ ps, f (g p) = f (g q) → p = q) :
    Unique f (ps.map g) := by
  rw [Unique, List.map_map]
  exact List.Nodup.map_on h hn

end Unique

end DataAgent.Relational
