import DataAgent.Python.Effects

/-!
# Two runs side by side

What two runs of one piece of code have in common when their surroundings raise different exceptions.

* `Alike R` : both return the same value, or both raise, and the exceptions are related by `R`;
* `Alike.bind`, `Alike.mapError` : it is kept by what comes after, which may also relate less of the exceptions;
* `Run.Alike`, **`Run.alike_bracket`** : the same for runs with effects, and for a resource that is released.
-/

namespace DataAgent.Python

universe u v
variable {F ε ε' : Type u} {α β γ : Type v}

inductive Alike (R : ε → ε → Prop) : Except ε α → Except ε α → Prop
  | ok (a : α) : Alike R (.ok a) (.ok a)
  | error {e e' : ε} (h : R e e') : Alike R (.error e) (.error e')

/-- Exceptions that need not have anything in common. -/
def Any (_ _ : ε) : Prop := True

namespace Alike
variable {R : ε → ε → Prop} {R' : ε' → ε' → Prop}

theorem refl (hR : ∀ e, R e e) (x : Except ε α) : Alike R x x := by
  cases x with
  | ok a => exact .ok a
  | error e => exact .error (hR e)

theorem bind {x y : Except ε α} {f g : α → Except ε β} (hx : Alike R x y) (hk : ∀ a, Alike R (f a) (g a)) :
    Alike R (x.bind f) (y.bind g) := by
  cases hx with
  | ok a => exact hk a
  | error h => exact .error h

/-- Handlers that raise something else may lose what the exceptions have in common. -/
theorem mapError {x y : Except ε α} {f g : ε → ε'} (hx : Alike R x y) (hf : ∀ e e', R e e' → R' (f e) (g e')) :
    Alike R' (x.mapError f) (y.mapError g) := by
  cases hx with
  | ok a => exact .ok a
  | error h => exact .error (hf _ _ h)

theorem of_ok {x y : Except ε α} {a : α} (h : Alike R x y) (hx : x = .ok a) : y = .ok a := by
  cases h with
  | ok b => exact hx
  | error _ => exact absurd hx (by simp)

/-- Where nothing differs any more, the two runs end the same way. -/
theorem eq {x y : Except ε α} (h : Alike Eq x y) : x = y := by
  cases h with
  | ok a => rfl
  | error h => rw [h]

end Alike

namespace Run
variable {R : ε → ε → Prop} {R' : ε' → ε' → Prop}

/-- Runs that return the same, or raise related exceptions. -/
def Alike (R : ε → ε → Prop) (r r' : Run F ε α) : Prop := Python.Alike R r.result r'.result

theorem alike_pure (a : α) : Alike R (pure a : Run F ε α) (pure a) := .ok a

theorem Alike.bind {r r' : Run F ε α} {k k' : α → Run F ε β} (hr : Alike R r r') (hk : ∀ a, Alike R (k a) (k' a)) :
    Alike R (r >>= k) (r' >>= k') := by
  unfold Alike at *
  rw [result_bind, result_bind]
  exact hr.bind hk

theorem Alike.reraise {r r' : Run F ε α} {f g : ε → ε'} (hr : Alike R r r') (hf : ∀ e e', R e e' → R' (f e) (g e')) :
    Alike R' (r.reraise f) (r'.reraise g) :=
  hr.mapError hf

theorem Alike.andFinally {r r' : Run F ε α} {c c' : Run F ε Unit} (hr : Alike R r r') (hc : Alike R c c') :
    Alike R (r.andFinally c) (r'.andFinally c') := by
  unfold Alike at *
  rcases h : c.result with e | ⟨⟩ <;> rcases h' : c'.result with e' | ⟨⟩ <;> rw [h, h'] at hc
  · rw [result_andFinally_of_error h, result_andFinally_of_error h']
    cases hc with
    | error he => exact .error he
  · cases hc
  · cases hc
  · rw [result_andFinally_of_ok h, result_andFinally_of_ok h']
    exact hr

/-- **A resource that is released on every path**: its runs are alike if its parts are. -/
theorem alike_bracket {acquire acquire' : Run F ε γ} {release release' : γ → Run F ε Unit} {use use' : γ → Run F ε α}
    (ha : Alike R acquire acquire') (hr : ∀ x, Alike R (release x) (release' x)) (hu : ∀ x, Alike R (use x) (use' x)) :
    Alike R (bracket acquire release use) (bracket acquire' release' use') :=
  ha.bind fun x => (hu x).andFinally (hr x)

end Run

end DataAgent.Python
