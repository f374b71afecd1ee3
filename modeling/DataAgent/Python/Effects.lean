import Mathlib.Data.List.Count

/-!
# Effects and exceptions

A run of code that acts on its surroundings: the effects it has, in order, and what it returns or raises.

* `Run` : with `pure`, `bind`, `raise` and `perform` (one effect);
* `Run.reraise` : an `except` clause that raises something else; `Run.andFinally` : `try ... finally ...`, where an
  exception of the cleanup replaces the one in flight;
* `Run.bracket` : a resource that is released on every path; **`bracket_effects`** : what it does.
-/

namespace DataAgent.Python

universe u v

variable {F ε ε' : Type u} {α β γ : Type v}

structure Run (F ε : Type u) (α : Type v) where
  effects : List F
  result : Except ε α

namespace Run

def raise (e : ε) : Run F ε α := ⟨[], .error e⟩

/-- A check or a computation without effects. -/
def lift (x : Except ε α) : Run F ε α := ⟨[], x⟩

/-- One effect, and its outcome. -/
def perform (f : F) (x : Except ε α) : Run F ε α := ⟨[f], x⟩

def bind (r : Run F ε α) (k : α → Run F ε β) : Run F ε β :=
  match r.result with
  | .ok a => ⟨r.effects ++ (k a).effects, (k a).result⟩
  | .error e => ⟨r.effects, .error e⟩

instance : Monad (Run F ε) where
  pure a := ⟨[], .ok a⟩
  bind := bind

/-- `try: r; except e: raise f(e)`. -/
def reraise (f : ε → ε') (r : Run F ε α) : Run F ε' α := ⟨r.effects, r.result.mapError f⟩

/-- `try: r; finally: c`. -/
def andFinally (r : Run F ε α) (c : Run F ε Unit) : Run F ε α :=
  ⟨r.effects ++ c.effects, match c.result with
    | .ok _ => r.result
    | .error e => .error e⟩

/-- `x = acquire; try: use(x); finally: release(x)`. -/
def bracket (acquire : Run F ε γ) (release : γ → Run F ε Unit) (use : γ → Run F ε α) : Run F ε α :=
  acquire >>= fun x => (use x).andFinally (release x)

/-! ## Results -/

@[simp] theorem result_pure (a : α) : (pure a : Run F ε α).result = .ok a := rfl
@[simp] theorem result_raise (e : ε) : (raise e : Run F ε α).result = .error e := rfl
@[simp] theorem result_lift (x : Except ε α) : (lift x : Run F ε α).result = x := rfl
@[simp] theorem result_perform (f : F) (x : Except ε α) : (perform f x).result = x := rfl
@[simp] theorem result_reraise (f : ε → ε') (r : Run F ε α) : (r.reraise f).result = r.result.mapError f := rfl

theorem bind_of_ok {r : Run F ε α} {a : α} (h : r.result = .ok a) (k : α → Run F ε β) :
    r >>= k = ⟨r.effects ++ (k a).effects, (k a).result⟩ := by
  show bind r k = _
  rw [bind, h]

theorem bind_of_error {r : Run F ε α} {e : ε} (h : r.result = .error e) (k : α → Run F ε β) :
    r >>= k = ⟨r.effects, .error e⟩ := by
  show bind r k = _
  rw [bind, h]

theorem result_bind (r : Run F ε α) (k : α → Run F ε β) :
    (r >>= k).result = r.result.bind fun a => (k a).result := by
  cases h : r.result with
  | ok a => rw [bind_of_ok h]; rfl
  | error e => rw [bind_of_error h]; rfl

/-- A computation after an `except` clause that it cannot reach. -/
theorem reraise_bind_pure (r : Run F ε α) (f : ε → ε') (g : α → β) :
    (r.reraise f >>= fun a => pure (g a)) = (r >>= fun a => pure (g a)).reraise f := by
  cases h : r.result with
  | ok a =>
    have hf : (r.reraise f).result = .ok a := by rw [result_reraise, h]; rfl
    rw [bind_of_ok hf, bind_of_ok h]
    rfl
  | error e =>
    have hf : (r.reraise f).result = .error (f e) := by rw [result_reraise, h]; rfl
    rw [bind_of_error hf, bind_of_error h]
    rfl

theorem result_bind_pure (r : Run F ε α) (g : α → β) : (r >>= fun a => pure (g a)).result = r.result.map g := by
  rw [result_bind]
  cases r.result <;> rfl

theorem result_andFinally_of_ok {r : Run F ε α} {c : Run F ε Unit} (h : c.result = .ok ()) :
    (r.andFinally c).result = r.result := by
  rw [andFinally, h]

theorem result_andFinally_of_error {r : Run F ε α} {c : Run F ε Unit} {e : ε} (h : c.result = .error e) :
    (r.andFinally c).result = .error e := by
  rw [andFinally, h]

/-! ## Effects -/

@[simp] theorem effects_pure (a : α) : (pure a : Run F ε α).effects = [] := rfl
@[simp] theorem effects_raise (e : ε) : (raise e : Run F ε α).effects = [] := rfl
@[simp] theorem effects_lift (x : Except ε α) : (lift x : Run F ε α).effects = [] := rfl
@[simp] theorem effects_perform (f : F) (x : Except ε α) : (perform f x).effects = [f] := rfl
@[simp] theorem effects_reraise (f : ε → ε') (r : Run F ε α) : (r.reraise f).effects = r.effects := rfl
@[simp] theorem effects_andFinally (r : Run F ε α) (c : Run F ε Unit) :
    (r.andFinally c).effects = r.effects ++ c.effects := rfl

theorem effects_bind {r : Run F ε α} {a : α} (h : r.result = .ok a) (k : α → Run F ε β) :
    (r >>= k).effects = r.effects ++ (k a).effects := by
  rw [bind_of_ok h]

theorem mem_bind {r : Run F ε α} {k : α → Run F ε β} {f : F} : f ∈ (r >>= k).effects ↔
    f ∈ r.effects ∨ ∃ a, r.result = .ok a ∧ f ∈ (k a).effects := by
  cases h : r.result with
  | ok a => simp [bind_of_ok h]
  | error e => simp [bind_of_error h]

/-- What follows a run is done after it, if at all. -/
theorem effects_bind_const (r : Run F ε α) (k : Run F ε β) :
    ∃ t, (r >>= fun _ => k).effects = r.effects ++ t ∧ t ⊆ k.effects := by
  cases h : r.result with
  | ok a => exact ⟨k.effects, by rw [bind_of_ok h], List.Subset.refl _⟩
  | error e => exact ⟨[], by simp [bind_of_error h], List.nil_subset _⟩

/-- All effects of a run have a property. -/
def Only (p : F → Prop) (r : Run F ε α) : Prop := ∀ f ∈ r.effects, p f

section Only
variable {p : F → Prop}

theorem only_pure (a : α) : Only p (pure a : Run F ε α) := by simp [Only]

theorem only_lift (x : Except ε α) : Only p (lift x : Run F ε α) := by simp [Only]

theorem only_perform {f : F} (h : p f) (x : Except ε α) : Only p (perform f x) := by simpa [Only] using h

theorem Only.reraise {r : Run F ε α} (h : Only p r) (f : ε → ε') : Only p (r.reraise f) := h

theorem Only.bind {r : Run F ε α} {k : α → Run F ε β} (hr : Only p r) (hk : ∀ a, Only p (k a)) : Only p (r >>= k) := by
  cases h : r.result with
  | ok a =>
    rw [bind_of_ok h]
    intro f hf
    exact (List.mem_append.mp hf).elim (hr f) (hk a f)
  | error e =>
    rw [bind_of_error h]
    exact hr

end Only

/-! ## Brackets -/

variable {acquire : Run F ε γ} {release : γ → Run F ε Unit} {use : γ → Run F ε α}

/-- **A resource that was acquired is released after its use, whatever the use comes to.** -/
theorem bracket_effects {x : γ} (h : acquire.result = .ok x) :
    (bracket acquire release use).effects = acquire.effects ++ ((use x).effects ++ (release x).effects) := by
  rw [bracket, bind_of_ok h, effects_andFinally]

theorem bracket_effects_of_error {e : ε} (h : acquire.result = .error e) :
    (bracket acquire release use).effects = acquire.effects := by
  rw [bracket, bind_of_error h]

theorem bracket_result_of_error {e : ε} (h : acquire.result = .error e) :
    (bracket acquire release use).result = .error e := by
  rw [bracket, bind_of_error h]

theorem bracket_result_of_release {x : γ} (h : acquire.result = .ok x) (hr : (release x).result = .ok ()) :
    (bracket acquire release use).result = (use x).result := by
  rw [bracket, bind_of_ok h, result_andFinally_of_ok hr]

/-- An exception of the release replaces whatever the use came to. -/
theorem bracket_result_of_release_error {x : γ} {e : ε} (h : acquire.result = .ok x)
    (hr : (release x).result = .error e) : (bracket acquire release use).result = .error e := by
  rw [bracket, bind_of_ok h, result_andFinally_of_error hr]

end Run

end DataAgent.Python
