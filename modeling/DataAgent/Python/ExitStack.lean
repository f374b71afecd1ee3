import DataAgent.Python.Effects
import Mathlib.Data.Finset.Basic
import Mathlib.Data.Finset.Lattice.Lemmas

/-!
# Exit stacks

`contextlib.AsyncExitStack` and `contextlib.asynccontextmanager`, for code that opens and closes resources.

* `Event`, `ledger` : what is open after a trace, in which nothing is opened while it is open, or closed or used while
  it is not; `Uses` : the actions that leave it as it is;
* `Phased` : a trace that opens nothing once it has closed something; **`Phased.once`** : it opens and closes each
  resource at most once;
* `Manager`, `Entering` : context managers, and a computation that enters them; `unwind` : their exits, the last one
  first, each of which may pass the exception in flight on, suppress it or raise another;
* `generator` : a generator with one `yield`, as the context of a body;
* **`generator_ledger`** : whatever the computation and the body do, what was entered is exited.
-/

namespace DataAgent.Python

universe u v

/-! ## The ledger -/

inductive Event (R F : Type u) where
  | opened (r : R)
  | closed (r : R)
  | did (f : F)
  deriving DecidableEq, Repr

section
variable {R F : Type u} [DecidableEq R] {needs : F → Finset R}

/-- The resources that are open after a trace; `needs f` are those that `f` uses. -/
def ledger (needs : F → Finset R) : Finset R → List (Event R F) → Option (Finset R)
  | o, [] => some o
  | o, .opened r :: t => if r ∈ o then none else ledger needs (insert r o) t
  | o, .closed r :: t => if r ∈ o then ledger needs (o.erase r) t else none
  | o, .did f :: t => if needs f ⊆ o then ledger needs o t else none

theorem ledger_append (o : Finset R) (s t : List (Event R F)) :
    ledger needs o (s ++ t) = (ledger needs o s).bind fun o' => ledger needs o' t := by
  fun_induction ledger needs o s <;> simp_all [ledger]

/-- A trace that leads from some open resources to others. -/
theorem ledger_append_of {o o' : Finset R} {s : List (Event R F)} (h : ledger needs o s = some o')
    (t : List (Event R F)) : ledger needs o (s ++ t) = ledger needs o' t := by
  rw [ledger_append, h, Option.bind_some]

/-- An action for which everything is open. -/
def Uses (needs : F → Finset R) (o : Finset R) : Event R F → Prop
  | .did f => needs f ⊆ o
  | _ => False

theorem ledger_of_uses {o : Finset R} {t : List (Event R F)} (h : ∀ e ∈ t, Uses needs o e) :
    ledger needs o t = some o := by
  induction t with
  | nil => rfl
  | cons e t ih =>
    obtain ⟨he, ht⟩ := List.forall_mem_cons.mp h
    cases e with
    | did f => rw [ledger, if_pos (show needs f ⊆ o from he), ih ht]
    | opened r => exact he.elim
    | closed r => exact he.elim

/-- **Whatever is open at the end was opened once more than it was closed.** -/
theorem count_of_ledger [DecidableEq F] {o o' : Finset R} {t : List (Event R F)} (h : ledger needs o t = some o')
    (r : R) : t.count (.opened r) + (if r ∈ o then 1 else 0) = t.count (.closed r) + if r ∈ o' then 1 else 0 := by
  fun_induction ledger needs o t with
  | case1 o =>
    obtain rfl := Option.some.inj h
    simp
  | case2 => simp at h
  | case3 o a t ha ih =>
    have ih := ih h
    by_cases hr : a = r
    · subst hr
      simp [ha] at ih ⊢
      omega
    · simpa [List.count_cons, hr, Ne.symm hr] using ih
  | case4 o a t ha ih =>
    have ih := ih h
    by_cases hr : a = r
    · subst hr
      simp [ha] at ih ⊢
      omega
    · simpa [List.count_cons, hr, Ne.symm hr] using ih
  | case5 => simp at h
  | case6 o f t hf ih => simpa [List.count_cons] using ih h
  | case7 => simp at h

/-! ### Opening before closing -/

def NotOpening (e : Event R F) : Prop := ∀ r, e ≠ .opened r
def NotClosing (e : Event R F) : Prop := ∀ r, e ≠ .closed r

omit [DecidableEq R] in
theorem Uses.notClosing {o : Finset R} {e : Event R F} (h : Uses needs o e) : NotClosing e := by
  rintro r rfl
  exact h

/-- Nothing is opened once something was closed. -/
def Phased (t : List (Event R F)) : Prop :=
  ∃ up down, t = up ++ down ∧ (∀ e ∈ up, NotClosing e) ∧ ∀ e ∈ down, NotOpening e

omit [DecidableEq R] in
theorem Phased.cons_up {s t : List (Event R F)} (hs : ∀ e ∈ s, NotClosing e) (ht : Phased t) : Phased (s ++ t) := by
  obtain ⟨up, down, rfl, hup, hdown⟩ := ht
  exact ⟨s ++ up, down, by rw [List.append_assoc], fun e he => (List.mem_append.mp he).elim (hs e) (hup e), hdown⟩

omit [DecidableEq R] in
theorem Phased.append_down {s t : List (Event R F)} (hs : Phased s) (ht : ∀ e ∈ t, NotOpening e) : Phased (s ++ t) := by
  obtain ⟨up, down, rfl, hup, hdown⟩ := hs
  exact ⟨up, down ++ t, by rw [List.append_assoc], hup, fun e he => (List.mem_append.mp he).elim (hdown e) (ht e)⟩

/-- **Each resource is opened at most once, and closed at most once.** -/
theorem Phased.once [DecidableEq F] {t : List (Event R F)} (hp : Phased t) (h : ledger needs ∅ t = some ∅) (r : R) :
    t.count (.opened r) ≤ 1 ∧ t.count (.closed r) ≤ 1 := by
  have hcount := count_of_ledger h r
  obtain ⟨up, down, rfl, hup, hdown⟩ := hp
  rw [ledger_append, Option.bind_eq_some_iff] at h
  obtain ⟨o, ho, -⟩ := h
  have hopened := count_of_ledger ho r
  rw [List.count_eq_zero_of_not_mem fun he => hup _ he r rfl] at hopened
  have hle : (if r ∈ o then 1 else 0) ≤ 1 := by split <;> simp
  have hnone : down.count (.opened r) = 0 := List.count_eq_zero_of_not_mem fun he => hdown _ he r rfl
  simp only [List.count_append, hnone, Finset.notMem_empty, if_false, Nat.add_zero, Nat.zero_add] at *
  omega

end

namespace Run
variable {R F ε : Type u} {α β : Type v} {r : Run (Event R F) ε α} {k : α → Run (Event R F) ε β}

theorem phased_bind_up (hr : Only NotClosing r) (hk : ∀ a, Phased (k a).effects) : Phased (r >>= k).effects := by
  cases h : r.result with
  | error e =>
    rw [bind_of_error h]
    exact ⟨r.effects, [], by simp, hr, by simp⟩
  | ok a =>
    rw [bind_of_ok h]
    exact Phased.cons_up hr (hk a)

theorem phased_bind_down (hr : Phased r.effects) (hk : ∀ a, Only NotOpening (k a)) : Phased (r >>= k).effects := by
  cases h : r.result with
  | error e =>
    rw [bind_of_error h]
    exact hr
  | ok a =>
    rw [bind_of_ok h]
    exact hr.append_down (hk a)

end Run

/-! ## Managers -/

variable {R F ε ε' : Type u} {α β : Type v}

/-- What `__aexit__` does with the exception in flight. -/
inductive Exit (ε : Type u) where
  | propagate
  | suppress
  | raises (e : ε)

/-- The exception in flight afterwards. -/
def Exit.after : Exit ε → Option ε → Option ε
  | propagate, e => e
  | suppress, _ => none
  | raises e, _ => some e

structure Manager (R ε : Type u) where
  resource : R
  enter : Except ε Unit
  exit : Option ε → Exit ε

/-- A run, and the managers that it has entered, the last one first. -/
structure Entering (R F ε : Type u) (α : Type v) extends Run (Event R F) ε α where
  entered : List (Manager R ε)

namespace Entering

/-- What is entered before an exception stays entered. -/
def bind (p : Entering R F ε α) (k : α → Entering R F ε β) : Entering R F ε β :=
  match p.result with
  | .ok a => ⟨⟨p.effects ++ (k a).effects, (k a).result⟩, (k a).entered ++ p.entered⟩
  | .error e => ⟨⟨p.effects, .error e⟩, p.entered⟩

instance : Monad (Entering R F ε) where
  pure a := ⟨pure a, []⟩
  bind := bind

def lift (r : Run (Event R F) ε α) : Entering R F ε α := ⟨r, []⟩

/-- `await stack.enter_async_context(m)`. -/
def enter (m : Manager R ε) : Entering R F ε Unit :=
  match m.enter with
  | .ok _ => ⟨.perform (.opened m.resource) (.ok ()), [m]⟩
  | .error e => ⟨.raise e, []⟩

/-- `try: p; except e: raise f(e)`. -/
def reraise (f : ε → ε) (p : Entering R F ε α) : Entering R F ε α := ⟨p.toRun.reraise f, p.entered⟩

@[simp] theorem result_lift (r : Run (Event R F) ε α) : (lift r).result = r.result := rfl
@[simp] theorem effects_lift (r : Run (Event R F) ε α) : (lift r).effects = r.effects := rfl
@[simp] theorem entered_lift (r : Run (Event R F) ε α) : (lift r).entered = [] := rfl

theorem result_reraise (f : ε → ε) (p : Entering R F ε α) : (p.reraise f).result = p.result.mapError f := rfl

theorem result_enter (m : Manager R ε) : (enter m : Entering R F ε Unit).result = m.enter := by
  unfold enter
  cases m.enter <;> rfl

theorem entered_enter {m : Manager R ε} (h : m.enter = .ok ()) : (enter m : Entering R F ε Unit).entered = [m] := by
  rw [enter, h]

theorem bind_of_ok {p : Entering R F ε α} {a : α} (h : p.result = .ok a) (k : α → Entering R F ε β) :
    p >>= k = ⟨⟨p.effects ++ (k a).effects, (k a).result⟩, (k a).entered ++ p.entered⟩ := by
  show bind p k = _
  rw [bind, h]

theorem bind_of_error {p : Entering R F ε α} {e : ε} (h : p.result = .error e) (k : α → Entering R F ε β) :
    p >>= k = ⟨⟨p.effects, .error e⟩, p.entered⟩ := by
  show bind p k = _
  rw [bind, h]

theorem entered_bind {p : Entering R F ε α} {a : α} (h : p.result = .ok a) (k : α → Entering R F ε β) :
    (p >>= k).entered = (k a).entered ++ p.entered := by
  rw [bind_of_ok h]

theorem effects_bind {p : Entering R F ε α} {a : α} (h : p.result = .ok a) (k : α → Entering R F ε β) :
    (p >>= k).effects = p.effects ++ (k a).effects := by
  rw [bind_of_ok h]

theorem effects_enter {m : Manager R ε} (h : m.enter = .ok ()) :
    (enter m : Entering R F ε Unit).effects = [.opened m.resource] := by
  rw [enter, h]
  rfl

theorem mem_entered_bind {p : Entering R F ε α} {k : α → Entering R F ε β} {m : Manager R ε}
    (h : m ∈ (p >>= k).entered) : m ∈ p.entered ∨ ∃ a, m ∈ (k a).entered := by
  cases hp : p.result with
  | ok a =>
    rw [entered_bind hp, List.mem_append] at h
    exact h.symm.imp_right fun h => ⟨a, h⟩
  | error e =>
    rw [bind_of_error hp] at h
    exact Or.inl h

theorem mem_entered_enter {m x : Manager R ε} (h : x ∈ (enter m : Entering R F ε Unit).entered) : x = m := by
  unfold enter at h
  split at h
  · exact List.mem_singleton.mp h
  · simp at h

theorem result_bind (p : Entering R F ε α) (k : α → Entering R F ε β) :
    (p >>= k).result = p.result.bind fun a => (k a).result := by
  cases h : p.result with
  | ok a => rw [bind_of_ok h]; rfl
  | error e => rw [bind_of_error h]; rfl

end Entering

/-- The exits of the managers, and the exception in flight after them. -/
def unwind : List (Manager R ε) → Option ε → List (Event R F) × Option ε
  | [], e => ([], e)
  | m :: ms, e =>
    let (t, e') := unwind ms ((m.exit e).after e)
    (.closed m.resource :: t, e')

/-- `async with generator(): body`, where the generator yields once at the end of `start`, inside an exit stack. The
exception `noYield` is raised if one of `start` is suppressed. -/
def generator (start : Entering R F ε Unit) (noYield : ε) (body : Run (Event R F) ε Unit) : Run (Event R F) ε Unit :=
  match start.result with
  | .error e =>
    let (t, e') := unwind start.entered (some e)
    ⟨start.effects ++ t, .error (e'.getD noYield)⟩
  | .ok _ =>
    let (t, e') := unwind start.entered (match body.result with
      | .ok _ => none
      | .error e => some e)
    ⟨start.effects ++ (body.effects ++ t), match e' with
      | none => .ok ()
      | some e => .error e⟩

theorem mem_unwind {ms : List (Manager R ε)} {e : Option ε} {x : Event R F} (h : x ∈ (unwind ms e).1) :
    ∃ r, x = .closed r := by
  induction ms generalizing e with
  | nil => simp [unwind] at h
  | cons m ms ih =>
    rcases List.mem_cons.mp h with h | h
    · exact ⟨_, h⟩
    · exact ih h

/-- What is done inside a generator beside the exits. -/
theorem mem_generator {start : Entering R F ε Unit} {noYield : ε} {body : Run (Event R F) ε Unit} {x : Event R F}
    (hx : ∀ r, x ≠ .closed r) : x ∈ (generator start noYield body).effects ↔
      x ∈ start.effects ∨ start.result = .ok () ∧ x ∈ body.effects := by
  have hunwind : ∀ (ms : List (Manager R ε)) e, x ∉ (unwind ms e : List (Event R F) × Option ε).1 := by
    intro ms e h
    obtain ⟨r, hr⟩ := mem_unwind h
    exact hx r hr
  unfold generator
  cases h : start.result with
  | error e => simp [hunwind]
  | ok u => simp [hunwind]

/-- With the start done, the body and then the exits. -/
theorem generator_effects {start : Entering R F ε Unit} {noYield : ε} {body : Run (Event R F) ε Unit}
    (h : start.result = .ok ()) : ∃ t : List (Event R F), (∀ x ∈ t, ∃ r, x = .closed r) ∧
      (generator start noYield body).effects = start.effects ++ (body.effects ++ t) := by
  unfold generator
  rw [h]
  exact ⟨_, fun x hx => mem_unwind hx, rfl⟩

/-- The openings come before the exits. -/
theorem generator_phased {start : Entering R F ε Unit} {noYield : ε} {body : Run (Event R F) ε Unit}
    (hstart : Run.Only NotClosing start.toRun) (hbody : Run.Only NotClosing body) :
    Phased (generator start noYield body).effects := by
  have hunwind : ∀ (ms : List (Manager R ε)) (e : Option ε), ∀ x ∈ (unwind ms e : List (Event R F) × Option ε).1,
      NotOpening x := by
    intro ms e x hx r hr
    obtain ⟨r', hr'⟩ := mem_unwind hx
    simp [hr'] at hr
  unfold generator
  cases start.result with
  | error e => exact ⟨_, _, rfl, hstart, hunwind _ _⟩
  | ok u =>
    exact ⟨start.effects ++ body.effects, _, by rw [List.append_assoc],
      fun e he => (List.mem_append.mp he).elim (hstart e) (hbody e), hunwind _ _⟩

section
variable {δ : Type v} (cause : ε → δ)

/-- The exit adds no exception of its own: one in flight is passed on, or another with the same cause is raised. -/
def Manager.Keeps (m : Manager R ε) : Prop :=
  m.exit none = .propagate ∧ ∀ e, m.exit (some e) = .propagate ∨ ∃ e', m.exit (some e) = .raises e' ∧ cause e' = cause e

variable {cause}

theorem unwind_of_keeps {ms : List (Manager R ε)} (h : ∀ m ∈ ms, m.Keeps cause) (e : Option ε) :
    (unwind ms e : List (Event R F) × Option ε).2.map cause = e.map cause := by
  induction ms generalizing e with
  | nil => rfl
  | cons m ms ih =>
    have ih := ih fun m hm => h m (List.mem_cons_of_mem _ hm)
    obtain ⟨hnone, hsome⟩ := h m (List.mem_cons_self ..)
    show (unwind ms ((m.exit e).after e) : List (Event R F) × Option ε).2.map cause = e.map cause
    rw [ih]
    cases e with
    | none =>
      rw [hnone]
      rfl
    | some e =>
      rcases hsome e with he | ⟨e', he, hcause⟩
      · rw [he]
        rfl
      · rw [he, Option.map_some, ← hcause]
        rfl

/-- Exits that keep exceptions do not change how the body ends, up to the cause. -/
theorem generator_result {start : Entering R F ε Unit} {noYield : ε} {body : Run (Event R F) ε Unit}
    (h : ∀ m ∈ start.entered, m.Keeps cause) : (generator start noYield body).result.mapError cause =
      (start.result >>= fun _ => body.result).mapError cause := by
  unfold generator
  cases hs : start.result with
  | error e =>
    have hunwind := unwind_of_keeps (F := F) h (some e)
    show (Except.error ((unwind start.entered (some e) : List (Event R F) × Option ε).2.getD noYield)).mapError cause =
      _
    cases hu : (unwind start.entered (some e) : List (Event R F) × Option ε).2 with
    | none => simp [hu] at hunwind
    | some e' =>
      have hcause : cause e' = cause e := by simpa [hu] using hunwind
      simp [Except.mapError, bind, Except.bind, hcause]
  | ok u =>
    cases hb : body.result with
    | error e =>
      have hunwind := unwind_of_keeps (F := F) h (some e)
      simp only
      cases hu : (unwind start.entered (some e) : List (Event R F) × Option ε).2 with
      | none => simp [hu] at hunwind
      | some e' =>
        have hcause : cause e' = cause e := by simpa [hu] using hunwind
        simp [Except.mapError, bind, Except.bind, hcause]
    | ok u' =>
      have hunwind := unwind_of_keeps (F := F) h none
      simp only
      cases hu : (unwind start.entered none : List (Event R F) × Option ε).2 with
      | none => simp [Except.mapError, bind, Except.bind]
      | some e' => simp [hu] at hunwind

end

/-! ## What is open -/

section
variable [DecidableEq R] {needs : F → Finset R}

/-- The resources of the managers. -/
def resources (ms : List (Manager R ε)) : Finset R := (ms.map (·.resource)).toFinset

/-- No resource is held twice, and none of those that were open before. -/
def Fresh (ms : List (Manager R ε)) (o : Finset R) : Prop :=
  (ms.map (·.resource)).Nodup ∧ ∀ m ∈ ms, m.resource ∉ o

/-- From the open resources `o` the computation opens those that it enters, and uses what is open. -/
structure Tidy (needs : F → Finset R) (o : Finset R) (p : Entering R F ε α) : Prop where
  opens : ledger needs o p.effects = some (o ∪ resources p.entered)
  fresh : Fresh p.entered o
  mem : ∀ e ∈ p.effects, (∃ r ∈ resources p.entered, e = .opened r) ∨ Uses needs (o ∪ resources p.entered) e

theorem unwind_ledger {ms : List (Manager R ε)} {o : Finset R} (h : Fresh ms o) (e : Option ε) :
    ledger needs (o ∪ resources ms) (unwind ms e : List (Event R F) × Option ε).1 = some o := by
  induction ms generalizing e with
  | nil => simp [unwind, ledger, resources]
  | cons m ms ih =>
    obtain ⟨hnodup, ho⟩ := h
    rw [List.map_cons, List.nodup_cons] at hnodup
    have hfresh : Fresh ms o := ⟨hnodup.2, fun x hx => ho x (List.mem_cons_of_mem _ hx)⟩
    have hmem : m.resource ∈ o ∪ resources (m :: ms) := by simp [resources]
    have herase : (o ∪ resources (m :: ms)).erase m.resource = o ∪ resources ms := by
      have hm : m.resource ∉ o ∪ resources ms := by
        rw [Finset.mem_union, not_or, resources, List.mem_toFinset]
        exact ⟨ho m (by simp), hnodup.1⟩
      have hinsert : o ∪ resources (m :: ms) = insert m.resource (o ∪ resources ms) := by
        simp [resources, Finset.union_insert]
      rw [hinsert, Finset.erase_insert hm]
    show ledger needs _ (.closed m.resource :: (unwind ms ((m.exit e).after e)).1) = some o
    rw [ledger, if_pos hmem, herase, ih hfresh]

/-- A run that uses what is open. -/
theorem tidy_lift {o : Finset R} {r : Run (Event R F) ε α} (h : Run.Only (Uses needs o) r) :
    Tidy needs o (Entering.lift r) := by
  refine ⟨?_, by simp [Fresh], fun e he => Or.inr ?_⟩
  · simpa [resources] using ledger_of_uses h
  · simpa [resources] using h e he

theorem tidy_enter {o : Finset R} {m : Manager R ε} (h : m.resource ∉ o) :
    Tidy needs o (Entering.enter m : Entering R F ε Unit) := by
  unfold Entering.enter
  cases m.enter with
  | error e => exact ⟨by simp [Run.raise, ledger, resources], by simp [Fresh], by simp [Run.raise]⟩
  | ok u =>
    refine ⟨?_, ⟨by simp, by simpa using h⟩, fun e he => Or.inl ⟨m.resource, by simp [resources], ?_⟩⟩
    · simp [Run.perform, ledger, h, resources, Finset.union_comm o]
    · simpa [Run.perform] using he

/-- Nothing is closed on the way in. -/
theorem Tidy.notClosing {o : Finset R} {p : Entering R F ε α} (h : Tidy needs o p) : Run.Only NotClosing p.toRun := by
  intro e he
  rcases h.mem e he with ⟨r, -, rfl⟩ | hu
  · rintro r' hr'
    simp at hr'
  · exact hu.notClosing

theorem Tidy.reraise {o : Finset R} {p : Entering R F ε α} (h : Tidy needs o p) (f : ε → ε) :
    Tidy needs o (p.reraise f) := ⟨h.opens, h.fresh, h.mem⟩

omit [DecidableEq R] in
theorem Uses.mono {o o' : Finset R} {e : Event R F} (h : Uses needs o e) (hsub : o ⊆ o') : Uses needs o' e := by
  cases e with
  | did f => exact Finset.Subset.trans h hsub
  | opened r => exact h.elim
  | closed r => exact h.elim

theorem resources_append (ms ns : List (Manager R ε)) : resources (ms ++ ns) = resources ms ∪ resources ns := by
  simp only [resources, List.map_append, List.toFinset_append]

theorem Tidy.bind {o : Finset R} {p : Entering R F ε α} {k : α → Entering R F ε β} (hp : Tidy needs o p)
    (hk : ∀ a, p.result = .ok a → Tidy needs (o ∪ resources p.entered) (k a)) : Tidy needs o (p >>= k) := by
  cases h : p.result with
  | error e =>
    rw [Entering.bind_of_error h]
    exact ⟨hp.opens, hp.fresh, hp.mem⟩
  | ok a =>
    rw [Entering.bind_of_ok h]
    obtain ⟨hopens, ⟨hnodup, hfresh⟩, hmem⟩ := hk a h
    have hunion : o ∪ resources p.entered ∪ resources (k a).entered = o ∪ resources ((k a).entered ++ p.entered) := by
      rw [resources_append, Finset.union_assoc, Finset.union_comm (resources p.entered)]
    have hnot : ∀ m ∈ (k a).entered, m.resource ∉ o ∧ m.resource ∉ p.entered.map (·.resource) := by
      intro m hm
      have := hfresh m hm
      rwa [Finset.mem_union, not_or, resources, List.mem_toFinset] at this
    refine ⟨?_, ⟨?_, fun m hm => ?_⟩, fun e he => ?_⟩
    · show ledger needs o (p.effects ++ (k a).effects) = some (o ∪ resources ((k a).entered ++ p.entered))
      rw [ledger_append_of hp.opens, hopens, hunion]
    · rw [List.map_append, List.nodup_append']
      refine ⟨hnodup, hp.fresh.1, ?_⟩
      rw [List.disjoint_left]
      intro r hr
      obtain ⟨m, hm, rfl⟩ := List.mem_map.mp hr
      exact (hnot m hm).2
    · exact (List.mem_append.mp hm).elim (fun h => (hnot m h).1) (hp.fresh.2 m)
    · -- what is open at the end includes what was open before
      have hsub : o ∪ resources p.entered ⊆ o ∪ resources ((k a).entered ++ p.entered) :=
        hunion ▸ Finset.subset_union_left
      rw [resources_append, Finset.union_comm (resources (k a).entered)] at hsub ⊢
      rcases List.mem_append.mp he with he | he
      · refine (hp.mem e he).imp ?_ fun h => h.mono hsub
        exact fun ⟨r, hr, h⟩ => ⟨r, Finset.mem_union_left _ hr, h⟩
      · refine (hmem e he).imp ?_ fun h => h.mono (Finset.union_assoc o _ _).le
        exact fun ⟨r, hr, h⟩ => ⟨r, Finset.mem_union_right _ hr, h⟩

/-- **What the start enters is exited**, last first, whatever it and the body come to: with the start done, what is
open after the body is left. -/
theorem generator_ledger {o o' : Finset R} {start : Entering R F ε Unit} {noYield : ε}
    {body : Run (Event R F) ε Unit} (hstart : Tidy needs o start)
    (hbody : start.result = .ok () →
      ledger needs (o ∪ resources start.entered) body.effects = some (o' ∪ resources start.entered) ∧
        Fresh start.entered o') :
    ledger needs o (generator start noYield body).effects = some (if start.result.isOk then o' else o) := by
  unfold generator
  cases h : start.result with
  | error e =>
    show ledger needs o (start.effects ++ (unwind start.entered (some e)).1) = some o
    rw [ledger_append_of hstart.opens, unwind_ledger hstart.fresh]
  | ok u =>
    obtain ⟨hb, hfresh⟩ := hbody h
    show ledger needs o (start.effects ++ (body.effects ++ (unwind start.entered _).1)) = some o'
    rw [ledger_append_of hstart.opens, ledger_append_of hb, unwind_ledger hfresh]

end

end DataAgent.Python
