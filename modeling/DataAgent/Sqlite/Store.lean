import DataAgent.Sqlite.Check
import DataAgent.Transition

/-!
# A store with constraints

Tables with an integer primary key, in SQLite: what a statement checks before it changes anything.

* `TableDef`, `Schema` : the declared tables; `Record`, `Table`, `Database` : their rows;
* `exec` : the statements on one row; each checks that row, the rows with its keys, and the references to and from it;
* `Consistent` : what the declarations say of all rows; **`exec_consistent`** : every statement keeps it;
* `Session`, `system` : statements in transactions; **`Reachable.consistent`** : every run; **`Reaches.le_sequence`**,
  **`Reaches.ordered`** : every run that leaves the ids to the store (`LeavesId`).
-/

namespace DataAgent.Sqlite

/-! ## Declarations -/

inductive Default where
  | literal (v : Value)
  | currentTimestamp
  deriving DecidableEq

/-- What a column makes of a value that is stored in it. -/
inductive Affinity where
  | text
  | numeric
  deriving DecidableEq, Repr

structure Column where
  name : String
  affinity : Affinity
  nullable : Bool
  default : Option Default

structure ForeignKey where
  name : String
  columns : List String
  table : String
  targets : List String
  deriving Repr

/-- A table beside its column `id`, the primary key. -/
structure TableDef where
  name : String
  columns : List Column
  checks : List (String × Expr)
  uniques : List (String × List String)
  foreignKeys : List ForeignKey
  autoincrement : Bool

structure Schema where
  tables : List TableDef
  engine : Engine
  distinct : (tables.map (·.name)).Nodup

theorem Schema.eq_of_name {schema : Schema} {d d' : TableDef} (hd : d ∈ schema.tables) (hd' : d' ∈ schema.tables)
    (h : d.name = d'.name) : d = d' := List.inj_on_of_nodup_map schema.distinct hd hd' h

/-- A real number that is an integer of 64 bits (and neither the least nor the greatest) is stored as one. -/
def Double.store : Double → Value
  | .some (.some q) => if q.den = 1 ∧ -2 ^ 63 < q.num ∧ q.num < 2 ^ 63 - 1 then .int q.num else .real (.some (.some q))
  | x => .real x

/-- The value that is stored. -/
def Affinity.store (E : Engine) : Affinity → Value → Value
  | text, .int i => .text (toString i).toList
  | text, .real x => .text (E.written x)
  | numeric, .real x => x.store
  | numeric, .text t => (E.number t).elim (.text t) (Sum.elim .int Double.store)
  | _, v => v

def TableDef.column (d : TableDef) (c : String) : Option Column := d.columns.find? (·.name = c)

/-! ## Rows -/

structure Record where
  id : Int
  values : String → Value

def Record.get (r : Record) (c : String) : Value := if c = "id" then .int r.id else r.values c

/-- The values of some columns; nothing if one of them is null. -/
def Record.key (r : Record) (columns : List String) : Option (List Value) :=
  if Value.null ∈ columns.map r.get then none else some (columns.map r.get)

structure Table where
  rows : List Record
  /-- The largest id that was ever given (`sqlite_sequence`). -/
  sequence : Int

abbrev Database := String → Table

def Database.empty : Database := fun _ => ⟨[], 0⟩

def Database.set (db : Database) (name : String) (t : Table) : Database := fun n => if n = name then t else db n

@[simp] theorem Database.set_self (db : Database) (name : String) (t : Table) : db.set name t name = t := if_pos rfl

theorem Database.set_of_ne (db : Database) {name n : String} (t : Table) (h : n ≠ name) : db.set name t n = db n :=
  if_neg h

inductive SqlError where
  | noSuchTable (table : String)
  | notNull (column : String)
  | check (name : String)
  | unique (name : String)
  | foreignKey (name : String)
  /-- No id is left. -/
  | full
  deriving DecidableEq, Repr

def raiseIf : Option SqlError → Except SqlError Unit
  | none => .ok ()
  | some e => .error e

theorem raiseIf_eq_ok {e : Option SqlError} {u : Unit} : raiseIf e = .ok u ↔ e = none := by
  cases e <;> simp [raiseIf]

/-! ## What is checked -/

def maxRowid : Int := 2 ^ 63 - 1

/-- The largest id in use. -/
def maxId (rows : List Record) : Int := ((rows.map (·.id)).max?).getD 0

def Free (rows : List Record) (i : Int) : Prop := ∀ x ∈ rows, x.id ≠ i

instance (rows : List Record) (i : Int) : Decidable (Free rows i) := inferInstanceAs (Decidable (∀ x ∈ rows, _))

/-- The id of a row that comes without one: after the largest, or the first free one of those that are drawn at random
if none is after the largest. With `AUTOINCREMENT` none is drawn. -/
def nextId (d : TableDef) (t : Table) (draws : List Int) : Except SqlError Int :=
  let last := if d.autoincrement then max t.sequence (maxId t.rows) else maxId t.rows
  if last < maxRowid then .ok (last + 1)
  else match (if d.autoincrement then [] else draws).find? fun i => Free t.rows i with
    | some i => .ok i
    | none => .error .full

def Default.value (now : List Char) : Default → Value
  | .literal v => v
  | .currentTimestamp => .text now

section
variable (schema : Schema)

/-- The values of a new row, with the defaults. -/
def complete (d : TableDef) (now : List Char) (values : String → Option Value) (c : String) : Value :=
  (d.column c).elim .null fun column =>
    column.affinity.store schema.engine ((values c).getD (column.default.elim .null (Default.value now)))

/-- The values of a row after an update. -/
def overwrite (d : TableDef) (old : String → Value) (values : String → Option Value) (c : String) : Value :=
  (d.column c).elim (old c) fun column => (values c).elim (old c) (column.affinity.store schema.engine)

/-- The first constraint that the row breaks by itself. -/
def rowError (d : TableDef) (r : Record) : Option SqlError :=
  (d.columns.findSome? fun c => if c.nullable = false ∧ r.get c.name = .null then some (.notNull c.name) else none).or
    (d.checks.findSome? fun c => if passes schema.engine r.get c.2 then none else some (.check c.1))

/-- The first key that another row has. -/
def clash (d : TableDef) (rows : List Record) (r : Record) : Option SqlError :=
  d.uniques.findSome? fun u => match r.key u.2 with
    | none => none
    | some key => if rows.any fun x => x.id ≠ r.id ∧ x.key u.2 = some key then some (.unique u.1) else none

/-- The first reference of the row that leads nowhere. -/
def dangling (db : Database) (d : TableDef) (r : Record) : Option SqlError :=
  d.foreignKeys.findSome? fun k => match r.key k.columns with
    | none => none
    | some key => if (db k.table).rows.any fun p => p.key k.targets = some key then none else some (.foreignKey k.name)

/-- The first reference to what the row was that leads nowhere now. -/
def orphaned (db : Database) (table : String) (old : Record) : Option SqlError :=
  schema.tables.findSome? fun d => d.foreignKeys.findSome? fun k => match old.key k.targets with
    | none => none
    | some key =>
      if k.table = table ∧ ((db d.name).rows.any fun c => c.key k.columns = some key) ∧
          ((db table).rows.all fun p => p.key k.targets ≠ some key) then
        some (.foreignKey k.name) else none

/-! ## Statements -/

/-- What a statement depends on beside the database: the clock, and the ids that are drawn at random. -/
structure Chance where
  now : List Char
  draws : List Int

inductive Statement where
  | insert (table : String) (id : Option Int) (values : String → Option Value) (chance : Chance)
  | update (table : String) (id : Int) (newId : Option Int) (values : String → Option Value)
  | delete (table : String) (id : Int)

/-- The id that an insert takes. -/
def insertId (d : TableDef) (t : Table) (draws : List Int) : Option Int → Except SqlError Int
  | some i => .ok i
  | none => nextId d t draws

def insertRow (foreignKeys : Bool) (db : Database) (d : TableDef) (id : Option Int)
    (values : String → Option Value) (chance : Chance) : Except SqlError Database := do
  let t := db d.name
  let newId ← insertId d t chance.draws id
  let r : Record := ⟨newId, complete schema d chance.now values⟩
  raiseIf (rowError schema d r)
  raiseIf (if Free t.rows newId then none else some (.unique "id"))
  raiseIf (clash d t.rows r)
  let db' := db.set d.name ⟨t.rows ++ [r], max t.sequence newId⟩
  raiseIf (if foreignKeys then dangling db' d r else none)
  return db'

/-- The id of a row does not change unless the statement sets it; what was given as the largest one stays as it was. -/
def updateRow (foreignKeys : Bool) (db : Database) (d : TableDef) (id : Int) (newId : Option Int)
    (values : String → Option Value) : Except SqlError Database :=
  let t := db d.name
  match t.rows.find? (·.id = id) with
  | none => .ok db
  | some old => do
    let others := t.rows.filter (·.id ≠ id)
    let r : Record := ⟨newId.getD id, overwrite schema d old.values values⟩
    raiseIf (rowError schema d r)
    raiseIf (if Free others r.id then none else some (.unique "id"))
    raiseIf (clash d others r)
    let db' := db.set d.name { t with rows := t.rows.map fun x => if x.id = id then r else x }
    raiseIf (if foreignKeys then (dangling db' d r).or (orphaned schema db' d.name old) else none)
    return db'

def deleteRow (foreignKeys : Bool) (db : Database) (d : TableDef) (id : Int) : Except SqlError Database :=
  let t := db d.name
  match t.rows.find? (·.id = id) with
  | none => .ok db
  | some old => do
    let db' := db.set d.name { t with rows := t.rows.filter (·.id ≠ id) }
    raiseIf (if foreignKeys then orphaned schema db' d.name old else none)
    return db'

def onTable (table : String) (run : TableDef → Except SqlError Database) : Except SqlError Database :=
  match schema.tables.find? (·.name = table) with
  | none => .error (.noSuchTable table)
  | some d => run d

/-- A statement, with the enforcement of foreign keys on or off: the database afterwards, or an error and no change. -/
def exec (foreignKeys : Bool) (db : Database) : Statement → Except SqlError Database
  | .insert table id values chance => onTable schema table fun d => insertRow schema foreignKeys db d id values chance
  | .update table id newId values => onTable schema table fun d => updateRow schema foreignKeys db d id newId values
  | .delete table id => onTable schema table fun d => deleteRow schema foreignKeys db d id

/-! ## Consistency -/

/-- Every column holds values as it stores them. -/
def Typed (E : Engine) (d : TableDef) (r : Record) : Prop :=
  ∀ c column, d.column c = some column → column.affinity.store E (r.values c) = r.values c

/-- What the declarations say of all rows. -/
structure Consistent (db : Database) : Prop where
  typed : ∀ d ∈ schema.tables, ∀ r ∈ (db d.name).rows, Typed schema.engine d r
  ids : ∀ d ∈ schema.tables, ((db d.name).rows.map (·.id)).Nodup
  rows : ∀ d ∈ schema.tables, ∀ r ∈ (db d.name).rows, rowError schema d r = none
  uniques : ∀ d ∈ schema.tables, ∀ u ∈ d.uniques, ∀ r ∈ (db d.name).rows, ∀ x ∈ (db d.name).rows, ∀ key,
    r.key u.2 = some key → x.key u.2 = some key → x.id = r.id
  references : ∀ d ∈ schema.tables, ∀ k ∈ d.foreignKeys, ∀ r ∈ (db d.name).rows, ∀ key,
    r.key k.columns = some key → ∃ p ∈ (db k.table).rows, p.key k.targets = some key

theorem consistent_empty : Consistent schema .empty := by
  constructor <;> simp [Database.empty]

/-! ## The checks -/

variable {schema}

theorem rowError_eq_none {d : TableDef} {r : Record} : rowError schema d r = none ↔
    (∀ c ∈ d.columns, c.nullable = false → r.get c.name ≠ .null) ∧
      ∀ c ∈ d.checks, passes schema.engine r.get c.2 = true := by
  simp [rowError]

theorem clash_eq_none {d : TableDef} {rows : List Record} {r : Record} : clash d rows r = none ↔
    ∀ u ∈ d.uniques, ∀ key, r.key u.2 = some key → ∀ x ∈ rows, x.key u.2 = some key → x.id = r.id := by
  unfold clash
  rw [List.findSome?_eq_none_iff]
  refine forall₂_congr fun u _ => ?_
  cases r.key u.2 with
  | none => simp
  | some key =>
    simp only [Option.some.injEq, forall_eq', ite_eq_right_iff, reduceCtorEq, imp_false, Bool.not_eq_true,
      List.any_eq_false, decide_eq_true_eq, not_and]
    exact forall₂_congr fun x _ => ⟨fun h hx => by_contra fun hne => h hne hx, fun h hne hx => hne (h hx)⟩

theorem dangling_eq_none {db : Database} {d : TableDef} {r : Record} : dangling db d r = none ↔
    ∀ k ∈ d.foreignKeys, ∀ key, r.key k.columns = some key → ∃ p ∈ (db k.table).rows, p.key k.targets = some key := by
  unfold dangling
  rw [List.findSome?_eq_none_iff]
  refine forall₂_congr fun k _ => ?_
  cases r.key k.columns with
  | none => simp
  | some key => simp

theorem orphaned_eq_none {db : Database} {table : String} {old : Record} : orphaned schema db table old = none ↔
    ∀ d ∈ schema.tables, ∀ k ∈ d.foreignKeys, ∀ key, k.table = table → old.key k.targets = some key →
      ∀ c ∈ (db d.name).rows, c.key k.columns = some key → ∃ p ∈ (db table).rows, p.key k.targets = some key := by
  unfold orphaned
  simp only [List.findSome?_eq_none_iff]
  refine forall₂_congr fun d _ => forall₂_congr fun k _ => ?_
  cases old.key k.targets with
  | none => simp
  | some key =>
    simp only [Option.some.injEq, ite_eq_right_iff, reduceCtorEq, imp_false, not_and, List.any_eq_true,
      decide_eq_true_eq, List.all_eq_true, ne_eq, decide_not, Bool.not_eq_true', decide_eq_false_iff_not, not_forall,
      not_not, exists_prop, forall_exists_index, and_imp]
    constructor
    · rintro h key' hk rfl
      exact h hk
    · exact fun h hk => h key hk rfl

/-! ## One step -/

theorem Double.store_eq (x : Double) : x.store = .real x ∨ ∃ i, x.store = .int i ∧ x = .ofInt i ∧ i < 2 ^ 63 - 1 := by
  rcases x with _ | _ | q
  · exact Or.inl rfl
  · exact Or.inl rfl
  · show ite _ _ _ = _ ∨ ∃ i, ite _ _ _ = _ ∧ _
    split
    · rename_i hq
      refine Or.inr ⟨q.num, rfl, ?_, hq.2.2⟩
      rw [Double.ofInt, Rat.coe_int_num_of_den_eq_one hq.1]
      rfl
    · exact Or.inl rfl

/-- What a column stores, it would store again. -/
theorem Affinity.store_store (E : Engine) (a : Affinity) (v : Value) : a.store E (a.store E v) = a.store E v := by
  have hdouble : ∀ x : Double, Affinity.numeric.store E x.store = x.store := fun x => by
    rcases x.store_eq with h | ⟨i, h, -⟩
    · exact (congrArg (Affinity.numeric.store E) h).trans rfl
    · exact (congrArg (Affinity.numeric.store E) h).trans h.symm
  cases a with
  | text => cases v <;> rfl
  | numeric =>
    cases v with
    | real x => exact hdouble x
    | text t =>
      show Affinity.numeric.store E ((E.number t).elim _ _) = (E.number t).elim _ _
      rcases h : E.number t with _ | i | x
      · simp [Affinity.store, h]
      · rfl
      · exact hdouble x
    | _ => rfl

theorem typed_complete (d : TableDef) (now : List Char) (values : String → Option Value) (i : Int) :
    Typed schema.engine d ⟨i, complete schema d now values⟩ := by
  intro c column hcolumn
  simp only [complete, hcolumn, Option.elim_some]
  exact Affinity.store_store _ _ _

theorem typed_overwrite {d : TableDef} {old : Record} (h : Typed schema.engine d old) (values : String → Option Value)
    (i : Int) : Typed schema.engine d ⟨i, overwrite schema d old.values values⟩ := by
  intro c column hcolumn
  simp only [overwrite, hcolumn, Option.elim_some]
  cases values c with
  | none => exact h c column hcolumn
  | some v => exact Affinity.store_store _ _ _

/-- A table in which the row of one id is replaced, taken away or new. -/
theorem replace_consistent {db : Database} (h : Consistent schema db) {d : TableDef} (hd : d ∈ schema.tables) (id : Int)
    (fresh : Option Record) {t : Table}
    (hmem : ∀ x, x ∈ t.rows ↔ (x ∈ (db d.name).rows ∧ x.id ≠ id) ∨ fresh = some x)
    (hids : (t.rows.map (·.id)).Nodup)
    (hfresh : ∀ r, fresh = some r → Typed schema.engine d r ∧ rowError schema d r = none ∧
      clash d ((db d.name).rows.filter (·.id ≠ id)) r = none ∧ dangling (db.set d.name t) d r = none)
    (hold : ∀ p ∈ (db d.name).rows, p.id = id → orphaned schema (db.set d.name t) d.name p = none) :
    Consistent schema (db.set d.name t) := by
  -- a row of the new database is another one of the old database, or the fresh one
  have hrow : ∀ d' ∈ schema.tables, ∀ x ∈ (db.set d.name t d'.name).rows,
      (x ∈ (db d'.name).rows ∧ (d' = d → x.id ≠ id)) ∨ d' = d ∧ fresh = some x := by
    intro d' hd' x hx
    by_cases hn : d'.name = d.name
    · obtain rfl := schema.eq_of_name hd' hd hn
      rw [Database.set_self] at hx
      exact ((hmem x).mp hx).imp (fun h => ⟨h.1, fun _ => h.2⟩) fun h => ⟨rfl, h⟩
    · rw [Database.set_of_ne _ _ hn] at hx
      exact Or.inl ⟨hx, fun heq => absurd (congrArg TableDef.name heq) hn⟩
  have hother : ∀ x ∈ (db d.name).rows, x.id ≠ id → x ∈ (db d.name).rows.filter (·.id ≠ id) := fun x hx hxid =>
    List.mem_filter.mpr ⟨hx, by simpa using hxid⟩
  constructor
  · intro d' hd' x hx
    rcases hrow d' hd' x hx with ⟨hx, -⟩ | ⟨rfl, hnew⟩
    · exact h.typed d' hd' x hx
    · exact (hfresh x hnew).1
  · intro d' hd'
    by_cases hn : d'.name = d.name
    · rwa [hn, Database.set_self]
    · rw [Database.set_of_ne _ _ hn]
      exact h.ids d' hd'
  · intro d' hd' x hx
    rcases hrow d' hd' x hx with ⟨hx, -⟩ | ⟨rfl, hnew⟩
    · exact h.rows d' hd' x hx
    · exact (hfresh x hnew).2.1
  · intro d' hd' u hu r hr x hx key hrkey hxkey
    rcases hrow d' hd' r hr with ⟨hrold, hrid⟩ | ⟨rfl, hrnew⟩
    · rcases hrow d' hd' x hx with ⟨hxold, -⟩ | ⟨rfl, hxnew⟩
      · exact h.uniques d' hd' u hu r hrold x hxold key hrkey hxkey
      · exact (clash_eq_none.mp (hfresh x hxnew).2.2.1 u hu key hxkey r (hother r hrold (hrid rfl)) hrkey).symm
    · rcases hrow d' hd' x hx with ⟨hxold, hxid⟩ | ⟨-, hxnew⟩
      · exact clash_eq_none.mp (hfresh r hrnew).2.2.1 u hu key hrkey x (hother x hxold (hxid rfl)) hxkey
      · rw [Option.some.inj (hrnew.symm.trans hxnew)]
  · intro d' hd' k hk r hr key hkey
    rcases hrow d' hd' r hr with ⟨hold', -⟩ | ⟨rfl, hnew⟩
    · obtain ⟨p, hp, hpkey⟩ := h.references d' hd' k hk r hold' key hkey
      by_cases hn : k.table = d.name
      · rw [hn] at hp ⊢
        by_cases hid : p.id = id
        · -- the row that was referred to is gone, so that another one has its key
          exact orphaned_eq_none.mp (hold p hp hid) d' hd' k hk key hn hpkey r hr hkey
        · refine ⟨p, ?_, hpkey⟩
          rw [Database.set_self]
          exact (hmem p).mpr (Or.inl ⟨hp, hid⟩)
      · rw [Database.set_of_ne _ _ hn]
        exact ⟨p, hp, hpkey⟩
    · exact dangling_eq_none.mp (hfresh r hnew).2.2.2 k hk key hkey

theorem bind_eq_ok {α β : Type} {m : Except SqlError α} {f : α → Except SqlError β} {x : β} :
    (m >>= f) = .ok x ↔ ∃ a, m = .ok a ∧ f a = .ok x := by
  cases m <;> simp [bind, Except.bind]

/-- What an insert does. -/
theorem insertRow_ok_iff {foreignKeys : Bool} {db db' : Database} {d : TableDef} {id : Option Int}
    {values : String → Option Value} {chance : Chance} :
    insertRow schema foreignKeys db d id values chance = .ok db' ↔
    ∃ i, insertId d (db d.name) chance.draws id = .ok i ∧
      let r : Record := ⟨i, complete schema d chance.now values⟩
      db' = db.set d.name ⟨(db d.name).rows ++ [r], max (db d.name).sequence i⟩ ∧
      Free (db d.name).rows i ∧ rowError schema d r = none ∧ clash d (db d.name).rows r = none ∧
      (foreignKeys = true → dangling db' d r = none) := by
  simp only [insertRow, bind_eq_ok, raiseIf_eq_ok]
  constructor
  · rintro ⟨i, hi, _, hrow, _, hid, _, hclash, _, hdangling, h⟩
    obtain rfl := Except.ok.inj h
    refine ⟨i, hi, rfl, by simpa using hid, hrow, hclash, fun hforeign => ?_⟩
    rwa [if_pos hforeign] at hdangling
  · rintro ⟨i, hi, rfl, hid, hrow, hclash, hdangling⟩
    refine ⟨i, hi, (), hrow, (), if_pos hid, (), hclash, (), ?_, rfl⟩
    · split
      · exact hdangling ‹_›
      · rfl

theorem updateRow_ok {foreignKeys : Bool} {db db' : Database} {d : TableDef} {id : Int} {newId : Option Int}
    {values : String → Option Value} (h : updateRow schema foreignKeys db d id newId values = .ok db') :
    db' = db ∨ ∃ old, (db d.name).rows.find? (·.id = id) = some old ∧
      let r : Record := ⟨newId.getD id, overwrite schema d old.values values⟩
      db' = db.set d.name { db d.name with rows := (db d.name).rows.map fun x => if x.id = id then r else x } ∧
      rowError schema d r = none ∧ Free ((db d.name).rows.filter (·.id ≠ id)) r.id ∧
      clash d ((db d.name).rows.filter (·.id ≠ id)) r = none ∧
      (foreignKeys = true → dangling db' d r = none ∧ orphaned schema db' d.name old = none) := by
  cases hold : (db d.name).rows.find? (·.id = id) with
  | none =>
    simp only [updateRow, hold] at h
    exact Or.inl (Except.ok.inj h).symm
  | some old =>
    simp only [updateRow, hold, bind_eq_ok, raiseIf_eq_ok] at h
    obtain ⟨_, hrow, _, hfree, _, hclash, _, hreferences, h⟩ := h
    obtain rfl := Except.ok.inj h
    refine Or.inr ⟨old, rfl, rfl, hrow, by simpa using hfree, hclash, fun hforeign => ?_⟩
    rw [if_pos hforeign] at hreferences
    simpa using hreferences

theorem deleteRow_ok_iff {foreignKeys : Bool} {db db' : Database} {d : TableDef} {id : Int} :
    deleteRow schema foreignKeys db d id = .ok db' ↔
      ((db d.name).rows.find? (·.id = id) = none ∧ db' = db) ∨ ∃ old, (db d.name).rows.find? (·.id = id) = some old ∧
        db' = db.set d.name { db d.name with rows := (db d.name).rows.filter (·.id ≠ id) } ∧
        (foreignKeys = true → orphaned schema db' d.name old = none) := by
  cases hold : (db d.name).rows.find? (·.id = id) with
  | none =>
    have hrun : deleteRow schema foreignKeys db d id = .ok db := by simp only [deleteRow, hold]
    rw [hrun, Except.ok.injEq]
    simp [eq_comm]
  | some old =>
    simp only [deleteRow, hold, bind_eq_ok, raiseIf_eq_ok, reduceCtorEq, false_and, Option.some.injEq, false_or,
      exists_eq_left']
    constructor
    · rintro ⟨_, horphaned, h⟩
      obtain rfl := Except.ok.inj h
      exact ⟨rfl, fun hforeign => by rwa [if_pos hforeign] at horphaned⟩
    · rintro ⟨rfl, horphaned⟩
      refine ⟨(), ?_, rfl⟩
      split
      · exact horphaned ‹_›
      · rfl

/-- What a delete leaves. -/
theorem deleteRow_rows {foreignKeys : Bool} {db db' : Database} {d : TableDef} {id : Int}
    (h : deleteRow schema foreignKeys db d id = .ok db') :
    (db' d.name).rows = (db d.name).rows.filter (·.id ≠ id) ∧ ∀ n, n ≠ d.name → db' n = db n := by
  rcases deleteRow_ok_iff.mp h with ⟨hnone, rfl⟩ | ⟨old, -, rfl, -⟩
  · refine ⟨(List.filter_eq_self.mpr fun x hx => ?_).symm, fun _ _ => rfl⟩
    simpa using List.find?_eq_none.mp hnone x hx
  · exact ⟨by rw [Database.set_self], fun n hn => Database.set_of_ne _ _ hn⟩

/-- The only row of an id. -/
theorem Consistent.eq_of_find {db : Database} (h : Consistent schema db) {d : TableDef} (hd : d ∈ schema.tables)
    {id : Int} {old : Record} (hold : (db d.name).rows.find? (·.id = id) = some old) {p : Record}
    (hp : p ∈ (db d.name).rows) (hid : p.id = id) : p = old := by
  have hmem := List.mem_of_find?_eq_some hold
  have holdId : old.id = id := by simpa using List.find?_some hold
  exact List.inj_on_of_nodup_map (h.ids d hd) hp hmem (hid.trans holdId.symm)

/-- What a unique key tells apart is different in all rows. -/
theorem Consistent.nodup_map {db : Database} (h : Consistent schema db) {d : TableDef} (hd : d ∈ schema.tables)
    {u : String × List String} (hu : u ∈ d.uniques) {β : Type} {f : Record → β}
    (hf : ∀ r ∈ (db d.name).rows, ∀ x ∈ (db d.name).rows, f r = f x →
      ∃ key, r.key u.2 = some key ∧ x.key u.2 = some key) : ((db d.name).rows.map f).Nodup := by
  refine (List.Nodup.of_map _ (h.ids d hd)).map_on fun r hr x hx heq => ?_
  obtain ⟨key, hrkey, hxkey⟩ := hf r hr x hx heq
  exact List.inj_on_of_nodup_map (h.ids d hd) hr hx (h.uniques d hd u hu x hx r hr key hxkey hrkey)

theorem insertRow_consistent {db db' : Database} (h : Consistent schema db) {d : TableDef} (hd : d ∈ schema.tables)
    {id : Option Int} {values : String → Option Value} {chance : Chance}
    (hinsert : insertRow schema true db d id values chance = .ok db') : Consistent schema db' := by
  obtain ⟨i, -, rfl, hid, hrow, hclash, hdangling⟩ := insertRow_ok_iff.mp hinsert
  have hothers : (db d.name).rows.filter (·.id ≠ i) = (db d.name).rows :=
    List.filter_eq_self.mpr fun x hx => by simpa using hid x hx
  refine replace_consistent h hd i (some ⟨i, complete schema d chance.now values⟩) (fun x => ?_) ?_
    (fun r hr => ?_) fun p hp hpid => absurd hpid (hid p hp)
  · simp only [List.mem_append, List.mem_singleton, Option.some.injEq]
    refine or_congr ⟨fun hx => ⟨hx, hid x hx⟩, And.left⟩ eq_comm
  · rw [List.map_append, List.nodup_append']
    refine ⟨h.ids d hd, List.nodup_singleton _, ?_⟩
    rw [List.map_singleton, List.disjoint_singleton]
    intro hmem
    obtain ⟨x, hx, hxid⟩ := List.mem_map.mp hmem
    exact hid x hx hxid
  · obtain rfl := Option.some.inj hr
    rw [hothers]
    exact ⟨typed_complete d chance.now values i, hrow, hclash, hdangling rfl⟩

/-- The row of an id is replaced by one with an id that no other row has. -/
theorem nodup_replace {rows : List Record} (h : (rows.map (·.id)).Nodup) (id : Int) {r : Record}
    (hfree : Free (rows.filter (·.id ≠ id)) r.id) :
    ((rows.map fun x => if x.id = id then r else x).map (·.id)).Nodup := by
  have hne : ∀ x ∈ rows, x.id ≠ id → x.id ≠ r.id := fun x hx hxid =>
    hfree x (List.mem_filter.mpr ⟨hx, by simpa using hxid⟩)
  have hrows := List.Nodup.of_map _ h
  rw [List.map_map]
  refine hrows.map_on fun x hx y hy heq => List.inj_on_of_nodup_map h hx hy ?_
  simp only [Function.comp_apply] at heq
  split at heq <;> split at heq
  · exact ‹x.id = id›.trans (Eq.symm ‹y.id = id›)
  · exact absurd heq.symm (hne y hy ‹_›)
  · exact absurd heq (hne x hx ‹_›)
  · exact heq

theorem updateRow_consistent {db db' : Database} (h : Consistent schema db) {d : TableDef} (hd : d ∈ schema.tables)
    {id : Int} {newId : Option Int} {values : String → Option Value}
    (hupdate : updateRow schema true db d id newId values = .ok db') : Consistent schema db' := by
  rcases updateRow_ok hupdate with rfl | ⟨old, hold, rfl, hrow, hfree, hclash, hreferences⟩
  · exact h
  obtain ⟨hmem, hid⟩ : old ∈ (db d.name).rows ∧ old.id = id :=
    ⟨List.mem_of_find?_eq_some hold, by simpa using List.find?_some hold⟩
  let r : Record := ⟨newId.getD id, overwrite schema d old.values values⟩
  refine replace_consistent h hd id (some r) (fun x => ?_) (nodup_replace (h.ids d hd) id hfree) (fun x hx => ?_)
    fun p hp hpid => ?_
  · rw [List.mem_map, Option.some.injEq]
    constructor
    · rintro ⟨y, hy, rfl⟩
      by_cases hyid : y.id = id
      · exact Or.inr (if_pos hyid).symm
      · exact Or.inl (by rw [if_neg hyid]; exact ⟨hy, hyid⟩)
    · rintro (⟨hx, hxid⟩ | rfl)
      · exact ⟨x, hx, if_neg hxid⟩
      · exact ⟨old, hmem, if_pos hid⟩
  · obtain rfl := Option.some.inj hx
    exact ⟨typed_overwrite (h.typed d hd old hmem) values _, hrow, hclash, (hreferences rfl).1⟩
  · rw [h.eq_of_find hd hold hp hpid]
    exact (hreferences rfl).2

theorem deleteRow_consistent {db db' : Database} (h : Consistent schema db) {d : TableDef} (hd : d ∈ schema.tables)
    {id : Int} (hdelete : deleteRow schema true db d id = .ok db') : Consistent schema db' := by
  rcases deleteRow_ok_iff.mp hdelete with ⟨-, rfl⟩ | ⟨old, hold, rfl, horphaned⟩
  · exact h
  refine replace_consistent h hd id none (fun x => ?_) ?_ (by simp) fun p hp hpid => ?_
  · simp
  · exact (h.ids d hd).sublist ((List.filter_sublist ..).map _)
  · rw [h.eq_of_find hd hold hp hpid]
    exact horphaned rfl

/-! ## Statements and transactions -/

theorem onTable_ok {table : String} {run : TableDef → Except SqlError Database} {db : Database}
    (h : onTable schema table run = .ok db) : ∃ d ∈ schema.tables, d.name = table ∧ run d = .ok db := by
  unfold onTable at h
  split at h
  · simp at h
  · rename_i d hfound
    exact ⟨d, List.mem_of_find?_eq_some hfound, by simpa using List.find?_some hfound, h⟩

theorem onTable_of_mem {d : TableDef} (hd : d ∈ schema.tables) (run : TableDef → Except SqlError Database) :
    onTable schema d.name run = run d := by
  unfold onTable
  split
  · exact absurd (List.find?_eq_none.mp ‹_› d hd) (by simp)
  · rename_i d' hfound
    have hname : d'.name = d.name := by simpa using List.find?_some hfound
    rw [schema.eq_of_name (List.mem_of_find?_eq_some hfound) hd hname]

theorem exec_ok {foreignKeys : Bool} {db db' : Database} {s : Statement} (h : exec schema foreignKeys db s = .ok db') :
    ∃ d ∈ schema.tables, (∃ id values chance, s = .insert d.name id values chance ∧
        insertRow schema foreignKeys db d id values chance = .ok db') ∨
      (∃ id newId values, s = .update d.name id newId values ∧
        updateRow schema foreignKeys db d id newId values = .ok db') ∨
      ∃ id, deleteRow schema foreignKeys db d id = .ok db' := by
  cases s with
  | insert table id values chance =>
    obtain ⟨d, hd, rfl, hrun⟩ := onTable_ok h
    exact ⟨d, hd, Or.inl ⟨id, values, chance, rfl, hrun⟩⟩
  | update table id newId values =>
    obtain ⟨d, hd, rfl, hrun⟩ := onTable_ok h
    exact ⟨d, hd, Or.inr (Or.inl ⟨id, newId, values, rfl, hrun⟩)⟩
  | delete table id =>
    obtain ⟨d, hd, -, hrun⟩ := onTable_ok h
    exact ⟨d, hd, Or.inr (Or.inr ⟨id, hrun⟩)⟩

/-- **Every statement keeps the constraints**, once foreign keys are enforced. -/
theorem exec_consistent {db db' : Database} (h : Consistent schema db) {s : Statement}
    (hexec : exec schema true db s = .ok db') : Consistent schema db' := by
  obtain ⟨d, hd, ⟨id, values, chance, -, hrun⟩ | ⟨id, newId, values, -, hrun⟩ | ⟨id, hrun⟩⟩ := exec_ok hexec
  · exact insertRow_consistent h hd hrun
  · exact updateRow_consistent h hd hrun
  · exact deleteRow_consistent h hd hrun

theorem map_replace_id (id : Int) (r : Record) (hr : r.id = id) (rows : List Record) :
    (rows.map fun x => if x.id = id then r else x).map (·.id) = rows.map (·.id) := by
  rw [List.map_map]
  refine List.map_congr_left fun x _ => ?_
  simp only [Function.comp_apply]
  split
  · rw [hr]
    exact Eq.symm ‹_›
  · rfl

/-- No id that was given to a new row is forgotten. -/
theorem exec_sequence {foreignKeys : Bool} {db db' : Database} {s : Statement}
    (h : exec schema foreignKeys db s = .ok db') (n : String) : (db n).sequence ≤ (db' n).sequence := by
  have hset : ∀ {name : String} {t : Table}, (db name).sequence ≤ t.sequence →
      (db n).sequence ≤ (db.set name t n).sequence := by
    intro name t ht
    by_cases hn : n = name
    · rwa [hn, Database.set_self]
    · rw [Database.set_of_ne _ _ hn]
  obtain ⟨d, -, ⟨id, values, chance, -, hrun⟩ | ⟨id, newId, values, -, hrun⟩ | ⟨id, hrun⟩⟩ := exec_ok h
  · obtain ⟨i, -, rfl, -⟩ := insertRow_ok_iff.mp hrun
    exact hset (le_max_left _ _)
  · rcases updateRow_ok hrun with rfl | ⟨old, -, rfl, -⟩
    · exact le_rfl
    · exact hset le_rfl
  · rcases deleteRow_ok_iff.mp hrun with ⟨-, rfl⟩ | ⟨old, -, rfl, -⟩
    · exact le_rfl
    · exact hset le_rfl

/-- An insert into the table leaves the id to the store, and an update leaves it as it is. -/
def Statement.LeavesId (n : String) : Statement → Prop
  | insert table id _ _ => table = n → id = none
  | update table _ newId _ => table = n → newId = none
  | delete _ _ => True

/-- The ids of a table after such a statement: some of those before, or all of them and a new one. -/
theorem exec_ids {foreignKeys : Bool} {db db' : Database} {s : Statement} {n : String} (hs : s.LeavesId n)
    (h : exec schema foreignKeys db s = .ok db') :
    ((db' n).rows.map (·.id)).Sublist ((db n).rows.map (·.id)) ∨
      ∃ d ∈ schema.tables, d.name = n ∧ ∃ draws i, nextId d (db n) draws = .ok i ∧ i ≤ (db' n).sequence ∧
        (db' n).rows.map (·.id) = (db n).rows.map (·.id) ++ [i] := by
  have hset : ∀ {name : String} {t : Table}, (n = name → (t.rows.map (·.id)).Sublist ((db name).rows.map (·.id))) →
      ((db.set name t n).rows.map (·.id)).Sublist ((db n).rows.map (·.id)) := by
    intro name t ht
    by_cases hn : n = name
    · rw [hn, Database.set_self]
      exact ht hn
    · rw [Database.set_of_ne _ _ hn]
  obtain ⟨d, hd, ⟨id, values, chance, rfl, hrun⟩ | ⟨id, newId, values, rfl, hrun⟩ | ⟨id, hrun⟩⟩ := exec_ok h
  · obtain ⟨i, hi, rfl, -⟩ := insertRow_ok_iff.mp hrun
    by_cases hn : d.name = n
    · subst hn
      obtain rfl : id = none := hs rfl
      exact Or.inr ⟨d, hd, rfl, chance.draws, i, hi, by simp, by simp⟩
    · exact Or.inl (hset fun heq => absurd heq.symm hn)
  · rcases updateRow_ok hrun with rfl | ⟨old, -, rfl, -⟩
    · exact Or.inl (List.Sublist.refl _)
    · refine Or.inl (hset fun heq => ?_)
      obtain rfl : newId = none := hs heq.symm
      rw [map_replace_id id _ rfl]
  · rcases deleteRow_ok_iff.mp hrun with ⟨-, rfl⟩ | ⟨old, -, rfl, -⟩
    · exact Or.inl (List.Sublist.refl _)
    · exact Or.inl (hset fun _ => (List.filter_sublist ..).map _)

/-- What is committed, and the database as the open transaction sees it. -/
structure Session where
  committed : Database
  working : Database

inductive Action where
  | run (s : Statement)
  | commit
  | rollback

variable (schema) in
/-- A database that starts empty; a statement that fails changes nothing. -/
def system (foreignKeys : Bool) : Transition.System Session Action where
  init := ⟨.empty, .empty⟩
  step s a := match a with
    | .run stmt => match exec schema foreignKeys s.working stmt with
      | .ok db => some { s with working := db }
      | .error _ => some s
    | .commit => some { s with committed := s.working }
    | .rollback => some { s with working := s.committed }

variable {ok : Session → Action → Prop} {s t : Session}

theorem step_cases {foreignKeys : Bool} {a : Action} (h : (system schema foreignKeys).step s a = some t) : t = s ∨
    (∃ stmt db, a = .run stmt ∧ exec schema foreignKeys s.working stmt = .ok db ∧ t = { s with working := db }) ∨
    t = { s with committed := s.working } ∨ t = { s with working := s.committed } := by
  cases a with
  | run stmt =>
    simp only [system] at h
    split at h
    · exact Or.inr (Or.inl ⟨stmt, _, rfl, ‹_›, (Option.some.inj h).symm⟩)
    · exact Or.inl (Option.some.inj h).symm
  | commit => exact Or.inr (Or.inr (Or.inl (Option.some.inj h).symm))
  | rollback => exact Or.inr (Or.inr (Or.inr (Option.some.inj h).symm))

/-- **Every run keeps the constraints**, in the open transaction and in what is committed. -/
theorem Reachable.consistent (h : (system schema true).Reachable t) :
    Consistent schema t.committed ∧ Consistent schema t.working := by
  refine h.invariant (I := fun s => Consistent schema s.committed ∧ Consistent schema s.working)
    (fun s a t hs _ hstep => ?_) ⟨consistent_empty schema, consistent_empty schema⟩
  rcases step_cases hstep with rfl | ⟨stmt, db, rfl, hexec, rfl⟩ | rfl | rfl
  · exact hs
  · exact ⟨hs.1, exec_consistent hs.2 hexec⟩
  · exact ⟨hs.2, hs.2⟩
  · exact ⟨hs.1, hs.1⟩

/-- What is committed has given no id that the open transaction does not know of. -/
theorem Reachable.sequence_le {foreignKeys : Bool} (h : (system schema foreignKeys).Reachable s) (n : String) :
    (s.committed n).sequence ≤ (s.working n).sequence := by
  refine h.invariant (I := fun s => (s.committed n).sequence ≤ (s.working n).sequence)
    (fun s a t hs _ hstep => ?_) le_rfl
  rcases step_cases hstep with rfl | ⟨stmt, db, rfl, hexec, rfl⟩ | rfl | rfl
  · exact hs
  · exact hs.trans (exec_sequence hexec n)
  · exact le_rfl
  · exact le_rfl

/-- The largest committed id only grows, also over a rollback. -/
theorem Reaches.sequence_le {foreignKeys : Bool} (hs : (system schema foreignKeys).Reachable s)
    (h : (system schema foreignKeys).Reaches ok s t) (n : String) :
    (s.committed n).sequence ≤ (t.committed n).sequence ∧ (t.committed n).sequence ≤ (t.working n).sequence := by
  refine h.invariant (I := fun t => (s.committed n).sequence ≤ (t.committed n).sequence ∧
    (t.committed n).sequence ≤ (t.working n).sequence) (fun u a t hu _ hstep => ?_) ⟨le_rfl, Reachable.sequence_le hs n⟩
  rcases step_cases hstep with rfl | ⟨stmt, db, rfl, hexec, rfl⟩ | rfl | rfl
  · exact hu
  · exact ⟨hu.1, hu.2.trans (exec_sequence hexec n)⟩
  · exact ⟨hu.1.trans hu.2, le_rfl⟩
  · exact ⟨hu.1, le_rfl⟩

theorem le_maxId {rows : List Record} {x : Record} (hx : x ∈ rows) : x.id ≤ maxId rows := by
  have hmem : x.id ∈ rows.map (·.id) := List.mem_map_of_mem hx
  unfold maxId
  cases hmax : (rows.map (·.id)).max? with
  | none => simp [List.max?_eq_none_iff.mp hmax] at hmem
  | some m => exact (List.max?_eq_some_iff.mp hmax).2 _ hmem

theorem maxId_lt_iff {rows : List Record} : maxId rows < maxRowid ↔ ∀ x ∈ rows, x.id < maxRowid := by
  refine ⟨fun h x hx => (le_maxId hx).trans_lt h, fun h => ?_⟩
  unfold maxId
  cases hmax : (rows.map (·.id)).max? with
  | none => decide
  | some m =>
    obtain ⟨x, hx, rfl⟩ := List.mem_map.mp (List.max?_eq_some_iff.mp hmax).1
    exact h x hx

/-- With `AUTOINCREMENT` a new id is greater than those of the rows, and than any that was given before. -/
theorem nextId_auto {d : TableDef} (hauto : d.autoincrement = true) {t : Table} {draws : List Int} {i : Int}
    (h : nextId d t draws = .ok i) : (∀ x ∈ t.rows, x.id < i) ∧ t.sequence < i := by
  simp only [nextId, hauto, if_true, List.find?_nil] at h
  split at h
  · obtain rfl := Except.ok.inj h
    exact ⟨fun x hx => Int.lt_add_one_of_le ((le_maxId hx).trans (le_max_right _ _)),
      Int.lt_add_one_of_le (le_max_left _ _)⟩
  · simp at h

theorem nextId_free {d : TableDef} {t : Table} {draws : List Int} {i : Int} (h : nextId d t draws = .ok i) :
    Free t.rows i := by
  intro x hx
  cases hauto : d.autoincrement with
  | true => exact ((nextId_auto hauto h).1 x hx).ne
  | false =>
    have hmax := le_maxId hx
    simp only [nextId, hauto, Bool.false_eq_true, if_false] at h
    split at h
    · obtain rfl := Except.ok.inj h
      omega
    · split at h
      · rename_i j hfind
        obtain rfl := Except.ok.inj h
        have hfree : Free t.rows j := by simpa using List.find?_some hfind
        exact hfree x hx
      · simp at h

/-- Without it an id is given if one is left after the largest, or if one that is drawn is free. -/
theorem exists_nextId_iff {d : TableDef} (hauto : d.autoincrement = false) {t : Table} {draws : List Int} :
    (∃ i, nextId d t draws = .ok i) ↔ maxId t.rows < maxRowid ∨ ∃ i ∈ draws, Free t.rows i := by
  simp only [nextId, hauto, Bool.false_eq_true, if_false]
  split
  · simp [*]
  · cases hfind : draws.find? fun i => Free t.rows i with
    | none =>
      have hnone : ∀ i ∈ draws, ¬ Free t.rows i := by simpa using hfind
      simp_all
    | some i =>
      have hfree : Free t.rows i := by simpa using List.find?_some hfind
      simpa [*] using ⟨i, List.mem_of_find?_eq_some hfind, hfree⟩

/-! ## Runs that leave the ids to the store -/

/-- A step that neither gives nor changes an id of the table. -/
def LeavesId (n : String) (_ : Session) : Action → Prop
  | .run s => s.LeavesId n
  | _ => True

/-- No row has an id beyond the largest that was given. -/
def Known (db : Database) (n : String) : Prop := ∀ i ∈ (db n).rows.map (·.id), i ≤ (db n).sequence

theorem exec_known {foreignKeys : Bool} {db db' : Database} {s : Statement} {n : String} (hs : s.LeavesId n)
    (h : exec schema foreignKeys db s = .ok db') (hdb : Known db n) : Known db' n := by
  intro i hi
  rcases exec_ids hs h with hsub | ⟨d, -, -, draws, j, -, hj, hids⟩
  · exact (hdb i (hsub.subset hi)).trans (exec_sequence h n)
  · rw [hids, List.mem_append, List.mem_singleton] at hi
    rcases hi with hi | rfl
    · exact (hdb i hi).trans (exec_sequence h n)
    · exact hj

theorem Reaches.known {foreignKeys : Bool} {n : String}
    (h : (system schema foreignKeys).Reaches (LeavesId n) (system schema foreignKeys).init t) :
    Known t.committed n ∧ Known t.working n := by
  refine h.invariant (I := fun s => Known s.committed n ∧ Known s.working n) (fun s a t hs hok hstep => ?_)
    ⟨by simp [Known, system, Database.empty], by simp [Known, system, Database.empty]⟩
  rcases step_cases hstep with rfl | ⟨stmt, db, rfl, hexec, rfl⟩ | rfl | rfl
  · exact hs
  · exact ⟨hs.1, exec_known hok hexec hs.2⟩
  · exact ⟨hs.2, hs.2⟩
  · exact ⟨hs.1, hs.1⟩

/-- **An id is given once**: no row that was committed before, deleted or not, has an id beyond what the table knows of,
and a new one is greater (`nextId_auto`). -/
theorem Reaches.le_sequence {foreignKeys : Bool} {n : String}
    (hs : (system schema foreignKeys).Reaches (LeavesId n) (system schema foreignKeys).init s)
    (h : (system schema foreignKeys).Reaches ok s t) : ∀ x ∈ (s.committed n).rows, x.id ≤ (t.working n).sequence := by
  intro x hx
  obtain ⟨hgrow, hworking⟩ := Reaches.sequence_le (hs.mono fun _ _ _ => trivial) h n
  calc x.id ≤ (s.committed n).sequence := (Reaches.known hs).1 _ (List.mem_map_of_mem hx)
    _ ≤ (t.committed n).sequence := hgrow
    _ ≤ (t.working n).sequence := hworking

/-- **The rows stand in the order of their ids**: the order in which they were inserted. -/
theorem Reaches.ordered {foreignKeys : Bool} {d : TableDef} (hd : d ∈ schema.tables) (hauto : d.autoincrement = true)
    (h : (system schema foreignKeys).Reaches (LeavesId d.name) (system schema foreignKeys).init t) :
    ((t.committed d.name).rows.map (·.id)).Pairwise (· < ·) ∧
      ((t.working d.name).rows.map (·.id)).Pairwise (· < ·) := by
  have hempty : ((Database.empty d.name).rows.map (·.id)).Pairwise (· < ·) := List.Pairwise.nil
  refine h.invariant (I := fun s => ((s.committed d.name).rows.map (·.id)).Pairwise (· < ·) ∧
    ((s.working d.name).rows.map (·.id)).Pairwise (· < ·)) (fun s a t hs hok hstep => ?_) ⟨hempty, hempty⟩
  rcases step_cases hstep with rfl | ⟨stmt, db, rfl, hexec, rfl⟩ | rfl | rfl
  · exact hs
  · refine ⟨hs.1, ?_⟩
    rcases exec_ids hok hexec with hsub | ⟨d', hd', hname, draws, i, hi, -, hids⟩
    · exact hs.2.sublist hsub
    · obtain rfl := schema.eq_of_name hd' hd hname
      show ((db d'.name).rows.map (·.id)).Pairwise (· < ·)
      rw [hids, List.pairwise_append]
      refine ⟨hs.2, List.pairwise_singleton _ _, fun x hx y hy => ?_⟩
      obtain ⟨r, hr, rfl⟩ := List.mem_map.mp hx
      rw [List.mem_singleton.mp hy]
      exact (nextId_auto hauto hi).1 r hr
  · exact ⟨hs.2, hs.2⟩
  · exact ⟨hs.1, hs.1⟩

end

end DataAgent.Sqlite
