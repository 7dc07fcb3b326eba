import LinuxHardener.Lib.LineText
import Mathlib.Algebra.GroupWithZero.Nat

/-
  TOML values, and one table written over another.

  A table is what it holds for each key: nothing that reads a table depends on the order of its
  keys. Writing a table over another merges them, and everything that is no table is replaced.

  The libraries that parse and print texts are a parameter.

  What is proved:
    1. `valueAt_atop` — a path that the table written over does not have keeps its value.
    2. `atop_atop` — writing a table over another a second time changes nothing.
    3. `atop_editAt` — an edit below keys that the table written over does not have commutes with
       the writing.
-/
namespace LinuxHardener.Toml

open LineText (Chars)

/-- `other` stands for floats and dates, as they are written. -/
inductive Value where
  | string (text : Chars)
  | integer (i : Int)
  | boolean (b : Bool)
  | other (text : Chars)
  | array (items : List Value)
  | table (get : Chars → Option Value)

abbrev Table : Type := Chars → Option Value

namespace Value

def string? : Value → Option Chars
  | .string text => some text
  | _ => none

def boolean? : Value → Option Bool
  | .boolean b => some b
  | _ => none

/-- An integer that the given number of bits holds. -/
def unsigned? (bits : Nat) : Value → Option Nat
  | .integer (.ofNat n) => if n < 2 ^ bits then some n else none
  | _ => none

def array? : Value → Option (List Value)
  | .array items => some items
  | _ => none

def table? : Value → Option Table
  | .table get => some get
  | _ => none

def strings? (value : Value) : Option (List Chars) := value.array?.bind fun items => items.mapM string?

theorem mapM_string (texts : List Chars) : (texts.map Value.string).mapM string? = some texts := by
  induction texts with
  | nil => rfl
  | cons text texts ih =>
    rw [List.map_cons, List.mapM_cons, ih]
    rfl

@[simp] theorem strings?_array (texts : List Chars) : (Value.array (texts.map .string)).strings? = some texts :=
  mapM_string texts

end Value

namespace Table

def empty : Table := fun _ => none

def of (entries : List (Chars × Value)) : Table := fun key => (entries.find? fun e => e.1 = key).map Prod.snd

def insert (t : Table) (key : Chars) (value : Value) : Table := fun other => if other = key then some value else t other

def erase (t : Table) (key : Chars) : Table := fun other => if other = key then none else t other

def table? (t : Table) (key : Chars) : Option Table := (t key).bind Value.table?

/-- The table at a key, or an empty one. -/
def sub (t : Table) (key : Chars) : Table := (t.table? key).getD empty

/-- A field that may be missing. -/
def fieldOr {α : Type} (missing : α) (read : Value → Option α) (t : Table) (key : Chars) : Option α :=
  match t key with
  | none => some missing
  | some value => read value

variable {t : Table} {key : Chars} {value : Value}

theorem of_single (other : Chars) : of [(key, value)] other = if key = other then some value else none := by
  rw [of, List.find?_cons]
  by_cases h : key = other
  · rw [if_pos h, decide_eq_true h]
    rfl
  · rw [if_neg h, decide_eq_false h]
    rfl

theorem of_single_inj {key' : Chars} {value' : Value} (h : of [(key, value)] = of [(key', value')]) : key = key' ∧ value = value' := by
  have hat := congrFun h key'
  rw [of_single, of_single, if_pos rfl] at hat
  split at hat
  · next hkey => exact ⟨hkey, Option.some.inj hat⟩
  · cases hat

@[simp] theorem insert_self : t.insert key value key = some value := if_pos rfl

@[simp] theorem erase_self : t.erase key key = none := if_pos rfl

theorem insert_ne {other : Chars} (h : other ≠ key) : t.insert key value other = t other := if_neg h

theorem erase_ne {other : Chars} (h : other ≠ key) : t.erase key other = t other := if_neg h

theorem erase_erase : (t.erase key).erase key = t.erase key := by
  funext other
  by_cases h : other = key
  · rw [h, erase_self, erase_self]
  · rw [erase_ne h]

theorem erase_comm (k k' : Chars) : (t.erase k).erase k' = (t.erase k').erase k := by
  funext other
  unfold erase
  split <;> split <;> rfl

@[simp] theorem erase_empty (key : Chars) : empty.erase key = empty := by
  funext other
  exact ite_self none

theorem erase_insert : (t.insert key value).erase key = t.erase key := by
  funext other
  by_cases h : other = key
  · rw [h, erase_self, erase_self]
  · rw [erase_ne h, insert_ne h, erase_ne h]

theorem table?_eq_some {get : Table} : t.table? key = some get ↔ t key = some (.table get) := by
  rw [table?]
  cases t key with
  | none => exact ⟨nofun, nofun⟩
  | some value =>
    cases value with
    | table get' => exact ⟨fun h => congrArg (fun t => some (Value.table t)) (Option.some.inj h), fun h => congrArg (·.bind Value.table?) h⟩
    | _ => exact ⟨nofun, nofun⟩

@[simp] theorem sub_table {get : Table} (h : t key = some (.table get)) : t.sub key = get := by
  rw [sub, table?_eq_some.mpr h, Option.getD_some]

theorem sub_other (h : t.table? key = none) : t.sub key = empty := by
  rw [sub, h, Option.getD_none]

theorem fieldOr_some {α : Type} {missing : α} {read : Value → Option α} (h : t key = some value) :
    fieldOr missing read t key = read value := by
  rw [fieldOr, h]

theorem fieldOr_congr {α : Type} {missing : α} {read : Value → Option α} {t' : Table} (h : t key = t' key) :
    fieldOr missing read t key = fieldOr missing read t' key := by
  rw [fieldOr, fieldOr, h]

end Table

/-- What stands at a path of keys. -/
def valueAt (t : Table) : List Chars → Option Value
  | [] => none
  | key :: rest => if rest = [] then t key else valueAt (t.sub key) rest

theorem valueAt_erase {t : Table} {key : Chars} {path : List Chars} (h : ¬ [key] <+: path) : valueAt (t.erase key) path = valueAt t path := by
  cases path with
  | nil => rfl
  | cons k rest =>
    have hk : k ≠ key := fun heq => h (heq ▸ List.prefix_append [k] rest)
    rw [valueAt, valueAt, Table.sub, Table.sub, Table.table?, Table.table?, Table.erase_ne hk]

/-! ## One over another -/

mutual

def overlay (destination : Value) : Value → Value
  | .table incoming =>
    match destination with
    | .table get => .table fun key => overlaySlot (get key) (incoming key)
    | _ => .table incoming
  | other => other

/-- What a key has after the overlay. -/
def overlaySlot (slot : Option Value) : Option Value → Option Value
  | none => slot
  | some value =>
    some (match slot with
      | some held => overlay held value
      | none => value)

end

@[simp] theorem overlay_leaf {value : Value} (destination : Value) (h : value.table? = none) : overlay destination value = value := by
  cases value with
  | table get => cases h
  | _ => rw [overlay]; nofun

@[simp] theorem overlaySlot_none (value : Value) : overlaySlot none (some value) = some value := by rw [overlaySlot]

@[simp] theorem overlaySlot_some (held value : Value) : overlaySlot (some held) (some value) = some (overlay held value) := by
  rw [overlaySlot]

/-- What is no table gives way to a table. -/
theorem overlay_onto_leaf {destination : Value} (get : Chars → Option Value) (h : destination.table? = none) :
    overlay destination (.table get) = .table get := by
  cases destination with
  | table get => cases h
  | _ => rw [overlay]; nofun

namespace Table

def atop (incoming destination : Table) : Table := fun key => overlaySlot (destination key) (incoming key)

theorem overlay_table (destination incoming : Table) : overlay (.table destination) (.table incoming) = .table (incoming.atop destination) := by
  rw [overlay]
  rfl

variable {i d : Table} {key : Chars}

theorem atop_none (h : i key = none) : i.atop d key = d key := by
  rw [atop, h, overlaySlot]

/-- Whatever is no table is replaced. -/
theorem atop_leaf {value : Value} (h : i key = some value) (hleaf : value.table? = none) : i.atop d key = some value := by
  rw [atop, h]
  cases d key with
  | none => exact overlaySlot_none value
  | some held => rw [overlaySlot_some, overlay_leaf held hleaf]

@[simp] theorem atop_empty (i : Table) : i.atop empty = i := by
  funext key
  rw [atop, empty]
  cases i key with
  | none => rfl
  | some value => exact overlaySlot_none value

/-- Tables are merged, and what stood in a table's place goes. -/
theorem atop_table {i' : Table} (h : i key = some (.table i')) : i.atop d key = some (.table (i'.atop (d.sub key))) := by
  rw [atop, h, sub, table?]
  cases d key with
  | none => exact (overlaySlot_none _).trans (congrArg (fun t => some (Value.table t)) (atop_empty i').symm)
  | some held =>
    rw [overlaySlot_some, Option.bind_some]
    cases hheld : held.table? with
    | none => rw [overlay_onto_leaf i' hheld, Option.getD_none, atop_empty]
    | some get =>
      cases held with
      | table get' =>
        cases hheld
        rw [overlay_table, Option.getD_some]
      | _ => cases hheld

/-- A key that a table does not have, on the way down a path through its own tables. -/
def Lacks (i : Table) : List Chars → Prop
  | [] => False
  | key :: rest =>
    match i key with
    | none => True
    | some (.table i') => Lacks i' rest
    | some _ => False

theorem lacks_cons_table {i' : Table} (h : i key = some (.table i')) {rest : List Chars} : i.Lacks (key :: rest) ↔ i'.Lacks rest := by
  rw [Lacks, h]

theorem valueAt_atop {path : List Chars} (h : i.Lacks path) : valueAt (i.atop d) path = valueAt d path := by
  induction path generalizing i d with
  | nil => exact h.elim
  | cons key rest ih =>
    rw [valueAt, valueAt]
    cases hi : i key with
    | none => rw [sub, sub, table?, table?, atop_none hi]
    | some value =>
      cases value with
      | table i' =>
        have hrest := (lacks_cons_table hi).mp h
        have hne : rest ≠ [] := fun hnil => by
          subst hnil
          exact hrest
        rw [if_neg hne, if_neg hne, sub_table (atop_table hi), ih hrest]
      | _ =>
        rw [Lacks, hi] at h
        exact h.elim

mutual

theorem overlay_self : ∀ i : Value, overlay i i = i
  | .table i => by
    rw [overlay_table]
    exact congrArg Value.table (funext fun key => overlaySlot_self (i key))
  | .string _ | .integer _ | .boolean _ | .other _ | .array _ => overlay_leaf _ rfl

theorem overlaySlot_self : ∀ i : Option Value, overlaySlot i i = i
  | none => rfl
  | some i => by rw [overlaySlot_some, overlay_self i]

end

mutual

theorem overlay_overlay (d : Value) : ∀ i : Value, overlay (overlay d i) i = overlay d i
  | .table i => by
    cases d with
    | table get =>
      rw [overlay_table, overlay_table]
      exact congrArg Value.table (funext fun key => overlaySlot_overlaySlot (get key) (i key))
    | _ => exact overlay_self (.table i)
  | .string _ | .integer _ | .boolean _ | .other _ | .array _ => by rw [overlay_leaf _ rfl, overlay_leaf _ rfl]

theorem overlaySlot_overlaySlot (slot : Option Value) : ∀ i : Option Value, overlaySlot (overlaySlot slot i) i = overlaySlot slot i
  | none => by cases slot <;> rfl
  | some i => by
    cases slot with
    | none => rw [overlaySlot_none, overlaySlot_some, overlay_self]
    | some held => rw [overlaySlot_some, overlaySlot_some, overlay_overlay held i]

end

/-- A second time changes nothing. -/
theorem atop_atop (i d : Table) : i.atop (i.atop d) = i.atop d := funext fun key => overlaySlot_overlaySlot (d key) (i key)

/-- A key that is not written can be erased before or after. -/
theorem atop_erase (h : i key = none) (t : Table) : i.atop (t.erase key) = (i.atop t).erase key := by
  funext other
  by_cases ho : other = key
  · rw [ho, erase_self, atop_none h, erase_self]
  · rw [atop, erase_ne ho, erase_ne ho, atop]

/-! ## Edits of a table in a table -/

/-- The table at a path edited, where the path runs through tables only. -/
def editAt (edit : Table → Table) : List Chars → Table → Table
  | [], t => edit t
  | key :: rest, t =>
    match t.table? key with
    | some get => t.insert key (.table (editAt edit rest get))
    | none => t

/-- The table that stands at a path. -/
def TableAt : List Chars → Table → Table → Prop
  | [], t, found => t = found
  | key :: rest, t, found => ∃ get, t key = some (.table get) ∧ TableAt rest get found

variable {edit : Table → Table}

theorem editAt_table {get : Table} {rest : List Chars} (h : d key = some (.table get)) :
    editAt edit (key :: rest) d = d.insert key (.table (editAt edit rest get)) := by
  rw [editAt, table?_eq_some.mpr h]

theorem editAt_other {rest : List Chars} (h : d.table? key = none) : editAt edit (key :: rest) d = d := by
  rw [editAt, h]

theorem editAt_ne {k other : Chars} (rest : List Chars) (h : other ≠ k) : editAt edit (k :: rest) d other = d other := by
  cases hd : d.table? k with
  | none => rw [editAt_other hd]
  | some get => rw [editAt_table (table?_eq_some.mp hd), insert_ne h]

theorem editAt_empty (hempty : edit empty = empty) (path : List Chars) : editAt edit path empty = empty := by
  cases path with
  | nil => exact hempty
  | cons key rest => rfl

theorem sub_editAt (hempty : edit empty = empty) (rest : List Chars) : (editAt edit (key :: rest) d).sub key = editAt edit rest (d.sub key) := by
  cases hd : d.table? key with
  | none => rw [editAt_other hd, sub_other hd, editAt_empty hempty]
  | some get =>
    have hget := table?_eq_some.mp hd
    rw [editAt_table hget, sub_table hget, sub_table insert_self]

/-- An edit that a table at the path does not touch can be made before or after it is written. -/
theorem atop_editAt {path : List Chars} {at' : Table} (hat : TableAt path i at') (hempty : edit empty = empty)
    (hedit : ∀ t, at'.atop (edit t) = edit (at'.atop t)) : i.atop (editAt edit path d) = editAt edit path (i.atop d) := by
  induction path generalizing i d with
  | nil =>
    cases hat
    exact hedit d
  | cons key rest ih =>
    obtain ⟨get, hget, hrest⟩ := hat
    funext other
    by_cases ho : other = key
    · rw [ho, atop_table hget, sub_editAt hempty, editAt_table (atop_table hget), insert_self, ih hrest]
    · rw [atop, editAt_ne rest ho, editAt_ne rest ho, atop]

theorem editAt_editAt (hedit : ∀ t, edit (edit t) = edit t) (path : List Chars) (t : Table) :
    editAt edit path (editAt edit path t) = editAt edit path t := by
  induction path generalizing t with
  | nil => exact hedit t
  | cons key rest ih =>
    cases ht : t.table? key with
    | none => rw [editAt_other ht, editAt_other ht]
    | some get =>
      have hget := table?_eq_some.mp ht
      rw [editAt_table hget, editAt_table insert_self, ih]
      funext other
      by_cases ho : other = key
      · rw [ho, insert_self, insert_self]
      · rw [insert_ne ho]

/-- A path that a table does not have, where a table of its stands at the path edited. -/
theorem valueAt_editAt {path q : List Chars} {at' : Table} (hat : TableAt path i at') (hlacks : i.Lacks q)
    (hempty : edit empty = empty) (hedit : ∀ rest, q = path ++ rest → ∀ t, valueAt (edit t) rest = valueAt t rest) :
    valueAt (editAt edit path d) q = valueAt d q := by
  induction path generalizing i d q with
  | nil => exact hedit q rfl d
  | cons key rest ih =>
    obtain ⟨get, hget, hrest⟩ := hat
    cases q with
    | nil => exact hlacks.elim
    | cons k q =>
      by_cases hk : k = key
      · subst hk
        have hq := (lacks_cons_table hget).mp hlacks
        have hne : q ≠ [] := fun hnil => by
          subst hnil
          exact hq
        rw [valueAt, valueAt, if_neg hne, if_neg hne, sub_editAt hempty]
        exact ih hrest hq fun rest' heq t => hedit rest' (congrArg (k :: ·) heq) t
      · rw [valueAt, valueAt, sub, sub, table?, table?, editAt_ne rest hk]

end Table

/-! ## Texts -/

/-- What the TOML libraries make of texts: a text parsed, a text printed again without one of its
top-level keys, and a table printed. -/
structure Library where
  parse : Chars → Except Chars Table
  remove : Chars → Chars → Except Chars Chars
  pretty : Table → Except Chars Chars
  mistyped : Table → Chars

/-- A text without a key parses to the rest of what it parsed to, and a table printed at the end of
a text without its key is that table. -/
structure Library.Lawful (toml : Library) : Prop where
  parse_remove : ∀ {text key rest : Chars} {d : Table}, toml.parse text = .ok d → toml.remove text key = .ok rest →
    toml.parse rest = .ok (d.erase key)
  parse_append : ∀ {text key block : Chars} {d t : Table}, toml.parse text = .ok d → d key = none →
    toml.pretty (.of [(key, .table t)]) = .ok block → toml.parse (text ++ '\n' :: block) = .ok (d.insert key (.table t))

end LinuxHardener.Toml
