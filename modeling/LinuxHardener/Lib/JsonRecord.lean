import LinuxHardener.Lib.Json

/-
  Records in JSON: a value of a type is written as a `Json` and read back from one.

  The reader of a record takes its members in any order, passes over names it does not
  know, refuses a name met twice, and takes a missing optional member for none.

  What is proved:
    1. `items_map` — a list comes back, given what it holds does.
    2. `JsonReader.parse_text` — so does a value through its text.
-/
namespace LinuxHardener.Json

variable {α : Type}

/-- The one member of a name. -/
def member (kvs : List (String × Json)) (name : String) : Option Json :=
  match kvs.filter fun kv => kv.1 == name with
  | [kv] => some kv.2
  | _ => none

/-- A member that may be missing or null. -/
def optMember (of : Json → Option α) (kvs : List (String × Json)) (name : String) : Option (Option α) :=
  match kvs.filter fun kv => kv.1 == name with
  | [] => some none
  | [(_, .null)] => some none
  | [(_, x)] => (of x).map some
  | _ => none

/-- A member that may be missing and then has a default. -/
def memberOr (default : α) (of : Json → Option α) (kvs : List (String × Json)) (name : String) : Option α :=
  match kvs.filter fun kv => kv.1 == name with
  | [] => some default
  | [kv] => of kv.2
  | _ => none

def strOf : Json → Option String
  | .str s => some s
  | _ => none

def boolOf : Json → Option Bool
  | .bool b => some b
  | _ => none

def itemsOf (of : Json → Option α) : Json → Option (List α)
  | .arr xs => xs.mapM of
  | _ => none

def writeOptional (json : α → Json) : Option α → Json
  | none => .null
  | some a => json a

theorem items_map {of : Json → Option α} {json : α → Json} (h : ∀ a, of (json a) = some a) (l : List α) :
    itemsOf of (.arr (l.map json)) = some l := by
  change (l.map json).mapM of = some l
  induction l with
  | nil => rfl
  | cons a l ih => simp [List.mapM_cons, h, ih]

/-- The name of a value among all of its type. -/
def named [DecidableEq α] (all : List α) (name : α → String) (s : String) : Option α := all.find? fun a => name a == s

/-! ## Texts -/

/-- A reader of JSON texts, with its complaint about one it does not take. -/
structure JsonReader where
  fromStr : String → Option Json
  complaint : String → String
  /-- It reads what is written. -/
  fromStr_text : ∀ x : Json, fromStr x.text = some x

/-- Read a value of a type from a text. -/
def JsonReader.parse (reader : JsonReader) (of : Json → Option α) (s : String) : Except String α :=
  match (reader.fromStr s).bind of with
  | some a => .ok a
  | none => .error (reader.complaint s)

theorem JsonReader.parse_text (reader : JsonReader) {of : Json → Option α} {x : Json} {a : α} (h : of x = some a) :
    reader.parse of x.text = .ok a := by
  simp [JsonReader.parse, reader.fromStr_text, h]

/-- The reader of compact texts. -/
def JsonReader.compact : JsonReader where
  fromStr := ofText
  complaint _ := "expected value at line 1 column 1"
  fromStr_text := ofText_text

end LinuxHardener.Json
