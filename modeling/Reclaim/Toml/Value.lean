import Reclaim.Decimal.Double

/-!
# Values of a configuration file

A configuration file is a table of named values, and its tables are written in several ways.  How a
table was written decides what may be added to it later in the file.

## Main definitions

* `Toml.Writing` : how a table was written.
* `Toml.Entry` : a value, a table or a list of tables.
* `Toml.Fields` : the entries of a table in the order of the file.
-/

namespace Reclaim.Toml

/-- How a table was written. -/
inductive Writing where
  /-- In braces; nothing can be added. -/
  | braces
  /-- Under a header of its own. -/
  | header
  /-- Only as part of the header of a table inside it. -/
  | passed
  /-- Only as part of a dotted key. -/
  | dotted
  deriving DecidableEq, Repr

/-- An entry of a table. -/
inductive Entry where
  | text (value : String)
  | integer (value : Int)
  | float (value : Double)
  | boolean (value : Bool)
  /-- A date, a time or both, as written. -/
  | moment (text : String)
  | array (items : List Entry)
  | table (writing : Writing) (fields : List (String × Entry))
  /-- Tables under headers in double brackets, each with its fields. -/
  | tables (items : List (List (String × Entry)))

/-- The entries of a table in the order of the file. -/
abbrev Fields := List (String × Entry)

namespace Fields

/-- The fields with another entry under a key that is there. -/
def replace (key : String) (entry : Entry) (fields : Fields) : Fields :=
  fields.map fun field => if field.1 = key then (key, entry) else field

/-- One more field under a new key. -/
def addNew (key : String) (entry : Entry) (fields : Fields) : Option Fields :=
  match fields.lookup key with
  | none => some (fields ++ [(key, entry)])
  | some _ => none

/-- The fields of a new table that holds `inner` under `key`. -/
private def wrap (writing : Writing) (key : String) (fields : Fields) (inner : Fields) : Fields :=
  fields ++ [(key, .table writing inner)]

/-- A field is added under a dotted key.  Tables on the way are made if they are missing; one that
has a header or braces cannot be extended, and the last one must have been made by a dotted key. -/
def insertDotted : List String → String → Entry → Fields → Option Fields
  | [], key, entry, fields => addNew key entry fields
  | step :: path, key, entry, fields =>
    match fields.lookup step with
    | none => (insertDotted path key entry []).map (wrap .dotted step fields)
    | some (.table writing inner) =>
      if writing = .dotted ∨ (writing = .passed ∧ path ≠ []) then
        (insertDotted path key entry inner).map fun inner =>
          fields.replace step (.table writing inner)
      else none
    | some (.tables items) =>
      match items.getLast? with
      | some inner =>
        if path = [] then none
        else (insertDotted path key entry inner).map fun inner =>
          fields.replace step (.tables (items.dropLast ++ [inner]))
      | none => none
    | some _ => none

/-- The fields at a path of headers are changed.  Tables on the way are made if they are missing;
of several tables under one header the last is meant. -/
def changeAt (change : Fields → Option Fields) : List String → Fields → Option Fields
  | [], fields => change fields
  | step :: path, fields =>
    match fields.lookup step with
    | none => (changeAt change path []).map (wrap .passed step fields)
    | some (.table .braces _) => none
    | some (.table writing inner) =>
      (changeAt change path inner).map fun inner => fields.replace step (.table writing inner)
    | some (.tables items) =>
      match items.getLast? with
      | some inner =>
        (changeAt change path inner).map fun inner =>
          fields.replace step (.tables (items.dropLast ++ [inner]))
      | none => none
    | some _ => none

/-- A table gets its header: it is new, or has only been passed by the headers of others. -/
def open? (key : String) (fields : Fields) : Option Fields :=
  match fields.lookup key with
  | none => some (fields ++ [(key, .table .header [])])
  | some (.table .passed inner) => some (fields.replace key (.table .header inner))
  | some _ => none

/-- One more table goes under a header in double brackets. -/
def append? (key : String) (fields : Fields) : Option Fields :=
  match fields.lookup key with
  | none => some (fields ++ [(key, .tables [[]])])
  | some (.tables items) => some (fields.replace key (.tables (items ++ [[]])))
  | some _ => none

end Fields

end Reclaim.Toml
