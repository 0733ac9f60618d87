/-!
# TOML values

A document is a table, and a table maps keys to values. How a table came about decides how the
document may go on with it: a table written out with its own header, or between braces, is complete
once its lines are over; a table that was only mentioned on the way to another one can still get a
header of its own; and a table made by dotted keys can still get further dotted keys.

* `Value.put` enters a value under a dotted key, with these rules.
-/

namespace PriceTime.Toml

/-- How a table came about. -/
inductive TableKind where
  /-- It has a header of its own, or is the document itself. -/
  | written
  /-- It was mentioned in the header of a table inside it. -/
  | mentioned
  /-- It was mentioned by a dotted key. -/
  | dotted
  /-- It was written between braces. -/
  | inline
deriving DecidableEq

/-- A value of a document. -/
inductive Value where
  | string (text : String)
  | integer (number : Int64)
  | float (number : Float)
  | boolean (value : Bool)
  | datetime (text : String)
  | array (items : List Value)
  | table (kind : TableKind) (entries : List (String × Value))
  /-- The tables under a header in double brackets, the last one last. -/
  | rows (tables : List Value)

namespace Value

/-- The value under a key. -/
def find? (entries : List (String × Value)) (key : String) : Option Value :=
  entries.lookup key

/-- Enter a value under a key, in place of the one that was there. -/
def enter (entries : List (String × Value)) (key : String) (value : Value) :
    List (String × Value) :=
  match entries with
  | [] => [(key, value)]
  | (k, v) :: rest => if k = key then (key, value) :: rest else (k, v) :: enter rest key value

/-- Change the last table under a header in double brackets. -/
def changeLast (change : Value → Option Value) : List Value → Option (List Value)
  | [] => none
  | [last] => (change last).map ([·])
  | first :: rest => (changeLast change rest).map (first :: ·)

/-- Follow a path of keys into a table, make what tables are missing on the way, and change the
table at its end. Keys of a header lead through the last table under a header in double brackets.
Dotted keys do not lead into a table that has a header of its own. -/
def descend (isDotted : Bool) (change : Value → Option Value) :
    (path : List String) → Value → Option Value
  | [], value => change value
  | key :: path, table kind entries => do
    let missing := table (if isDotted then .dotted else .mentioned) []
    let child ← match (find? entries key).getD missing with
      | table .inline _ => none
      | table .written inner =>
        if isDotted then none
        else descend isDotted change path (table .written inner)
      | table kind inner => descend isDotted change path (table kind inner)
      | rows tables => (changeLast (descend isDotted change path) tables).map rows
      | _ => none
    return table kind (enter entries key child)
  | _ :: _, _ => none

/-- Enter a value under a key that has none. -/
def putHere (key : String) (value : Value) : Value → Option Value
  | table kind entries =>
    match find? entries key with
    | some _ => none
    | none => some (table kind (enter entries key value))
  | _ => none

/-- Enter a value under a dotted key. A table that is reached through dots must have been made by
dots. -/
def put (path : List String) (value : Value) (target : Value) : Option Value :=
  match path.getLast? with
  | none => none
  | some key =>
    let parents := path.dropLast
    descend true (fun inner =>
      match inner with
      | table .dotted _ => if parents.isEmpty then none else putHere key value inner
      | _ => if parents.isEmpty then putHere key value inner else none) parents target

/-- Enter values under dotted keys, one after the other. -/
def putAll (pairs : List (List String × Value)) (target : Value) : Option Value :=
  pairs.foldlM (fun target (path, value) => put path value target) target

/-- Enter a table under its header. The header may name a table that was only mentioned so far. -/
def putTable (path : List String) (pairs : List (List String × Value)) (document : Value) :
    Option Value :=
  match path.getLast? with
  | none => none
  | some key =>
    descend false (fun parent =>
      match parent with
      | table kind entries => do
        let inner ← match find? entries key with
          | none => some []
          | some (table .mentioned inner) => some inner
          | some _ => none
        let complete ← putAll pairs (table .written inner)
        return table kind (enter entries key complete)
      | _ => none) path.dropLast document

/-- Enter a table under a header in double brackets. -/
def putRow (path : List String) (pairs : List (List String × Value)) (document : Value) :
    Option Value :=
  match path.getLast? with
  | none => none
  | some key =>
    descend false (fun parent =>
      match parent with
      | table kind entries => do
        let before ← match find? entries key with
          | none => some []
          | some (rows tables) => some tables
          | some _ => none
        let complete ← putAll pairs (table .written [])
        return table kind (enter entries key (rows (before ++ [complete])))
      | _ => none) path.dropLast document

/-- The fields of a record, from a table that names them or from an array that lists them in their
order. A date has no fields, and gives none of them. -/
def fields? : Value → Option (Nat → String → Option Value)
  | table _ entries => some fun _ name => find? entries name
  | array items => some fun place _ => items[place]?
  | rows tables => some fun place _ => tables[place]?
  | datetime _ => some fun _ _ => none
  | _ => none

end Value

end PriceTime.Toml
