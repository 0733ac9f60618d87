import PriceTime.Toml.Scalar

/-!
# TOML documents

A document is a sequence of lines: comments, headers, and keys with their values. A header starts a
table, and the keys after it belong to that table; keys before the first header belong to the
document itself.
-/

namespace PriceTime.Toml

open Scanner

/-- Keys have fewer parts than this, and arrays and tables are nested less deep. -/
def maxDepth : Nat := 80

/-! ## Keys -/

/-- Characters of a key without quotes. -/
def isBare (c : Char) : Bool :=
  c.isAlphanum || c == '-' || c == '_'

/-- One part of a key. -/
def keyPart : Scanner String :=
  basicString <|> literalString <|> (do return String.ofList (← someOf isBare))

/-- A key of one or more parts with dots between them. -/
def keyPath : Scanner (List String) := do
  let path ← separated (do blanks; let part ← keyPart; blanks; return part) (exactly ".")
  if path.isEmpty ∨ maxDepth ≤ path.length then failure else return path

/-- A key with its value. -/
def pair (value : Scanner Value) : Scanner (List String × Value) := do
  let path ← keyPath
  exactly "="
  blanks
  return (path, ← value)

/-! ## Values -/

/-- An array. Line ends and comments may stand between its items, and a comma after the last one. -/
def array (item : Scanner Value) : Scanner Value := do
  exactly "["
  let items ← separated (do gap; let x ← item; gap; return x) (exactly ",")
  if !items.isEmpty then
    let _ ← maybe (exactly ",")
  gap
  exactly "]"
  return .array items

/-- A table between braces, on one line. -/
def inlineTable (value : Scanner Value) : Scanner Value := do
  exactly "\x7b"
  let pairs ← separated (do let p ← pair value; blanks; return p) (exactly ",")
  blanks
  exactly "\x7d"
  match Value.putAll pairs (.table .inline []) with
  | some table => return table
  | none => failure

/-- A value with arrays and tables in it up to a depth. -/
def value : (depth : Nat) → Scanner Value
  | 0 => scalar
  | depth + 1 => do
    match ← peek? with
    | some '[' => array (value depth)
    | some '\x7b' => inlineTable (value depth)
    | _ => scalar

/-! ## Lines -/

/-- What starts a table of the document. -/
inductive Header where
  /-- The document itself. -/
  | document
  /-- A header in brackets. -/
  | table (path : List String)
  /-- A header in double brackets. -/
  | row (path : List String)

/-- A header in brackets, single or double. -/
def header : Scanner Header := do
  exactly "["
  match ← maybe (exactly "[") with
  | some _ =>
    let path ← keyPath
    exactly "]]"
    return .row path
  | none =>
    let path ← keyPath
    exactly "]"
    return .table path

/-- A line with a key and its value. -/
def pairLine : Scanner (List String × Value) := do
  let p ← pair (value (maxDepth - 1))
  lineEnd
  return p

/-- A line with nothing to say, if it is not the end of the document. -/
def emptyLine : Scanner Unit := do
  newline <|> (do comment; newline <|> ending)
  blanks

/-- The keys that follow a header. -/
def pairs : Scanner (List (List String × Value)) := do
  let _ ← many emptyLine
  many (do
    let p ← pairLine
    blanks
    let _ ← many emptyLine
    return p)

/-- A header with the keys that follow it. -/
def headed : Scanner (Header × List (List String × Value)) := do
  let h ← header
  lineEnd
  blanks
  return (h, ← pairs)

/-- A whole document, header by header. -/
def sections : Scanner (List (Header × List (List String × Value))) := do
  let _ ← maybe (exactly "\ufeff")
  blanks
  let first ← pairs
  let rest ← many headed
  ending
  return (.document, first) :: rest

/-- Enter a table of the document. -/
def putSection (document : Value) : Header × List (List String × Value) → Option Value
  | (.document, pairs) => Value.putAll pairs document
  | (.table path, pairs) => Value.putTable path pairs document
  | (.row path, pairs) => Value.putRow path pairs document

/-- The value of a document, if it is well formed. -/
def parse (text : String) : Option Value := do
  let (found, _) ← sections text.toList
  found.foldlM putSection (.table .written [])

end PriceTime.Toml
