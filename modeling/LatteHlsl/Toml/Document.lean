import LatteHlsl.Toml.Number
import LatteHlsl.Toml.Table

/-!
# Documents

A document is a list of lines: keys with values, and headers that say which table the keys after
them belong to.

* `value`: any value.
* `Toml.read`: the table of a whole document.
-/

namespace LatteHlsl.Toml

open Scan

/-! ## Keys -/

/-- A bound on the number of names in a key and on the nesting of values. -/
def nestingLimit : Nat := 80

/-- Whether a character may stand in a key without quotes. -/
def isKeyChar (c : Char) : Bool :=
  ('a' ≤ c && c ≤ 'z') || ('A' ≤ c && c ≤ 'Z') || c.isDigit || c == '-' || c == '_'

/-- A single name. -/
def name : Scan String :=
  Quoted.scanLine <|> do
    let cs ← takeWhile isKeyChar
    if cs.isEmpty then failure else return String.ofList cs

/-- A key: the names before the last one, and the last one. -/
def key : Scan (List String × String) := do
  let names ← sepBy1 (blanks *> name <* blanks) (discard (char '.'))
  if nestingLimit ≤ names.length then failure
  else
    match names.getLast? with
    | some last => return (names.dropLast, last)
    | none => failure

/-- A key and the sign after it. -/
def keyOf : Scan (List String × String) := key <* char '=' <* blanks

/-! ## Values -/

/-- An array of values. -/
def array (value : Scan Value) : Scan Value := do
  let _ ← char '['
  let items ← sepBy (gap *> value <* gap) (discard (char ','))
  if !items.isEmpty then
    let _ ← opt (char ',')
  gap
  let _ ← char ']'
  return .array items

/-- A table in braces. -/
def inlineTable (value : Scan Value) : Scan Value := do
  let _ ← char '\x7b'
  let pairs ← sepBy (do
    let path ← keyOf
    let v ← value
    blanks
    return (path, v)) (discard (char ','))
  blanks
  let _ ← char '\x7d'
  let table := pairs.foldlM (fun (t : Table) (p, v) => t.define p.1 p.2 v) { origin := .inline }
  match table with
  | some t => return .table .inline t.entries
  | none => failure

/-- A value that holds no other values. -/
def scalar : Scan Value := do
  match ← peek with
  | some '"' | some '\'' => Value.string <$> Quoted.scan
  | some 't' => text "true" *> pure (.bool true)
  | some 'f' => text "false" *> pure (.bool false)
  | _ => number

/-- A value in which arrays and tables are nested at most `depth` deep. -/
def value : (depth : Nat) → Scan Value
  | 0 => scalar
  | depth + 1 => do
    match ← peek with
    | some '[' => array (value depth)
    | some '\x7b' => inlineTable (value depth)
    | _ => scalar

/-! ## Lines -/

/-- What a line of a document says. -/
inductive Item where
  /-- The following keys belong to a table. -/
  | table (path : List String) (key : String)
  /-- The following keys belong to a new table of an array. -/
  | append (path : List String) (key : String)
  | pair (path : List String) (key : String) (v : Value)

/-- A header. -/
def header : Scan Item := do
  let _ ← char '['
  match ← opt (char '[') with
  | some _ =>
    let (path, last) ← key
    let _ ← text "]]"
    trailing
    return .append path last
  | none =>
    let (path, last) ← key
    let _ ← char ']'
    trailing
    return .table path last

/-- A key with its value. -/
def pair : Scan Item := do
  let (path, last) ← keyOf
  let v ← value (nestingLimit - 1)
  trailing
  return .pair path last v

/-- A line; a blank line and a comment say nothing. -/
def line : Scan (Option Item) := do
  blanks
  match ← peek with
  | none => failure
  | some '#' => comment *> lineEnd *> pure none
  | some '[' => some <$> header
  | some '\n' | some '\r' => newline *> pure none
  | some _ => some <$> pair

/-- The lines of a document, after a byte order mark if there is one. -/
def lines : Scan (List Item) := do
  let _ ← opt (char '\ufeff')
  let items ← many line
  blanks
  eof
  return items.filterMap id

/-! ## Documents -/

/-- A document that is being built, and the path of the table that keys belong to. -/
structure Draft where
  root : Table := { origin := .header }
  current : List String := []

/-- Add a line. -/
def Draft.add (d : Draft) : Item → Option Draft
  | .table path key => do
    return { root := ← d.root.openTable path key, current := path ++ [key] }
  | .append path key => do
    return { root := ← d.root.appendTable path key, current := path ++ [key] }
  | .pair path key v => do
    return { d with root := ← d.root.update .header (Table.define path key v) d.current }

/-- The table of a document, if the text is one. -/
def read (s : String) : Option Entries := do
  let (items, _) ← lines s.toList
  let draft ← items.foldlM Draft.add {}
  return draft.root.entries

end LatteHlsl.Toml
