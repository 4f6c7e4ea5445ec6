/-!
# TOML values

Values as they are read from a document. A table remembers how it came to be, because that decides
whether later lines of the document may add to it.
-/

namespace LatteHlsl.Toml

/-- How a table came to be. -/
inductive Origin where
  /-- Written in braces; nothing can be added. -/
  | inline
  /-- Opened by its own header. -/
  | header
  /-- Implied by the header of a table inside it. -/
  | implied
  /-- Implied by a dotted key. -/
  | dotted
deriving DecidableEq

/-- A value. Floats and dates are kept as they are written. -/
inductive Value where
  | string (s : String)
  | integer (n : Int)
  | float (text : String)
  | bool (b : Bool)
  | datetime (text : String)
  | array (items : List Value)
  | table (origin : Origin) (entries : List (String × Value))
  /-- An array of tables, one a header. -/
  | tables (items : List (List (String × Value)))

/-- The entries of a table. -/
abbrev Entries := List (String × Value)

namespace Entries

/-- The value of a key. -/
def value? (es : Entries) (key : String) : Option Value := es.lookup key

/-- Set the value of a key. -/
def put (es : Entries) (key : String) (v : Value) : Entries :=
  if es.any fun e => e.1 == key then es.map fun e => if e.1 == key then (key, v) else e
  else es ++ [(key, v)]

end Entries

end LatteHlsl.Toml
