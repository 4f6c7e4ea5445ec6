import LatteHlsl.Toml.Value

/-!
# Building tables

Headers and key paths open tables on their way. Each key is set once, and a table that is closed
or was opened in another way is not added to.
-/

namespace LatteHlsl.Toml

/-- A table that is being built. -/
structure Table where
  origin : Origin
  entries : Entries := []

/-- How a path goes through tables. -/
inductive PathKind where
  /-- The path of a header. -/
  | header
  /-- The part of a dotted key before its last name. -/
  | dotted
deriving DecidableEq

/-- The origin of a table that a path opens on its way. -/
def PathKind.opens : PathKind → Origin
  | .header => .implied
  | .dotted => .dotted

/-- Whether a path may go on into a table. -/
def PathKind.mayEnter : PathKind → Origin → Bool
  | _, .inline => false
  | .header, _ => true
  | .dotted, .header => false
  | .dotted, _ => true

namespace Table

/-- Change the table at the end of a path. In an array of tables the path goes on in the last
one. -/
def update (kind : PathKind) (f : Table → Option Table) : List String → Table → Option Table
  | [], t => f t
  | key :: path, t =>
    match t.entries.value? key with
    | none => do
      let sub ← update kind f path { origin := kind.opens }
      return { t with entries := t.entries.put key (.table sub.origin sub.entries) }
    | some (.table origin entries) => do
      if kind.mayEnter origin then
        let sub ← update kind f path { origin := origin, entries := entries }
        return { t with entries := t.entries.put key (.table sub.origin sub.entries) }
      else none
    | some (.tables items) => do
      let last ← items.getLast?
      let sub ← update kind f path { origin := .header, entries := last }
      return { t with entries := t.entries.put key (.tables (items.dropLast ++ [sub.entries])) }
    | some _ => none

/-- Set a key for the first time. -/
def insertNew (key : String) (v : Value) (t : Table) : Option Table :=
  if (t.entries.value? key).isSome then none
  else some { t with entries := t.entries.put key v }

/-- Set the value of a dotted key. A dotted key adds only to tables that dotted keys opened. -/
def define (path : List String) (key : String) (v : Value) (t : Table) : Option Table :=
  t.update .dotted
    (fun inner =>
      if (inner.origin == .dotted) == path.isEmpty then none else inner.insertNew key v)
    path

/-- Open the table of a header. It is new, or was only implied so far. -/
def openTable (path : List String) (key : String) (t : Table) : Option Table :=
  t.update .header
    (fun parent =>
      match parent.entries.value? key with
      | none => some { parent with entries := parent.entries.put key (.table .header []) }
      | some (.table .implied entries) =>
        some { parent with entries := parent.entries.put key (.table .header entries) }
      | some _ => none)
    path

/-- Append a table to the array of a header. -/
def appendTable (path : List String) (key : String) (t : Table) : Option Table :=
  t.update .header
    (fun parent =>
      match parent.entries.value? key with
      | none => some { parent with entries := parent.entries.put key (.tables [[]]) }
      | some (.tables items) =>
        some { parent with entries := parent.entries.put key (.tables (items ++ [[]])) }
      | some _ => none)
    path

end Table

end LatteHlsl.Toml
