/-!
# Scanners

A scanner takes characters from the front of a text, or fails. A scanner that fails has taken
nothing, so another one can be tried.
-/

namespace LatteHlsl.Toml

/-- A scanner over the characters that are left. -/
abbrev Scan (α : Type) := StateT (List Char) Option α

namespace Scan

variable {α : Type}

/-- The next character, if it satisfies `p`. -/
def satisfy (p : Char → Bool) : Scan Char
  | c :: rest => if p c then some (c, rest) else none
  | [] => none

/-- The given character. -/
def char (c : Char) : Scan Char := satisfy (· == c)

/-- The given characters in order. -/
def text (s : String) : Scan String := do
  s.toList.forM fun c => discard (char c)
  return s

/-- The longest run of characters that satisfy `p`. -/
def takeWhile (p : Char → Bool) : Scan (List Char) := fun cs =>
  some (cs.takeWhile p, cs.dropWhile p)

/-- The next character, which is not taken. -/
def peek : Scan (Option Char) := fun cs => some (cs.head?, cs)

/-- Succeeds at the end of the text only. -/
def eof : Scan Unit
  | [] => some ((), [])
  | _ :: _ => none

/-- What a scanner takes, if it takes anything. -/
def opt (s : Scan α) : Scan (Option α) := fun cs =>
  match s cs with
  | some (a, rest) => some (some a, rest)
  | none => some (none, cs)

/-- What a scanner takes when it is run again and again, `n` times at most. -/
def upTo (s : Scan α) : Nat → Scan (List α)
  | 0 => pure []
  | n + 1 => fun cs =>
    match s cs with
    | some (a, rest) => (upTo s n rest).map fun (as, rest) => (a :: as, rest)
    | none => some ([], cs)

/-- What a scanner takes when it is run until it fails. It has to take at least one character each
time. -/
def many (s : Scan α) : Scan (List α) := fun cs => upTo s cs.length cs

/-- One or more items, with a separator between each two. -/
def sepBy1 (item : Scan α) (sep : Scan Unit) : Scan (List α) := do
  let first ← item
  let rest ← many (sep *> item)
  return first :: rest

/-- Items with a separator between each two, or nothing. -/
def sepBy (item : Scan α) (sep : Scan Unit) : Scan (List α) := sepBy1 item sep <|> pure []

/-! ## Blanks and line ends -/

/-- Whether a character separates words on a line. -/
def isBlank (c : Char) : Bool := c == ' ' || c == '\t'

/-- Blanks on a line. -/
def blanks : Scan Unit := discard (takeWhile isBlank)

/-- A line feed, with or without a carriage return before it. -/
def newline : Scan Unit := discard (text "\n") <|> discard (text "\r\n")

/-- The end of a line or of the text. -/
def lineEnd : Scan Unit := newline <|> eof

/-- Whether a character may stand in a comment. -/
def isCommentChar (c : Char) : Bool :=
  c == '\t' || (0x20 ≤ c.toNat && c.toNat ≤ 0x7e) || 0x80 ≤ c.toNat

/-- A comment, up to the end of its line. -/
def comment : Scan Unit := do
  let _ ← char '#'
  let _ ← takeWhile isCommentChar

/-- What may follow an expression on its line. -/
def trailing : Scan Unit := do
  blanks
  let _ ← opt comment
  lineEnd

/-- Blanks, comments and line ends. -/
def gap : Scan Unit := do
  blanks
  let _ ← many do
    let _ ← opt comment
    newline
    blanks

end Scan

end LatteHlsl.Toml
