import LatteHlsl.Toml.Scan

/-!
# Quoted strings

Strings are written in four ways: basic strings have escapes, literal strings have none, and each
comes on a single line or on several.

* `Quoted.scan`: a string of any of the four.
* `Quoted.write?`: the plainest way to write a text.
-/

namespace LatteHlsl.Toml.Quoted

open Scan

/-! ## Reading -/

/-- Whether a character may stand in a string as it is, quotes and backslashes apart. -/
def isPlain (c : Char) : Bool := isCommentChar c

/-- The value of a hexadecimal digit. -/
def hexValue (c : Char) : Nat :=
  if c.isDigit then c.toNat - 48 else c.toLower.toNat - 87

/-- Whether a character is a hexadecimal digit. -/
def isHexDigit (c : Char) : Bool :=
  c.isDigit || ('a' ≤ c && c ≤ 'f') || ('A' ≤ c && c ≤ 'F')

/-- The character with the code given by `n` hexadecimal digits, if there is one. -/
def codePoint (n : Nat) : Scan Char := do
  let digits ← (List.replicate n ()).mapM fun _ => satisfy isHexDigit
  let code := digits.foldl (fun acc d => acc * 16 + hexValue d) 0
  if code.isValidChar then return Char.ofNat code else failure

/-- What stands for a character after a backslash. -/
def escape : Scan Char := do
  let _ ← char '\\'
  match ← satisfy fun _ => true with
  | 'b' => return '\x08'
  | 't' => return '\t'
  | 'n' => return '\n'
  | 'f' => return '\x0c'
  | 'r' => return '\r'
  | '"' => return '"'
  | '\\' => return '\\'
  | 'u' => codePoint 4
  | 'U' => codePoint 8
  | _ => failure

/-- A basic string on a single line. -/
def basic : Scan String := do
  let _ ← char '"'
  let cs ← many (satisfy (fun c => isPlain c && c != '"' && c != '\\') <|> escape)
  let _ ← char '"'
  return String.ofList cs

/-- A literal string on a single line. -/
def literal : Scan String := do
  let _ ← char '\''
  let cs ← takeWhile fun c => isPlain c && c != '\''
  let _ ← char '\''
  return String.ofList cs

/-- A quote that does not begin the closing delimiter. -/
def innerQuote (quote : Char) : Scan Char := fun cs =>
  match cs with
  | a :: b :: c :: _ => if a == quote && b == quote && c == quote then none else char quote cs
  | _ => char quote cs

/-- The closing delimiter, and up to two quotes before it that belong to the text. -/
def closing (quote : Char) : Scan (List Char) := do
  let delimiter : Scan Unit := discard (text (String.ofList [quote, quote, quote]))
  let extra : Scan (Option Char) := opt (char quote)
  delimiter
  let first ← extra
  let second ← extra
  return first.toList ++ second.toList

/-- A backslash at the end of a line, with the blanks and line ends after it. -/
def continued : Scan (List Char) := do
  let _ ← char '\\'
  blanks
  newline
  let _ ← many (discard (satisfy isBlank) <|> newline)
  return []

/-- A line end inside a string. -/
def lineBreak : Scan (List Char) := do
  newline
  return ['\n']

/-- A string on several lines; a line end right after the opening delimiter is dropped. -/
def multiline (quote : Char) (piece : Scan (List Char)) : Scan String := do
  let _ ← text (String.ofList [quote, quote, quote])
  let _ ← opt newline
  let pieces ← many (List.singleton <$> innerQuote quote <|> lineBreak <|> piece)
  let last ← closing quote
  return String.ofList (pieces.flatten ++ last)

/-- A basic string on several lines. -/
def basicLines : Scan String :=
  multiline '"'
    (continued <|> List.singleton <$>
      (satisfy (fun c => isPlain c && c != '"' && c != '\\') <|> escape))

/-- A literal string on several lines. -/
def literalLines : Scan String :=
  multiline '\'' (List.singleton <$> satisfy fun c => isPlain c && c != '\'')

/-- A string on a single line. -/
def scanLine : Scan String := basic <|> literal

/-- A string. -/
def scan : Scan String := do
  let delimited := fun (s : String) => (discard (text s) : Scan Unit)
  let start ← get
  if (delimited "\"\"\"" start).isSome then basicLines
  else if (delimited "'''" start).isSome then literalLines
  else scanLine

/-! ## Writing -/

/-- Whether a character can only be written as an escape. -/
def isControl (c : Char) : Bool :=
  (c.toNat < 0x20 && c != '\t' && c != '\n') || c.toNat == 0x7f

/-- Length of the longest run of a character. -/
def longestRun (quote : Char) (cs : List Char) : Nat :=
  let step : Nat × Nat → Char → Nat × Nat := fun (best, run) c =>
    let run := if c == quote then run + 1 else 0
    (Nat.max best run, run)
  (cs.foldl step (0, 0)).1

/-- Four upper-case hexadecimal digits. -/
def hex4 (n : Nat) : List Char :=
  let digits := (Nat.toDigits 16 n).map Char.toUpper
  List.replicate (4 - digits.length) '0' ++ digits

/-- The escape for a character, if it needs one. Line ends stand as they are on several lines. -/
def escapeOf? (multi : Bool) (c : Char) : Option (List Char) :=
  match c with
  | '\x08' => some ['\\', 'b']
  | '\t' => some ['\\', 't']
  | '\n' => if multi then none else some ['\\', 'n']
  | '\x0c' => some ['\\', 'f']
  | '\r' => some ['\\', 'r']
  | '\\' => some ['\\', '\\']
  | c => if isControl c then some (['\\', 'u'] ++ hex4 c.toNat) else none

/-- The characters of a basic string. `run` counts the quotes that stand unescaped right before;
two may follow each other on several lines, and none may stand on a single one. -/
def escapeChars (multi : Bool) (run : Nat) : List Char → List Char
  | [] => []
  | '"' :: cs =>
    if multi && run < 2 then '"' :: escapeChars multi (run + 1) cs
    else '\\' :: '"' :: escapeChars multi 0 cs
  | c :: cs =>
    match escapeOf? multi c with
    | some e => e ++ escapeChars multi 0 cs
    | none => c :: escapeChars multi 0 cs

/-- The four ways to write a string. -/
inductive Style where
  | basic | literal | basicLines | literalLines
deriving DecidableEq

/-- The plainest way to write a text: without escapes if that is possible. -/
def styleOf (cs : List Char) : Style :=
  let control := cs.any isControl
  let backslash := cs.contains '\\'
  let lines := cs.contains '\n'
  let double := longestRun '"' cs
  let single := longestRun '\'' cs
  if !control && !backslash && double == 0 && !lines then .basic
  else if !control && single == 0 && !lines then .literal
  else if !control && !backslash && double ≤ 2 then .basicLines
  else if !control && single ≤ 2 then .literalLines
  else if lines then .basicLines
  else .basic

/-- The longest run of quotes of one kind that can be written. -/
def runLimit : Nat := 255

/-- Whether a text can be written: no run of quotes in it is too long. -/
def isWritable (s : String) : Bool :=
  longestRun '"' s.toList ≤ runLimit && longestRun '\'' s.toList ≤ runLimit

/-- A text as a string. A text of several lines starts on a line of its own. -/
def write (s : String) : String :=
  let cs := s.toList
  let head := if cs.contains '\n' then "\n" else ""
  match styleOf cs with
  | .basic => "\"" ++ String.ofList (escapeChars false 0 cs) ++ "\""
  | .literal => "'" ++ s ++ "'"
  | .basicLines => "\"\"\"" ++ head ++ String.ofList (escapeChars true 0 cs) ++ "\"\"\""
  | .literalLines => "'''" ++ head ++ s ++ "'''"

/-- A text as a string, if it can be written. -/
def write? (s : String) : Option String := if isWritable s then some (write s) else none

end LatteHlsl.Toml.Quoted
