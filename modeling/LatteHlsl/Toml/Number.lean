import LatteHlsl.Toml.Quoted
import LatteHlsl.Toml.Value

/-!
# Numbers and dates

Integers are 64-bit numbers in four bases. Floats are 64-bit floats, and a positive one that
rounds to infinity is refused. Dates exist in the calendar.
-/

namespace LatteHlsl.Toml

open Scan

/-! ## Digits -/

/-- Digits with single underscores between them; the underscores are dropped. -/
def digitRun (p : Char → Bool) : Scan (List Char) := do
  let first ← satisfy p
  let rest ← many (satisfy p <|> (char '_' *> satisfy p))
  return first :: rest

/-- The number that digits stand for. -/
def digitsValue (base : Nat) (ds : List Char) : Nat :=
  ds.foldl (fun acc d => acc * base + Quoted.hexValue d) 0

/-- A sign, if there is one. -/
def sign : Scan (Option Char) := opt (satisfy fun c => c == '+' || c == '-')

/-- The decimal digits of a whole number, without leading zeros. -/
def wholeDigits : Scan (List Char) := do
  match ← peek with
  | some '0' => List.singleton <$> char '0'
  | _ => digitRun Char.isDigit

/-! ## Integers -/

/-- The least integer. -/
def minInteger : Int := -0x8000000000000000

/-- The greatest integer. -/
def maxInteger : Int := 0x7FFFFFFFFFFFFFFF

/-- An integer that is in range. -/
def bounded (n : Int) : Scan Value :=
  if minInteger ≤ n ∧ n ≤ maxInteger then return .integer n else failure

/-- An integer in the base that a mark after a zero names. -/
def radixInteger (mark : String) (base : Nat) (p : Char → Bool) : Scan Value := do
  let _ ← text mark
  let ds ← digitRun p
  bounded (digitsValue base ds)

/-- A decimal integer. -/
def decimalInteger : Scan Value := do
  let s ← sign
  let n : Int := digitsValue 10 (← wholeDigits)
  bounded (if s == some '-' then -n else n)

/-- An integer. -/
def integer : Scan Value :=
  radixInteger "0x" 16 Quoted.isHexDigit <|>
    radixInteger "0o" 8 (fun c => '0' ≤ c && c ≤ '7') <|>
    radixInteger "0b" 2 (fun c => c == '0' || c == '1') <|> decimalInteger

/-! ## Floats -/

/-- The least number that rounds to infinity: half a step above the greatest finite float. -/
def floatLimit : Nat := 1 <<< 1024 - 1 <<< 970

/-- Whether `m * 10 ^ e` rounds to infinity. Numbers of clearly fewer or more digits than the limit
are decided by their number of digits. -/
def roundsToInfinity (m : Nat) (e : Int) : Bool :=
  let magnitude : Int := (Nat.toDigits 10 m).length + e
  if m = 0 then false
  else if 310 < magnitude then true
  else if magnitude < 300 then false
  else
    match e with
    | .ofNat n => floatLimit ≤ m * Nat.pow 10 n
    | .negSucc n => floatLimit * Nat.pow 10 (n + 1) ≤ m

/-- The digits after a decimal point. -/
def fraction : Scan (List Char) := char '.' *> digitRun Char.isDigit

/-- An exponent. -/
def exponent : Scan Int := do
  let _ ← satisfy fun c => c == 'e' || c == 'E'
  let s ← sign
  let n : Int := digitsValue 10 (← digitRun Char.isDigit)
  return if s == some '-' then -n else n

/-- A float with a fraction or an exponent. -/
def decimalFloat : Scan Value := do
  let start ← get
  let s ← sign
  let whole ← wholeDigits
  let (frac, exp) ← (do return ([], ← exponent)) <|> (do
    let frac ← fraction
    return (frac, (← opt exponent).getD 0))
  let m := digitsValue 10 (whole ++ frac)
  if s != some '-' && roundsToInfinity m (exp - frac.length) then failure
  let rest ← get
  return .float (String.ofList (start.take (start.length - rest.length)))

/-- An infinite or undefined float. -/
def specialFloat : Scan Value := do
  let s ← sign
  let name ← text "inf" <|> text "nan"
  return .float (String.ofList s.toList ++ name)

/-! ## Dates and times -/

/-- A number of exactly `n` digits within bounds. -/
def fixedDigits (n lo hi : Nat) : Scan Nat := do
  let ds ← (List.replicate n ()).mapM fun _ => satisfy Char.isDigit
  let v := digitsValue 10 ds
  if lo ≤ v ∧ v ≤ hi then return v else failure

/-- Number of days in a month. -/
def daysIn (year month : Nat) : Nat :=
  if month = 2 then
    if year % 4 = 0 ∧ (year % 100 ≠ 0 ∨ year % 400 = 0) then 29 else 28
  else if month = 4 ∨ month = 6 ∨ month = 9 ∨ month = 11 then 30
  else 31

/-- A day of the calendar. -/
def date : Scan Unit := do
  let year ← fixedDigits 4 0 9999
  let _ ← char '-'
  let month ← fixedDigits 2 1 12
  let _ ← char '-'
  let _ ← fixedDigits 2 1 (daysIn year month)

/-- A time of day. -/
def time : Scan Unit := do
  let _ ← fixedDigits 2 0 23
  let _ ← char ':'
  let _ ← fixedDigits 2 0 59
  let _ ← char ':'
  let _ ← fixedDigits 2 0 60
  let _ ← opt (char '.' *> many (satisfy Char.isDigit) >>= fun ds =>
    if ds.isEmpty then failure else pure ())

/-- The distance from universal time. -/
def zone : Scan Unit :=
  discard (satisfy fun c => c == 'Z' || c == 'z') <|> do
    let _ ← satisfy fun c => c == '+' || c == '-'
    let _ ← fixedDigits 2 0 23
    let _ ← char ':'
    let _ ← fixedDigits 2 0 59

/-- A date, a time, or both. -/
def datetime : Scan Value := do
  let start ← get
  let dated : Scan Unit := do
    date
    let _ ← opt do
      let _ ← satisfy fun c => c == 'T' || c == 't' || c == ' '
      time
      let _ ← opt zone
  dated <|> time
  let rest ← get
  return .datetime (String.ofList (start.take (start.length - rest.length)))

/-- A number or a date. -/
def number : Scan Value := datetime <|> decimalFloat <|> specialFloat <|> integer

end LatteHlsl.Toml
