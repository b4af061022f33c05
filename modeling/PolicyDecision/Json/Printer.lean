import PolicyDecision.Decimal.Shortest
import PolicyDecision.Json.Basic

/-!
# PolicyDecision.Json.Printer

The compact text of a JSON value: no blanks, fields in their order.

* `Layout`: where a double is written in positional notation.
* `Json.quote`: a string between quotation marks.
* `Json.text`: the text of a value.
-/

namespace PolicyDecision

/-- How digits become the text of a double. -/
structure Layout where
  /-- Least exponent of the first digit that is written in positional notation. -/
  leastPlain : Int
  /-- First exponent that is written in scientific notation again. -/
  firstScientific : Int

namespace Layout

def exponentText (e : Int) : String :=
  if e < 0 then "e-" ++ toString e.natAbs else "e+" ++ toString e.natAbs

/-- Digits with the point after place `e`; there is a digit on both sides of the point. -/
def positional (digits : List Char) (e : Int) : String :=
  if e < 0 then
    "0." ++ String.ofList (List.replicate (e.natAbs - 1) '0' ++ digits)
  else
    let whole := e.toNat + 1
    let front := digits.take whole ++ List.replicate (whole - digits.length) '0'
    let back := digits.drop whole
    String.ofList front ++ "." ++ (if back.isEmpty then "0" else String.ofList back)

def scientific (digits : List Char) (e : Int) : String :=
  match digits with
  | [] => "0" ++ exponentText e
  | [d] => String.singleton d ++ exponentText e
  | d :: rest => String.singleton d ++ "." ++ String.ofList rest ++ exponentText e

def write (l : Layout) (d : Decimal.Digits) : String :=
  if l.leastPlain ≤ d.exponent ∧ d.exponent < l.firstScientific then positional d.digits d.exponent
  else scientific d.digits d.exponent

end Layout

/-- Doubles of a JSON text are positional from `0.00001` up to, not including, `1e+16`. -/
def Number.layout : Layout := ⟨-5, 16⟩

/-- The text of a finite double in the fewest digits that read back. -/
def Number.floatText (value : Float) : String :=
  let b := Decimal.Binary.ofBits value.toBits
  (if b.negative then "-" else "") ++ Number.layout.write (Decimal.shortest b)

def Number.text : Number → String
  | .integer value _ => toString value
  | .float value => floatText value

namespace Json

def hexDigit (n : Nat) : Char := if n < 10 then Char.ofNat (48 + n) else Char.ofNat (87 + n)

/-- Quotation marks, backslashes and control characters are escaped, all else stands for itself. -/
def escape (c : Char) : List Char :=
  if c = '"' then ['\\', '"']
  else if c = '\\' then ['\\', '\\']
  else if c = '\n' then ['\\', 'n']
  else if c = '\r' then ['\\', 'r']
  else if c = '\t' then ['\\', 't']
  else if c.toNat = 8 then ['\\', 'b']
  else if c.toNat = 12 then ['\\', 'f']
  else if c.toNat < 32 then
    ['\\', 'u', '0', '0', hexDigit (c.toNat / 16), hexDigit (c.toNat % 16)]
  else [c]

def quote (s : String) : String :=
  String.ofList ('"' :: (s.toList.flatMap escape ++ ['"']))

mutual
def text : Json → String
  | .null => "null"
  | .bool true => "true"
  | .bool false => "false"
  | .number n => n.text
  | .string s => quote s
  | .array items => "[" ++ itemsText items ++ "]"
  | .object fields => "\x7b" ++ fieldsText fields ++ "\x7d"

def itemsText : List Json → String
  | [] => ""
  | [j] => text j
  | j :: js => text j ++ "," ++ itemsText js

def fieldsText : List (String × Json) → String
  | [] => ""
  | [(k, v)] => quote k ++ ":" ++ text v
  | (k, v) :: rest => quote k ++ ":" ++ text v ++ "," ++ fieldsText rest
end

end Json
end PolicyDecision
