import PolicyDecision.Json.Basic

/-!
# PolicyDecision.Json.Parser

Reading JSON text.

Every reader takes the text that is left and gives what it read with the rest. The fuel of
`Json.parse?` is the length of the text: each nested call comes after a character was consumed.
-/

namespace PolicyDecision
namespace Json

def isBlank (c : Char) : Bool := c == ' ' || c == '\n' || c == '\r' || c == '\t'

def skipBlanks : List Char → List Char
  | [] => []
  | c :: cs => if isBlank c then skipBlanks cs else c :: cs

def hexValue? (c : Char) : Option Nat :=
  if '0' ≤ c ∧ c ≤ '9' then some (c.toNat - 48)
  else if 'a' ≤ c ∧ c ≤ 'f' then some (c.toNat - 87)
  else if 'A' ≤ c ∧ c ≤ 'F' then some (c.toNat - 55)
  else none

/-- The value of four hexadecimal digits. -/
def unit? (a b c d : Char) : Option Nat := do
  return (← hexValue? a) * 4096 + (← hexValue? b) * 256 + (← hexValue? c) * 16 + (← hexValue? d)

/-- The characters of a string up to its closing quotation mark. -/
def readString : List Char → List Char → Option (String × List Char)
  | '"' :: rest, done => some (String.ofList done.reverse, rest)
  | '\\' :: 'u' :: a :: b :: c :: d :: rest, done =>
    match unit? a b c d with
    | none => none
    | some high =>
      if 0xD800 ≤ high ∧ high < 0xDC00 then
        match rest with
        | '\\' :: 'u' :: a' :: b' :: c' :: d' :: rest' =>
          match unit? a' b' c' d' with
          | some low =>
            if 0xDC00 ≤ low ∧ low < 0xE000 then
              readString rest'
                (Char.ofNat (0x10000 + (high - 0xD800) * 1024 + (low - 0xDC00)) :: done)
            else none
          | none => none
        | _ => none
      else if 0xDC00 ≤ high ∧ high < 0xE000 then none
      else readString rest (Char.ofNat high :: done)
  | '\\' :: c :: rest, done =>
    match c with
    | '"' => readString rest ('"' :: done)
    | '\\' => readString rest ('\\' :: done)
    | '/' => readString rest ('/' :: done)
    | 'b' => readString rest ('\x08' :: done)
    | 'f' => readString rest ('\x0c' :: done)
    | 'n' => readString rest ('\n' :: done)
    | 'r' => readString rest ('\r' :: done)
    | 't' => readString rest ('\t' :: done)
    | _ => none
  | c :: rest, done => if c.toNat < 32 then none else readString rest (c :: done)
  | [], _ => none

/-! ## Numbers -/

def digitsValue (digits : List Char) : Nat :=
  digits.foldl (fun n c => n * 10 + (c.toNat - 48)) 0

/-- The number of decimal digits. -/
def decimalLength (n : Nat) : Nat := (Nat.toDigits 10 n).length

/-- The nearest double of `digits * 10^exponent`. All doubles lie between `10^-400` and
`10^400`. -/
def scaleFloat (digits : Nat) (exponent : Int) : Float :=
  if digits = 0 then 0
  else if exponent > 400 then 1 / 0
  else if exponent + decimalLength digits < -400 then 0
  else if exponent < 0 then Float.ofScientific digits true exponent.natAbs
  else Float.ofScientific digits false exponent.natAbs

/-- The exponent part of a number, if there is one. -/
def readExponent : List Char → Option (Option Int × List Char)
  | c :: rest =>
    if c == 'e' || c == 'E' then
      let (negative, rest) := match rest with
        | '-' :: r => (true, r)
        | '+' :: r => (false, r)
        | r => (false, r)
      match rest.span Char.isDigit with
      | ([], _) => none
      | (ds, r) =>
        let e : Int := digitsValue ds
        some (some (if negative then -e else e), r)
    else some (none, c :: rest)
  | [] => some (none, [])

/-- A number without a point and without an exponent is an integer, but `-0` is a double. -/
def readNumber (text : List Char) : Option (Json × List Char) :=
  let (negative, text) := match text with
    | '-' :: r => (true, r)
    | r => (false, r)
  let sign (f : Float) : Json := .ofFloat (if negative then -f else f)
  match text.span Char.isDigit with
  | ([], _) => none
  | (whole, rest) =>
    if whole.head? == some '0' && whole.length > 1 then none
    else
      let (fraction?, rest) := match rest with
        | '.' :: r => let (f, r) := r.span Char.isDigit; (some f, r)
        | r => (none, r)
      if fraction? == some [] then none
      else
        match readExponent rest with
        | none => none
        | some (exponent?, rest) =>
          match fraction?, exponent? with
          | none, none =>
            let n := digitsValue whole
            if negative && n == 0 then some (sign 0, rest)
            else some (.ofInt (if negative then -n else n), rest)
          | _, _ =>
            let fraction := fraction?.getD []
            let f := scaleFloat (digitsValue (whole ++ fraction))
              (exponent?.getD 0 - fraction.length)
            if f.isFinite then some (sign f, rest) else none

/-! ## Values -/

mutual
def readValue : Nat → List Char → Option (Json × List Char)
  | 0, _ => none
  | fuel + 1, text =>
    match skipBlanks text with
    | 'n' :: 'u' :: 'l' :: 'l' :: rest => some (.null, rest)
    | 't' :: 'r' :: 'u' :: 'e' :: rest => some (.bool true, rest)
    | 'f' :: 'a' :: 'l' :: 's' :: 'e' :: rest => some (.bool false, rest)
    | '"' :: rest => (readString rest []).map fun (s, rest) => (.string s, rest)
    | '[' :: rest =>
      match skipBlanks rest with
      | ']' :: rest => some (.array [], rest)
      | rest => (readItems fuel rest []).map fun (items, rest) => (.array items, rest)
    | '\x7b' :: rest =>
      match skipBlanks rest with
      | '\x7d' :: rest => some (.object [], rest)
      | rest => (readFields fuel rest []).map fun (fields, rest) => (.object fields, rest)
    | rest => readNumber rest

def readItems : Nat → List Char → List Json → Option (List Json × List Char)
  | 0, _, _ => none
  | fuel + 1, text, done =>
    match readValue fuel text with
    | none => none
    | some (j, rest) =>
      match skipBlanks rest with
      | ',' :: rest => readItems fuel rest (j :: done)
      | ']' :: rest => some ((j :: done).reverse, rest)
      | _ => none

/-- A field that is given twice has the last value at the first place. -/
def readFields : Nat → List Char → List (String × Json) →
    Option (List (String × Json) × List Char)
  | 0, _, _ => none
  | fuel + 1, text, done =>
    match skipBlanks text with
    | '"' :: rest =>
      match readString rest [] with
      | none => none
      | some (key, rest) =>
        match skipBlanks rest with
        | ':' :: rest =>
          match readValue fuel rest with
          | none => none
          | some (j, rest) =>
            match skipBlanks rest with
            | ',' :: rest => readFields fuel rest (Entries.put key j done)
            | '\x7d' :: rest => some (Entries.put key j done, rest)
            | _ => none
        | _ => none
    | _ => none
end

/-- The value of a text that holds nothing else. -/
def parse? (text : String) : Option Json :=
  match readValue (text.length + 1) text.toList with
  | some (j, rest) => if (skipBlanks rest).isEmpty then some j else none
  | none => none

end Json
end PolicyDecision
