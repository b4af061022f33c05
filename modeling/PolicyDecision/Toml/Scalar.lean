import PolicyDecision.Json.Parser

/-!
# PolicyDecision.Toml.Scalar

Keys, strings and numbers of TOML.

* `readKey`: a dotted key.
* `readText`: a string of one of the four kinds.
* `readNumber`: an integer of one of four bases, or a float; `inf` and `nan` are null in JSON.

Every reader takes the text that is left and gives what it read with the rest.
-/

namespace PolicyDecision
namespace Toml

abbrev Reader (α : Type) := List Char → Option (α × List Char)

def isBlank (c : Char) : Bool := c == ' ' || c == '\t'

def skipBlanks (text : List Char) : List Char := text.dropWhile isBlank

/-- The characters of comments and, but for their delimiters, of strings: tabs and all that is no
ASCII control. -/
def isPlain (c : Char) : Bool := c == '\t' || (32 ≤ c.toNat && c.toNat != 127)

/-- The rest after a line end. -/
def lineEnd? : List Char → Option (List Char)
  | '\n' :: rest => some rest
  | '\r' :: '\n' :: rest => some rest
  | _ => none

/-! ## Strings -/

/-- A character that is written by its number. -/
def numbered? (digits : List Char) : Option Char := do
  let n ← digits.foldlM (fun n c => do return n * 16 + (← Json.hexValue? c)) 0
  if n < 0xD800 ∨ (0xDFFF < n ∧ n ≤ 0x10FFFF) then some (Char.ofNat n) else none

/-- What follows a backslash. -/
def readEscape : Reader Char
  | 'b' :: rest => some ('\x08', rest)
  | 'f' :: rest => some ('\x0c', rest)
  | 'n' :: rest => some ('\n', rest)
  | 'r' :: rest => some ('\r', rest)
  | 't' :: rest => some ('\t', rest)
  | '\\' :: rest => some ('\\', rest)
  | '"' :: rest => some ('"', rest)
  | 'u' :: rest =>
    if rest.length < 4 then none else (numbered? (rest.take 4)).map fun c => (c, rest.drop 4)
  | 'U' :: rest =>
    if rest.length < 8 then none else (numbered? (rest.take 8)).map fun c => (c, rest.drop 8)
  | _ => none

/-- The rest after a backslash that joins lines: blanks, a line end, and what is blank after it. -/
def joinedLine? (text : List Char) : Option (List Char) :=
  (lineEnd? (skipBlanks text)).map skipLines
where
  skipLines : List Char → List Char
    | '\n' :: rest => skipLines rest
    | '\r' :: '\n' :: rest => skipLines rest
    | ' ' :: rest => skipLines rest
    | '\t' :: rest => skipLines rest
    | rest => rest

/-- A string on one line, after its opening delimiter. -/
def readLine (delimiter : Char) (escapes : Bool) : Nat → List Char → List Char →
    Option (String × List Char)
  | 0, _, _ => none
  | _ + 1, [], _ => none
  | fuel + 1, c :: rest, done =>
    if c == delimiter then some (String.ofList done.reverse, rest)
    else if escapes && c == '\\' then
      match readEscape rest with
      | some (c, rest) => readLine delimiter escapes fuel rest (c :: done)
      | none => none
    else if isPlain c then readLine delimiter escapes fuel rest (c :: done)
    else none

/-- A string of several lines, after its opening delimiter and a line end. Three delimiters end it;
up to two more in front of them belong to it. -/
def readLines (delimiter : Char) (escapes : Bool) : Nat → List Char → List Char →
    Option (String × List Char)
  | 0, _, _ => none
  | _ + 1, [], _ => none
  | fuel + 1, c :: rest, done =>
    if c == delimiter then
      let run := (c :: rest).takeWhile (· == delimiter)
      let after := (c :: rest).drop run.length
      if run.length < 3 then readLines delimiter escapes fuel after (run ++ done)
      else if run.length < 6 then
        some (String.ofList (done.reverse ++ run.drop 3), after)
      else none
    else if escapes && c == '\\' then
      match joinedLine? rest with
      | some rest => readLines delimiter escapes fuel rest done
      | none =>
        match readEscape rest with
        | some (c, rest) => readLines delimiter escapes fuel rest (c :: done)
        | none => none
    else
      match lineEnd? (c :: rest) with
      | some rest => readLines delimiter escapes fuel rest ('\n' :: done)
      | none => if isPlain c then readLines delimiter escapes fuel rest (c :: done) else none

def afterLineEnd (text : List Char) : List Char := (lineEnd? text).getD text

/-- A string: in quotation marks with escapes, in apostrophes without. -/
def readText : Reader String
  | '"' :: '"' :: '"' :: rest => readLines '"' true (rest.length + 1) (afterLineEnd rest) []
  | '"' :: rest => readLine '"' true (rest.length + 1) rest []
  | '\'' :: '\'' :: '\'' :: rest => readLines '\'' false (rest.length + 1) (afterLineEnd rest) []
  | '\'' :: rest => readLine '\'' false (rest.length + 1) rest []
  | _ => none

/-! ## Keys -/

def isBareKeyChar (c : Char) : Bool := c.isAlphanum || c == '_' || c == '-'

/-- One part of a key. -/
def readKeyPart : Reader String
  | '"' :: rest => readLine '"' true (rest.length + 1) rest []
  | '\'' :: rest => readLine '\'' false (rest.length + 1) rest []
  | text =>
    match text.span isBareKeyChar with
    | ([], _) => none
    | (part, rest) => some (String.ofList part, rest)

/-- A key: its parts but the last, and the last. -/
def readKeyParts : Nat → List String → List Char → Option ((List String × String) × List Char)
  | 0, _, _ => none
  | fuel + 1, path, text =>
    match readKeyPart (skipBlanks text) with
    | none => none
    | some (part, rest) =>
      match skipBlanks rest with
      | '.' :: rest => readKeyParts fuel (path ++ [part]) rest
      | rest => some ((path, part), rest)

/-- Keys have less parts, and values nest less deep. -/
def nestingLimit : Nat := 80

def readKey : Reader (List String × String) := fun text => do
  let ((path, key), rest) ← readKeyParts (text.length + 1) [] text
  if path.length + 1 < nestingLimit then some ((path, key), rest) else none

/-! ## Numbers -/

/-- Digits of a base, where single underscores may stand between two digits. -/
def readDigits (isDigit : Char → Bool) : Reader (List Char)
  | c :: rest => if isDigit c then go [c] rest else none
  | [] => none
where
  go : List Char → Reader (List Char)
    | done, '_' :: c :: rest => if isDigit c then go (c :: done) rest else none
    | _, ['_'] => none
    | done, c :: rest =>
      if isDigit c then go (c :: done) rest else some (done.reverse, c :: rest)
    | done, [] => some (done.reverse, [])

/-- A sign, if there is one: whether it is a minus. -/
def readSign : List Char → Bool × List Char
  | '-' :: rest => (true, rest)
  | '+' :: rest => (false, rest)
  | rest => (false, rest)

/-- Decimal digits without leading zeros. -/
def readWhole : Reader (List Char)
  | '0' :: rest => some (['0'], rest)
  | text => readDigits Char.isDigit text

def baseValue (base : Nat) (digits : List Char) : Nat :=
  digits.foldl (fun n c => n * base + (Json.hexValue? c).getD 0) 0

def wordJson? (n : Int) : Option Json :=
  if -0x8000000000000000 ≤ n ∧ n < 0x8000000000000000 then some (.ofInt n) else none

/-- An integer in another base, after its mark. -/
def readBased (base : Nat) : Reader Json := fun text => do
  let isDigit (c : Char) : Bool := (Json.hexValue? c).any (· < base)
  let (digits, rest) ← readDigits isDigit text
  return (← wordJson? (baseValue base digits), rest)

/-- The JSON value of a double. -/
def floatJson (f : Float) : Json := if f.isFinite then .ofFloat f else .null

/-- A float that is too great is refused, but for a negative one. -/
def decimalJson? (negative : Bool) (digits : List Char) (exponent : Int) : Option Json :=
  let f := Json.scaleFloat (Json.digitsValue digits) exponent
  if negative then some (floatJson (-f)) else if f.isFinite then some (.ofFloat f) else none

/-- A point with the digits after it, if there is one. -/
def readFraction : List Char → Option (List Char × List Char)
  | '.' :: rest => readDigits Char.isDigit rest
  | rest => some ([], rest)

/-- An exponent, if there is one. -/
def readExponent : List Char → Option (Option Int × List Char)
  | c :: rest =>
    if c == 'e' || c == 'E' then do
      let (negative, rest) := readSign rest
      let (digits, rest) ← readDigits Char.isDigit rest
      let e : Int := Json.digitsValue digits
      return (some (if negative then -e else e), rest)
    else some (none, c :: rest)
  | [] => some (none, [])

def readDecimal : Reader Json := fun text => do
  let (negative, text) := readSign text
  match text with
  | 'i' :: 'n' :: 'f' :: rest => return (.null, rest)
  | 'n' :: 'a' :: 'n' :: rest => return (.null, rest)
  | text =>
    let (whole, rest) ← readWhole text
    let (fraction, rest) ← readFraction rest
    let (exponent, rest) ← readExponent rest
    if fraction.isEmpty && exponent.isNone then
      let n : Int := Json.digitsValue whole
      return (← wordJson? (if negative then -n else n), rest)
    else
      let e := exponent.getD 0 - fraction.length
      return (← decimalJson? negative (whole ++ fraction) e, rest)

def readNumber : Reader Json
  | '0' :: 'x' :: rest => readBased 16 rest
  | '0' :: 'o' :: rest => readBased 8 rest
  | '0' :: 'b' :: rest => readBased 2 rest
  | text => readDecimal text

end Toml
end PolicyDecision
