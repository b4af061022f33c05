import PolicyDecision.Pattern.Size

/-!
# PolicyDecision.Pattern.Parser

Reading regular expressions.

* `Flags`: what `(?i)`, `(?m)`, `(?s)`, `(?x)`, … switch. A flag holds until the end of the group in
  which it is set, across its alternatives.
* `Reader`: a reader of the rest of the text; `none` refuses the pattern.
* `Node.parse?`: the expression of a text.

Nesting deeper than `Term.deepest` and look-around, back references and unknown escapes are refused.
-/

namespace PolicyDecision
namespace Pattern

structure Flags where
  ignoreCase : Bool := false
  multiLine : Bool := false
  dotAll : Bool := false
  unicode : Bool := true
  carriage : Bool := false
  blanks : Bool := false

structure ReadState where
  rest : List Char
  flags : Flags := {}
  /-- The names of the groups so far; a name stands once. -/
  names : List String := []

abbrev Reader := StateT ReadState Option

/-- An expression with the depth of its tree. -/
structure Term where
  node : Node
  depth : Nat := 0

def Term.deepest : Nat := 250

/-! ## Characters -/

def refuse {α : Type} : Reader α := fun _ => none

def peek : Reader (Option Char) := fun s => some (s.rest.head?, s)

def peekSecond : Reader (Option Char) := fun s => some (s.rest[1]?, s)

def flags : Reader Flags := fun s => some (s.flags, s)

def setFlags (f : Flags) : Reader Unit := modify fun s => { s with flags := f }

def bump : Reader Unit := modify fun s => { s with rest := s.rest.tail }

/-- The next character, which must be there. -/
def next : Reader Char := fun s =>
  match s.rest with
  | c :: rest => some (c, { s with rest })
  | [] => none

/-- Consume `text` if it comes next. -/
def take (text : String) : Reader Bool := fun s =>
  if text.toList.isPrefixOf s.rest then
    some (true, { s with rest := s.rest.drop text.length })
  else some (false, s)

def isSpace (c : Char) : Bool := CharSet.space.contains c

/-- The rest after a comment, which ends with its line. -/
def afterComment : List Char → List Char
  | [] => []
  | c :: rest => if c == '\n' then rest else afterComment rest

/-- Skip white space and comments; `inside` tells that a comment is being skipped. -/
def skipBlanks (inside : Bool) : List Char → List Char
  | [] => []
  | c :: rest =>
    if inside then skipBlanks (c != '\n') rest
    else if isSpace c then skipBlanks false rest
    else if c == '#' then skipBlanks true rest
    else c :: rest

/-- Skip white space and comments where the flags say that they mean nothing. -/
def blanks : Reader Unit := modify fun s =>
  if s.flags.blanks then { s with rest := skipBlanks false s.rest } else s

def bumpBlanks : Reader Unit := do bump; blanks

/-- The first character after the next one, past blanks where they mean nothing. -/
def peekPastBlanks : Reader (Option Char) := fun s =>
  let rest := s.rest.tail
  some ((if s.flags.blanks then skipBlanks false rest else rest).head?, s)

/-! ## Escapes -/

/-- What a single item of a pattern stands for. -/
inductive Primitive where
  /-- `byte` marks a character that is given as a byte in hexadecimal. -/
  | literal (c : Char) (byte : Bool)
  | dot
  | look (l : Look)
  | set (s : CharSet)

def hexDigit? (c : Char) : Option Nat :=
  if '0' ≤ c ∧ c ≤ '9' then some (c.toNat - 48)
  else if 'a' ≤ c ∧ c ≤ 'f' then some (c.toNat - 87)
  else if 'A' ≤ c ∧ c ≤ 'F' then some (c.toNat - 55)
  else none

/-- The character of a code point, which must be a Unicode scalar value. -/
def scalar (n : Nat) : Reader Char :=
  if n < 0xD800 ∨ (0xDFFF < n ∧ n ≤ 0x10FFFF) then return Char.ofNat n else refuse

def hexDigits : Nat → Nat → Reader Nat
  | 0, value => return value
  | n + 1, value => do
    let some d := hexDigit? (← next) | refuse
    blanks
    hexDigits n (value * 16 + d)

/-- Hexadecimal digits up to the closing brace. -/
def hexBraced : Nat → Nat → Nat → Reader Nat
  | 0, _, _ => refuse
  | fuel + 1, count, value => do
    let c ← next
    if c == '\x7d' then
      blanks
      if count == 0 then refuse else return value
    else
      let some d := hexDigit? c | refuse
      blanks
      hexBraced fuel (count + 1) (min (value * 16 + d) 0x110000)

/-- A hexadecimal escape after its letter, which asks for `width` digits without braces. -/
def hexEscape (width : Nat) : Reader Primitive := do
  blanks
  if (← peek) == some '\x7b' then
    bumpBlanks
    let c ← scalar (← hexBraced 64 0 0)
    return .literal c false
  else
    let c ← scalar (← hexDigits width 0)
    return .literal c (width == 2)

def isMeta (c : Char) : Bool :=
  "\\.+*?()|[]\x7b\x7d^$#&-~".toList.contains c

/-- ASCII characters that may be escaped without need. -/
def isEscapable (c : Char) : Bool :=
  c.toNat < 0x80 && !c.isAlphanum && c != '<' && c != '>'

/-- A class that the flags restrict to ASCII; outside of it there may be no member then. -/
def classOf (wide narrow : CharSet) (negated : Bool) : Reader Primitive := do
  let unicode := (← flags).unicode
  let s := if unicode then wide else narrow
  if negated then
    if unicode then return .set s.complement else refuse
  else return .set s

def isBoundaryName (c : Char) : Bool := c.isAlpha || c == '-'

/-- The special word boundaries `\b{start}`, `\b{end}`, `\b{start-half}` and `\b{end-half}`; a
brace that opens something else is left to the repetition operators. -/
def wordBoundary : Reader Primitive := do
  let u := (← flags).unicode
  let plain : Primitive := .look (.wordBoundary u)
  if (← peek) != some '\x7b' then return plain
  let before ← get
  bumpBlanks
  match ← peek with
  | none => refuse
  | some c =>
    if !isBoundaryName c then
      set before
      return plain
    let rest := (← get).rest.filter fun c => !((before.flags.blanks) && isSpace c)
    let name := rest.takeWhile isBoundaryName
    match rest.drop name.length with
    | '\x7d' :: rest =>
      modify fun s => { s with rest }
      match String.ofList name with
      | "start" => return .look (.wordStart u)
      | "end" => return .look (.wordEnd u)
      | "start-half" => return .look (.wordStartHalf u)
      | "end-half" => return .look (.wordEndHalf u)
      | _ => refuse
    | _ => refuse

/-- What follows a backslash. -/
def escape : Reader Primitive := do
  let c ← next
  let u := (← flags).unicode
  match c with
  | 'x' => hexEscape 2
  | 'u' => hexEscape 4
  | 'U' => hexEscape 8
  | 'd' => classOf .digit .asciiDigit false
  | 'D' => classOf .digit .asciiDigit true
  | 's' => classOf .space .asciiSpace false
  | 'S' => classOf .space .asciiSpace true
  | 'w' => classOf .word .asciiWord false
  | 'W' => classOf .word .asciiWord true
  | 'a' => return .literal '\x07' false
  | 'f' => return .literal '\x0c' false
  | 't' => return .literal '\t' false
  | 'n' => return .literal '\n' false
  | 'r' => return .literal '\r' false
  | 'v' => return .literal '\x0b' false
  | 'A' => return .look .textStart
  | 'z' => return .look .textEnd
  | 'b' => wordBoundary
  | 'B' => return .look (.notWordBoundary u)
  | '<' => return .look (.wordStart u)
  | '>' => return .look (.wordEnd u)
  | c => if isMeta c || isEscapable c then return .literal c false else refuse

/-! ## Bracket expressions -/

inductive SetOperator where
  | intersection
  | difference
  | symmetricDifference

def SetOperator.apply : SetOperator → CharSet → CharSet → CharSet
  | .intersection => CharSet.intersection
  | .difference => CharSet.difference
  | .symmetricDifference => CharSet.symmetricDifference

/-- A set under construction: the union of the last items, and what an operator waits to combine
with it. -/
structure Bracket where
  negated : Bool
  union : List (Nat × Nat) := []
  count : Nat := 0
  pending : Option (SetOperator × CharSet) := none
  /-- Depth of the nested sets so far. -/
  depth : Nat := 0

namespace Bracket

def push (b : Bracket) (s : CharSet) : Bracket :=
  { b with union := b.union ++ s.ranges, count := b.count + 1 }

/-- The set so far. With case folding the operands of an operator are folded. -/
def value (b : Bracket) (ignoreCase : Bool) : CharSet :=
  let last := CharSet.ofRanges b.union
  match b.pending with
  | none => last
  | some (op, left) =>
    if ignoreCase then op.apply left.fold last.fold else op.apply left last

def operator (b : Bracket) (op : SetOperator) (ignoreCase : Bool) : Bracket :=
  { b with union := [], count := 0, pending := some (op, b.value ignoreCase), depth := b.depth + 1 }

/-- The set between the brackets: folding comes before negation. -/
def close (b : Bracket) (ignoreCase : Bool) : CharSet :=
  let s := b.value ignoreCase
  let s := if ignoreCase then s.fold else s
  if b.negated then s.complement else s

end Bracket

/-- A named class such as `[:alpha:]`, if the text after its bracket is one. -/
def namedClass : Reader (Option CharSet) := do
  let s ← get
  match s.rest with
  | ':' :: rest =>
    let (negated, rest) := match rest with
      | '^' :: r => (true, r)
      | r => (false, r)
    let name := rest.takeWhile (· != ':')
    match rest.drop name.length, CharSet.posix? (String.ofList name) with
    | ':' :: ']' :: rest, some chars =>
      set { s with rest }
      let chars := if s.flags.ignoreCase then chars.fold else chars
      return some (if negated then chars.complement else chars)
    | _, _ => return none
  | _ => return none

def bracketItem : Reader Primitive := do
  let c ← next
  if c == '\\' then escape else return .literal c false

/-- A character of a set; without Unicode it must be ASCII. -/
def bracketLiteral : Primitive → Reader Char
  | .literal c _ => do
    if (← flags).unicode || c.toNat < 0x80 then return c else refuse
  | _ => refuse

def bracketSet : Primitive → Reader CharSet
  | .set s => return s
  | p => do return .point (← bracketLiteral p).toNat

/-- One item or one range of a set. -/
def bracketRange : Reader CharSet := do
  let first ← bracketItem
  blanks
  match ← peek with
  | none => refuse
  | some c =>
    let after ← peekPastBlanks
    if c != '-' || after == some ']' || after == some '-' then bracketSet first
    else
      bumpBlanks
      let last ← bracketLiteral (← bracketItem)
      let first ← bracketLiteral first
      if first ≤ last then return ⟨[(first.toNat, last.toNat)]⟩ else refuse

/-- Hyphens at the start of a set stand for themselves. -/
def leadingHyphens : Nat → Bracket → Reader Bracket
  | 0, b => return b
  | fuel + 1, b => do
    match ← peek with
    | none => refuse
    | some '-' =>
      bumpBlanks
      leadingHyphens fuel (b.push (.point '-'.toNat))
    | some _ => return b

/-- The start of a set after its bracket. -/
def openBracket : Reader Bracket := do
  blanks
  let negated := (← peek) == some '^'
  if negated then bumpBlanks
  let b ← leadingHyphens (← get).rest.length { negated }
  if b.count == 0 && (← peek) == some ']' then
    bumpBlanks
    return b.push (.point ']'.toNat)
  else return b

/-- The items of a set up to its closing bracket. -/
def bracketBody : Nat → Bracket → Reader (CharSet × Nat)
  | 0, _ => refuse
  | fuel + 1, b => do
    blanks
    let ignoreCase := (← flags).ignoreCase
    match ← peek with
    | none => refuse
    | some '[' =>
      bump
      match ← namedClass with
      | some chars => bracketBody fuel (b.push chars)
      | none =>
        let inner ← openBracket
        let (chars, depth) ← bracketBody fuel inner
        bracketBody fuel { b.push chars with depth := max b.depth depth }
    | some ']' =>
      bump
      let chars := b.close ignoreCase
      if (← flags).unicode || chars.isAscii then
        return (chars, b.depth + 1 + (if b.count > 1 then 1 else 0))
      else refuse
    | some c =>
      let second ← peekSecond
      if c == '&' && second == some '&' then
        bump; bump
        bracketBody fuel (b.operator .intersection ignoreCase)
      else if c == '-' && second == some '-' then
        bump; bump
        bracketBody fuel (b.operator .difference ignoreCase)
      else if c == '~' && second == some '~' then
        bump; bump
        bracketBody fuel (b.operator .symmetricDifference ignoreCase)
      else
        bracketBody fuel (b.push (← bracketRange))

/-! ## Terms -/

/-- A single character as the flags read it. -/
def literalNode (c : Char) (byte : Bool) : Reader Node := do
  let f ← flags
  if byte && !f.unicode && c.toNat ≥ 0x80 then refuse
  let s := CharSet.point c.toNat
  if f.ignoreCase then
    let folded := s.fold
    return .set (if f.unicode then folded else folded.intersection ⟨[(0, 0x7F)]⟩ |>.union s)
  else return .set s

def dotNode : Reader Node := do
  let f ← flags
  if !f.unicode then refuse
  if f.dotAll then return .set .all
  else if f.carriage then return .set (CharSet.complement ⟨[(10, 10), (13, 13)]⟩)
  else return .set (CharSet.complement ⟨[(10, 10)]⟩)

def primitiveNode : Primitive → Reader Node
  | .literal c byte => literalNode c byte
  | .dot => dotNode
  | .look l => return .look l
  | .set s => return .set s

def primitive : Reader Primitive := do
  let c ← next
  let f ← flags
  match c with
  | '\\' => escape
  | '.' => return .dot
  | '^' => return .look (if f.multiLine then .lineStart f.carriage else .textStart)
  | '$' => return .look (if f.multiLine then .lineEnd f.carriage else .textEnd)
  | c => return .literal c false

/-- Join the terms of a branch; a flag setting counts as an item without an expression. -/
def joinTerms (terms : List (Option Term)) : Term :=
  match terms with
  | [] => ⟨.empty, 0⟩
  | [t] => t.getD ⟨.empty, 0⟩
  | terms =>
    let terms := terms.filterMap id
    let node := terms.foldr (fun t n => match n with
      | .empty => t.node
      | n => .cat t.node n) .empty
    ⟨node, terms.foldl (fun d t => max d t.depth) 0 + 1⟩

def joinBranches : List Term → Term
  | [] => ⟨.empty, 0⟩
  | [t] => t
  | t :: rest =>
    ⟨(t :: rest).dropLast.foldr (fun t n => .alt t.node n) ((t :: rest).getLast (by simp)).node,
      (t :: rest).foldl (fun d t => max d t.depth) 0 + 1⟩

/-- Repeat the last term; there must be one, and it must not be a flag setting. -/
def repeatLast (terms : List (Option Term)) (least : Nat) (most : Option Nat) :
    Reader (List (Option Term)) :=
  match terms with
  | some t :: rest => return some ⟨t.node.times least most, t.depth + 1⟩ :: rest
  | _ => refuse

def skipSpaces : Reader Unit := modify fun s => { s with rest := s.rest.dropWhile isSpace }

/-- Decimal digits, with blanks between them where they mean nothing. -/
def decimalDigits : Nat → List Char → Reader (List Char)
  | 0, digits => return digits.reverse
  | fuel + 1, digits => do
    match ← peek with
    | some c =>
      if c.isDigit then
        bumpBlanks
        decimalDigits fuel (c :: digits)
      else return digits.reverse
    | none => return digits.reverse

/-- A count, with spaces around it. -/
def decimal : Reader Nat := do
  skipSpaces
  let digits ← decimalDigits (← get).rest.length []
  skipSpaces
  blanks
  if digits.isEmpty then refuse
  let value : Nat := digits.foldl (fun n c => n * 10 + (c.toNat - 48)) 0
  if value ≥ 0x100000000 then refuse else return value

/-- The counts between braces. -/
def counts : Reader (Nat × Option Nat) := do
  let least ← decimal
  let bounds ← if (← peek) == some ',' then
    bumpBlanks
    if (← peek) == some '\x7d' then pure (least, none)
    else
      let most ← decimal
      pure (least, some most)
  else pure (least, some least)
  if (← next) != '\x7d' then refuse
  match bounds.2 with
  | some most => if least > most then refuse else return bounds
  | none => return bounds

/-- A question mark after a repetition asks for the shortest match first. -/
def lazyMark : Reader Unit := do
  if (← peek) == some '?' then bump

def setFlag (f : Flags) (on : Bool) : Char → Option Flags
  | 'i' => some { f with ignoreCase := on }
  | 'm' => some { f with multiLine := on }
  | 's' => some { f with dotAll := on }
  | 'u' => some { f with unicode := on }
  | 'R' => some { f with carriage := on }
  | 'x' => some { f with blanks := on }
  | 'U' => some f
  | _ => none

/-- The flags up to a colon or a closing parenthesis, each of them at most once; `seen` holds the
letters so far. -/
def flagLetters : Nat → Flags → List Char → Reader (Flags × List Char × Char)
  | 0, _, _ => refuse
  | fuel + 1, f, seen => do
    let c ← next
    if c == ':' || c == ')' then
      if seen.head? == some '-' then refuse else return (f, seen, c)
    else if seen.contains c then refuse
    else if c == '-' then flagLetters fuel f (c :: seen)
    else
      match setFlag f (!seen.contains '-') c with
      | some f => flagLetters fuel f (c :: seen)
      | none => refuse

def isNameStart (c : Char) : Bool :=
  c == '_' || (CharSet.word.contains c && !CharSet.digit.contains c)

def isNameChar (c : Char) : Bool :=
  c == '.' || c == '[' || c == ']' || CharSet.word.contains c

/-- The name of a group up to its closing angle bracket. -/
def groupName : Reader Unit := do
  let s ← get
  let name := s.rest.takeWhile (· != '>')
  match name, s.rest.drop name.length with
  | first :: more, '>' :: rest =>
    let text := String.ofList name
    if isNameStart first && more.all isNameChar && !s.names.contains text then
      set { s with rest, names := text :: s.names }
    else refuse
  | _, _ => refuse

/-- Whether look-around comes next. -/
def isLookAround (rest : List Char) : Bool :=
  ["?=", "?!", "?<=", "?<!"].any fun mark => mark.toList.isPrefixOf rest

mutual
/-- Alternatives up to the end of the group or of the text. -/
def alternatives : Nat → List Term → Reader Term
  | 0, _ => refuse
  | fuel + 1, done => do
    let t ← branch fuel []
    if (← peek) == some '|' then
      bump
      alternatives fuel (t :: done)
    else
      let t := joinBranches (t :: done).reverse
      if t.depth > Term.deepest then refuse else return t

/-- The terms of one alternative; `done` holds them in reverse. -/
def branch : Nat → List (Option Term) → Reader Term
  | 0, _ => refuse
  | fuel + 1, done => do
    blanks
    match ← peek with
    | none => return joinTerms done.reverse
    | some ')' => return joinTerms done.reverse
    | some '|' => return joinTerms done.reverse
    | some '(' =>
      let t ← group fuel
      branch fuel (t :: done)
    | some '[' =>
      bump
      let b ← openBracket
      let (chars, depth) ← bracketBody fuel b
      branch fuel (some ⟨.set chars, depth⟩ :: done)
    | some '?' =>
      bump
      let terms ← repeatLast done 0 (some 1)
      lazyMark
      branch fuel terms
    | some '*' =>
      bump
      let terms ← repeatLast done 0 none
      lazyMark
      branch fuel terms
    | some '+' =>
      bump
      let terms ← repeatLast done 1 none
      lazyMark
      branch fuel terms
    | some '\x7b' =>
      bumpBlanks
      let (least, most) ← counts
      let terms ← repeatLast done least most
      blanks
      lazyMark
      branch fuel terms
    | some _ =>
      let node ← primitiveNode (← primitive)
      branch fuel (some ⟨node, 0⟩ :: done)

/-- A group, or a flag setting for the rest of the group around it. -/
def group : Nat → Reader (Option Term)
  | 0 => refuse
  | fuel + 1 => do
    bumpBlanks
    let outer ← flags
    if isLookAround (← get).rest then refuse
    let captures ← if ← take "?P<" then
        groupName
        pure true
      else if ← take "?<" then
        groupName
        pure true
      else if ← take "?" then
        let (inner, seen, last) ← flagLetters fuel outer []
        setFlags inner
        if last == ')' then
          if seen.isEmpty then refuse else return none
        pure false
      else pure true
    let t ← alternatives fuel []
    if (← next) != ')' then refuse
    setFlags outer
    return some ⟨if captures then .capture t.node else t.node, t.depth + 1⟩
end

/-- The expression of a text, unless it is malformed or its automaton too large. -/
def Node.parse? (text : String) : Option Node :=
  match (alternatives (4 * text.length + 16) []).run { rest := text.toList } with
  | some (t, s) =>
    if s.rest.isEmpty && t.node.size ≤ sizeLimit then some t.node else none
  | none => none

end Pattern
end PolicyDecision
