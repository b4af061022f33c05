import PolicyDecision.Syntax.Expression

/-!
# PolicyDecision.Syntax.Build

Putting expressions together.

A step or a tail goes onto a basic expression without a tail; any other expression is grouped
first.
-/

namespace PolicyDecision
namespace Expression

def ofHead (head : Head) : Expression := .basic head [] none

def ofJson (literal : Json) : Expression := ofHead (.value literal)

def undefined : Expression := ofHead .undefined

def identifier (name : String) : Expression := ofHead (.identifier name)

def relative : Expression := ofHead .relative

def array (items : List Expression) : Expression := ofHead (.array items)

def object (fields : List (String × Expression)) : Expression := ofHead (.object fields)

def function (name : String) (arguments : List Expression) : Expression :=
  ofHead (.function name arguments)

def group (inner : Expression) : Expression := ofHead (.group inner)

def step (e : Expression) (s : Step) : Expression :=
  match e with
  | .basic head steps none => .basic head (steps ++ [s]) none
  | other => .basic (.group other) [s] none

def key (e : Expression) (name : String) : Expression := e.step (.key name)

def withTail (e : Expression) (tail : Tail) : Expression :=
  match e with
  | .basic head steps none => .basic head steps (some tail)
  | other => .basic (.group other) [] (some tail)

def filter (e : Expression) (f : Filter) : Expression := e.withTail (.filter f)

def subtemplate (e template : Expression) : Expression := e.withTail (.subtemplate template)

def not (e : Expression) : Expression := .unary .not e

def and (left right : Expression) : Expression := .binary .and left right

def or (left right : Expression) : Expression := .binary .or left right

def equals (left right : Expression) : Expression := .binary .equals left right

end Expression

namespace FilterStatement

def of (target : List Step) (function : String) : FilterStatement := .mk target function [] false

def withArguments (s : FilterStatement) (arguments : List Expression) : FilterStatement :=
  .mk s.target s.function arguments s.each

def forEach (s : FilterStatement) : FilterStatement := .mk s.target s.function s.arguments true

end FilterStatement
end PolicyDecision
