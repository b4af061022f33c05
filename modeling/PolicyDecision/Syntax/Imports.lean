import PolicyDecision.Syntax.Expression

/-!
# PolicyDecision.Syntax.Imports

Import tables.

* `Imports.resolve`: the qualified name of a short one; other names stand for themselves.
* `Expression.resolveImports`: an expression with every function and attribute name resolved.
-/

namespace PolicyDecision

/-- Short name to qualified name. -/
abbrev Imports := SortedTable String

def Imports.resolve (imports : Imports) (name : String) : String :=
  (imports.get? name).getD name

mutual
def Expression.resolveImports (imports : Imports) : Expression → Expression
  | .basic head steps tail =>
    .basic (head.resolveImports imports) (resolveSteps imports steps) (resolveTail imports tail)
  | .unary op operand => .unary op (operand.resolveImports imports)
  | .binary op left right =>
    .binary op (left.resolveImports imports) (right.resolveImports imports)

def Head.resolveImports (imports : Imports) : Head → Head
  | .group inner => .group (inner.resolveImports imports)
  | .array items => .array (resolveAll imports items)
  | .object fields => .object (resolveFields imports fields)
  | .function name arguments => .function (imports.resolve name) (resolveAll imports arguments)
  | .value literal => .value literal
  | .undefined => .undefined
  | .identifier name => .identifier name
  | .relative => .relative

def resolveTail (imports : Imports) : Option Tail → Option Tail
  | none => none
  | some (.filter filter) => some (.filter (filter.resolveImports imports))
  | some (.subtemplate template) => some (.subtemplate (template.resolveImports imports))

def resolveAll (imports : Imports) : List Expression → List Expression
  | [] => []
  | e :: es => e.resolveImports imports :: resolveAll imports es

def resolveFields (imports : Imports) : List (String × Expression) → List (String × Expression)
  | [] => []
  | (key, e) :: rest => (key, e.resolveImports imports) :: resolveFields imports rest

def resolveSteps (imports : Imports) : List Step → List Step
  | [] => []
  | step :: rest => step.resolveImports imports :: resolveSteps imports rest

def Step.resolveImports (imports : Imports) : Step → Step
  | .condition condition => .condition (condition.resolveImports imports)
  | .attributeFinder name arguments head =>
    .attributeFinder (imports.resolve name) (resolveAll imports arguments) head
  | .key name => .key name
  | .index index => .index index
  | .wildcard => .wildcard
  | .slice start stop stride => .slice start stop stride
  | .recursiveKey name => .recursiveKey name
  | .recursiveIndex index => .recursiveIndex index

def Filter.resolveImports (imports : Imports) : Filter → Filter
  | .simple function arguments each =>
    .simple (imports.resolve function) (resolveAll imports arguments) each
  | .extended statements => .extended (resolveStatements imports statements)

def resolveStatements (imports : Imports) : List FilterStatement → List FilterStatement
  | [] => []
  | .mk target function arguments each :: rest =>
    .mk (resolveSteps imports target) (imports.resolve function) (resolveAll imports arguments) each
      :: resolveStatements imports rest
end

end PolicyDecision
