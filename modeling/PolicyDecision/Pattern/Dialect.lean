import PolicyDecision.Pattern.Parser

/-!
# PolicyDecision.Pattern.Dialect

The regular expressions of a deployment. Evaluation takes them from its context, as it takes the
functions.

* `PatternDialect`: the patterns that are accepted, with the texts in which they match.
* `PatternDialect.compileWhole`: a pattern that has to match the whole text.
* `PatternDialect.standard`: the expressions of `Pattern.Node`, which know no Unicode properties
  (`\p`) and do not say what is wrong with a pattern.
-/

namespace PolicyDecision

structure PatternDialect where
  /-- Whether a pattern matches somewhere in a text, or what is wrong with the pattern. -/
  compile : String → Except (Option String) (String → Bool)

namespace PatternDialect

/-- The pattern is put between anchors as text, so that `a)(b` is a pattern, too. -/
def compileWhole (patterns : PatternDialect) (pattern : String) :
    Except (Option String) (String → Bool) :=
  patterns.compile ("^(?:" ++ pattern ++ ")$")

def standard : PatternDialect where
  compile pattern :=
    match Pattern.Node.parse? pattern with
    | some node => .ok node.matchesIn
    | none => .error none

instance : Inhabited PatternDialect := ⟨standard⟩

end PatternDialect
end PolicyDecision
