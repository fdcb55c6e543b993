import Montage.Rule.Naming
import Montage.Rule.References
import Montage.Rule.Timeline
import Montage.Rule.Ranges

/-!
# Rules

A project is examined by rules, one after another; their findings are collected in that order.
-/

namespace Montage

/-- A rule projects are examined by. Callers may add rules of their own. -/
structure Rule where
  name : String
  /-- What the rule asks for. -/
  description : String
  /-- What the rule finds in a project. -/
  check : Project → List Diagnostic

namespace Rule

/-- The rule on names. -/
def naming : Rule where
  name := "naming"
  description := "Names must be unique and usable in the generated script"
  check := namingFindings

/-- The rule on references. -/
def references : Rule where
  name := "references"
  description := "Extract sources, group members and timeline targets must resolve"
  check := referenceFindings

/-- The rule on the timeline. -/
def timeline : Rule where
  name := "timeline"
  description := "Timeline placements must form a schedulable sequence"
  check := timelineFindings

/-- The rule on ranges. -/
def optionRange : Rule where
  name := "option-range"
  description := "Option values and extract bounds must be in range"
  check := rangeFindings

/-- The rules of the library, in the order in which they are applied. -/
def all : List Rule :=
  [naming, references, timeline, optionRange]

end Rule

namespace Project

/-- What some rules find in a project. -/
def diagnoseWith (rules : List Rule) (p : Project) : List Diagnostic :=
  rules.flatMap fun rule => rule.check p

/-- What the rules of the library find in a project. -/
def diagnose (p : Project) : List Diagnostic :=
  p.diagnoseWith Rule.all

end Project

end Montage
