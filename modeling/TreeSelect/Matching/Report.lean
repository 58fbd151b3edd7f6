import TreeSelect.Log
import TreeSelect.Matching

/-!
What an evaluation leaves in the log, in order: warnings from the filters, a trace record
for every compound and every step along a combinator, and one record on the whole. Right
sides are not looked at where the left side matches nothing.
-/

namespace TreeSelect

/-- A warning is held back where the same one was given before; a record never is. -/
inductive Event where
  | record (record : Record)
  | warning (component message : String)
  deriving DecidableEq

def Combinator.name : Combinator → String
  | .descendant => "Descendant"
  | .child => "Child"
  | .nextSibling => "NextSibling"
  | .subsequentSibling => "SubsequentSibling"

namespace Scope

def traced (message : String) : Event := .record ⟨.trace, "sift::eval", message⟩

def stepEvent (combinator : Combinator) (left frontier : List NodeId) : Event :=
  traced (combinator.name ++ ": " ++ left.length.repr ++ " candidates -> "
    ++ frontier.length.repr ++ " in frontier")

def compoundEvent (compound : Selector) (candidates working : List NodeId) : Event :=
  traced ("`" ++ compound.text ++ "`: " ++ candidates.length.repr ++ " -> "
    ++ working.length.repr)

def filterEvents (scope : Scope) (hint : Option String) : List Simple → List NodeId → List Event
  | [], _ => []
  | filter :: rest, working =>
      (working.flatMap (filter.warnings scope hint ·)).map (Event.warning "eval" ·)
        ++ scope.filterEvents hint rest (working.filter (filter.accepts scope hint ·))

mutual
def events (scope : Scope) : Selector → List NodeId → List Event
  | .group alternatives, candidates => scope.eventsOfEach alternatives candidates
  | .joined left combinator right, candidates =>
      let matched := scope.select left candidates
      let frontier := scope.frontier combinator matched
      scope.events left candidates
        ++ (if matched.isEmpty then []
            else stepEvent combinator matched frontier :: scope.events right frontier)
  | .compound base filters, candidates =>
      scope.filterEvents (Base.hint? base) filters (candidates.filter (scope.passesBase · base))
        ++ [compoundEvent (.compound base filters) candidates
              (scope.compound base filters candidates)]

def eventsOfEach (scope : Scope) : List Selector → List NodeId → List Event
  | [], _ => []
  | first :: rest, candidates => scope.events first candidates ++ scope.eventsOfEach rest candidates
end

def report (scope : Scope) (selector : Selector) : List Event :=
  scope.events selector scope.fullSet ++ [.record ⟨.debug, "sift::eval",
    "`" ++ selector.text ++ "`: " ++ (scope.evaluate selector).length.repr ++ " of "
      ++ scope.fullSet.length.repr ++ " elements matched"⟩]

end Scope
end TreeSelect
