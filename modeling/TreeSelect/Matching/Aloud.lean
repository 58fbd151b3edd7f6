import TreeSelect.Warnings

/-!
Evaluation that gives its warnings and records as it goes, against the memory of warnings that
it finds. Tests are made one element after the other and one filter after the other, and what
is never come to gives no warning: a set of candidates that is used up ends a compound, an
empty left side ends a chain, and an item that matches ends a negation.
-/

namespace TreeSelect

/-- The memory of warnings as it stands, and the records that were given so far. -/
structure Journal where
  memory : WarningMemory
  records : List Record

def Journal.tell (journal : Journal) : Event → Journal
  | .record record => { journal with records := journal.records ++ [record] }
  | .warning component message =>
      let (memory, due) := journal.memory.warn component message
      ⟨memory, journal.records ++ due⟩

abbrev Aloud := StateM Journal

namespace Aloud

def tell (event : Event) : Aloud Unit := modify (·.tell event)

def warn (message : String) : Aloud Unit := tell (.warning "eval" message)

/-- The warning that is due, if any. -/
def warn? : Option String → Aloud Unit
  | none => return ()
  | some message => warn message

def retain (keep : NodeId → Aloud Bool) : List NodeId → Aloud (List NodeId)
  | [] => return []
  | id :: rest => do
      let kept ← keep id
      let others ← retain keep rest
      return if kept then id :: others else others

end Aloud

/-! Tests of one element. -/

section
variable (scope : Scope) (hint : Option String) (id : NodeId)

def Scope.inPseudoClassAloud (name : String) : Aloud Bool := do
  if (scope.countedTag? hint id).isNone then return false
  Aloud.warn? (pseudoClassWarning? name)
  return scope.inPseudoClass hint id name

def Scope.inFunctionAloud (name : String) (argument : Argument) : Aloud Bool := do
  if (scope.countedTag? hint id).isNone then return false
  Aloud.warn? (functionWarning? name argument)
  return scope.inFunction hint id name argument

mutual
/-- Nothing but an element gives a warning. -/
def Simple.acceptsAloud : Simple → Aloud Bool
  | .cls name => return Simple.accepts scope hint id (.cls name)
  | .hash name => return Simple.accepts scope hint id (.hash name)
  | .attribute test => return Simple.accepts scope hint id (.attribute test)
  | .pseudo name .pseudoClass =>
      if scope.tree.isElement id then scope.inPseudoClassAloud hint id name else return false
  | .pseudo _ .pseudoElement => return false
  | .functional name argument =>
      if scope.tree.isElement id then scope.inFunctionAloud hint id name argument
      else return false
  | .notOne item =>
      if scope.tree.isElement id then do
        let matched ← item.acceptsAloud
        return !matched
      else return false
  | .notAny items =>
      if scope.tree.isElement id then do
        let matched ← anyAcceptsAloud items
        return !matched
      else return false
  | .has _ _ =>
      if scope.tree.isElement id then do
        Aloud.warn hasWarning
        return false
      else return false

def Negatable.acceptsAloud : Negatable → Aloud Bool
  | .type name => return scope.hasType id name
  | .universal => return scope.tree.isElement id
  | .simple test => test.acceptsAloud

def anyAcceptsAloud : List Negatable → Aloud Bool
  | [] => return false
  | first :: rest => do
      let matched ← first.acceptsAloud
      if matched then return true else anyAcceptsAloud rest
end

end

namespace Scope

/-- Filters one after the other, until no element is left. -/
def passingAloud (scope : Scope) (hint : Option String) :
    List Simple → List NodeId → Aloud (List NodeId)
  | [], working => return working
  | filter :: rest, working =>
      if working.isEmpty then return working
      else do
        let left ← Aloud.retain (filter.acceptsAloud scope hint ·) working
        scope.passingAloud hint rest left

def compoundAloud (scope : Scope) (base : Option Base) (filters : List Simple)
    (candidates : List NodeId) : Aloud (List NodeId) := do
  let working ← scope.passingAloud (Base.hint? base) filters
    (candidates.filter (scope.passesBase · base))
  Aloud.tell (compoundEvent (.compound base filters) candidates working)
  return working

mutual
def selectAloud (scope : Scope) : Selector → List NodeId → Aloud (List NodeId)
  | .group alternatives, candidates => do
      let matched ← scope.selectEachAloud alternatives candidates
      return matched.eraseDups
  | .joined left combinator right, candidates => do
      let matched ← scope.selectAloud left candidates
      if matched.isEmpty then return matched
      else do
        let frontier := scope.frontier combinator matched
        Aloud.tell (stepEvent combinator matched frontier)
        scope.selectAloud right frontier
  | .compound base filters, candidates => scope.compoundAloud base filters candidates

def selectEachAloud (scope : Scope) : List Selector → List NodeId → Aloud (List NodeId)
  | [], _ => return []
  | first :: rest, candidates => do
      let matched ← scope.selectAloud first candidates
      let others ← scope.selectEachAloud rest candidates
      return matched ++ others
end

def wholeEvent (scope : Scope) (selector : Selector) (matched : List NodeId) : Event :=
  .record ⟨.debug, "sift::eval", "`" ++ selector.text ++ "`: " ++ matched.length.repr ++ " of "
    ++ scope.fullSet.length.repr ++ " elements matched"⟩

def evaluateAloud (scope : Scope) (selector : Selector) : Aloud (List NodeId) := do
  let matched ← scope.selectAloud selector scope.fullSet
  Aloud.tell (scope.wholeEvent selector matched)
  return matched

end Scope

/-! Runs of many evaluations over one memory. -/

/-- One evaluation: which selector on which tree, and below which root. -/
structure Visit where
  selector : Selector
  tree : Tree
  root : NodeId

def Visit.scope (visit : Visit) : Scope := Scope.of visit.tree visit.root

def Visit.aloud (visit : Visit) : Aloud (List NodeId) := visit.scope.evaluateAloud visit.selector

/-- What each evaluation finds, in turn. -/
def visitAll : List Visit → Aloud (List (List NodeId))
  | [] => return []
  | visit :: rest => do
      let found ← visit.aloud
      let others ← visitAll rest
      return found :: others

/-- What is found and what is told in a run that starts with this memory. -/
def WarningMemory.visited (memory : WarningMemory) (visits : List Visit) :
    List (List NodeId) × Journal :=
  (visitAll visits).run ⟨memory, []⟩

/-- What may happen to the memory of warnings. -/
inductive WarningStep where
  | warn (component message : String)
  | visit (one : Visit)
  | clear

def WarningStep.aloud : WarningStep → Aloud Unit
  | .warn component message => Aloud.tell (.warning component message)
  | .visit one => discard one.aloud
  | .clear => modify fun journal => { journal with memory := .empty }

def stepAll : List WarningStep → Aloud Unit
  | [] => return ()
  | step :: rest => do
      step.aloud
      stepAll rest

def WarningMemory.journal (memory : WarningMemory) (history : List WarningStep) : Journal :=
  ((stepAll history).run ⟨memory, []⟩).2

end TreeSelect
