import Mathlib.Data.List.Nodup
import Mathlib.Tactic.Tauto
import TreeSelect.Matching.Aloud
import TreeSelect.Proofs.Evaluation

/-!
Warnings over whole runs. What an evaluation finds, and which warnings it comes to, is the same
whatever was given before: the memory decides only which of them are due. So a run gives each
line at most once, remembers exactly what it gave, and leaves the same memory in any order.
-/

namespace TreeSelect

/-! The memory against a list of events. -/

/-- The lines of a log at the level of warnings. -/
def warningLines (records : List Record) : List String :=
  (records.filter fun record => record.level == .warn).map Record.message

/-- The line that an event comes to, whether or not it is due. -/
def Event.line? : Event → Option String
  | .record _ => none
  | .warning component message => some (warningLine component message)

/-- Only a warning may be at the level of warnings. -/
def Event.Quiet : Event → Prop
  | .record entry => entry.level ≠ .warn
  | .warning _ _ => True

theorem warning_lines_append (first second : List Record) :
    warningLines (first ++ second) = warningLines first ++ warningLines second := by
  rw [warningLines, List.filter_append, List.map_append]
  rfl

namespace Journal

def tellAll (journal : Journal) (events : List Event) : Journal := events.foldl tell journal

theorem tell_all_append (journal : Journal) (first second : List Event) :
    journal.tellAll (first ++ second) = (journal.tellAll first).tellAll second :=
  List.foldl_append

theorem warn_due (memory : WarningMemory) (component message : String)
    (due : warningLine component message ∉ memory.lines) :
    memory.warn component message =
      (⟨memory.lines ++ [warningLine component message]⟩,
        [⟨.warn, "sift", warningLine component message⟩]) := by
  rw [WarningMemory.warn, if_neg (by simpa using due)]

theorem warn_given (memory : WarningMemory) (component message : String)
    (given : warningLine component message ∈ memory.lines) :
    memory.warn component message = (memory, []) := by
  rw [WarningMemory.warn, if_pos (by simpa using given)]

/-- What was told before is neither looked at nor changed. -/
theorem tell_behind (memory : WarningMemory) (records : List Record) (event : Event) :
    tell ⟨memory, records⟩ event =
      ⟨(tell ⟨memory, []⟩ event).memory, records ++ (tell ⟨memory, []⟩ event).records⟩ := by
  cases event <;> rfl

theorem tell_all_behind (memory : WarningMemory) (records : List Record) (events : List Event) :
    tellAll ⟨memory, records⟩ events =
      ⟨(tellAll ⟨memory, []⟩ events).memory,
        records ++ (tellAll ⟨memory, []⟩ events).records⟩ := by
  induction events generalizing memory records with
  | nil => simp [tellAll]
  | cons event rest ih =>
      simp only [tellAll, List.foldl_cons] at ih ⊢
      rw [tell_behind, ih, ih (tell ⟨memory, []⟩ event).memory (tell ⟨memory, []⟩ event).records,
        List.append_assoc]

/-- Since the memory held the lines at the start, each new line was given once. -/
structure Faithful (start : List String) (journal : Journal) : Prop where
  remembered : journal.memory.lines = start ++ warningLines journal.records
  once : (warningLines journal.records).Nodup
  fresh : ∀ line ∈ warningLines journal.records, line ∉ start

theorem faithful_start (memory : WarningMemory) : Faithful memory.lines ⟨memory, []⟩ where
  remembered := by simp [warningLines]
  once := List.nodup_nil
  fresh := nofun

theorem Faithful.tell {start : List String} {journal : Journal} (faithful : journal.Faithful start)
    {event : Event} (quiet : event.Quiet) : (journal.tell event).Faithful start := by
  obtain ⟨remembered, once, fresh⟩ := faithful
  cases event with
  | record entry =>
      have lower : entry.level ≠ .warn := quiet
      have same : warningLines (journal.records ++ [entry]) = warningLines journal.records := by
        simp [warningLines, lower]
      exact ⟨by rw [Journal.tell, same, remembered], by rwa [Journal.tell, same],
        by rwa [Journal.tell, same]⟩
  | warning component message =>
      by_cases given : warningLine component message ∈ journal.memory.lines
      · simp only [Journal.tell, warn_given _ _ _ given, List.append_nil]
        exact ⟨remembered, once, fresh⟩
      · simp only [Journal.tell, warn_due _ _ _ given]
        have grown : warningLines (journal.records ++
            [⟨.warn, "sift", warningLine component message⟩]) =
              warningLines journal.records ++ [warningLine component message] :=
          warning_lines_append _ _
        rw [remembered, List.mem_append, not_or] at given
        refine ⟨by rw [grown, remembered, List.append_assoc], ?_, ?_⟩
        · rw [grown, List.nodup_append]
          refine ⟨once, List.nodup_singleton _, fun line member line' single => ?_⟩
          rw [List.mem_singleton.mp single]
          rintro rfl
          exact given.2 member
        · rw [grown]
          intro line member
          rcases List.mem_append.mp member with earlier | single
          · exact fresh line earlier
          · rw [List.mem_singleton.mp single]
            exact given.1

theorem Faithful.tell_all {start : List String} {journal : Journal} {events : List Event}
    (faithful : journal.Faithful start) (quiet : ∀ event ∈ events, event.Quiet) :
    (journal.tellAll events).Faithful start := by
  induction events generalizing journal with
  | nil => exact faithful
  | cons event rest ih =>
      exact ih (faithful.tell (quiet event List.mem_cons_self))
        fun other member => quiet other (List.mem_cons_of_mem event member)

theorem mem_tell (journal : Journal) (event : Event) (line : String) :
    line ∈ (journal.tell event).memory.lines ↔
      line ∈ journal.memory.lines ∨ event.line? = some line := by
  cases event with
  | record entry => simp [tell, Event.line?]
  | warning component message =>
      by_cases given : warningLine component message ∈ journal.memory.lines
      · simp only [tell, warn_given _ _ _ given, Event.line?, Option.some.injEq]
        exact ⟨.inl, fun found => found.elim id fun same => same ▸ given⟩
      · simp [tell, warn_due _ _ _ given, Event.line?, eq_comm]

theorem mem_tell_all (journal : Journal) (events : List Event) (line : String) :
    line ∈ (journal.tellAll events).memory.lines ↔
      line ∈ journal.memory.lines ∨ ∃ event ∈ events, event.line? = some line := by
  induction events generalizing journal with
  | nil => simp [tellAll]
  | cons event rest ih =>
      rw [tellAll, List.foldl_cons, ← tellAll, ih, mem_tell, or_assoc]
      simp

end Journal

/-! What is found and told, from every journal the same. -/

namespace Aloud

variable {α β : Type}

/-- Whatever was given before, the value is this and these events are told. -/
def Gives (spoken : Aloud α) (value : α) (events : List Event) : Prop :=
  ∀ journal, spoken.run journal = (value, journal.tellAll events)

theorem gives_pure (value : α) : Gives (pure value) value [] := fun _ => rfl

theorem gives_tell (event : Event) : Gives (tell event) () [event] := fun _ => rfl

theorem gives_bind {first : Aloud α} {second : α → Aloud β} {value : α} {result : β}
    {before after : List Event} (here : Gives first value before)
    (there : Gives (second value) result after) :
    Gives (first >>= second) result (before ++ after) := by
  intro journal
  rw [StateT.run_bind, here journal, Journal.tell_all_append]
  exact there _

theorem gives_map {first : Aloud α} {second : α → β} {value : α} {events : List Event}
    (here : Gives first value events) :
    Gives (first >>= fun found => pure (second found)) (second value) events := by
  rw [← List.append_nil events]
  exact gives_bind here (gives_pure _)

theorem gives_warn? (message : Option String) :
    Gives (warn? message) () (message.toList.map (Event.warning "eval" ·)) := by
  cases message with
  | none => exact gives_pure ()
  | some message => exact gives_tell _

theorem gives_retain {keep : NodeId → Aloud Bool} {kept : NodeId → Bool}
    {told : NodeId → List Event} {working : List NodeId}
    (each : ∀ id ∈ working, Gives (keep id) (kept id) (told id)) :
    Gives (retain keep working) (working.filter kept) (working.flatMap told) := by
  induction working with
  | nil => exact gives_pure []
  | cons id rest ih =>
      have later := ih fun other member => each other (List.mem_cons_of_mem id member)
      rw [retain, List.flatMap_cons, List.filter_cons]
      exact gives_bind (each id List.mem_cons_self) (gives_map later)

end Aloud

section
open Aloud
variable {scope : Scope} {hint : Option String} {id : NodeId}

def Told (messages : List String) : List Event := messages.map (Event.warning "eval" ·)

theorem counted_tag (element : scope.tree.isElement id = true) :
    (scope.countedTag? hint id).isNone = false := by
  rw [Tree.isElement] at element
  obtain ⟨data, found⟩ := Option.isSome_iff_exists.mp element
  cases hint <;> simp [Scope.countedTag?, Tree.tag?, found]

theorem gives_pseudo_class (element : scope.tree.isElement id = true) (name : String) :
    Gives (scope.inPseudoClassAloud hint id name) (scope.inPseudoClass hint id name)
      (Told (pseudoClassWarning? name).toList) := by
  simp only [Scope.inPseudoClassAloud, counted_tag element]
  exact gives_map (gives_warn? _)

theorem gives_function (element : scope.tree.isElement id = true) (name : String)
    (argument : Argument) :
    Gives (scope.inFunctionAloud hint id name argument) (scope.inFunction hint id name argument)
      (Told (functionWarning? name argument).toList) := by
  simp only [Scope.inFunctionAloud, counted_tag element]
  exact gives_map (gives_warn? _)

mutual
theorem gives_accepts (element : scope.tree.isElement id = true) : (test : Simple) →
    Gives (test.acceptsAloud scope hint id) (test.accepts scope hint id)
      (Told (test.warnings scope hint id))
  | .cls _ => gives_pure _
  | .hash _ => gives_pure _
  | .attribute _ => gives_pure _
  | .pseudo name .pseudoClass => by
      rw [Simple.acceptsAloud, if_pos element, Simple.accepts, element, Bool.true_and]
      exact gives_pseudo_class element name
  | .pseudo _ .pseudoElement => gives_pure _
  | .functional name argument => by
      rw [Simple.acceptsAloud, if_pos element, Simple.accepts, element, Bool.true_and]
      exact gives_function element name argument
  | .notOne item => by
      rw [Simple.acceptsAloud, if_pos element, Simple.accepts, element, Bool.true_and]
      exact gives_map (gives_item_accepts element item)
  | .notAny items => by
      rw [Simple.acceptsAloud, if_pos element, Simple.accepts, element, Bool.true_and]
      exact gives_map (gives_any_accepts element items)
  | .has _ _ => by
      rw [Simple.acceptsAloud, if_pos element]
      exact gives_map (gives_tell _)

theorem gives_item_accepts (element : scope.tree.isElement id = true) : (item : Negatable) →
    Gives (item.acceptsAloud scope hint id) (item.accepts scope hint id)
      (Told (item.warnings scope hint id))
  | .type _ => gives_pure _
  | .universal => gives_pure _
  | .simple test => gives_accepts element test

theorem gives_any_accepts (element : scope.tree.isElement id = true) : (items : List Negatable) →
    Gives (anyAcceptsAloud scope hint id items) (anyAccepts scope hint id items)
      (Told (negatablesWarnings scope hint id items))
  | [] => gives_pure _
  | first :: rest => by
      -- Behind an item that matches nothing is looked at.
      rw [anyAcceptsAloud, anyAccepts, negatablesWarnings, Told, List.map_append]
      apply gives_bind (gives_item_accepts element first)
      cases first.accepts scope hint id with
      | true => exact gives_pure true
      | false => exact gives_any_accepts element rest
end

end

/-! Whole selectors. -/

theorem element_of_base {scope : Scope} {id : NodeId} {base : Option Base}
    (passes : scope.passesBase id base = true) : scope.tree.isElement id = true := by
  match base, passes with
  | some (.type name), passes =>
      obtain ⟨tag, found, -⟩ := (Option.any_eq_true _ _).mp passes
      rw [Tree.tag?, Option.map_eq_some_iff] at found
      obtain ⟨data, found, -⟩ := found
      rw [Tree.isElement, found]
      rfl
  | some .universal, passes => exact passes
  | none, passes => exact passes

section
open Aloud
variable (scope : Scope)

theorem passing_nil (hint : Option String) (filters : List Simple) :
    scope.passing hint filters [] = [] :=
  List.eq_nil_of_sublist_nil (passing_sublist hint [])

theorem filter_events_nil (hint : Option String) (filters : List Simple) :
    scope.filterEvents hint filters [] = [] := by
  induction filters with
  | nil => rfl
  | cons first rest ih => exact ih

theorem gives_passing (hint : Option String) (filters : List Simple) (working : List NodeId)
    (elements : ∀ id ∈ working, scope.tree.isElement id = true) :
    Gives (scope.passingAloud hint filters working) (scope.passing hint filters working)
      (scope.filterEvents hint filters working) := by
  induction filters generalizing working with
  | nil => exact gives_pure working
  | cons first rest ih =>
      rw [Scope.passingAloud]
      by_cases none : working = []
      · -- The other filters would find and tell nothing.
        subst none
        rw [passing_nil, filter_events_nil]
        exact gives_pure []
      · rw [if_neg (by simpa using none), Scope.filterEvents, List.map_flatMap]
        apply gives_bind (gives_retain fun id member => gives_accepts (elements id member) first)
        exact ih _ fun id member => elements id (List.mem_of_mem_filter member)

theorem gives_compound (base : Option Base) (filters : List Simple) (candidates : List NodeId) :
    Gives (scope.compoundAloud base filters candidates) (scope.compound base filters candidates)
      (scope.events (.compound base filters) candidates) := by
  rw [Scope.events, Scope.compound]
  apply gives_bind (gives_passing scope _ filters _ fun id member => ?_)
  · exact gives_map (gives_tell _)
  · exact element_of_base (List.mem_filter.mp member).2

theorem frontier_nil (combinator : Combinator) : scope.frontier combinator [] = [] := by
  have none : scope.reach combinator [] = [] := by cases combinator <;> rfl
  rw [Scope.frontier, none, Scope.inDocumentOrder, List.mergeSort_nil]
  rfl

mutual
theorem select_nil : (selector : Selector) → scope.select selector [] = []
  | .group alternatives => by
      rw [Scope.select, select_each_nil alternatives]
      rfl
  | .joined left combinator right => by
      rw [Scope.select, select_nil left, frontier_nil, select_nil right]
  | .compound base filters => passing_nil scope _ filters

theorem select_each_nil : (selectors : List Selector) → scope.selectEach selectors [] = []
  | [] => rfl
  | first :: rest => by
      rw [Scope.selectEach, select_nil first, select_each_nil rest]
      rfl
end

mutual
theorem gives_select : (selector : Selector) → (candidates : List NodeId) →
    Gives (scope.selectAloud selector candidates) (scope.select selector candidates)
      (scope.events selector candidates)
  | .group alternatives, candidates => by
      rw [Scope.selectAloud, Scope.select, Scope.events]
      exact gives_map (gives_select_each alternatives candidates)
  | .joined left combinator right, candidates => by
      rw [Scope.selectAloud, Scope.select, Scope.events]
      apply gives_bind (gives_select left candidates)
      by_cases none : scope.select left candidates = []
      · -- From an empty left side the right side is not come to, and would find nothing.
        rw [none, frontier_nil, select_nil]
        exact gives_pure []
      · have some : ¬ (scope.select left candidates).isEmpty = true := by simpa using none
        rw [if_neg some, if_neg some]
        exact gives_bind (gives_tell _) (gives_select right _)
  | .compound base filters, candidates => gives_compound scope base filters candidates

theorem gives_select_each : (selectors : List Selector) → (candidates : List NodeId) →
    Gives (scope.selectEachAloud selectors candidates) (scope.selectEach selectors candidates)
      (scope.eventsOfEach selectors candidates)
  | [], _ => gives_pure []
  | first :: rest, candidates =>
      gives_bind (gives_select first candidates) (gives_map (gives_select_each rest candidates))
end

theorem gives_evaluate (selector : Selector) :
    Gives (scope.evaluateAloud selector) (scope.evaluate selector) (scope.report selector) :=
  gives_bind (gives_select scope selector scope.fullSet) (gives_map (gives_tell _))

/-! Reports hold no records at the level of warnings. -/

def AllQuiet (events : List Event) : Prop := ∀ event ∈ events, event.Quiet

theorem quiet_append {first second : List Event} (here : AllQuiet first)
    (there : AllQuiet second) : AllQuiet (first ++ second) :=
  List.forall_mem_append.mpr ⟨here, there⟩

theorem quiet_traced (message : String) : (Scope.traced message).Quiet := by
  show Level.trace ≠ Level.warn
  decide

theorem filter_events_quiet (hint : Option String) (filters : List Simple)
    (working : List NodeId) : AllQuiet (scope.filterEvents hint filters working) := by
  induction filters generalizing working with
  | nil => exact nofun
  | cons first rest ih =>
      refine quiet_append ?_ (ih _)
      intro event member
      obtain ⟨message, -, rfl⟩ := List.mem_map.mp member
      exact True.intro

mutual
theorem events_quiet : (selector : Selector) → (candidates : List NodeId) →
    AllQuiet (scope.events selector candidates)
  | .group alternatives, candidates => events_of_each_quiet alternatives candidates
  | .joined left combinator right, candidates => by
      refine quiet_append (events_quiet left candidates) ?_
      split
      · exact nofun
      · exact List.forall_mem_cons.mpr ⟨quiet_traced _, events_quiet right _⟩
  | .compound base filters, candidates =>
      quiet_append (filter_events_quiet scope _ filters _)
        (List.forall_mem_singleton.mpr (quiet_traced _))

theorem events_of_each_quiet : (selectors : List Selector) → (candidates : List NodeId) →
    AllQuiet (scope.eventsOfEach selectors candidates)
  | [], _ => nofun
  | first :: rest, candidates =>
      quiet_append (events_quiet first candidates) (events_of_each_quiet rest candidates)
end

theorem report_quiet (selector : Selector) : AllQuiet (scope.report selector) := by
  refine quiet_append (events_quiet scope selector scope.fullSet) ?_
  refine List.forall_mem_singleton.mpr ?_
  show Level.debug ≠ Level.warn
  decide

end

/-! Runs. -/

namespace Visit

/-- What the evaluation finds by itself. -/
def found (visit : Visit) : List NodeId := evaluate visit.selector visit.tree visit.root

def report (visit : Visit) : List Event := visit.scope.report visit.selector

/-- The lines of all warnings that the evaluation comes to. -/
def lines (visit : Visit) : List String := visit.report.filterMap Event.line?

end Visit

theorem gives_visit_all (visits : List Visit) :
    Aloud.Gives (visitAll visits) (visits.map Visit.found) (visits.flatMap Visit.report) := by
  induction visits with
  | nil => exact Aloud.gives_pure []
  | cons visit rest ih =>
      exact Aloud.gives_bind (gives_evaluate visit.scope visit.selector) (Aloud.gives_map ih)

theorem visits_quiet (visits : List Visit) : AllQuiet (visits.flatMap Visit.report) := by
  intro event member
  obtain ⟨visit, -, told⟩ := List.mem_flatMap.mp member
  exact report_quiet visit.scope visit.selector event told

theorem lines_of_all {α : Type} (told : α → List Event) (items : List α) (line : String) :
    (∃ event ∈ items.flatMap told, event.line? = some line) ↔
      ∃ item ∈ items, line ∈ (told item).filterMap Event.line? := by
  simp only [List.mem_flatMap, List.mem_filterMap]
  constructor
  · rintro ⟨event, ⟨item, listed, come⟩, same⟩
    exact ⟨item, listed, event, come, same⟩
  · rintro ⟨item, listed, event, come, same⟩
    exact ⟨event, ⟨item, listed, come⟩, same⟩

theorem visited_eq (memory : WarningMemory) (visits : List Visit) :
    memory.visited visits = (visits.map Visit.found,
      Journal.tellAll ⟨memory, []⟩ (visits.flatMap Visit.report)) :=
  gives_visit_all visits ⟨memory, []⟩

theorem log_eq_tell_all (memory : WarningMemory) (events : List Event) :
    memory.log events = ((Journal.tellAll ⟨memory, []⟩ events).memory,
      (Journal.tellAll ⟨memory, []⟩ events).records) := by
  induction events generalizing memory with
  | nil => rfl
  | cons event rest ih =>
      rw [Journal.tellAll, List.foldl_cons, ← Journal.tellAll, Journal.tell_all_behind]
      cases event with
      | record entry => simp only [WarningMemory.log, ih, Journal.tell, List.nil_append]; rfl
      | warning component message =>
          simp only [WarningMemory.log, ih, Journal.tell, List.nil_append]

/-- A run leaves in the log what the reports of its visits leave there one behind the other. -/
theorem visited_eq_log (memory : WarningMemory) (visits : List Visit) :
    memory.visited visits = (visits.map Visit.found,
      ⟨(memory.log (visits.flatMap Visit.report)).1,
        (memory.log (visits.flatMap Visit.report)).2⟩) := by
  rw [visited_eq, log_eq_tell_all]

theorem visited_faithful (memory : WarningMemory) (visits : List Visit) :
    (memory.visited visits).2.Faithful memory.lines := by
  rw [visited_eq]
  exact (Journal.faithful_start memory).tell_all (visits_quiet visits)

theorem mem_visited (memory : WarningMemory) (visits : List Visit) (line : String) :
    line ∈ (memory.visited visits).2.memory.lines ↔
      line ∈ memory.lines ∨ ∃ visit ∈ visits, line ∈ visit.lines := by
  rw [visited_eq, Journal.mem_tell_all, lines_of_all]
  rfl

/-- The lines given are those that were come to and not known, once each in either order. -/
theorem visited_perm (memory : WarningMemory) {visits other : List Visit}
    (reordered : other.Perm visits) :
    (memory.visited other).2.memory.lines.Perm (memory.visited visits).2.memory.lines := by
  have first := visited_faithful memory other
  have second := visited_faithful memory visits
  have given : ∀ {run : List Visit} line, line ∈ warningLines (memory.visited run).2.records ↔
      line ∉ memory.lines ∧ ∃ visit ∈ run, line ∈ visit.lines := by
    intro run line
    have faithful := visited_faithful memory run
    have known := mem_visited memory run line
    rw [faithful.remembered, List.mem_append] at known
    constructor
    · intro member
      have unknown := faithful.fresh line member
      exact ⟨unknown, (known.mp (.inr member)).resolve_left unknown⟩
    · rintro ⟨unknown, come⟩
      exact (known.mpr (.inr come)).resolve_left unknown
  rw [first.remembered, second.remembered]
  refine List.Perm.append_left _ ((List.perm_ext_iff_of_nodup first.once second.once).mpr ?_)
  intro line
  simp only [given, reordered.mem_iff]

/-! Histories in which the memory is cleared. -/

namespace WarningStep

def isClear : WarningStep → Bool
  | .clear => true
  | _ => false

def events : WarningStep → List Event
  | .warn component message => [.warning component message]
  | .visit one => one.report
  | .clear => []

/-- The lines that the step comes to, due or not. -/
def lines (step : WarningStep) : List String := step.events.filterMap Event.line?

theorem gives {step : WarningStep} (kept : step.isClear = false) :
    Aloud.Gives step.aloud () step.events := by
  cases step with
  | warn component message => exact Aloud.gives_tell _
  | visit one => exact Aloud.gives_map (gives_evaluate one.scope one.selector)
  | clear => cases kept

theorem quiet (step : WarningStep) : AllQuiet step.events := by
  cases step with
  | warn component message => exact List.forall_mem_singleton.mpr True.intro
  | visit one => exact report_quiet one.scope one.selector
  | clear => exact nofun

theorem mem_after (step : WarningStep) (journal : Journal) (line : String) :
    line ∈ (step.aloud.run journal).2.memory.lines ↔
      (step.isClear = false ∧ line ∈ journal.memory.lines) ∨ line ∈ step.lines := by
  cases kept : step.isClear with
  | true =>
      cases step with
      | clear =>
          show line ∈ WarningMemory.empty.lines ↔ _
          simp [WarningMemory.empty, lines, events]
      | _ => cases kept
  | false =>
      rw [step.gives kept, Journal.mem_tell_all, lines, List.mem_filterMap]
      simp

end WarningStep

/-- No clearing from here on. -/
def Unbroken (history : List WarningStep) : Prop := ∀ step ∈ history, step.isClear = false

/-- Some step came to the line and the memory has not been cleared since. -/
def ComeTo (history : List WarningStep) (line : String) : Prop :=
  ∃ before step after, history = before ++ step :: after ∧ Unbroken after ∧ line ∈ step.lines

theorem come_to_cons (step : WarningStep) (rest : List WarningStep) (line : String) :
    ComeTo (step :: rest) line ↔ (Unbroken rest ∧ line ∈ step.lines) ∨ ComeTo rest line := by
  constructor
  · rintro ⟨before, found, after, same, unbroken, come⟩
    cases before with
    | nil =>
        obtain ⟨rfl, rfl⟩ := List.cons.inj same
        exact .inl ⟨unbroken, come⟩
    | cons first before =>
        obtain ⟨-, rfl⟩ := List.cons.inj same
        exact .inr ⟨before, found, after, rfl, unbroken, come⟩
  · rintro (⟨unbroken, come⟩ | ⟨before, found, after, rfl, unbroken, come⟩)
    · exact ⟨[], step, rest, rfl, unbroken, come⟩
    · exact ⟨step :: before, found, after, rfl, unbroken, come⟩

theorem mem_stepped (history : List WarningStep) (journal : Journal) (line : String) :
    line ∈ ((stepAll history).run journal).2.memory.lines ↔
      (Unbroken history ∧ line ∈ journal.memory.lines) ∨ ComeTo history line := by
  induction history generalizing journal with
  | nil =>
      show line ∈ journal.memory.lines ↔ _
      simp [Unbroken, ComeTo]
  | cons step rest ih =>
      have first := step.mem_after journal line
      rw [come_to_cons, Unbroken, List.forall_mem_cons, ← Unbroken]
      refine (ih (step.aloud.run journal).2).trans ?_
      rw [first]
      tauto

theorem gives_step_all {history : List WarningStep} (unbroken : Unbroken history) :
    Aloud.Gives (stepAll history) () (history.flatMap WarningStep.events) := by
  induction history with
  | nil => exact Aloud.gives_pure ()
  | cons step rest ih =>
      obtain ⟨kept, later⟩ := List.forall_mem_cons.mp unbroken
      exact Aloud.gives_bind (step.gives kept) (ih later)

theorem step_all_append (before after : List WarningStep) (journal : Journal) :
    (stepAll (before ++ after)).run journal =
      (stepAll after).run ((stepAll before).run journal).2 := by
  induction before generalizing journal with
  | nil => rfl
  | cons step rest ih => exact ih (step.aloud.run journal).2

/-- After clearing all lines are due again, whatever was given before. -/
theorem given_after_clear (memory : WarningMemory) (history : List WarningStep)
    {later : List WarningStep} (unbroken : Unbroken later) :
    ∃ given, (memory.journal (history ++ .clear :: later)).records =
        (memory.journal history).records ++ given ∧
      (warningLines given).Nodup ∧
      ∀ line, line ∈ warningLines given ↔ ∃ step ∈ later, line ∈ step.lines := by
  let events := later.flatMap WarningStep.events
  have quiet : AllQuiet events := by
    intro event member
    obtain ⟨step, -, told⟩ := List.mem_flatMap.mp member
    exact step.quiet event told
  have faithful := (Journal.faithful_start .empty).tell_all quiet
  refine ⟨(Journal.tellAll ⟨.empty, []⟩ events).records, ?_, faithful.once, ?_⟩
  · rw [WarningMemory.journal, step_all_append]
    have cleared := gives_step_all unbroken ⟨.empty, (memory.journal history).records⟩
    rw [Journal.tell_all_behind] at cleared
    exact congrArg (fun run => run.2.records) cleared
  · intro line
    have known := Journal.mem_tell_all ⟨.empty, []⟩ events line
    rw [faithful.remembered, lines_of_all] at known
    simp only [WarningMemory.empty, List.nil_append, List.not_mem_nil, false_or] at known
    exact known

/-! Main result. -/

/-- The memory of warnings decides nothing but which warnings are due. A run of evaluations
finds what each of them finds by itself; it gives each line once and none that was known, and
remembers what it gave, in any order the same. Between clearings a line is known exactly if
some warning came to it, and after clearing all lines are given again. -/
theorem warnings_given_once (memory : WarningMemory) :
    (∀ visits,
      (memory.visited visits).1 = (WarningMemory.empty.visited visits).1 ∧
      (memory.visited visits).1 = visits.map Visit.found ∧
      (warningLines (memory.visited visits).2.records).Nodup ∧
      (∀ line ∈ warningLines (memory.visited visits).2.records, line ∉ memory.lines) ∧
      (memory.visited visits).2.memory.lines =
        memory.lines ++ warningLines (memory.visited visits).2.records ∧
      ∀ other : List Visit, other.Perm visits →
        (memory.visited other).2.memory.lines.Perm (memory.visited visits).2.memory.lines) ∧
    (∀ history component message,
      (memory.journal history).memory.warned component message = true ↔
        (Unbroken history ∧ memory.warned component message = true) ∨
          ComeTo history (warningLine component message)) ∧
    ∀ history later, Unbroken later →
      ∃ given, (memory.journal (history ++ .clear :: later)).records =
          (memory.journal history).records ++ given ∧
        (warningLines given).Nodup ∧
        ∀ line, line ∈ warningLines given ↔ ∃ step ∈ later, line ∈ step.lines := by
  refine ⟨fun visits => ?_, fun history component message => ?_, fun history later unbroken =>
    given_after_clear memory history unbroken⟩
  · have faithful := visited_faithful memory visits
    exact ⟨by rw [visited_eq, visited_eq], by rw [visited_eq], faithful.once, faithful.fresh,
      faithful.remembered, fun _ reordered => visited_perm memory reordered⟩
  · simp only [WarningMemory.warned, List.contains_iff_mem]
    exact mem_stepped history ⟨memory, []⟩ _

/-- `:hover` on a list of two items. -/
def hovering : Visit := ⟨.compound none [.pseudo "hover" .pseudoClass], shortList, 0⟩

/-- `:not(:focus, :hover)` on the same list. -/
def calm : Visit :=
  ⟨.compound none [.notAny [.simple (.pseudo "focus" .pseudoClass),
    .simple (.pseudo "hover" .pseudoClass)]], shortList, 0⟩

def focusKnown : WarningMemory := ⟨["[eval] unsupported pseudo-class :focus"]⟩

/-- Both visits come to one line; the other line was known at the start and is due again after
clearing. -/
theorem hover_given_once :
    [calm, hovering].Perm [hovering, calm] ∧ Unbroken [.visit calm] ∧
      (focusKnown.visited [hovering, calm]).1 = [[], [1, 2, 4]] ∧
      warningLines (focusKnown.visited [hovering, calm]).2.records =
        ["[eval] unsupported pseudo-class :hover"] ∧
      "[eval] unsupported pseudo-class :hover" ∉ focusKnown.lines ∧
      (focusKnown.visited [calm, hovering]).2.memory.lines.Perm
        (focusKnown.visited [hovering, calm]).2.memory.lines ∧
      ∃ given, (focusKnown.journal [.visit hovering, .clear, .visit calm]).records =
          (focusKnown.journal [.visit hovering]).records ++ given ∧
        "[eval] unsupported pseudo-class :focus" ∈ warningLines given := by
  have swapped : [calm, hovering].Perm [hovering, calm] := .swap _ _ _
  have unbroken : Unbroken [.visit calm] := List.forall_mem_singleton.mpr rfl
  have given : warningLines (focusKnown.visited [hovering, calm]).2.records =
      ["[eval] unsupported pseudo-class :hover"] := by decide +kernel
  obtain ⟨visits, -, cleared⟩ := warnings_given_once focusKnown
  obtain ⟨-, found, -, fresh, -, reordered⟩ := visits [hovering, calm]
  obtain ⟨again, records, -, due⟩ := cleared [.visit hovering] [.visit calm] unbroken
  have focus : "[eval] unsupported pseudo-class :focus" ∈ (WarningStep.visit calm).lines := by
    decide +kernel
  refine ⟨swapped, unbroken, ?_, given, fresh _ (given ▸ List.mem_cons_self),
    reordered _ swapped, again, records, (due _).mpr ⟨_, List.mem_cons_self, focus⟩⟩
  rw [found]
  decide +kernel

end TreeSelect
