import TreeSelect.CommandLine
import TreeSelect.Proofs.Evaluation
import TreeSelect.Proofs.Readback
import TreeSelect.Proofs.Recognition

/-!
The command against the library. A selector that does not parse ends the command before a
document is asked for, and a document that cannot be loaded before anything is printed.
Otherwise every match is printed, in the order of the evaluation, as a line or as a record.
-/

namespace TreeSelect

/-! What is printed of a match. -/

theorem evaluated_element {tree : Tree} (linked : tree.Linked) (selector : Selector)
    {root id : NodeId} (member : id ∈ evaluate selector tree root) :
    ∃ element, tree.element? id = some element := by
  have inside := select_in_scope linked selector (fun _ member => member) id member
  exact Option.isSome_iff_exists.mp (linked.element_of_descendant inside)

theorem inside_of_element {tree : Tree} {id : NodeId} {element : Element}
    (found : tree.element? id = some element) : id < tree.size := by
  refine Nat.lt_of_not_le fun outside => ?_
  rw [Tree.element?, Tree.get_none outside] at found
  cases found

namespace CommandLine

/-- Nothing is left out of a list of elements. -/
theorem elements_of_ids {tree : Tree} {ids : List NodeId}
    (elements : ∀ id ∈ ids, ∃ element, tree.element? id = some element) :
    (elementsOf tree ids).map Prod.fst = ids := by
  induction ids with
  | nil => rfl
  | cons id rest ih =>
      rw [List.forall_mem_cons] at elements
      obtain ⟨element, found⟩ := elements.1
      have others := ih elements.2
      unfold elementsOf at others ⊢
      rw [List.filterMap_cons, found, Option.map_some, List.map_cons, others]

theorem elements_of_found {tree : Tree} {ids : List NodeId} {entry : NodeId × Element}
    (member : entry ∈ elementsOf tree ids) : tree.element? entry.1 = some entry.2 := by
  obtain ⟨id, -, made⟩ := List.mem_filterMap.mp member
  obtain ⟨element, found, rfl⟩ := Option.map_eq_some_iff.mp made
  exact found

/-- The elements of a listing are known from their nodes. -/
theorem elements_of_known {tree : Tree} {entries : List (NodeId × Element)}
    (elements : ∀ entry ∈ entries, tree.element? entry.1 = some entry.2) :
    elementsOf tree (entries.map Prod.fst) = entries := by
  induction entries with
  | nil => rfl
  | cons entry rest ih =>
      rw [List.forall_mem_cons] at elements
      have others := ih elements.2
      unfold elementsOf at others ⊢
      rw [List.map_cons, List.filterMap_cons, elements.1, Option.map_some, others]

/-- A record has two levels of lists in it. -/
theorem record_within {id : NodeId} (element : Element) (room : id < Nat.pow 2 64) (depth : Nat) :
    (matchRecord id element).Within (depth + 3) := by
  have attributes : Json.AllWithin (element.attributes.map fun entry =>
      Json.array [.string entry.name, .string entry.value]) (depth + 1) := by
    refine Json.all_within fun item member => ?_
    obtain ⟨entry, -, rfl⟩ := List.mem_map.mp member
    exact ⟨Nat.succ_pos depth, True.intro, True.intro, True.intro⟩
  exact ⟨Nat.succ_pos _, ⟨id, room, rfl⟩, True.intro, ⟨Nat.succ_pos _, attributes⟩, True.intro⟩

/-- The listing of records is a JSON text of them. -/
theorem records_read_back {entries : List (NodeId × Element)}
    (room : ∀ entry ∈ entries, entry.1 < Nat.pow 2 64) :
    Json.read? (jsonListing (.array (entries.map fun entry => matchRecord entry.1 entry.2))) =
      some (.array (entries.map fun entry => matchRecord entry.1 entry.2)) := by
  refine Json.read_pretty ⟨by decide, Json.all_within fun item member => ?_⟩
  obtain ⟨entry, inside, rfl⟩ := List.mem_map.mp member
  exact record_within entry.2 (room entry inside) _

theorem match_line_eq (colored : Bool) (id : NodeId) (element : Element) :
    matchLine colored id element =
      Paint.bold.apply colored element.tag ++
        (element.id?.elim "" fun value => Paint.green.apply colored ("#" ++ value)) ++
        String.join (element.classes.map fun name => Paint.blue.apply colored ("." ++ name)) ++
        " " ++ Paint.dimmed.apply colored ("[node " ++ id.repr ++ "]") := by
  rw [matchLine]
  cases element.id? <;> rfl

/-! The command, step by step. -/

section
variable {arguments : List String} {options : Options}
  (request : readRequest arguments = .ok (.run options)) (noTokens : options.tokens = false)
  (contents : Source → Except String String)
include request noTokens

theorem run_without_selector {fault : Fault} (failed : parse options.selector = .error fault) :
    (run arguments contents).code = 1 ∧ (run arguments contents).stdout = "" := by
  simp [run, plan, request, onOptions, noTokens, failed, failure]

variable {selector : Selector} {text : String} (parsed : parse options.selector = .ok selector)
  (noExplain : options.explain = false)
  (read : contents (Source.ofPath options.document) = .ok text)
include parsed noExplain read

theorem run_without_document {fault : DumpFault} (failed : Tree.load text = .error fault) :
    (run arguments contents).code = 1 ∧ (run arguments contents).stdout = "" := by
  simp [run, plan, request, onOptions, noTokens, parsed, onSelector, noExplain, onText, read,
    failed, failure]

theorem run_on_document {tree : Tree} (loaded : Tree.load text = .ok tree) :
    (run arguments contents).code = 0 ∧ (run arguments contents).stdout =
      printed options tree (evaluate selector tree Tree.rootId) := by
  -- Which records the log has depends on the verbosity; nothing printed does.
  have whole : ∃ records, run arguments contents =
      onTree options records (Source.ofPath options.document) selector tree := by
    simp only [run, plan, request, onOptions, noTokens, Bool.false_eq_true, if_false, parsed,
      onSelector, noExplain, onText, read, loaded]
    exact ⟨_, rfl⟩
  obtain ⟨records, same⟩ := whole
  rw [same]
  exact ⟨rfl, rfl⟩

end

/-- Every text can be given as a selector, for a document on standard input. -/
theorem any_selector_given (selector : String) (json : Bool) :
    readRequest ((if json then ["--json"] else []) ++ ["--", selector]) = .ok (.run {
      selector := selector, document := none, json := json, explain := false, tokens := false,
      verbosity := 0, colored := true }) := by
  cases json <;> rfl

/-- The command prints nothing if the selector does not parse, whatever the document is, and
nothing if the document cannot be loaded. Otherwise it prints every match of the evaluation
from the root with its element, in that order: as JSON that is read back, where a record tells
the node, the tag and all attributes as they come, or as lines, where the tag stands with the
identifier and the classes in front of the node. -/
theorem command_lists_selection {arguments : List String} {options : Options}
    (request : readRequest arguments = .ok (.run options)) (noTokens : options.tokens = false)
    (noExplain : options.explain = false) (contents : Source → Except String String) :
    (∀ fault, parse options.selector = .error fault →
      (run arguments contents).code = 1 ∧ (run arguments contents).stdout = "") ∧
    ∀ selector text, parse options.selector = .ok selector →
      contents (Source.ofPath options.document) = .ok text →
      (∀ fault, Tree.load text = .error fault →
        (run arguments contents).code = 1 ∧ (run arguments contents).stdout = "") ∧
      ∀ tree, Tree.load text = .ok tree →
        (run arguments contents).code = 0 ∧
        ∃ entries : List (NodeId × Element),
          entries.map Prod.fst = evaluate selector tree Tree.rootId ∧
          (∀ entry ∈ entries, tree.element? entry.1 = some entry.2) ∧
          let records := Json.array (entries.map fun entry => .object [
            ("node", .number entry.1.repr),
            ("tag", .string entry.2.tag),
            ("attributes", .array (entry.2.attributes.map fun given =>
              .array [.string given.name, .string given.value]))])
          (options.json = true → (run arguments contents).stdout = records.pretty 0 ++ "\n" ∧
            (tree.size ≤ Nat.pow 2 64 →
              Json.read? (run arguments contents).stdout = some records)) ∧
          (options.json = false → (run arguments contents).stdout =
            String.join (entries.map fun entry =>
              Paint.bold.apply options.colored entry.2.tag ++
                (entry.2.id?.elim "" fun value =>
                  Paint.green.apply options.colored ("#" ++ value)) ++
                String.join (entry.2.classes.map fun name =>
                  Paint.blue.apply options.colored ("." ++ name)) ++
                " " ++ Paint.dimmed.apply options.colored ("[node " ++ entry.1.repr ++ "]") ++
                "\n")) := by
  refine ⟨fun fault => run_without_selector request noTokens contents, ?_⟩
  intro selector text parsed read
  refine ⟨fun fault => run_without_document request noTokens contents parsed noExplain read, ?_⟩
  intro tree loaded
  obtain ⟨code, stdout⟩ := run_on_document request noTokens contents parsed noExplain read loaded
  have linked := Tree.Linked.loaded loaded
  refine ⟨code, elementsOf tree (evaluate selector tree Tree.rootId),
    elements_of_ids fun id member => evaluated_element linked selector member,
    fun entry member => elements_of_found member, ?_, ?_⟩
  · intro json
    have listed : (run arguments contents).stdout = jsonListing (.array
        ((elementsOf tree (evaluate selector tree Tree.rootId)).map fun entry =>
          matchRecord entry.1 entry.2)) := by
      rw [stdout, printed, if_pos json, matchRecords]
    refine ⟨listed, fun small => ?_⟩
    rw [listed]
    exact records_read_back fun entry member =>
      Nat.lt_of_lt_of_le (inside_of_element (elements_of_found member)) small
  · intro plain
    rw [stdout, printed, if_neg (by simp [plain]), matchListing, lines, List.map_map]
    refine congrArg String.join (List.map_congr_left fun entry _ => ?_)
    exact congrArg (· ++ "\n") (match_line_eq options.colored entry.1 entry.2)

/-- A list with one item, every node written as an array. -/
def itemText : String :=
  "[\"element\",\"ul\",[],[[\"element\",\"li\",[[\"class\",\"big red\"],[\"id\",\"a\"]]]]]"

def item : Element := ⟨"li", [⟨"class", "big red"⟩, ⟨"id", "a"⟩]⟩

def itemTree : Tree := (Tree.empty.append Tree.rootId (.element ⟨"ul", []⟩)).append 1 (.element item)

/-- The list and its item, once as records and once as lines. -/
theorem list_and_item_printed :
    let records := run ["--json", "--", "*"] fun _ => .ok itemText
    let listing := run ["--", "*"] fun _ => .ok itemText
    records.code = 0 ∧
      records.stdout =
        "[\n  \x7b\n    \"node\": 1,\n    \"tag\": \"ul\",\n    \"attributes\": []\n  \x7d,\n" ++
        "  \x7b\n    \"node\": 2,\n    \"tag\": \"li\",\n    \"attributes\": [\n" ++
        "      [\n        \"class\",\n        \"big red\"\n      ],\n" ++
        "      [\n        \"id\",\n        \"a\"\n      ]\n    ]\n  \x7d\n]\n" ∧
      Json.read? records.stdout = some (.array [
        .object [("node", .number "1"), ("tag", .string "ul"), ("attributes", .array [])],
        .object [("node", .number "2"), ("tag", .string "li"), ("attributes", .array [
          .array [.string "class", .string "big red"], .array [.string "id", .string "a"]])]]) ∧
      listing.code = 0 ∧
      listing.stdout =
        "\x1b[1mul\x1b[0m \x1b[2m[node 1]\x1b[0m\n" ++
        "\x1b[1mli\x1b[0m\x1b[32m#a\x1b[39m\x1b[34m.big\x1b[39m\x1b[34m.red\x1b[39m " ++
        "\x1b[2m[node 2]\x1b[0m\n" := by
  have parsed : parse "*" = .ok (.compound (some .universal) []) :=
    ok_of_to_option (by decide +kernel)
  have loaded : Tree.load itemText = .ok itemTree := ok_of_to_option (by decide +kernel)
  have evaluated : evaluate (.compound (some .universal) []) itemTree Tree.rootId = [1, 2] := by
    decide +kernel
  have known {entries : List (NodeId × Element)}
      (ids : entries.map Prod.fst = evaluate (.compound (some .universal) []) itemTree Tree.rootId)
      (elements : ∀ entry ∈ entries, itemTree.element? entry.1 = some entry.2) :
      entries = [(1, ⟨"ul", []⟩), (2, item)] := by
    rw [← elements_of_known elements, ids, evaluated]
    rfl
  have printed (json : Bool) := ((command_lists_selection (any_selector_given "*" json) rfl rfl
    fun _ => .ok itemText).2 _ _ parsed rfl).2 itemTree loaded
  obtain ⟨code, entries, ids, elements, listed, -⟩ := printed true
  obtain ⟨code', entries', ids', elements', -, listed'⟩ := printed false
  obtain rfl := known ids elements
  obtain rfl := known ids' elements'
  obtain ⟨text, read⟩ := listed rfl
  exact ⟨code, text.trans (by decide +kernel), read (by decide +kernel), code',
    (listed' rfl).trans (by decide +kernel)⟩

end CommandLine
end TreeSelect
