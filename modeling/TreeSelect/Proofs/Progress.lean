import TreeSelect.Proofs.Lookahead

/-!
The progress of readings. Each round of a loop takes a token before it asks for its item and for
the rounds behind it, and so does a simple selector before it asks for another that is nested in
it. That is said by replacement: any reading that does the same wherever a token has been taken
can stand for the item, for the rounds or for what is nested. It may do anything else where none
has been taken, such as halt, so a loop that went round on the spot would not get by with it.

So there are never more rounds, and never more levels of nesting, than tokens. Every budget above
the number of characters gives one and the same result, and no reading moves on from the end token.
-/

namespace TreeSelect

namespace Window

theorem ahead_suffix {window later : Window} (left : later.shown <:+ window.shown) :
    later.ahead <:+ window.ahead := by
  rcases List.suffix_cons_iff.mp left with same | part
  · exact (List.cons.inj same).2 ▸ List.suffix_rfl
  · exact (List.suffix_cons _ _).trans part

theorem ahead_within {window : Window} {lexemes : List Lexeme} (inside : window.shown <:+ lexemes) :
    window.ahead <:+ lexemes :=
  (List.suffix_cons _ _).trans inside

end Window

namespace Reading

open Window

variable {α β : Type}

/-! Readings in the place of others. -/

/-- From this window the second reading does the same as the first. -/
def SameAt (window : Window) (reading other : Reading α) : Prop :=
  other.run window = reading.run window

/-- The second reading does the same as the first wherever no more than this is left. -/
def SameWithin (lexemes : List Lexeme) (reading other : Reading α) : Prop :=
  ∀ window : Window, window.shown <:+ lexemes → SameAt window reading other

section
variable {window : Window} {first first' : Reading α} {second second' : α → Reading β}

theorem SameAt.bind (here : SameAt window first first') (alike : Local first first)
    (there : ∀ value after, after.shown <:+ window.shown →
      SameAt after (second value) (second' value)) :
    SameAt window (first >>= second) (first' >>= second') := by
  have left := stop_suffix alike window
  simp only [SameAt, EStateM.run, Bind.bind, EStateM.bind, stop] at here left ⊢
  rw [here]
  cases found : first window with
  | ok value after =>
      -- The second part goes on from a window further on, where `there` speaks of it.
      rw [found] at left
      exact there value after left
  | error halt after => rfl

theorem same_at_next {second second' : Lexeme → Reading β}
    (there : SameAt window (second window.next) (second' window.next)) :
    SameAt window (next >>= second) (next >>= second') := there

/-- Behind a move a token has been taken. -/
theorem same_at_advance {second second' : Unit → Reading β}
    (there : SameWithin window.ahead (second ()) (second' ())) :
    SameAt window (advance >>= second) (advance >>= second') := by
  obtain ⟨current, ahead⟩ := window
  cases ahead with
  | nil => rfl
  | cons first rest =>
      have after := there ⟨first, rest⟩ List.suffix_rfl
      have moved (reading : Unit → Reading β) :
          (advance >>= reading).run ⟨current, first :: rest⟩ =
            ((if first.token.kind = .illegal then illegalHere else pure ()) >>= reading).run
              ⟨first, rest⟩ := rfl
      simp only [SameAt, moved]
      by_cases illegal : first.token.kind = .illegal
      · rw [if_pos illegal]
        rfl
      · rw [if_neg illegal]
        exact after

namespace SameWithin

variable {lexemes : List Lexeme}

theorem refl (lexemes : List Lexeme) (reading : Reading α) : SameWithin lexemes reading reading :=
  fun _ _ => rfl

theorem mono {part : List Lexeme} {reading other : Reading α}
    (same : SameWithin lexemes reading other) (less : part <:+ lexemes) :
    SameWithin part reading other :=
  fun window inside => same window (inside.trans less)

theorem bind (here : SameWithin lexemes first first') (alike : Local first first)
    (there : ∀ value, SameWithin lexemes (second value) (second' value)) :
    SameWithin lexemes (first >>= second) (first' >>= second') :=
  fun window inside => (here window inside).bind alike fun value after left =>
    there value after (left.trans inside)

theorem followed (here : SameWithin lexemes first first') (second : α → Reading β) :
    SameWithin lexemes (first >>= second) (first' >>= second) := by
  intro window inside
  have same := here window inside
  simp only [SameAt, EStateM.run, Bind.bind, EStateM.bind] at same ⊢
  rw [same]

/-- A reading that goes on in another way behind a part that is the same. -/
theorem behind (alike : Local first first)
    (there : ∀ value, SameWithin lexemes (second value) (second' value)) :
    SameWithin lexemes (first >>= second) (first >>= second') :=
  (refl lexemes first).bind alike there

end SameWithin

end

/-- The reading, behind a check that a token has been taken since. -/
def checked (since : Window) (reading : Reading α) : Reading α := do
  if (← get).ahead.length < since.ahead.length then reading else throw .pastEnd

theorem same_checked (since : Window) (reading : Reading α) :
    SameWithin since.ahead reading (checked since reading) := by
  intro window inside
  have shorter : window.ahead.length < since.ahead.length := inside.length_le
  have ran : (checked since reading).run window =
      (if window.ahead.length < since.ahead.length then reading else throw .pastEnd).run window := rfl
  rw [SameAt, ran, if_pos shorter]

/-! One round of each loop, with its item and the rounds behind it left open. -/

def filtersRound (filter : Reading Simple) (others : Reading (List Simple)) :
    Reading (List Simple) := do
  let ahead ← next
  if !ahead.spaced && startsFilter ahead.token.kind then
    advance
    let first ← filter
    let rest ← others
    return first :: rest
  else return []

def chainRound (operand : Reading Selector) (others : Selector → Reading Selector)
    (left : Selector) : Reading Selector := do
  match ← combinator? with
  | none => return left
  | some combinator =>
      advance
      let right ← operand
      others (.joined left combinator right)

/-- The lists of alternatives and of negated items differ in their items only. -/
def commaRound (item : Reading α) (others : Reading (List α)) : Reading (List α) := do
  if (← next).token.kind = .comma then
    advance
    advance
    let first ← item
    let rest ← others
    return first :: rest
  else return []

def argumentRound (name : String) (others : List Lexeme → Reading (List Lexeme))
    (read : List Lexeme) : Reading (List Lexeme) := do
  advance
  let lexeme ← current
  match lexeme.token.kind with
  | .rightParen => return read
  | .eof => halt (.expected (.functionClose name) .eof)
  | .leftParen | .function =>
      halt (.malformedArgument name (joinSpellings read ++ lexeme.token.spelling))
  | _ => others (read ++ [lexeme])

section
variable {window : Window}

theorem filters_round_same {filter filter' : Reading Simple}
    {others others' : Reading (List Simple)} (alike : Local filter filter)
    (here : SameWithin window.ahead filter filter')
    (later : SameWithin window.ahead others others') :
    SameAt window (filtersRound filter others) (filtersRound filter' others') := by
  refine same_at_next ?_
  split
  · exact same_at_advance (here.bind alike fun first => later.followed _)
  · rfl

theorem chain_round_same {operand operand' : Reading Selector}
    {others others' : Selector → Reading Selector} (alike : Local operand operand)
    (here : SameWithin window.ahead operand operand')
    (later : ∀ whole, SameWithin window.ahead (others whole) (others' whole)) (left : Selector) :
    SameAt window (chainRound operand others left) (chainRound operand' others' left) := by
  refine SameAt.bind rfl local_combinator fun found after left => ?_
  cases found with
  | none => rfl
  | some combinator =>
      have less := ahead_suffix left
      exact same_at_advance ((here.mono less).bind alike fun right => (later _).mono less)

theorem comma_round_same {item item' : Reading α} {others others' : Reading (List α)}
    (alike : Local item item) (here : SameWithin window.ahead item item')
    (later : SameWithin window.ahead others others') :
    SameAt window (commaRound item others) (commaRound item' others') := by
  refine same_at_next ?_
  split
  · exact same_at_advance (.behind local_advance fun _ =>
      here.bind alike fun first => later.followed _)
  · rfl

theorem argument_round_same (name : String) {others others' : List Lexeme → Reading (List Lexeme)}
    (later : ∀ read, SameWithin window.ahead (others read) (others' read)) (read : List Lexeme) :
    SameAt window (argumentRound name others read) (argumentRound name others' read) := by
  refine same_at_advance (.behind local_current fun lexeme => ?_)
  split
  · exact .refl _ _
  · exact .refl _ _
  · exact .refl _ _
  · exact .refl _ _
  · exact later _

end

/-! With budget for one more round a loop is that round and the loop behind it. So a loop does the
same with another reading of its items, as far as that one does. -/

section
variable {simple simple' : Reading Simple} (alike : Local simple simple) {lexemes : List Lexeme}
  (same : SameWithin lexemes simple simple')
include alike same

theorem filters_same (budget : Nat) :
    SameWithin lexemes (filters simple budget) (filters simple' budget) := by
  -- The rounds behind the first one start where fewer lexemes are shown, within the same ones.
  induction budget with
  | zero => exact .refl _ _
  | succ budget ih =>
      intro window inside
      have less := ahead_within inside
      exact filters_round_same alike (same.mono less) (ih.mono less)

theorem compound_same (budget : Nat) :
    SameWithin lexemes (compound simple budget) (compound simple' budget) := by
  have later := filters_same alike same budget
  refine .behind local_token fun token => ?_
  split
  · exact later.followed _
  · exact later.followed _
  · split
    · exact same.bind alike fun filter => later.followed _
    · exact .refl _ _

theorem chain_after_same (budget : Nat) (left : Selector) :
    SameWithin lexemes (chainAfter simple budget left) (chainAfter simple' budget left) := by
  induction budget generalizing left with
  | zero => exact .refl _ _
  | succ budget ih =>
      intro window inside
      have less := ahead_within inside
      exact chain_round_same (local_compound alike budget budget)
        ((compound_same alike same budget).mono less) (fun whole => (ih whole).mono less) left

theorem chain_same (budget : Nat) :
    SameWithin lexemes (chain simple budget) (chain simple' budget) :=
  (compound_same alike same budget).bind (local_compound alike budget budget)
    fun first => chain_after_same alike same budget first

theorem alternatives_after_same (budget : Nat) :
    SameWithin lexemes (alternativesAfter simple budget) (alternativesAfter simple' budget) := by
  induction budget with
  | zero => exact .refl _ _
  | succ budget ih =>
      intro window inside
      have less := ahead_within inside
      exact comma_round_same (local_chain alike budget budget)
        ((chain_same alike same budget).mono less) (ih.mono less)

theorem selector_list_same (budget : Nat) :
    SameWithin lexemes (selectorList simple budget) (selectorList simple' budget) :=
  (chain_same alike same budget).bind (local_chain alike budget budget)
    fun _ => (alternatives_after_same alike same budget).followed _

omit alike in
theorem negatable_same : SameWithin lexemes (negatable simple) (negatable simple') := by
  refine .behind local_token fun token => ?_
  dsimp only
  split
  · exact .refl _ _
  · exact .refl _ _
  · split
    · exact same.followed _
    · exact .refl _ _

theorem negatables_after_same (budget : Nat) :
    SameWithin lexemes (negatablesAfter simple budget) (negatablesAfter simple' budget) := by
  induction budget with
  | zero => exact .refl _ _
  | succ budget ih =>
      intro window inside
      have less := ahead_within inside
      exact comma_round_same (local_negatable alike)
        ((negatable_same same).mono less) (ih.mono less)

theorem negation_same (budget : Nat) :
    SameWithin lexemes (negation simple budget) (negation simple' budget) :=
  .behind local_advance fun _ => (negatable_same same).bind (local_negatable alike)
    fun _ => (negatables_after_same alike same budget).followed _

theorem relation_same (budget : Nat) :
    SameWithin lexemes (relation simple budget) (relation simple' budget) := by
  refine .behind local_advance fun _ => .behind local_token fun token => ?_
  dsimp only
  split
  · exact .behind local_advance fun _ => (selector_list_same alike same budget).followed _
  · exact (selector_list_same alike same budget).followed _

theorem function_same (name : String) (budget : Nat) :
    SameWithin lexemes (function simple name budget) (function simple' name budget) := by
  unfold function
  split
  · exact negation_same alike same budget
  · split
    · exact relation_same alike same budget
    · exact .refl _ _

end

/-- What stands in a function is read behind its name. -/
theorem pseudo_class_same {simple simple' : Reading Simple} (alike : Local simple simple)
    {window : Window} (same : SameWithin window.ahead simple simple') (budget : Nat) :
    SameAt window (pseudoClass simple budget) (pseudoClass simple' budget) := by
  refine same_at_next ?_
  split
  · rfl
  · split
    · rfl
    · exact same_at_advance (function_same alike same _ budget)
    · rfl

/-- Only a colon opens what others can be nested in. -/
theorem simple_at (depth : Nat) (window : Window) :
    (simple (depth + 1)).run window =
      (if window.current.token.kind = .colon then pseudoClass (simple depth) depth
        else simple 1).run window := by
  obtain ⟨⟨spaced, ⟨kind, literal⟩⟩, ahead⟩ := window
  cases kind <;> rfl

/-- With budget for one more round each loop is a round, and with one more level of depth the
reader of a simple selector is one that nests. What is read next in either, be it an item, the
rounds left or what is nested, is asked for only where a token has been taken. -/
structure Progresses (depth budget : Nat) : Prop where
  in_filters : ∀ (window : Window) (filter : Reading Simple) (others : Reading (List Simple)),
    SameWithin window.ahead (simple depth) filter →
    SameWithin window.ahead (filters (simple depth) budget) others →
    SameAt window (filters (simple depth) (budget + 1)) (filtersRound filter others)
  in_chain : ∀ (window : Window) (operand : Reading Selector) (others : Selector → Reading Selector)
    (left : Selector),
    SameWithin window.ahead (compound (simple depth) budget) operand →
    (∀ whole, SameWithin window.ahead (chainAfter (simple depth) budget whole) (others whole)) →
    SameAt window (chainAfter (simple depth) (budget + 1) left) (chainRound operand others left)
  in_alternatives : ∀ (window : Window) (alternative : Reading Selector)
    (others : Reading (List Selector)),
    SameWithin window.ahead (chain (simple depth) budget) alternative →
    SameWithin window.ahead (alternativesAfter (simple depth) budget) others →
    SameAt window (alternativesAfter (simple depth) (budget + 1)) (commaRound alternative others)
  in_negation : ∀ (window : Window) (item : Reading Negatable) (others : Reading (List Negatable)),
    SameWithin window.ahead (negatable (simple depth)) item →
    SameWithin window.ahead (negatablesAfter (simple depth) budget) others →
    SameAt window (negatablesAfter (simple depth) (budget + 1)) (commaRound item others)
  in_argument : ∀ (window : Window) (name : String) (others : List Lexeme → Reading (List Lexeme))
    (read : List Lexeme),
    (∀ longer, SameWithin window.ahead (argumentLexemes name budget longer) (others longer)) →
    SameAt window (argumentLexemes name (budget + 1) read) (argumentRound name others read)
  nested : ∀ (window : Window) (inner : Reading Simple),
    SameWithin window.ahead (simple depth) inner →
    SameAt window (simple (depth + 1))
      (if window.current.token.kind = .colon then pseudoClass inner depth else simple 1)

theorem progresses (depth budget : Nat) : Progresses depth budget := by
  have alike := local_simple depth depth
  refine ⟨?_, ?_, ?_, ?_, ?_, ?_⟩
  · exact fun window filter others here later => filters_round_same alike here later
  · exact fun window operand others left here later =>
      chain_round_same (local_compound alike budget budget) here later left
  · exact fun window alternative others here later =>
      comma_round_same (local_chain alike budget budget) here later
  · exact fun window item others here later => comma_round_same (local_negatable alike) here later
  · exact fun window name others read later => argument_round_same name later read
  · intro window inner same
    rw [SameAt, simple_at]
    split
    · exact pseudo_class_same alike same depth
    · rfl

end Reading

/-! Whole texts. -/

open Reading

/-- Every token but the end token has a character of its own. -/
theorem lexemes_length (text : List Char) : (lexemes text).length ≤ text.length + 1 := by
  fun_induction lexemes text with
  | case1 text next more ih =>
      have shorter : next.2.length < text.length := Token.read_length text more
      rw [List.length_cons]
      omega
  | case2 text next ends => exact Nat.le_add_left 1 text.length

theorem ahead_of_text (text : String) : (Window.ofText text).ahead.length ≤ text.length := by
  have most := lexemes_length text.toList
  rw [← of_text_shown, Window.shown, List.length_cons, String.length_toList] at most
  exact Nat.le_of_succ_le_succ most

/-- Among the tokens of a text, nothing is ahead of the end token and of no other. -/
theorem ahead_nil_iff {text : String} {window : Window}
    (inside : window.shown <:+ lexemes text.toList) :
    window.ahead = [] ↔ window.current.token.kind = .eof := by
  obtain ⟨before, last, shows, ends, others⟩ := shown_end inside
  simp only [Token.isEnd, beq_iff_eq, beq_eq_false_iff_ne] at ends others
  cases before with
  | nil =>
      obtain ⟨current, ahead⟩ := List.cons.inj shows
      exact iff_of_true ahead (current ▸ ends)
  | cons first front =>
      obtain ⟨current, ahead⟩ := List.cons.inj shows
      refine iff_of_false ?_ (current ▸ others first List.mem_cons_self)
      rw [ahead]
      exact List.append_ne_nil_of_right_ne_nil front (List.cons_ne_nil last [])

theorem past_end_iff (window : Window) :
    answer advance window = .error .pastEnd ↔ window.ahead = [] := by
  obtain ⟨current, ahead⟩ := window
  cases ahead with
  | nil => exact iff_of_true rfl rfl
  | cons first rest =>
      have moved : answer advance ⟨current, first :: rest⟩ =
          answer (if first.token.kind = .illegal then illegalHere else pure ()) ⟨first, rest⟩ := rfl
      refine iff_of_false ?_ (List.cons_ne_nil first rest)
      rw [moved]
      split
      · exact nofun
      · exact nofun

/-- Every budget above the number of characters gives what the parser gives, and stops where it
stops. -/
theorem read_in_budget {text : String} {budget : Nat} (enough : text.length < budget) :
    answer (wholeSelector budget) (Window.ofText text) = (parse text).mapError .fault ∧
      stop (wholeSelector budget) (Window.ofText text) = ((Parser.ofText text).next).2.window := by
  have shorter := Nat.lt_of_le_of_lt (ahead_of_text text) enough
  have plenty : ¬OutOfBudget (wholeSelector budget) (Window.ofText text) :=
    fun out => fair_of_answer (meets_whole_selector budget (of_text_closed text) shorter) out
  obtain ⟨passed, split, same⟩ :=
    local_whole_selector (Window.ofText text).budget budget (Window.ofText text)
  obtain ⟨answers, stops⟩ :=
    same (Window.ofText text) _ split rfl (text_in_budget text) plenty
  exact ⟨answers.trans (read_text_answer text), stops.trans (next_window (Parser.ofText text)).symm⟩

/-- The parser takes a token with every round and every level of nesting, and never moves on from
the end token. So one round and one level more than the text has characters are enough: with any
such budget the parser comes to its selector or to its fault, and to the same place. -/
theorem parser_progresses (text : String) :
    (∀ depth budget, Progresses depth budget) ∧
      (∀ window : Window, window.shown <:+ lexemes text.toList →
        (answer advance window = .error .pastEnd ↔ window.current.token.kind = .eof)) ∧
      ∀ budget, text.length < budget →
        answer (wholeSelector budget) (Window.ofText text) = (parse text).mapError .fault ∧
          stop (wholeSelector budget) (Window.ofText text) =
            ((Parser.ofText text).next).2.window :=
  ⟨progresses, fun window inside => (past_end_iff window).trans (ahead_nil_iff inside),
    fun _ => read_in_budget⟩

/-- What a function holds is read with a token taken since its colon. Where both parentheses are
left open the end token is found in the place of one, and nothing is read behind it. -/
theorem open_functions_end :
    SameAt (Window.ofText ":has(> :has(a") (simple 14)
        (pseudoClass (checked (Window.ofText ":has(> :has(a") (simple 13)) 13) ∧
      answer advance ⟨Window.endLexeme, []⟩ = .error .pastEnd ∧
      answer (wholeSelector 14) (Window.ofText ":has(> :has(a") =
        .error (.fault (.expected .hasClose .eof)) := by
  obtain ⟨takes, atEnd, within⟩ := parser_progresses ":has(> :has(a"
  have nested := (takes 13 13).nested _ _ (same_checked (Window.ofText ":has(> :has(a") _)
  rw [if_pos (by decide +kernel)] at nested
  have failed : parse ":has(> :has(a" = .error (.expected .hasClose .eof) :=
    parse_fails (by decide +kernel)
  refine ⟨nested, (atEnd ⟨Window.endLexeme, []⟩ (by decide +kernel)).mpr rfl, ?_⟩
  rw [(within 14 (by decide +kernel)).1, failed]
  rfl

end TreeSelect
