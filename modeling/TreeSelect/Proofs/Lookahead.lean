import TreeSelect.Proofs.Halting

/-!
What a reading depends on. A reading has looked at the lexemes that it moved over, at the one
it stands on and at the next one. A text that agrees with another so far is read in the same
way, whatever follows, and whether it ends well or with a fault.

Two readings are compared, since the budgets of two texts differ. One that has used up its
budget is compared with nothing.
-/

namespace TreeSelect

namespace Window

/-- The lexemes in sight: the current one and the next, where there is one. -/
def sight (window : Window) : List Lexeme := window.shown.take 2

theorem exists_shown {lexemes : List Lexeme} (some : lexemes ≠ []) :
    ∃ window : Window, window.shown = lexemes := by
  cases lexemes with
  | nil => exact absurd rfl some
  | cons first rest => exact ⟨⟨first, rest⟩, rfl⟩

theorem shown_injective {window other : Window} (same : window.shown = other.shown) :
    window = other := by
  obtain ⟨current, ahead⟩ := window
  obtain ⟨rfl, rfl⟩ := List.cons.inj same
  rfl

theorem next_of_sight (window : Window) : window.next = window.sight.tail.headD endLexeme := by
  obtain ⟨current, ahead⟩ := window
  cases ahead <;> rfl

/-- What is in sight before is in sight of both if the later windows agree. -/
theorem sight_of_passed {window other after after' : Window} {passed : List Lexeme}
    (left : window.shown = passed ++ after.shown) (right : other.shown = passed ++ after'.shown)
    (same : after'.sight = after.sight) : other.sight = window.sight := by
  unfold sight at same ⊢
  rw [left, right, List.take_append, List.take_append]
  have fewer (lexemes : List Lexeme) :
      lexemes.take (2 - passed.length) = (lexemes.take 2).take (2 - passed.length) := by
    rw [List.take_take, Nat.min_eq_left (Nat.sub_le 2 _)]
  rw [fewer after.shown, fewer after'.shown, same]

/-- Lexemes that agree on what is passed and in sight show a window in the same place. -/
theorem split_of_taken {lexemes lexemes' passed : List Lexeme} {after : Window}
    (split : lexemes = passed ++ after.shown)
    (same : lexemes'.take (passed.length + 2) = lexemes.take (passed.length + 2)) :
    ∃ after' : Window, lexemes' = passed ++ after'.shown ∧ after'.sight = after.sight := by
  have before : lexemes'.take passed.length = passed := by
    have fewer := congrArg (List.take passed.length) same
    rw [List.take_take, List.take_take, Nat.min_eq_left (Nat.le_add_right _ 2), split] at fewer
    rw [fewer, List.take_left]
  have behind : (lexemes'.drop passed.length).take 2 = after.sight := by
    have rest := congrArg (List.drop passed.length) same
    rw [split, ← List.take_drop, ← List.take_drop, List.drop_left] at rest
    exact rest
  -- A window shows at least its current lexeme, so the other list goes on as well.
  have some : lexemes'.drop passed.length ≠ [] := by
    intro none
    rw [none] at behind
    cases behind
  obtain ⟨after', shows⟩ := exists_shown some
  have whole := List.take_append_drop passed.length lexemes'
  rw [before, ← shows] at whole
  exact ⟨after', whole.symm, by rw [sight, shows, behind]⟩

end Window

namespace Reading

open Window

variable {α β : Type}

def answer (reading : Reading α) (window : Window) : Except Halt α :=
  match reading.run window with
  | .ok value _ => .ok value
  | .error halt _ => .error halt

def stop (reading : Reading α) (window : Window) : Window :=
  match reading.run window with
  | .ok _ after => after
  | .error _ after => after

def OutOfBudget (reading : Reading α) (window : Window) : Prop :=
  answer reading window = .error .outOfBudget

/-- Both readings give the same answer as far as both have the budget, wherever the second
finds in place of what the first has passed and seen the same, and stop at the same place. -/
def Local (reading other : Reading α) : Prop :=
  ∀ window, ∃ passed, window.shown = passed ++ (stop reading window).shown ∧
    ∀ window' after', window'.shown = passed ++ after'.shown →
      after'.sight = (stop reading window).sight →
      ¬OutOfBudget reading window → ¬OutOfBudget other window' →
      answer other window' = answer reading window ∧ stop other window' = after'

/-- Whatever comes of a reading, it leaves the end of what it has found. -/
theorem stop_suffix {reading other : Reading α} (alike : Local reading other) (window : Window) :
    (stop reading window).shown <:+ window.shown := by
  obtain ⟨passed, split, -⟩ := alike window
  exact ⟨passed, split.symm⟩

section
variable {first first' : Reading α} {second second' : α → Reading β} {window : Window}

theorem answer_bind : answer (first >>= second) window =
    match answer first window with
    | .ok value => answer (second value) (stop first window)
    | .error halt => .error halt := by
  unfold answer stop
  simp only [EStateM.run, bind, EStateM.bind]
  cases first window <;> rfl

theorem stop_bind : stop (first >>= second) window =
    match answer first window with
    | .ok value => stop (second value) (stop first window)
    | .error _ => stop first window := by
  unfold answer stop
  simp only [EStateM.run, bind, EStateM.bind]
  cases first window <;> rfl

theorem out_of_first (out : OutOfBudget first window) : OutOfBudget (first >>= second) window := by
  unfold OutOfBudget at out ⊢
  rw [answer_bind, out]

theorem Local.bind (here : Local first first')
    (there : ∀ value, Local (second value) (second' value)) :
    Local (first >>= second) (first' >>= second') := by
  intro window
  obtain ⟨passed, split, same⟩ := here window
  cases found : answer first window with
  | error halt =>
      refine ⟨passed, by rw [stop_bind, found]; exact split, ?_⟩
      intro window' after' split' sight plenty plenty'
      simp only [stop_bind, found] at sight
      obtain ⟨answers, stops⟩ := same window' after' split' sight
        (plenty ∘ out_of_first) (plenty' ∘ out_of_first)
      rw [found] at answers
      simp only [answer_bind, stop_bind, found, answers]
      exact ⟨True.intro, stops⟩
  | ok value =>
      obtain ⟨passed', splits, sames⟩ := there value (stop first window)
      refine ⟨passed ++ passed', ?_, ?_⟩
      · rw [split, splits, stop_bind, found, List.append_assoc]
      intro window' after' split' sight plenty plenty'
      simp only [stop_bind, found] at sight
      -- The first reading stops in the other text where the second one has its part to pass.
      obtain ⟨middle, shows⟩ : ∃ middle : Window, middle.shown = passed' ++ after'.shown :=
        exists_shown (by simp [shown])
      rw [List.append_assoc, ← shows] at split'
      obtain ⟨answers, stops⟩ := same window' middle split' (sight_of_passed splits shows sight)
        (plenty ∘ out_of_first) (plenty' ∘ out_of_first)
      rw [found] at answers
      subst stops
      simp only [OutOfBudget, answer_bind, found, answers] at plenty plenty'
      obtain ⟨answers', stops'⟩ := sames _ after' shows sight plenty plenty'
      simp only [answer_bind, stop_bind, found, answers]
      exact ⟨answers', stops'⟩

end

/-! Readings that do not move. -/

/-- A reading that stays where it is, and answers from what is in sight. -/
theorem local_of_sight {reading : Reading α} (answered : List Lexeme → Except Halt α)
    (here : ∀ window, answer reading window = answered window.sight ∧
      stop reading window = window) :
    Local reading reading := by
  intro window
  refine ⟨[], by rw [(here window).2, List.nil_append], ?_⟩
  intro window' after' split sight _ _
  obtain rfl : window' = after' := shown_injective split
  rw [(here window).2] at sight
  exact ⟨by rw [(here window').1, (here window).1, sight], (here window').2⟩

theorem local_pure (value : α) : Local (pure value) (pure value) :=
  local_of_sight (fun _ => .ok value) fun _ => ⟨rfl, rfl⟩

theorem local_halt (cause : Fault) : Local (halt cause : Reading α) (halt cause) :=
  local_of_sight (fun _ => .error (.fault cause)) fun _ => ⟨rfl, rfl⟩

theorem local_current : Local current current :=
  local_of_sight (fun sight => .ok (sight.headD endLexeme)) fun _ => ⟨rfl, rfl⟩

theorem local_token : Local token token :=
  local_of_sight (fun sight => .ok (sight.headD endLexeme).token) fun _ => ⟨rfl, rfl⟩

theorem local_next : Local next next :=
  local_of_sight (fun sight => .ok (sight.tail.headD endLexeme)) fun window =>
    ⟨congrArg Except.ok (next_of_sight window), rfl⟩

/-- Where there is no budget nothing is compared. -/
theorem local_no_budget (other : Reading α) : Local (throw .outOfBudget) other :=
  fun _ => ⟨[], rfl, fun _ _ _ _ plenty _ => absurd rfl plenty⟩

/-- It is enough to compare with readings that have a budget. -/
theorem local_some_budget {reading : Reading α} {others : Nat → Reading α}
    (spent : others 0 = throw .outOfBudget) (same : ∀ budget, Local reading (others (budget + 1))) :
    ∀ budget, Local reading (others budget)
  | budget + 1 => same budget
  | 0 => by
      intro window
      obtain ⟨passed, split, -⟩ := same 0 window
      refine ⟨passed, split, fun window' after' _ _ _ plenty' => absurd ?_ plenty'⟩
      rw [spent]
      rfl

theorem local_illegal_here : Local (illegalHere : Reading α) illegalHere :=
  Local.bind local_token fun token => local_halt (.illegal token.literal)

theorem local_unexpected_next (wanted : Wanted) :
    Local (unexpectedNext wanted : Reading α) (unexpectedNext wanted) := by
  refine Local.bind local_next fun ahead => ?_
  split
  · exact local_halt _
  · exact local_halt _

/-! Readings that move. -/

theorem local_advance : Local advance advance := by
  intro window
  obtain ⟨current, ahead⟩ := window
  cases ahead with
  | nil =>
      refine ⟨[], rfl, ?_⟩
      intro window' after' split sight _ _
      obtain rfl : window' = after' := shown_injective split
      obtain ⟨current', ahead'⟩ := window'
      cases ahead' with
      | nil => exact ⟨rfl, rfl⟩
      | cons first rest => cases (List.cons.inj sight).2
  | cons first rest =>
      -- What stands after the move is looked at from there.
      let check : Reading Unit := do if (← token).kind = .illegal then illegalHere
      have checks : Local check check := by
        refine Local.bind local_token fun found => ?_
        split
        · exact local_illegal_here
        · exact local_pure ()
      have answers (here : Lexeme) (there : Window) :
          answer advance ⟨here, there.shown⟩ = answer check there := rfl
      have stops (here : Lexeme) (there : Window) :
          stop advance ⟨here, there.shown⟩ = stop check there := rfl
      obtain ⟨passed, split, same⟩ := checks ⟨first, rest⟩
      refine ⟨current :: passed, congrArg (current :: ·) split, ?_⟩
      intro window' after' split' sight plenty plenty'
      obtain ⟨middle, shows⟩ : ∃ middle : Window, middle.shown = passed ++ after'.shown :=
        exists_shown (by simp [shown])
      obtain rfl : window' = ⟨current, middle.shown⟩ := shown_injective (by rw [split', shows]; rfl)
      simp only [OutOfBudget, answers] at plenty'
      rw [answers, stops]
      exact same middle after' shows sight plenty plenty'

theorem local_expect (kind : TokenKind) (wanted : Wanted) :
    Local (expect kind wanted) (expect kind wanted) := by
  refine Local.bind local_next fun ahead => ?_
  split
  · exact local_advance
  · exact local_unexpected_next wanted

theorem local_expect_adjacent (kind : TokenKind) (wanted : Wanted) :
    Local (expectAdjacent kind wanted) (expectAdjacent kind wanted) := by
  refine Local.bind local_next fun ahead => ?_
  split
  · exact local_halt _
  · exact local_expect kind wanted

/-! Attributes and plain arguments. -/

theorem local_attribute_value : Local attributeValue attributeValue := by
  refine Local.bind local_next fun ahead => ?_
  dsimp only
  split
  · exact Local.bind local_advance fun _ => Local.bind local_token fun token =>
      local_pure token.literal
  · exact local_unexpected_next _

theorem local_attribute : Local attributeTest attributeTest := by
  refine (local_expect _ _).bind fun _ => Local.bind local_token fun name =>
    Local.bind local_next fun ahead => ?_
  dsimp only
  split
  · exact Local.bind local_advance fun _ => local_pure _
  · cases AttributeOperator.ofKind? ahead.token.kind with
    | none => exact local_unexpected_next _
    | some operator =>
        exact Local.bind local_advance fun _ => Local.bind local_attribute_value fun value =>
          (local_expect _ _).bind fun _ => local_pure _

theorem local_argument_lexemes (name : String) (budget : Nat) (read : List Lexeme) :
    ∀ budget', Local (argumentLexemes name budget read) (argumentLexemes name budget' read) := by
  induction budget generalizing read with
  | zero => exact fun _ => local_no_budget _
  | succ budget ih =>
      refine local_some_budget rfl fun budget' => ?_
      refine Local.bind local_advance fun _ => Local.bind local_current fun lexeme => ?_
      split
      · exact local_pure _
      · exact local_halt _
      · exact local_halt _
      · exact local_halt _
      · exact ih _ budget'

theorem local_argument (name : String) (budget budget' : Nat) :
    Local (argument name budget) (argument name budget') := by
  refine (local_argument_lexemes name budget [] budget').bind fun read => ?_
  cases argumentOf? read with
  | some argument => exact local_pure _
  | none => exact local_halt _

/-! Readers of compounds, chains and lists, given readers of simple selectors that agree. -/

section
variable {simple simple' : Reading Simple} (agrees : Local simple simple')
include agrees

theorem local_filters (budget : Nat) :
    ∀ budget', Local (filters simple budget) (filters simple' budget') := by
  induction budget with
  | zero => exact fun _ => local_no_budget _
  | succ budget ih =>
      refine local_some_budget rfl fun budget' => ?_
      refine Local.bind local_next fun ahead => ?_
      split
      · exact Local.bind local_advance fun _ => agrees.bind fun filter =>
          (ih budget').bind fun others => local_pure _
      · exact local_pure _

theorem local_compound (budget budget' : Nat) :
    Local (compound simple budget) (compound simple' budget') := by
  refine Local.bind local_token fun token => ?_
  split
  · exact (local_filters agrees budget budget').bind fun filters => local_pure _
  · exact (local_filters agrees budget budget').bind fun filters => local_pure _
  · split
    · exact agrees.bind fun filter =>
        (local_filters agrees budget budget').bind fun filters => local_pure _
    · split
      · exact local_illegal_here
      · exact local_halt _

omit agrees in
theorem local_combinator : Local combinator? combinator? := by
  refine Local.bind local_next fun ahead => ?_
  cases Combinator.ofKind? ahead.token.kind with
  | some combinator => exact Local.bind local_advance fun _ => local_pure _
  | none =>
      dsimp only
      split
      · exact local_pure _
      · exact local_pure _

theorem local_chain_after (budget : Nat) (left : Selector) :
    ∀ budget', Local (chainAfter simple budget left) (chainAfter simple' budget' left) := by
  induction budget generalizing left with
  | zero => exact fun _ => local_no_budget _
  | succ budget ih =>
      refine local_some_budget rfl fun budget' => ?_
      refine Local.bind local_combinator fun found => ?_
      cases found with
      | none => exact local_pure _
      | some combinator =>
          exact Local.bind local_advance fun _ =>
            (local_compound agrees budget budget').bind fun right => ih _ budget'

theorem local_chain (budget budget' : Nat) :
    Local (chain simple budget) (chain simple' budget') :=
  (local_compound agrees budget budget').bind fun first =>
    local_chain_after agrees budget first budget'

theorem local_alternatives_after (budget : Nat) :
    ∀ budget', Local (alternativesAfter simple budget) (alternativesAfter simple' budget') := by
  induction budget with
  | zero => exact fun _ => local_no_budget _
  | succ budget ih =>
      refine local_some_budget rfl fun budget' => ?_
      refine Local.bind local_next fun ahead => ?_
      split
      · exact Local.bind local_advance fun _ => Local.bind local_advance fun _ =>
          (local_chain agrees budget budget').bind fun alternative =>
            (ih budget').bind fun others => local_pure _
      · exact local_pure _

theorem local_selector_list (budget budget' : Nat) :
    Local (selectorList simple budget) (selectorList simple' budget') := by
  refine (local_chain agrees budget budget').bind fun first =>
    (local_alternatives_after agrees budget budget').bind fun others => ?_
  cases others with
  | nil => exact local_pure _
  | cons second others => exact local_pure _

/-! The functions. -/

theorem local_negatable : Local (negatable simple) (negatable simple') := by
  have alone (item : Negatable) : Local (do
        let ahead ← next
        if !ahead.spaced && startsFilter ahead.token.kind then halt (.unnegatable .compound)
        else return item) (do
        let ahead ← next
        if !ahead.spaced && startsFilter ahead.token.kind then halt (.unnegatable .compound)
        else return item) := by
    refine Local.bind local_next fun ahead => ?_
    split
    · exact local_halt _
    · exact local_pure _
  refine Local.bind local_token fun token => ?_
  dsimp only
  split
  · exact (local_pure _).bind alone
  · exact (local_pure _).bind alone
  · split
    · refine agrees.bind fun test => ?_
      split
      · exact (local_halt _).bind alone
      · exact (local_halt _).bind alone
      · exact (local_halt _).bind alone
      · exact (local_pure _).bind alone
    · split
      · exact Local.bind local_illegal_here alone
      · exact (local_halt _).bind alone

theorem local_negatables_after (budget : Nat) :
    ∀ budget', Local (negatablesAfter simple budget) (negatablesAfter simple' budget') := by
  induction budget with
  | zero => exact fun _ => local_no_budget _
  | succ budget ih =>
      refine local_some_budget rfl fun budget' => ?_
      refine Local.bind local_next fun ahead => ?_
      split
      · exact Local.bind local_advance fun _ => Local.bind local_advance fun _ =>
          (local_negatable agrees).bind fun item => (ih budget').bind fun others => local_pure _
      · exact local_pure _

theorem local_negation (budget budget' : Nat) :
    Local (negation simple budget) (negation simple' budget') := by
  refine Local.bind local_advance fun _ => (local_negatable agrees).bind fun first =>
    (local_negatables_after agrees budget budget').bind fun others =>
      (local_expect _ _).bind fun _ => ?_
  cases others with
  | nil => exact local_pure _
  | cons second others => exact local_pure _

theorem local_relation (budget budget' : Nat) :
    Local (relation simple budget) (relation simple' budget') := by
  have argued (combinator : Option Combinator) : Local (do
        let argument ← selectorList simple budget
        expect .rightParen .hasClose
        return Simple.has combinator argument) (do
        let argument ← selectorList simple' budget'
        expect .rightParen .hasClose
        return Simple.has combinator argument) :=
    (local_selector_list agrees budget budget').bind fun argument =>
      (local_expect _ _).bind fun _ => local_pure _
  refine Local.bind local_advance fun _ => Local.bind local_token fun token => ?_
  dsimp only
  split
  · exact Local.bind local_advance fun _ => argued _
  · exact argued _

theorem local_function (name : String) (budget budget' : Nat) :
    Local (function simple name budget) (function simple' name budget') := by
  unfold function
  split
  · exact local_negation agrees budget budget'
  · split
    · exact local_relation agrees budget budget'
    · exact (local_argument name budget budget').bind fun argument => local_pure _

theorem local_pseudo_class (budget budget' : Nat) :
    Local (pseudoClass simple budget) (pseudoClass simple' budget') := by
  refine Local.bind local_next fun ahead => ?_
  split
  · exact local_unexpected_next _
  · split
    · exact Local.bind local_advance fun _ => local_pure _
    · exact Local.bind local_advance fun _ => local_function agrees _ budget budget'
    · exact local_unexpected_next _

end

theorem local_simple (depth : Nat) : ∀ depth', Local (simple depth) (simple depth') := by
  induction depth with
  | zero => exact fun _ => local_no_budget _
  | succ depth ih =>
      refine local_some_budget rfl fun depth' => ?_
      refine Local.bind local_token fun token => ?_
      split
      · exact local_pure _
      · exact (local_expect_adjacent _ _).bind fun _ => Local.bind local_token fun name =>
          local_pure _
      · exact Local.bind local_attribute fun test => local_pure _
      · exact local_pseudo_class (ih depth') depth depth'
      · exact (local_expect_adjacent _ _).bind fun _ => Local.bind local_token fun name =>
          local_pure _
      · exact local_halt _

theorem local_whole_selector (budget budget' : Nat) :
    Local (wholeSelector budget) (wholeSelector budget') := by
  refine (local_selector_list (local_simple budget budget') budget budget').bind fun selector =>
    Local.bind local_next fun ahead => ?_
  split
  · exact local_pure _
  · exact Local.bind local_advance fun _ => Local.bind local_token fun token => local_halt _

theorem fair_of_answer {reading : Reading α} {window : Window} {ends : α → Window → Prop}
    {halt : Halt} (meets : Meets reading window ends)
    (found : answer reading window = .error halt) :
    Fair window halt := by
  unfold answer at found
  unfold Meets at meets
  split at found
  · cases found
  · next stopped =>
    rw [stopped] at meets
    cases found
    exact meets

end Reading

/-! Whole texts. -/

open Reading

/-- The tokens of a text, the end token once and for ever. -/
def tokenAt (text : String) (index : Nat) : Lexeme :=
  (lexemes text.toList).getD index Window.endLexeme

/-- How many tokens the parser takes from a text: two to begin with, one more with each move. -/
def pulled (text : String) : Nat :=
  (lexemes text.toList).length + 1 - ((Parser.ofText text).next).2.window.ahead.length

/-- The reading of a whole text, started with the budget of the text. -/
abbrev readText (text : String) : Reading Selector := wholeSelector (Window.ofText text).budget

/-- What a call gives is the answer of the reading, and where it stops the next call goes on. -/
theorem next_window (parser : Parser) :
    parser.next.2.window = stop (wholeSelector parser.window.budget) parser.window := by
  unfold Parser.next stop
  cases EStateM.run (wholeSelector parser.window.budget) parser.window <;> rfl

theorem next_answer (parser : Parser) :
    parser.next.1 = match answer (wholeSelector parser.window.budget) parser.window with
      | .ok selector => .ok selector
      | .error halt => .error halt.cause := by
  unfold Parser.next answer
  cases EStateM.run (wholeSelector parser.window.budget) parser.window <;> rfl

/-- Neither of the two halts that no text has is told as a fault. -/
theorem read_text_answer (text : String) :
    answer (readText text) (Window.ofText text) = (parse text).mapError .fault := by
  have parsed : parse text = match answer (readText text) (Window.ofText text) with
      | .ok selector => .ok selector
      | .error halt => .error halt.cause := next_answer (Parser.ofText text)
  rw [parsed]
  cases found : answer (readText text) (Window.ofText text) with
  | ok selector => rfl
  | error halt =>
      have fair := fair_of_answer (of_text_meets text) found
      cases halt with
      | fault cause => rfl
      | outOfBudget => exact fair.elim
      | pastEnd => exact fair.elim

theorem parse_error_iff (text : String) (fault : Fault) :
    parse text = .error fault ↔
      answer (readText text) (Window.ofText text) = .error (.fault fault) := by
  rw [read_text_answer]
  cases parse text with
  | ok selector =>
      show Except.ok selector = _ ↔ Except.ok selector = _
      simp
  | error cause =>
      show Except.error cause = _ ↔ Except.error (Halt.fault cause) = _
      simp

theorem text_in_budget (text : String) : ¬OutOfBudget (readText text) (Window.ofText text) :=
  fun out => fair_of_answer (of_text_meets text) out

theorem parsed_legal {text : String} {selector : Selector} (parsed : parse text = .ok selector) :
    Legal (lexemes text.toList) := by
  obtain ⟨inside, last, all, ends, listing⟩ := (parse_ok_iff text selector).mp parsed
  intro lexeme member
  rw [all] at member
  rcases List.mem_append.mp member with member | member
  · exact (Grammar.listing_meant listing lexeme member).2
  · rw [List.mem_singleton.mp member]
    intro illegal
    simp [Token.isEnd, illegal] at ends

/-- Tokens that agree one by one up to a place agree as lists, since both lists end with the
first end token. -/
theorem take_of_tokens (count : Nat) :
    ∀ {inside inside' : List Lexeme} {last last' : Lexeme}, last.token.isEnd = true →
      last'.token.isEnd = true → (∀ lexeme ∈ inside, lexeme.token.isEnd = false) →
      (∀ lexeme ∈ inside', lexeme.token.isEnd = false) →
      (∀ index < count, (inside' ++ [last']).getD index Window.endLexeme =
        (inside ++ [last]).getD index Window.endLexeme) →
      (inside' ++ [last']).take count = (inside ++ [last]).take count := by
  induction count with
  | zero => intros; rfl
  | succ count ih =>
      intro inside inside' last last' ends ends' others others' same
      have head := same 0 (Nat.succ_pos count)
      cases inside with
      | nil =>
          cases inside' with
          | nil => simpa using head
          | cons first' rest' =>
              obtain rfl : first' = last := head
              rw [others' first' List.mem_cons_self] at ends
              cases ends
      | cons first rest =>
          cases inside' with
          | nil =>
              obtain rfl : last' = first := head
              rw [others last' List.mem_cons_self] at ends'
              cases ends'
          | cons first' rest' =>
              obtain rfl : first' = first := head
              rw [List.forall_mem_cons] at others others'
              exact congrArg (first' :: ·) (ih ends ends' others.2 others'.2 fun index less =>
                same (index + 1) (Nat.succ_lt_succ less))

theorem take_of_token_at {text other : String} {count : Nat}
    (same : ∀ index < count, tokenAt other index = tokenAt text index) :
    (lexemes other.toList).take count = (lexemes text.toList).take count := by
  obtain ⟨inside, last, all, ends, others⟩ := lexemes_end text.toList
  obtain ⟨inside', last', all', ends', others'⟩ := lexemes_end other.toList
  unfold tokenAt at same
  rw [all, all'] at same ⊢
  exact take_of_tokens count ends ends' others others' same

theorem of_text_shown (text : String) : (Window.ofText text).shown = lexemes text.toList :=
  of_text_stream text

/-- A text whose tokens agree with those that were taken has the same fault. -/
theorem fault_of_tokens {text other : String} {fault : Fault} (failed : parse text = .error fault)
    (same : ∀ index < pulled text, tokenAt other index = tokenAt text index) :
    parse other = .error fault := by
  have agrees : Local (readText text) (readText other) := local_whole_selector _ _
  obtain ⟨passed, split, alike⟩ := agrees (Window.ofText text)
  rw [of_text_shown] at split
  have count : pulled text = passed.length + 2 := by
    have lengths := congrArg List.length split
    simp only [List.length_append, Window.shown, List.length_cons] at lengths
    have stops : ((Parser.ofText text).next).2.window =
        stop (readText text) (Window.ofText text) := next_window (Parser.ofText text)
    unfold pulled
    rw [stops]
    omega
  obtain ⟨after, split', sight⟩ := Window.split_of_taken split (count ▸ take_of_token_at same)
  rw [parse_error_iff] at failed ⊢
  rw [← failed]
  exact (alike (Window.ofText other) after ((of_text_shown other).trans split') sight
    (text_in_budget text) (text_in_budget other)).1

/-- What is illegal is always a fault, and named by the first illegal token. A fault is told
from the tokens that the parser has taken, whatever follows them. -/
theorem faults_decided_by_tokens_taken (text : String) :
    ((∃ lexeme ∈ lexemes text.toList, lexeme.token.kind = .illegal) →
        ∃ fault, parse text = .error fault) ∧
      (∀ literal, parse text = .error (.illegal literal) →
        FirstIllegal (lexemes text.toList) literal) ∧
      ∀ fault other, parse text = .error fault →
        (∀ index < pulled text, tokenAt other index = tokenAt text index) →
        parse other = .error fault := by
  refine ⟨?_, ?_, fun fault other => fault_of_tokens⟩
  · rintro ⟨lexeme, member, illegal⟩
    cases parsed : parse text with
    | ok selector => exact absurd illegal (parsed_legal parsed lexeme member)
    | error fault => exact ⟨fault, rfl⟩
  · intro literal failed
    rw [← of_text_shown]
    exact fair_of_answer (of_text_meets text) ((parse_error_iff text _).mp failed)

/-- Faults of given texts are found by evaluation. -/
theorem parse_fails {text : String} {fault : Fault}
    (failed : (match parse text with | .ok _ => none | .error found => some found) = some fault) :
    parse text = .error fault := by
  split at failed
  · cases failed
  · next found stopped => rw [stopped, Option.some.inj failed]

/-- Of two illegal tokens the first is told. What stands behind a missing compound is not
looked at, beyond the next token. -/
theorem selector_missing_before_mark :
    (∃ fault, parse "a%b!" = .error fault) ∧ FirstIllegal (lexemes "a%b!".toList) "%" ∧
      parse "a,>b!" = .error (.noStart .greaterThan ">") := by
  obtain ⟨fatal, told, -⟩ := faults_decided_by_tokens_taken "a%b!"
  obtain ⟨-, -, decided⟩ := faults_decided_by_tokens_taken "a,>b"
  have same : ∀ index < pulled "a,>b", tokenAt "a,>b!" index = tokenAt "a,>b" index := by
    decide +kernel
  exact ⟨fatal (by decide +kernel), told "%" (parse_fails (by decide +kernel)),
    decided _ _ (parse_fails (by decide +kernel)) same⟩

end TreeSelect
