import TreeSelect.Proofs.Grammar
import TreeSelect.Proofs.Reading

/-!
The readers against the grammar. Every reader starts on the first token of its phrase, or
directly before it, and stops on its last; so a phrase is what the window has moved over.
-/

namespace TreeSelect.Reading

open Grammar

variable {α : Type}

/-- A successful reading moves over a phrase that begins at the current token. -/
def TakesHere (reading : Reading α) (phrase : List Lexeme → α → Prop) : Prop :=
  ∀ window value after, Reads reading window value after →
    ∃ lexemes, window.current :: window.ahead = lexemes ++ after.ahead ∧ phrase lexemes value

/-- The same for a phrase that begins behind the current token and may be empty. -/
def TakesAhead (reading : Reading α) (phrase : List Lexeme → α → Prop) : Prop :=
  ∀ window value after, Reads reading window value after →
    ∃ lexemes, window.ahead = lexemes ++ after.ahead ∧ phrase lexemes value

theorem joins_iff (kind : TokenKind) (combinator : Combinator) :
    Joins kind combinator ↔ Combinator.ofKind? kind = some combinator := by
  constructor
  · rintro ⟨⟩ <;> rfl
  · intro found
    cases kind <;> cases found <;> constructor

theorem compares_iff (kind : TokenKind) (operator : AttributeOperator) :
    Compares kind operator ↔ AttributeOperator.ofKind? kind = some operator := by
  constructor
  · rintro ⟨⟩ <;> rfl
  · intro found
    cases kind <;> cases found <;> constructor

/-! Phrases that do not nest. -/

theorem attribute_value_reads (window after : Window) (value : String) :
    Reads attributeValue window value after ↔
      window.ahead = after.current :: after.ahead ∧ value = after.current.token.literal ∧
        (after.current.token.kind = .ident ∨ after.current.token.kind = .string) := by
  simp only [attributeValue, reads_bind, exists_reads_next]
  constructor
  · intro read
    split at read
    · next kind =>
      simp only [reads_bind, reads_advance, exists_reads_token, reads_pure] at read
      obtain ⟨_, _, ⟨moved, -⟩, rfl, rfl⟩ := read
      rw [next_of_ahead moved] at kind
      exact ⟨moved, rfl, kind⟩
    · exact ((reads_unexpected_next _ _ _ _).mp read).elim
  · rintro ⟨moved, rfl, kind⟩
    rw [if_pos (by rw [next_of_ahead moved]; exact kind)]
    simp only [reads_bind, reads_advance, exists_reads_token, reads_pure]
    refine ⟨(), _, ⟨moved, ?_⟩, rfl, rfl⟩
    rcases kind with kind | kind <;> simp [kind]

theorem attribute_taken (window after : Window) (test : AttributeTest)
    (left : window.current.token.kind = .leftBracket)
    (read : Reads attributeTest window test after) :
    ∃ lexemes, window.current :: window.ahead = lexemes ++ after.ahead ∧
      Attribute lexemes test := by
  simp only [attributeTest, reads_bind, reads_expect, exists_reads_token, exists_reads_next] at read
  obtain ⟨_, named, ⟨toName, name, -⟩, read⟩ := read
  split at read
  · next closing =>
    simp only [reads_bind, reads_advance, reads_pure] at read
    obtain ⟨_, closed, ⟨toClose, -⟩, rfl, rfl⟩ := read
    rw [next_of_ahead toClose] at closing
    exact ⟨[window.current, named.current, closed.current], by simp [toName, toClose],
      .present left name closing⟩
  · split at read
    · exact ((reads_unexpected_next _ _ _ _).mp read).elim
    · next operator known =>
      simp only [reads_bind, reads_advance, attribute_value_reads, reads_expect,
        reads_pure] at read
      obtain ⟨_, marked, ⟨toMark, -⟩, _, valued, ⟨toValue, rfl, value⟩, _, closed,
        ⟨toClose, close, -⟩, rfl, rfl⟩ := read
      rw [next_of_ahead toMark] at known
      exact ⟨[window.current, named.current, marked.current, valued.current, closed.current],
        by simp [toName, toMark, toValue, toClose],
        .compared left name ((compares_iff _ _).mpr known) value close⟩

theorem argument_lexemes_taken (name : String) (budget : Nat) (before : List Lexeme)
    (window after : Window) (value : List Lexeme)
    (read : Reads (argumentLexemes name budget before) window value after) :
    ∃ inside, window.ahead = inside ++ after.current :: after.ahead ∧
      value = before ++ inside ∧ after.current.token.kind = .rightParen ∧
      ∀ lexeme ∈ inside, ArgumentToken lexeme.token.kind := by
  induction budget generalizing before window with
  | zero => exact ((reads_throw _ _ _ _).mp read).elim
  | succ budget ih =>
      simp only [argumentLexemes, reads_bind, reads_advance, exists_reads_current] at read
      obtain ⟨_, moved, ⟨toNext, legal⟩, read⟩ := read
      split at read
      · next close =>
        obtain ⟨rfl, rfl⟩ := (reads_pure _ _ _ _).mp read
        exact ⟨[], by simp [toNext], by simp, close, by simp⟩
      · exact ((reads_halt _ _ _ _).mp read).elim
      · exact ((reads_halt _ _ _ _).mp read).elim
      · exact ((reads_halt _ _ _ _).mp read).elim
      · next noClose noEnd noParen noFunction =>
        obtain ⟨inside, moved', rfl, close, inner⟩ := ih _ _ read
        refine ⟨moved.current :: inside, by simp [toNext, moved'], by simp, close, ?_⟩
        intro lexeme member
        rcases List.mem_cons.mp member with rfl | later
        · exact ⟨noParen, noClose, noFunction, noEnd, legal⟩
        · exact inner lexeme later

/-- What the reader puts together is the text that the tokens stand for. -/
theorem join_spellings_eq (read : List Lexeme) : joinSpellings read = argumentText read := by
  induction read using argumentText.induct with
  | case1 => rfl
  | case2 lexeme => simp [joinSpellings, argumentText]
  | case3 first second rest ih =>
      rw [argumentText, ← ih]
      simp only [joinSpellings, List.map_cons, String.join_cons, String.append_assoc]

theorem argument_of_iff (inside : List Lexeme) (value : Argument)
    (inner : ∀ lexeme ∈ inside, ArgumentToken lexeme.token.kind) :
    argumentOf? inside = some value ↔ ArgumentOf inside value := by
  constructor
  · intro found
    unfold argumentOf? at found
    split at found
    · cases found
      exact .quoted rfl
    · split at found
      · cases found
      · next bare =>
        rw [join_spellings_eq] at found
        refine .bare (fun lexeme member => ⟨inner lexeme member, fun string => bare ?_⟩) found
        exact List.any_eq_true.mpr ⟨lexeme, member, by simp [string]⟩
  · rintro (⟨string⟩ | ⟨bare, found⟩)
    · next lexeme =>
      obtain ⟨spaced, kind, literal⟩ := lexeme
      cases string
      rfl
    · unfold argumentOf?
      split
      · exact absurd rfl (bare _ List.mem_cons_self).2
      · rw [if_neg, join_spellings_eq, found]
        simpa using fun lexeme member => (bare lexeme member).2

theorem argument_taken (name : String) (budget : Nat) (window after : Window)
    (value : Argument) (read : Reads (argument name budget) window value after) :
    ∃ inside, window.ahead = inside ++ after.current :: after.ahead ∧
      after.current.token.kind = .rightParen ∧ ArgumentOf inside value := by
  simp only [argument, reads_bind] at read
  obtain ⟨found, between, taken, read⟩ := read
  obtain ⟨inside, moved, same, close, inner⟩ :=
    argument_lexemes_taken name budget [] window between found taken
  rw [List.nil_append] at same
  subst same
  split at read
  · next argument known =>
    obtain ⟨rfl, rfl⟩ := (reads_pure _ _ _ _).mp read
    exact ⟨found, moved, close, (argument_of_iff found value inner).mp known⟩
  · exact ((reads_halt _ _ _ _).mp read).elim

theorem single_starts {lexemes : List Lexeme} {test : Simple} (phrase : Single lexemes test) :
    ∃ start rest, lexemes = start :: rest ∧ startsFilter start.token.kind = true := by
  cases phrase with
  | hash kind => exact ⟨_, _, rfl, by simp [kind, startsFilter]⟩
  | cls kind _ _ => exact ⟨_, _, rfl, by simp [kind, startsFilter]⟩
  | pseudoElement kind _ _ => exact ⟨_, _, rfl, by simp [kind, startsFilter]⟩
  | pseudoClass kind _ _ => exact ⟨_, _, rfl, by simp [kind, startsFilter]⟩
  | bracketed test =>
    cases test with
    | present kind _ _ => exact ⟨_, _, rfl, by simp [kind, startsFilter]⟩
    | compared kind _ _ _ _ => exact ⟨_, _, rfl, by simp [kind, startsFilter]⟩
  | functional call _ _ _ =>
    obtain ⟨kind, _, _, _⟩ := call
    exact ⟨_, _, rfl, by simp [kind, startsFilter]⟩
  | negation call _ _ _ =>
    obtain ⟨kind, _, _, _⟩ := call
    exact ⟨_, _, rfl, by simp [kind, startsFilter]⟩
  | has call _ _ _ =>
    obtain ⟨kind, _, _, _⟩ := call
    exact ⟨_, _, rfl, by simp [kind, startsFilter]⟩

theorem compound_starts {lexemes : List Lexeme} {selector : Selector}
    (phrase : Compound lexemes selector) :
    ∃ start rest, lexemes = start :: rest ∧ startsCompound start.token.kind = true := by
  cases phrase with
  | type kind _ => exact ⟨_, _, rfl, by simp [kind, startsCompound]⟩
  | universal kind _ => exact ⟨_, _, rfl, by simp [kind, startsCompound]⟩
  | bare first _ =>
    obtain ⟨start, rest, rfl, starts⟩ := single_starts first
    exact ⟨start, _, rfl, by simp [startsCompound, starts]⟩

theorem chain_starts {lexemes : List Lexeme} {selector : Selector}
    (phrase : Chain lexemes selector) :
    ∃ start rest, lexemes = start :: rest ∧ startsCompound start.token.kind = true := by
  obtain ⟨compound, _⟩ := phrase
  obtain ⟨start, rest, rfl, starts⟩ := compound_starts compound
  exact ⟨start, _, rfl, starts⟩

/-! Phrases that hold simple selectors, for a reader of these that keeps to the grammar. -/

section
variable {simple : Reading Simple}

theorem filters_taken (taken : TakesHere simple Single) (budget : Nat) :
    TakesAhead (filters simple budget) Filters := by
  induction budget with
  | zero => exact fun _ _ _ read => ((reads_throw _ _ _ _).mp read).elim
  | succ budget ih =>
      intro window tests after read
      simp only [filters, reads_bind, exists_reads_next] at read
      split at read
      · next opens =>
        simp only [reads_bind, reads_advance, reads_pure] at read
        obtain ⟨_, moved, ⟨toNext, -⟩, test, between, one, others, _, more, rfl, rfl⟩ := read
        rw [next_of_ahead toNext, Bool.and_eq_true, Bool.not_eq_true'] at opens
        obtain ⟨first, here, single⟩ := taken _ _ _ one
        obtain ⟨rest, ahead, filters⟩ := ih _ _ _ more
        obtain ⟨start, tail, rfl, -⟩ := single_starts single
        simp only [List.cons_append, List.cons.injEq] at here
        obtain ⟨same, behind⟩ := here
        refine ⟨start :: (tail ++ rest), ?_, .more (same ▸ opens.1) single filters⟩
        rw [toNext, same, behind, ahead, List.cons_append, List.append_assoc]
      · obtain ⟨rfl, rfl⟩ := (reads_pure _ _ _ _).mp read
        exact ⟨[], rfl, .none⟩

theorem compound_taken (taken : TakesHere simple Single) (budget : Nat) :
    TakesHere (compound simple budget) Compound := by
  intro window selector after read
  simp only [compound, reads_bind, exists_reads_token] at read
  split at read
  · next kind =>
    simp only [reads_bind, reads_pure] at read
    obtain ⟨tests, _, more, rfl, rfl⟩ := read
    obtain ⟨others, ahead, filters⟩ := filters_taken taken budget _ _ _ more
    exact ⟨window.current :: others, by simp [ahead], .type kind filters⟩
  · next kind =>
    simp only [reads_bind, reads_pure] at read
    obtain ⟨tests, _, more, rfl, rfl⟩ := read
    obtain ⟨others, ahead, filters⟩ := filters_taken taken budget _ _ _ more
    exact ⟨window.current :: others, by simp [ahead], .universal kind filters⟩
  · split at read
    · simp only [reads_bind, reads_pure] at read
      obtain ⟨test, _, one, tests, _, more, rfl, rfl⟩ := read
      obtain ⟨first, here, single⟩ := taken _ _ _ one
      obtain ⟨others, ahead, filters⟩ := filters_taken taken budget _ _ _ more
      exact ⟨first ++ others, by simp [here, ahead], .bare single filters⟩
    · split at read
      · exact ((reads_illegal_here _ _ _).mp read).elim
      · exact ((reads_halt _ _ _ _).mp read).elim

/-- What the reader of combinators has seen, and moved past if it has a token. -/
theorem combinator_reads (window after : Window) (found : Option Combinator) :
    Reads combinator? window found after ↔
      (∃ combinator, found = some combinator ∧ Joins after.current.token.kind combinator ∧
        window.ahead = after.current :: after.ahead) ∨
      (window = after ∧ Combinator.ofKind? window.next.token.kind = none ∧
        found = if window.next.spaced && startsCompound window.next.token.kind
          then some .descendant else none) := by
  simp only [combinator?, reads_bind, exists_reads_next]
  constructor
  · intro read
    split at read
    · next combinator known =>
      simp only [reads_bind, reads_advance, reads_pure] at read
      obtain ⟨_, _, ⟨moved, -⟩, rfl, rfl⟩ := read
      rw [next_of_ahead moved] at known
      exact .inl ⟨combinator, rfl, (joins_iff _ _).mpr known, moved⟩
    · next unknown =>
      refine .inr ?_
      split at read
      · next spaced =>
        obtain ⟨rfl, rfl⟩ := (reads_pure _ _ _ _).mp read
        exact ⟨rfl, unknown, by rw [if_pos spaced]⟩
      · next spaced =>
        obtain ⟨rfl, rfl⟩ := (reads_pure _ _ _ _).mp read
        exact ⟨rfl, unknown, by rw [if_neg spaced]⟩
  · rintro (⟨combinator, rfl, joins, moved⟩ | ⟨rfl, unknown, rfl⟩)
    · rw [next_of_ahead moved, (joins_iff _ _).mp joins]
      simp only [reads_bind, reads_advance, reads_pure]
      refine ⟨(), after, ⟨moved, ?_⟩, True.intro, rfl⟩
      intro illegal
      rw [illegal] at joins
      cases joins
    · split
      · next known => rw [unknown] at known; cases known
      · split <;> exact (reads_pure _ _ _ _).mpr ⟨rfl, rfl⟩

theorem chain_after_taken (taken : TakesHere simple Single) (budget : Nat) (left : Selector) :
    TakesAhead (chainAfter simple budget left) (ChainRest left) := by
  induction budget generalizing left with
  | zero => exact fun _ _ _ read => ((reads_throw _ _ _ _).mp read).elim
  | succ budget ih =>
      intro window whole after read
      simp only [chainAfter, reads_bind, combinator_reads] at read
      obtain ⟨_, between, ⟨combinator, rfl, joins, moved⟩ | ⟨rfl, -, rfl⟩, read⟩ := read
      · simp only [reads_bind, reads_advance] at read
        obtain ⟨_, started, ⟨toNext, -⟩, right, joined, next, read⟩ := read
        obtain ⟨first, here, compound⟩ := compound_taken taken budget _ _ _ next
        obtain ⟨others, ahead, rest⟩ := ih _ _ _ _ read
        refine ⟨between.current :: (first ++ others), ?_, .marked joins compound rest⟩
        rw [moved, toNext, here, ahead, List.cons_append, List.append_assoc]
      · split at read
        · obtain ⟨rfl, rfl⟩ := (reads_pure _ _ _ _).mp read
          exact ⟨[], rfl, .none⟩
        · next combinator chosen =>
          split at chosen
          · next spaced =>
            cases chosen
            -- No token was read for the combinator: the compound begins at the next one.
            simp only [reads_bind, reads_advance] at read
            obtain ⟨_, started, ⟨toNext, -⟩, right, joined, next, read⟩ := read
            rw [next_of_ahead toNext, Bool.and_eq_true] at spaced
            obtain ⟨first, here, compound⟩ := compound_taken taken budget _ _ _ next
            obtain ⟨others, ahead, rest⟩ := ih _ _ _ _ read
            obtain ⟨start, tail, rfl, -⟩ := compound_starts compound
            simp only [List.cons_append, List.cons.injEq] at here
            obtain ⟨same, behind⟩ := here
            refine ⟨start :: (tail ++ others), ?_, .spaced (same ▸ spaced.1) compound rest⟩
            rw [toNext, same, behind, ahead, List.cons_append, List.append_assoc]
          · cases chosen

theorem chain_taken (taken : TakesHere simple Single) (budget : Nat) :
    TakesHere (chain simple budget) Chain := by
  intro window whole after read
  simp only [chain, reads_bind] at read
  obtain ⟨start, between, one, more⟩ := read
  obtain ⟨first, here, compound⟩ := compound_taken taken budget _ _ _ one
  obtain ⟨others, ahead, rest⟩ := chain_after_taken taken budget start _ _ _ more
  exact ⟨first ++ others, by rw [here, ahead, List.append_assoc], .mk compound rest⟩

theorem alternatives_after_taken (taken : TakesHere simple Single) (budget : Nat) :
    TakesAhead (alternativesAfter simple budget) ListingRest := by
  induction budget with
  | zero => exact fun _ _ _ read => ((reads_throw _ _ _ _).mp read).elim
  | succ budget ih =>
      intro window value after read
      simp only [alternativesAfter, reads_bind, exists_reads_next] at read
      split at read
      · next comma =>
        simp only [reads_bind, reads_advance, reads_pure] at read
        obtain ⟨_, mark, ⟨toComma, -⟩, _, started, ⟨toNext, -⟩, alternative, between, one,
          others, _, more, rfl, rfl⟩ := read
        rw [next_of_ahead toComma] at comma
        obtain ⟨first, here, chain⟩ := chain_taken taken budget _ _ _ one
        obtain ⟨rest, ahead, listing⟩ := ih _ _ _ more
        refine ⟨mark.current :: (first ++ rest), ?_, .more comma chain listing⟩
        rw [toComma, toNext, here, ahead, List.cons_append, List.append_assoc]
      · obtain ⟨rfl, rfl⟩ := (reads_pure _ _ _ _).mp read
        exact ⟨[], rfl, .none⟩

theorem selector_list_taken (taken : TakesHere simple Single) (budget : Nat) :
    TakesHere (selectorList simple budget) Listing := by
  intro window value after read
  simp only [selectorList, reads_bind] at read
  obtain ⟨alternative, between, one, others, last, more, read⟩ := read
  obtain ⟨first, here, chain⟩ := chain_taken taken budget _ _ _ one
  obtain ⟨rest, ahead, listing⟩ := alternatives_after_taken taken budget _ _ _ more
  have whole : value = alternatives alternative others ∧ last = after := by
    cases others with
    | nil => exact (reads_pure _ _ _ _).mp read
    | cons second others => exact (reads_pure _ _ _ _).mp read
  obtain ⟨rfl, rfl⟩ := whole
  exact ⟨first ++ rest, by rw [here, ahead, List.append_assoc], .mk chain listing⟩

/-- The check that an item of `:not()` is no compound. -/
theorem alone_reads (item value : Negatable) (window after : Window) :
    Reads (do
      let ahead ← next
      if !ahead.spaced && startsFilter ahead.token.kind then halt (.unnegatable .compound)
      else return item) window value after ↔
      value = item ∧ window = after ∧
        (!window.next.spaced && startsFilter window.next.token.kind) = false := by
  simp only [reads_bind, exists_reads_next]
  constructor
  · intro read
    split at read
    · exact ((reads_halt _ _ _ _).mp read).elim
    · next alone =>
      obtain ⟨rfl, rfl⟩ := (reads_pure _ _ _ _).mp read
      exact ⟨rfl, rfl, eq_false_of_ne_true alone⟩
  · rintro ⟨rfl, rfl, alone⟩
    rw [if_neg (by simp [alone])]
    exact (reads_pure _ _ _ _).mpr ⟨rfl, rfl⟩

theorem negatable_taken (taken : TakesHere simple Single) :
    TakesHere (negatable simple) Negated := by
  intro window item after read
  simp only [negatable, reads_bind, exists_reads_token] at read
  split at read
  · next kind =>
    rw [pure_bind, alone_reads] at read
    obtain ⟨rfl, rfl, -⟩ := read
    exact ⟨[window.current], rfl, .type kind⟩
  · next kind =>
    rw [pure_bind, alone_reads] at read
    obtain ⟨rfl, rfl, -⟩ := read
    exact ⟨[window.current], rfl, .universal kind⟩
  · split at read
    · rw [reads_bind] at read
      obtain ⟨test, between, one, read⟩ := read
      obtain ⟨first, here, single⟩ := taken _ _ _ one
      split at read
      · simp at read
      · simp at read
      · simp at read
      · next noNegation noNegations noHas =>
        rw [pure_bind, alone_reads] at read
        obtain ⟨rfl, rfl, -⟩ := read
        refine ⟨first, here, .simple single ?_⟩
        cases test with
        | notOne item => exact noNegation item rfl
        | notAny items => exact noNegations items rfl
        | has combinator argument => exact noHas combinator argument rfl
        | _ => trivial
    · split at read <;> simp at read

theorem negatables_after_taken (taken : TakesHere simple Single) (budget : Nat) :
    TakesAhead (negatablesAfter simple budget) NegatedRest := by
  induction budget with
  | zero => exact fun _ _ _ read => ((reads_throw _ _ _ _).mp read).elim
  | succ budget ih =>
      intro window value after read
      simp only [negatablesAfter, reads_bind, exists_reads_next] at read
      split at read
      · next comma =>
        simp only [reads_bind, reads_advance, reads_pure] at read
        obtain ⟨_, mark, ⟨toComma, -⟩, _, started, ⟨toNext, -⟩, item, between, one,
          others, _, more, rfl, rfl⟩ := read
        rw [next_of_ahead toComma] at comma
        obtain ⟨first, here, negated⟩ := negatable_taken taken _ _ _ one
        obtain ⟨rest, ahead, items⟩ := ih _ _ _ more
        refine ⟨mark.current :: (first ++ rest), ?_, .more comma negated items⟩
        rw [toComma, toNext, here, ahead, List.cons_append, List.append_assoc]
      · obtain ⟨rfl, rfl⟩ := (reads_pure _ _ _ _).mp read
        exact ⟨[], rfl, .none⟩

/-! The inside of a functional pseudo-class, from its name up to the parenthesis that
closes it, for whatever frame stands around it. -/

/-- A reading from the name of a function to its closing parenthesis. -/
def TakesInside (name : String) (reading : Reading Simple) : Prop :=
  ∀ window value after, Reads reading window value after →
    ∃ inside close, window.ahead = inside ++ close :: after.ahead ∧
      close.token.kind = .rightParen ∧
      ∀ lexemes, Call name inside lexemes → Single lexemes value

theorem negation_taken (taken : TakesHere simple Single) (budget : Nat) (name : String)
    (isNot : Text.sameName name "not" = true) : TakesInside name (negation simple budget) := by
  intro window value after read
  simp only [negation, reads_bind, reads_advance, reads_expect] at read
  obtain ⟨_, started, ⟨toNext, -⟩, item, between, one, others, listed, more, _, closed,
    ⟨toClose, close, -⟩, read⟩ := read
  obtain ⟨first, here, negated⟩ := negatable_taken taken _ _ _ one
  obtain ⟨rest, ahead, items⟩ := negatables_after_taken taken budget _ _ _ more
  have whole : value = Grammar.negation item others ∧ closed = after := by
    cases others with
    | nil => exact (reads_pure _ _ _ _).mp read
    | cons second others => exact (reads_pure _ _ _ _).mp read
  obtain ⟨rfl, rfl⟩ := whole
  refine ⟨first ++ rest, closed.current, ?_, close, fun _ call => ?_⟩
  · rw [toNext, here, ahead, toClose, List.append_assoc]
  · exact .negation call isNot negated items

theorem relation_taken (taken : TakesHere simple Single) (budget : Nat) (name : String)
    (isHas : Text.sameName name "has" = true) : TakesInside name (relation simple budget) := by
  intro window value after read
  simp only [relation, reads_bind, reads_advance, exists_reads_token] at read
  obtain ⟨_, started, ⟨toNext, -⟩, read⟩ := read
  split at read
  · next leads =>
    obtain ⟨combinator, known⟩ := Option.isSome_iff_exists.mp leads
    simp only [reads_bind, reads_advance, reads_expect, reads_pure] at read
    obtain ⟨_, moved, ⟨toList, -⟩, argument, between, list, _, closed, ⟨toClose, close, -⟩,
      rfl, rfl⟩ := read
    obtain ⟨inside, here, listing⟩ := selector_list_taken taken budget _ _ _ list
    refine ⟨[started.current] ++ inside, closed.current, ?_, close, fun _ call => ?_⟩
    · rw [toNext, toList, here, toClose, List.append_assoc, List.singleton_append]
    · rw [known]
      exact .has call isHas (.some ((joins_iff _ _).mpr known)) listing
  · next leads =>
    rw [Option.not_isSome_iff_eq_none] at leads
    simp only [reads_bind, reads_expect, reads_pure] at read
    obtain ⟨argument, between, list, _, closed, ⟨toClose, close, -⟩, rfl, rfl⟩ := read
    obtain ⟨inside, here, listing⟩ := selector_list_taken taken budget _ _ _ list
    refine ⟨[] ++ inside, closed.current, ?_, close, fun _ call => ?_⟩
    · rw [toNext, here, toClose, List.nil_append]
    · rw [leads]
      exact .has call isHas .none listing

theorem function_taken (taken : TakesHere simple Single) (budget : Nat) (name : String) :
    TakesInside name (function simple name budget) := by
  intro window value after read
  unfold function at read
  split at read
  · next isNot => exact negation_taken taken budget name isNot _ _ _ read
  · next notNot =>
    split at read
    · next isHas => exact relation_taken taken budget name isHas _ _ _ read
    · next notHas =>
      simp only [reads_bind, reads_pure] at read
      obtain ⟨argument, closed, one, rfl, rfl⟩ := read
      obtain ⟨inside, moved, close, phrase⟩ := argument_taken name budget _ _ _ one
      exact ⟨inside, closed.current, moved, close, fun _ call =>
        .functional call (eq_false_of_ne_true notNot) (eq_false_of_ne_true notHas) phrase⟩

theorem pseudo_class_taken (taken : TakesHere simple Single) (budget : Nat)
    (window after : Window) (value : Simple) (mark : window.current.token.kind = .colon)
    (read : Reads (pseudoClass simple budget) window value after) :
    ∃ lexemes, window.current :: window.ahead = lexemes ++ after.ahead ∧
      Single lexemes value := by
  simp only [pseudoClass, reads_bind, exists_reads_next] at read
  split at read
  · exact ((reads_unexpected_next _ _ _ _).mp read).elim
  · next near =>
    split at read
    · next kind =>
      simp only [reads_bind, reads_advance, reads_pure] at read
      obtain ⟨_, named, ⟨toName, -⟩, rfl, rfl⟩ := read
      rw [next_of_ahead toName] at near kind ⊢
      exact ⟨[window.current, named.current], by simp [toName],
        .pseudoClass mark kind (eq_false_of_ne_true near)⟩
    · next kind =>
      simp only [reads_bind, reads_advance] at read
      obtain ⟨_, named, ⟨toName, -⟩, read⟩ := read
      rw [next_of_ahead toName] at near kind read
      obtain ⟨inside, close, moved, closes, phrase⟩ := function_taken taken budget _ _ _ _ read
      refine ⟨window.current :: named.current :: (inside ++ [close]), ?_, phrase _ ?_⟩
      · simp [toName, moved]
      · exact .mk mark (by rw [← kind]) (eq_false_of_ne_true near) closes
    · exact ((reads_unexpected_next _ _ _ _).mp read).elim

end

/-- One level down, the reader of simple selectors is any reader that keeps to the grammar. -/
theorem simple_taken (depth : Nat) : TakesHere (simple depth) Single := by
  induction depth with
  | zero => exact fun _ _ _ read => ((reads_throw _ _ _ _).mp read).elim
  | succ depth ih =>
      intro window value after read
      simp only [simple, reads_bind, exists_reads_token] at read
      split at read
      · next kind =>
        obtain ⟨rfl, rfl⟩ := (reads_pure _ _ _ _).mp read
        exact ⟨[window.current], rfl, .hash kind⟩
      · next kind =>
        simp only [reads_bind, reads_expect_adjacent, exists_reads_token, reads_pure] at read
        obtain ⟨_, named, ⟨toName, name, -, near⟩, rfl, rfl⟩ := read
        exact ⟨[window.current, named.current], by simp [toName], .cls kind name near⟩
      · next kind =>
        simp only [reads_bind, reads_pure] at read
        obtain ⟨test, _, one, rfl, rfl⟩ := read
        obtain ⟨lexemes, here, phrase⟩ := attribute_taken _ _ _ kind one
        exact ⟨lexemes, here, .bracketed phrase⟩
      · next kind => exact pseudo_class_taken ih depth _ _ _ kind read
      · next kind =>
        simp only [reads_bind, reads_expect_adjacent, exists_reads_token, reads_pure] at read
        obtain ⟨_, named, ⟨toName, name, -, near⟩, rfl, rfl⟩ := read
        exact ⟨[window.current, named.current], by simp [toName], .pseudoElement kind name near⟩
      · exact ((reads_halt _ _ _ _).mp read).elim

end TreeSelect.Reading
