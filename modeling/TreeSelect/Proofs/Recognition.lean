import TreeSelect.Proofs.Completeness

/-!
The parser and the grammar agree on whole texts: a selector is parsed from a text exactly
when the lexemes of the text derive it. A text has at most one tree, since the parser is a
function; the grammar by itself is not shown to be unambiguous in any other way.
-/

namespace TreeSelect

open Grammar

/-! The end token stands at the end of the lexemes and nowhere else, and in no phrase. -/

theorem lexemes_end (text : List Char) :
    ∃ inside last, lexemes text = inside ++ [last] ∧ last.token.isEnd = true ∧
      ∀ lexeme ∈ inside, lexeme.token.isEnd = false := by
  fun_induction lexemes text with
  | case1 text next more ih =>
    obtain ⟨inside, last, same, ends, others⟩ := ih
    refine ⟨next.1 :: inside, last, by rw [same, List.cons_append], ends, ?_⟩
    intro lexeme member
    rcases List.mem_cons.mp member with rfl | later
    · exact more
    · exact others lexeme later
  | case2 text next ends =>
    exact ⟨[], next.1, rfl, eq_true_of_ne_false ends, by simp⟩

namespace Grammar

/-- Tokens that can stand in a phrase. -/
def Meant (kind : TokenKind) : Prop := kind ≠ .eof ∧ kind ≠ .illegal

theorem call_meant {name : String} {inside lexemes : List Lexeme}
    (call : Call name inside lexemes) (meant : ∀ lexeme ∈ inside, Meant lexeme.token.kind) :
    ∀ lexeme ∈ lexemes, Meant lexeme.token.kind := by
  obtain ⟨opens, named, -, closes⟩ := call
  intro lexeme member
  simp only [List.mem_cons, List.mem_append, List.mem_nil_iff, or_false] at member
  rcases member with rfl | rfl | member | rfl
  · simp [Meant, opens]
  · simp [Meant, named]
  · exact meant lexeme member
  · simp [Meant, closes]

theorem argument_meant {inside : List Lexeme} {argument : Argument}
    (phrase : ArgumentOf inside argument) : ∀ lexeme ∈ inside, Meant lexeme.token.kind := by
  cases phrase with
  | quoted string => simp [Meant, string]
  | bare plain _ => exact fun lexeme member => (plain lexeme member).1.2.2.2

theorem joins_meant {kind : TokenKind} {combinator : Combinator}
    (joins : Joins kind combinator) : Meant kind := by
  cases joins <;> exact ⟨by decide, by decide⟩

theorem compares_meant {kind : TokenKind} {operator : AttributeOperator}
    (compares : Compares kind operator) : Meant kind := by
  cases compares <;> exact ⟨by decide, by decide⟩

theorem lead_meant {lexemes : List Lexeme} {combinator : Option Combinator}
    (lead : Lead lexemes combinator) : ∀ lexeme ∈ lexemes, Meant lexeme.token.kind := by
  cases lead with
  | none => simp
  | some joins => simpa using joins_meant joins

theorem attribute_meant {lexemes : List Lexeme} {test : AttributeTest}
    (phrase : Attribute lexemes test) : ∀ lexeme ∈ lexemes, Meant lexeme.token.kind := by
  cases phrase with
  | present opens named closes => simp [Meant, opens, named, closes]
  | compared opens named compares valued closes =>
    have mark := compares_meant compares
    rcases valued with valued | valued <;>
      simp [Meant, opens, named, mark.1, mark.2, valued, closes]

theorem meant_append {first others : List Lexeme}
    (here : ∀ lexeme ∈ first, Meant lexeme.token.kind)
    (there : ∀ lexeme ∈ others, Meant lexeme.token.kind) :
    ∀ lexeme ∈ first ++ others, Meant lexeme.token.kind :=
  List.forall_mem_append.mpr ⟨here, there⟩

theorem meant_cons {start : Lexeme} {others : List Lexeme} (here : Meant start.token.kind)
    (there : ∀ lexeme ∈ others, Meant lexeme.token.kind) :
    ∀ lexeme ∈ start :: others, Meant lexeme.token.kind :=
  List.forall_mem_cons.mpr ⟨here, there⟩

theorem meant_of_kind {kind found : TokenKind} (same : found = kind)
    (plain : kind ≠ .eof ∧ kind ≠ .illegal := by decide) : Meant found :=
  same ▸ plain

mutual
theorem single_meant {lexemes : List Lexeme} {test : Simple} :
    Single lexemes test → ∀ lexeme ∈ lexemes, Meant lexeme.token.kind
  | .hash kind => by simp [Meant, kind]
  | .cls kind named _ => by simp [Meant, kind, named]
  | .pseudoElement kind named _ => by simp [Meant, kind, named]
  | .pseudoClass kind named _ => by simp [Meant, kind, named]
  | .bracketed phrase => attribute_meant phrase
  | .functional call _ _ phrase => call_meant call (argument_meant phrase)
  | .negation call _ negated more =>
      call_meant call (meant_append (negated_meant negated) (negated_rest_meant more))
  | .has call _ lead listing =>
      call_meant call (meant_append (lead_meant lead) (listing_meant listing))

theorem negated_meant {lexemes : List Lexeme} {item : Negatable} :
    Negated lexemes item → ∀ lexeme ∈ lexemes, Meant lexeme.token.kind
  | .type kind => by simp [Meant, kind]
  | .universal kind => by simp [Meant, kind]
  | .simple single _ => single_meant single

theorem negated_rest_meant {lexemes : List Lexeme} {items : List Negatable} :
    NegatedRest lexemes items → ∀ lexeme ∈ lexemes, Meant lexeme.token.kind
  | .none => by simp
  | .more kind negated more =>
      meant_cons (meant_of_kind kind)
        (meant_append (negated_meant negated) (negated_rest_meant more))

theorem filters_meant {lexemes : List Lexeme} {tests : List Simple} :
    Filters lexemes tests → ∀ lexeme ∈ lexemes, Meant lexeme.token.kind
  | .none => by simp
  | .more _ single more => meant_append (single_meant single) (filters_meant more)

theorem compound_meant {lexemes : List Lexeme} {selector : Selector} :
    Compound lexemes selector → ∀ lexeme ∈ lexemes, Meant lexeme.token.kind
  | .type kind more => meant_cons (meant_of_kind kind) (filters_meant more)
  | .universal kind more => meant_cons (meant_of_kind kind) (filters_meant more)
  | .bare single more => meant_append (single_meant single) (filters_meant more)

theorem chain_rest_meant {left whole : Selector} {lexemes : List Lexeme} :
    ChainRest left lexemes whole → ∀ lexeme ∈ lexemes, Meant lexeme.token.kind
  | .none => by simp
  | .marked joins compound more =>
      meant_cons (joins_meant joins)
        (meant_append (compound_meant compound) (chain_rest_meant more))
  | .spaced _ compound more => meant_append (compound_meant compound) (chain_rest_meant more)

theorem chain_meant {lexemes : List Lexeme} {selector : Selector} :
    Chain lexemes selector → ∀ lexeme ∈ lexemes, Meant lexeme.token.kind
  | .mk compound more => meant_append (compound_meant compound) (chain_rest_meant more)

theorem listing_rest_meant {lexemes : List Lexeme} {selectors : List Selector} :
    ListingRest lexemes selectors → ∀ lexeme ∈ lexemes, Meant lexeme.token.kind
  | .none => by simp
  | .more kind chain more =>
      meant_cons (meant_of_kind kind) (meant_append (chain_meant chain) (listing_rest_meant more))

theorem listing_meant {lexemes : List Lexeme} {selector : Selector} :
    Listing lexemes selector → ∀ lexeme ∈ lexemes, Meant lexeme.token.kind
  | .mk chain more => meant_append (chain_meant chain) (listing_rest_meant more)
end

end Grammar

open Reading

theorem next_reads (parser : Parser) (selector : Selector) :
    parser.next.1 = .ok selector ↔
      ∃ after, Reads (wholeSelector parser.window.budget) parser.window selector after := by
  unfold Parser.next Reads
  split
  · next found after read =>
    constructor
    · rintro ⟨⟩
      exact ⟨after, read⟩
    · rintro ⟨after, same⟩
      rw [read] at same
      cases same
      rfl
  · next halt after read =>
    constructor
    · intro stopped
      cases stopped
    · rintro ⟨after, same⟩
      rw [read] at same
      cases same

theorem whole_selector_reads (budget : Nat) (window after : Window) (selector : Selector) :
    Reads (wholeSelector budget) window selector after ↔
      Reads (selectorList (simple budget) budget) window selector after ∧
        after.next.token.isEnd = true := by
  simp only [wholeSelector, reads_bind, exists_reads_next]
  constructor
  · rintro ⟨found, between, list, read⟩
    split at read
    · next ends =>
      obtain ⟨rfl, rfl⟩ := (reads_pure _ _ _ _).mp read
      exact ⟨list, ends⟩
    · simp at read
  · rintro ⟨list, ends⟩
    refine ⟨selector, after, list, ?_⟩
    rw [if_pos ends]
    exact (reads_pure _ _ _ _).mpr ⟨rfl, rfl⟩

theorem end_ends_list {last : Lexeme} (ends : last.token.isEnd = true) (rest : List Lexeme) :
    EndsList (last :: rest) := by
  have kind : last.token.kind = .eof := by simpa [Token.isEnd] using ends
  simp [EndsList, EndsChain, following, kind, Combinator.ofKind?, startsCompound, startsFilter]

/-- The window of a text shows its lexemes, the current one first. -/
theorem of_text_stream (text : String) :
    (Window.ofText text).current :: (Window.ofText text).ahead = lexemes text.toList := by
  obtain ⟨inside, last, all, -, -⟩ := lexemes_end text.toList
  unfold Window.ofText
  split
  · next none => simp [none] at all
  · next found => rw [found]

/-- A phrase that is followed by an end token has taken all that stands before it. -/
theorem inside_of_closed {inside taken rest : List Lexeme} {last : Lexeme}
    (ends : last.token.isEnd = true) (others : ∀ lexeme ∈ inside, lexeme.token.isEnd = false)
    (meant : ∀ lexeme ∈ taken, Meant lexeme.token.kind)
    (all : inside ++ [last] = taken ++ rest) (closed : (following rest).token.isEnd = true) :
    taken = inside := by
  rcases List.eq_nil_or_concat rest with rfl | ⟨front, final, rfl⟩
  · -- The phrase would have taken the end token, which is in no phrase.
    have member : last ∈ taken := by
      rw [List.append_nil] at all
      simp [← all]
    exact absurd (by simpa [Token.isEnd] using ends) (meant last member).1
  · rw [List.concat_eq_append, ← List.append_assoc] at all
    obtain ⟨same, -⟩ := List.append_inj' all rfl
    cases front with
    | nil => rw [same, List.append_nil]
    | cons first front =>
      have open' : first.token.isEnd = false := others first (by simp [same])
      simp only [following, List.concat_eq_append, List.cons_append, List.headD_cons] at closed
      rw [open'] at closed
      cases closed

/-- Lexemes that are a list up to the end token. -/
def Grammar.Complete (xs : List Lexeme) (selector : Selector) : Prop :=
  ∃ inside last, xs = inside ++ [last] ∧ last.token.isEnd = true ∧ Listing inside selector

/-- What a parser has in front of it decides what it gives next. -/
theorem next_ok_iff {parser : Parser} {inside : List Lexeme} {last : Lexeme}
    (all : parser.window.current :: parser.window.ahead = inside ++ [last])
    (ends : last.token.isEnd = true) (others : ∀ lexeme ∈ inside, lexeme.token.isEnd = false)
    (selector : Selector) :
    parser.next.1 = .ok selector ↔
      Complete (parser.window.current :: parser.window.ahead) selector := by
  simp only [next_reads, whole_selector_reads]
  constructor
  · rintro ⟨after, list, closed⟩
    obtain ⟨taken, moved, listing⟩ := selector_list_taken (simple_taken _) _ _ _ _ list
    rw [all] at moved
    have same := inside_of_closed ends others (listing_meant listing) moved closed
    exact ⟨inside, last, all, ends, same ▸ listing⟩
  · rintro ⟨inside, last, stream, ends, listing⟩
    have length := congrArg List.length stream
    simp only [List.length_cons, List.length_append, List.length_nil] at length
    -- The budget of a window is more than the number of its lexemes.
    obtain ⟨closing, read⟩ := selector_list_given (simple_given parser.window.budget)
      parser.window.budget [last] listing (by unfold Window.budget; omega)
      (by unfold Window.budget; omega) (end_ends_list ends []) _ _ stream
    exact ⟨⟨closing, [last]⟩, read, ends⟩

theorem parse_ok_iff (text : String) (selector : Selector) :
    parse text = .ok selector ↔ Whole text selector := by
  obtain ⟨inside, last, all, ends, others⟩ := lexemes_end text.toList
  have stream := of_text_stream text
  rw [parse, next_ok_iff (stream.trans all) ends others, Parser.ofText, stream]
  rfl

/-- Where a text is read by evaluation, results are compared by what was read alone. -/
theorem ok_of_to_option {α ε : Type} {result : Except ε α} {value : α}
    (found : result.toOption = some value) : result = .ok value := by
  cases result with
  | ok read => exact congrArg Except.ok (Option.some.inj found)
  | error fault => cases found

/-- The parser accepts a text exactly when the grammar derives it, and gives the tree of the
derivation, so that there is only one. Every other text has a fault. -/
theorem parser_recognizes (text : String) :
    (∀ selector, parse text = .ok selector ↔ Whole text selector) ∧
      ((∃ fault, parse text = .error fault) ↔ ¬ ∃ selector, Whole text selector) := by
  refine ⟨parse_ok_iff text, ?_⟩
  cases outcome : parse text with
  | error fault =>
    refine iff_of_true ⟨fault, rfl⟩ ?_
    rintro ⟨selector, whole⟩
    rw [(parse_ok_iff text selector).mpr whole] at outcome
    cases outcome
  | ok selector =>
    refine iff_of_false ?_ fun none => none ⟨selector, (parse_ok_iff text selector).mp outcome⟩
    rintro ⟨fault, ⟨⟩⟩

end TreeSelect
