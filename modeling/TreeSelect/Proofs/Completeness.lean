import TreeSelect.Proofs.Soundness

/-!
What the grammar derives, the readers take. A phrase is read to its end where nothing
follows that would still belong to it, and within a budget of its own length. The value
and the rest of the window are then the ones that the derivation says.
-/

namespace TreeSelect.Reading

open Grammar

variable {α : Type}

/-- From the first lexeme of a phrase, the reading comes to its end with the value. -/
def GivesHere (reading : Reading α) (lexemes : List Lexeme) (value : α)
    (rest : List Lexeme) : Prop :=
  ∀ current ahead, current :: ahead = lexemes ++ rest →
    ∃ last, Reads reading ⟨current, ahead⟩ value ⟨last, rest⟩

def GivesAhead (reading : Reading α) (lexemes : List Lexeme) (value : α)
    (rest : List Lexeme) : Prop :=
  ∀ current, ∃ last, Reads reading ⟨current, lexemes ++ rest⟩ value ⟨last, rest⟩

/-! What may not follow a phrase: a lexeme that would continue it. -/

def following (rest : List Lexeme) : Lexeme := rest.headD Window.endLexeme

theorem next_following (current : Lexeme) (rest : List Lexeme) :
    Window.next ⟨current, rest⟩ = following rest := rfl

def EndsFilters (rest : List Lexeme) : Prop :=
  (!(following rest).spaced && startsFilter (following rest).token.kind) = false

def EndsChain (rest : List Lexeme) : Prop :=
  Combinator.ofKind? (following rest).token.kind = none ∧
    startsCompound (following rest).token.kind = false

def EndsList (rest : List Lexeme) : Prop :=
  EndsChain rest ∧ (following rest).token.kind ≠ .comma

theorem ends_filters {rest : List Lexeme} (ends : EndsChain rest) : EndsFilters rest := by
  have plain := ends.2
  simp only [startsCompound, Bool.or_eq_false_iff] at plain
  simp [EndsFilters, plain.2]

theorem legal_of_starts {kind : TokenKind} (starts : startsCompound kind = true) :
    kind ≠ .illegal := by
  rintro rfl
  simp [startsCompound, startsFilter] at starts

theorem starts_compound {kind : TokenKind} (starts : startsFilter kind = true) :
    startsCompound kind = true := by
  simp [startsCompound, starts]

theorem joins_no_start {kind : TokenKind} {combinator : Combinator}
    (joins : Joins kind combinator) : startsCompound kind = false := by
  cases joins <;> rfl

theorem joins_legal {kind : TokenKind} {combinator : Combinator}
    (joins : Joins kind combinator) : kind ≠ .illegal := by
  cases joins <;> decide

theorem starts_no_join {kind : TokenKind} (starts : startsCompound kind = true) :
    Combinator.ofKind? kind = none := by
  cases known : Combinator.ofKind? kind with
  | none => rfl
  | some combinator =>
    rw [joins_no_start ((joins_iff _ _).mpr known)] at starts
    cases starts

theorem chain_rest_ends_filters {left whole : Selector} {lexemes rest : List Lexeme}
    (phrase : ChainRest left lexemes whole) (ends : EndsChain rest) :
    EndsFilters (lexemes ++ rest) := by
  cases phrase with
  | none => exact ends_filters ends
  | marked joins _ _ =>
    have plain := joins_no_start joins
    simp only [startsCompound, Bool.or_eq_false_iff] at plain
    simp [EndsFilters, following, plain.2]
  | spaced spaced _ _ => simp [EndsFilters, following, spaced]

theorem comma_ends_chain {comma : Lexeme} (kind : comma.token.kind = .comma)
    (rest : List Lexeme) : EndsChain (comma :: rest) := by
  simp [EndsChain, following, kind, Combinator.ofKind?, startsCompound, startsFilter]

theorem close_ends_list {close : Lexeme} (kind : close.token.kind = .rightParen)
    (rest : List Lexeme) : EndsList (close :: rest) := by
  simp [EndsList, EndsChain, following, kind, Combinator.ofKind?, startsCompound, startsFilter]

theorem listing_rest_ends_chain {alternatives : List Selector} {lexemes rest : List Lexeme}
    (phrase : ListingRest lexemes alternatives) (ends : EndsList rest) :
    EndsChain (lexemes ++ rest) := by
  cases phrase with
  | none => exact ends.1
  | more comma _ _ => exact comma_ends_chain comma _

theorem negated_rest_ends_filters {items : List Negatable} {lexemes rest : List Lexeme}
    (phrase : NegatedRest lexemes items) (ends : EndsList rest) :
    EndsFilters (lexemes ++ rest) := by
  cases phrase with
  | none => exact ends_filters ends.1
  | more comma _ _ => exact ends_filters (comma_ends_chain comma _)

theorem attribute_given {lexemes : List Lexeme} {test : AttributeTest} (rest : List Lexeme)
    (phrase : Attribute lexemes test) : GivesHere attributeTest lexemes test rest := by
  intro current ahead stream
  cases phrase with
  | @present left name right opens named closes =>
    simp only [List.cons_append, List.nil_append, List.cons.injEq] at stream
    obtain ⟨rfl, rfl⟩ := stream
    refine ⟨right, ?_⟩
    simp only [attributeTest, reads_bind, exists_reads_expect, exists_reads_token,
      exists_reads_next]
    refine ⟨⟨named, by decide⟩, ?_⟩
    rw [if_pos (by simpa [Window.next] using closes)]
    simp only [reads_bind, exists_reads_advance, reads_pure, and_self, and_true]
    simp [closes]
  | @compared left name mark value right operator opens named compares valued closes =>
    simp only [List.cons_append, List.nil_append, List.cons.injEq] at stream
    obtain ⟨rfl, rfl⟩ := stream
    refine ⟨right, ?_⟩
    simp only [attributeTest, reads_bind, exists_reads_expect, exists_reads_token,
      exists_reads_next]
    refine ⟨⟨named, by decide⟩, ?_⟩
    -- An operator is no closing bracket, so the reader goes on behind the name.
    have known := (compares_iff _ _).mp compares
    have legal : mark.token.kind ≠ .rightBracket ∧ mark.token.kind ≠ .illegal := by
      constructor <;> intro kind <;> rw [kind] at known <;> cases known
    rw [if_neg (by simpa [Window.next] using legal.1)]
    simp only [Window.next, List.headD_cons, known, reads_bind, exists_reads_advance,
      attribute_value_reads]
    refine ⟨legal.2, _, ⟨value, right :: rest⟩, ⟨rfl, rfl, valued⟩, ?_⟩
    simp only [exists_reads_expect, reads_pure, and_self, and_true]
    exact ⟨closes, by decide⟩

theorem argument_lexemes_given (name : String) (budget : Nat)
    (before inside rest : List Lexeme) (close : Lexeme)
    (inner : ∀ lexeme ∈ inside, ArgumentToken lexeme.token.kind)
    (closes : close.token.kind = .rightParen) (enough : inside.length < budget)
    (current : Lexeme) :
    Reads (argumentLexemes name budget before) ⟨current, inside ++ close :: rest⟩
      (before ++ inside) ⟨close, rest⟩ := by
  induction budget generalizing before inside current with
  | zero => exact absurd enough (Nat.not_lt_zero _)
  | succ budget ih =>
      cases inside with
      | nil =>
        simp only [argumentLexemes, List.nil_append, reads_bind, exists_reads_advance,
          exists_reads_current]
        simp [closes]
      | cons first others =>
        obtain ⟨noParen, noClose, noFunction, noEnd, legal⟩ := inner first List.mem_cons_self
        simp only [argumentLexemes, List.cons_append, reads_bind, exists_reads_advance,
          exists_reads_current]
        -- No kind that stops the reader is left, so it goes on from the first lexeme.
        refine ⟨legal, ?_⟩
        have more := ih (before ++ [first]) others
          (fun lexeme member => inner lexeme (List.mem_cons_of_mem _ member))
          (Nat.lt_of_succ_lt_succ enough) first
        rw [List.append_assoc, List.singleton_append] at more
        exact more

theorem argument_given (name : String) (budget : Nat) (inside rest : List Lexeme)
    (close : Lexeme) (value : Argument) (phrase : ArgumentOf inside value)
    (closes : close.token.kind = .rightParen) (enough : inside.length < budget)
    (current : Lexeme) :
    Reads (argument name budget) ⟨current, inside ++ close :: rest⟩ value ⟨close, rest⟩ := by
  have inner : ∀ lexeme ∈ inside, ArgumentToken lexeme.token.kind := by
    cases phrase with
    | quoted string =>
      intro lexeme member
      rw [List.mem_singleton.mp member, string]
      simp [ArgumentToken]
    | bare plain _ => exact fun lexeme member => (plain lexeme member).1
  simp only [argument, reads_bind]
  refine ⟨inside, ⟨close, rest⟩,
    argument_lexemes_given name budget [] inside rest close inner closes enough current, ?_⟩
  rw [(argument_of_iff inside value inner).mpr phrase]
  exact (reads_pure _ _ _ _).mpr ⟨rfl, rfl⟩

/-! For a reader of simple selectors that gives all those that are short enough. -/

section
variable {simple : Reading Simple} {depth : Nat}

def GivesSingles (simple : Reading Simple) (depth : Nat) : Prop :=
  ∀ lexemes test rest, Single lexemes test → lexemes.length ≤ depth →
    GivesHere simple lexemes test rest

theorem filters_given (given : GivesSingles simple depth) (budget : Nat)
    {lexemes : List Lexeme} {tests : List Simple} (rest : List Lexeme)
    (phrase : Filters lexemes tests) (short : lexemes.length ≤ depth)
    (enough : lexemes.length < budget) (ends : EndsFilters rest) :
    GivesAhead (filters simple budget) lexemes tests rest := by
  induction budget generalizing lexemes tests with
  | zero => exact absurd enough (Nat.not_lt_zero _)
  | succ budget ih =>
      intro current
      simp only [filters, reads_bind, exists_reads_next]
      cases phrase with
      | none =>
        refine ⟨current, ?_⟩
        rw [if_neg (by rw [List.nil_append, next_following, ends]; decide)]
        exact (reads_pure _ _ _ _).mpr ⟨rfl, rfl⟩
      | @more start first others test tests near single more =>
        obtain ⟨_, _, same, starts⟩ := single_starts single
        obtain ⟨rfl, rfl⟩ := List.cons.inj same
        simp only [List.length_cons, List.length_append] at short enough
        obtain ⟨middle, one⟩ := given _ _ (others ++ rest) single
          (by simp only [List.length_cons]; omega) start (first ++ (others ++ rest)) rfl
        obtain ⟨last, remaining⟩ := ih more (by omega) (by omega) middle
        refine ⟨last, ?_⟩
        rw [if_pos (by simp [Window.next, near, starts])]
        simp only [List.cons_append, List.append_assoc, reads_bind, exists_reads_advance,
          reads_pure]
        have legal := legal_of_starts (starts_compound starts)
        exact ⟨legal, test, _, one, tests, _, remaining, rfl, rfl⟩

theorem compound_given (given : GivesSingles simple depth) (budget : Nat)
    {lexemes : List Lexeme} {selector : Selector} (rest : List Lexeme)
    (phrase : Compound lexemes selector) (short : lexemes.length ≤ depth)
    (enough : lexemes.length ≤ budget) (ends : EndsFilters rest) :
    GivesHere (compound simple budget) lexemes selector rest := by
  intro current ahead stream
  simp only [compound, reads_bind, exists_reads_token]
  cases phrase with
  | @type name others tests kind more =>
    simp only [List.cons_append, List.cons.injEq] at stream
    obtain ⟨rfl, rfl⟩ := stream
    simp only [List.length_cons] at short enough
    obtain ⟨last, read⟩ := filters_given given budget rest more (by omega) (by omega) ends current
    refine ⟨last, ?_⟩
    simp only [kind, reads_bind, reads_pure]
    exact ⟨tests, _, read, rfl, rfl⟩
  | @universal star others tests kind more =>
    simp only [List.cons_append, List.cons.injEq] at stream
    obtain ⟨rfl, rfl⟩ := stream
    simp only [List.length_cons] at short enough
    obtain ⟨last, read⟩ := filters_given given budget rest more (by omega) (by omega) ends current
    refine ⟨last, ?_⟩
    simp only [kind, reads_bind, reads_pure]
    exact ⟨tests, _, read, rfl, rfl⟩
  | @bare first others test tests single more =>
    obtain ⟨start, tail, rfl, starts⟩ := single_starts single
    simp only [List.length_cons, List.length_append] at short enough
    simp only [List.cons_append, List.append_assoc, List.cons.injEq] at stream
    obtain ⟨rfl, rfl⟩ := stream
    obtain ⟨middle, one⟩ := given _ _ (others ++ rest) single
      (by simp only [List.length_cons]; omega) current (tail ++ (others ++ rest)) rfl
    obtain ⟨last, read⟩ := filters_given given budget rest more (by omega) (by omega) ends middle
    refine ⟨last, ?_⟩
    split
    · next kind => simp [kind, startsFilter] at starts
    · next kind => simp [kind, startsFilter] at starts
    · rw [if_pos starts]
      simp only [reads_bind, reads_pure]
      exact ⟨test, _, one, tests, _, read, rfl, rfl⟩

theorem chain_after_given (given : GivesSingles simple depth) (budget : Nat)
    {left whole : Selector} {lexemes : List Lexeme} (rest : List Lexeme)
    (phrase : ChainRest left lexemes whole) (short : lexemes.length ≤ depth)
    (enough : lexemes.length < budget) (ends : EndsChain rest) :
    GivesAhead (chainAfter simple budget left) lexemes whole rest := by
  induction budget generalizing left lexemes with
  | zero => exact absurd enough (Nat.not_lt_zero _)
  | succ budget ih =>
      intro current
      simp only [chainAfter, reads_bind, combinator_reads]
      cases phrase with
      | none =>
        refine ⟨current, _, _, .inr ⟨rfl, ends.1, rfl⟩, ?_⟩
        rw [List.nil_append, next_following, ends.2, Bool.and_false]
        exact (reads_pure _ _ _ _).mpr ⟨rfl, rfl⟩
      | @marked mark next others combinator left right whole joins compound more =>
        obtain ⟨start, tail, rfl, starts⟩ := compound_starts compound
        simp only [List.length_cons, List.length_append] at short enough
        obtain ⟨middle, one⟩ := compound_given given budget (others ++ rest) compound
          (by simp only [List.length_cons]; omega) (by simp only [List.length_cons]; omega)
          (chain_rest_ends_filters more ends) start (tail ++ (others ++ rest)) rfl
        obtain ⟨last, remaining⟩ := ih more (by omega) (by omega) middle
        refine ⟨last, some combinator, ⟨mark, start :: (tail ++ (others ++ rest))⟩,
          .inl ⟨combinator, rfl, joins, by simp⟩, ?_⟩
        simp only [reads_bind, exists_reads_advance]
        exact ⟨legal_of_starts starts, right, _, one, remaining⟩
      | @spaced start next others left right whole spaced compound more =>
        obtain ⟨_, _, same, starts⟩ := compound_starts compound
        obtain ⟨rfl, rfl⟩ := List.cons.inj same
        simp only [List.length_cons, List.length_append] at short enough
        obtain ⟨middle, one⟩ := compound_given given budget (others ++ rest) compound
          (by simp only [List.length_cons]; omega) (by simp only [List.length_cons]; omega)
          (chain_rest_ends_filters more ends) start (next ++ (others ++ rest)) rfl
        obtain ⟨last, remaining⟩ := ih more (by omega) (by omega) middle
        -- The start of a compound is no combinator itself, so the white space counts.
        refine ⟨last, _, _, .inr ⟨rfl, starts_no_join starts, rfl⟩, ?_⟩
        simp only [List.cons_append, next_following, following, List.headD_cons, spaced, starts,
          List.append_assoc, Bool.and_self, if_true, reads_bind, exists_reads_advance]
        exact ⟨legal_of_starts starts, right, _, one, remaining⟩

theorem chain_given (given : GivesSingles simple depth) (budget : Nat)
    {whole : Selector} {lexemes : List Lexeme} (rest : List Lexeme)
    (phrase : Chain lexemes whole) (short : lexemes.length ≤ depth)
    (enough : lexemes.length ≤ budget) (ends : EndsChain rest) :
    GivesHere (chain simple budget) lexemes whole rest := by
  intro current ahead stream
  obtain @⟨first, others, start, _, compound, more⟩ := phrase
  have filled : first.length ≠ 0 := by
    obtain ⟨_, _, rfl, -⟩ := compound_starts compound
    simp
  simp only [List.length_append] at short enough
  rw [List.append_assoc] at stream
  obtain ⟨middle, one⟩ := compound_given given budget (others ++ rest) compound
    (by omega) (by omega) (chain_rest_ends_filters more ends) current ahead stream
  obtain ⟨last, remaining⟩ :=
    chain_after_given given budget rest more (by omega) (by omega) ends middle
  refine ⟨last, ?_⟩
  simp only [chain, reads_bind]
  exact ⟨start, _, one, remaining⟩

theorem alternatives_after_given (given : GivesSingles simple depth) (budget : Nat)
    {values : List Selector} {lexemes : List Lexeme} (rest : List Lexeme)
    (phrase : ListingRest lexemes values) (short : lexemes.length ≤ depth)
    (enough : lexemes.length < budget) (ends : EndsList rest) :
    GivesAhead (alternativesAfter simple budget) lexemes values rest := by
  induction budget generalizing values lexemes with
  | zero => exact absurd enough (Nat.not_lt_zero _)
  | succ budget ih =>
      intro current
      simp only [alternativesAfter, reads_bind, exists_reads_next]
      cases phrase with
      | none =>
        refine ⟨current, ?_⟩
        rw [if_neg (by simpa only [List.nil_append, next_following] using ends.2)]
        exact (reads_pure _ _ _ _).mpr ⟨rfl, rfl⟩
      | @more comma first others alternative values kind chain more =>
        obtain ⟨start, tail, rfl, starts⟩ := chain_starts chain
        simp only [List.length_cons, List.length_append] at short enough
        obtain ⟨middle, one⟩ := chain_given given budget (others ++ rest) chain
          (by simp only [List.length_cons]; omega) (by simp only [List.length_cons]; omega)
          (listing_rest_ends_chain more ends) start (tail ++ (others ++ rest)) rfl
        obtain ⟨last, remaining⟩ := ih more (by omega) (by omega) middle
        refine ⟨last, ?_⟩
        rw [if_pos (by simpa [Window.next] using kind)]
        simp only [List.cons_append, List.append_assoc, reads_bind, exists_reads_advance,
          reads_pure]
        exact ⟨by simp [kind], legal_of_starts starts, alternative, _, one, values, _, remaining,
          rfl, rfl⟩

theorem selector_list_given (given : GivesSingles simple depth) (budget : Nat)
    {value : Selector} {lexemes : List Lexeme} (rest : List Lexeme)
    (phrase : Listing lexemes value) (short : lexemes.length ≤ depth)
    (enough : lexemes.length ≤ budget) (ends : EndsList rest) :
    GivesHere (selectorList simple budget) lexemes value rest := by
  intro current ahead stream
  obtain @⟨first, others, alternative, values, chain, more⟩ := phrase
  have filled : first.length ≠ 0 := by
    obtain ⟨_, _, rfl, -⟩ := chain_starts chain
    simp
  simp only [List.length_append] at short enough
  rw [List.append_assoc] at stream
  obtain ⟨middle, one⟩ := chain_given given budget (others ++ rest) chain
    (by omega) (by omega) (listing_rest_ends_chain more ends) current ahead stream
  obtain ⟨last, remaining⟩ :=
    alternatives_after_given given budget rest more (by omega) (by omega) ends middle
  refine ⟨last, ?_⟩
  simp only [selectorList, reads_bind]
  refine ⟨alternative, _, one, values, _, remaining, ?_⟩
  cases values <;> exact (reads_pure _ _ _ _).mpr ⟨rfl, rfl⟩

theorem negated_starts {lexemes : List Lexeme} {item : Negatable}
    (phrase : Negated lexemes item) :
    ∃ start rest, lexemes = start :: rest ∧ startsCompound start.token.kind = true := by
  cases phrase with
  | type kind => exact ⟨_, _, rfl, by simp [kind, startsCompound]⟩
  | universal kind => exact ⟨_, _, rfl, by simp [kind, startsCompound]⟩
  | simple single _ =>
    obtain ⟨start, rest, rfl, starts⟩ := single_starts single
    exact ⟨start, rest, rfl, starts_compound starts⟩

theorem negatable_given (given : GivesSingles simple depth) {item : Negatable}
    {lexemes : List Lexeme} (rest : List Lexeme) (phrase : Negated lexemes item)
    (short : lexemes.length ≤ depth) (ends : EndsFilters rest) :
    GivesHere (negatable simple) lexemes item rest := by
  intro current ahead stream
  simp only [negatable, reads_bind, exists_reads_token]
  cases phrase with
  | @type name kind =>
    obtain ⟨rfl, rfl⟩ := List.cons.inj stream
    refine ⟨current, ?_⟩
    simp only [kind]
    rw [pure_bind, alone_reads]
    exact ⟨rfl, rfl, ends⟩
  | @universal star kind =>
    obtain ⟨rfl, rfl⟩ := List.cons.inj stream
    refine ⟨current, ?_⟩
    simp only [kind]
    rw [pure_bind, alone_reads]
    exact ⟨rfl, rfl, ends⟩
  | @simple lexemes test single allowed =>
    obtain ⟨start, tail, rfl, starts⟩ := single_starts single
    obtain ⟨last, one⟩ := given _ _ rest single short current ahead stream
    obtain ⟨rfl, rfl⟩ := List.cons.inj stream
    refine ⟨last, ?_⟩
    split
    · next kind => simp [kind, startsFilter] at starts
    · next kind => simp [kind, startsFilter] at starts
    · rw [if_pos starts, reads_bind]
      refine ⟨test, _, one, ?_⟩
      split
      · exact allowed.elim
      · exact allowed.elim
      · exact allowed.elim
      · rw [pure_bind, alone_reads]
        exact ⟨rfl, rfl, ends⟩

theorem negatables_after_given (given : GivesSingles simple depth) (budget : Nat)
    {items : List Negatable} {lexemes : List Lexeme} (rest : List Lexeme)
    (phrase : NegatedRest lexemes items) (short : lexemes.length ≤ depth)
    (enough : lexemes.length < budget) (ends : EndsList rest) :
    GivesAhead (negatablesAfter simple budget) lexemes items rest := by
  induction budget generalizing items lexemes with
  | zero => exact absurd enough (Nat.not_lt_zero _)
  | succ budget ih =>
      intro current
      simp only [negatablesAfter, reads_bind, exists_reads_next]
      cases phrase with
      | none =>
        refine ⟨current, ?_⟩
        rw [if_neg (by simpa only [List.nil_append, next_following] using ends.2)]
        exact (reads_pure _ _ _ _).mpr ⟨rfl, rfl⟩
      | @more comma first others item items kind negated more =>
        obtain ⟨start, tail, rfl, starts⟩ := negated_starts negated
        simp only [List.length_cons, List.length_append] at short enough
        obtain ⟨middle, one⟩ := negatable_given given (others ++ rest) negated
          (by simp only [List.length_cons]; omega) (negated_rest_ends_filters more ends)
          start (tail ++ (others ++ rest)) rfl
        obtain ⟨last, remaining⟩ := ih more (by omega) (by omega) middle
        refine ⟨last, ?_⟩
        rw [if_pos (by simpa [Window.next] using kind)]
        simp only [List.cons_append, List.append_assoc, reads_bind, exists_reads_advance,
          reads_pure]
        exact ⟨by simp [kind], legal_of_starts starts, item, _, one, items, _, remaining, rfl, rfl⟩

/-- From the name of a function, the reading comes to its closing parenthesis. -/
def GivesInside (reading : Reading Simple) (inside : List Lexeme) (value : Simple) : Prop :=
  ∀ current close rest, close.token.kind = .rightParen →
    Reads reading ⟨current, inside ++ close :: rest⟩ value ⟨close, rest⟩

theorem negation_given (given : GivesSingles simple depth) (budget : Nat)
    {first others : List Lexeme} {item : Negatable} {items : List Negatable}
    (negated : Negated first item) (more : NegatedRest others items)
    (short : (first ++ others).length ≤ depth) (enough : others.length < budget) :
    GivesInside (negation simple budget) (first ++ others) (Grammar.negation item items) := by
  intro current close rest closes
  obtain ⟨start, tail, rfl, starts⟩ := negated_starts negated
  simp only [List.length_append] at short
  have ends := close_ends_list closes rest
  obtain ⟨middle, one⟩ := negatable_given given (others ++ close :: rest) negated
    (by omega) (negated_rest_ends_filters more ends) start (tail ++ (others ++ close :: rest)) rfl
  obtain ⟨last, remaining⟩ :=
    negatables_after_given given budget (close :: rest) more (by omega) enough ends middle
  simp only [negation, List.cons_append, List.append_assoc, reads_bind, exists_reads_advance]
  refine ⟨legal_of_starts starts, item, _, one, items, _, remaining, ?_⟩
  rw [exists_reads_expect]
  refine ⟨⟨closes, by decide⟩, ?_⟩
  cases items <;> exact (reads_pure _ _ _ _).mpr ⟨rfl, rfl⟩

theorem listing_starts {lexemes : List Lexeme} {selector : Selector}
    (phrase : Listing lexemes selector) :
    ∃ start rest, lexemes = start :: rest ∧ startsCompound start.token.kind = true := by
  obtain ⟨chain, _⟩ := phrase
  obtain ⟨start, rest, rfl, starts⟩ := chain_starts chain
  exact ⟨start, _, rfl, starts⟩

theorem relation_given (given : GivesSingles simple depth) (budget : Nat)
    {lead inside : List Lexeme} {combinator : Option Combinator} {argument : Selector}
    (leads : Lead lead combinator) (listing : Listing inside argument)
    (short : inside.length ≤ depth) (enough : inside.length ≤ budget) :
    GivesInside (relation simple budget) (lead ++ inside) (.has combinator argument) := by
  intro current close rest closes
  obtain ⟨start, tail, rfl, starts⟩ := listing_starts listing
  obtain ⟨last, list⟩ := selector_list_given given budget (close :: rest) listing short enough
    (close_ends_list closes rest) start (tail ++ close :: rest) rfl
  cases leads with
  | none =>
    simp only [relation, List.nil_append, List.cons_append, reads_bind, exists_reads_advance,
      exists_reads_token, starts_no_join starts, Option.isSome_none, Bool.false_eq_true, if_false]
    refine ⟨legal_of_starts starts, argument, _, list, ?_⟩
    simp only [exists_reads_expect, reads_pure, and_self, and_true]
    exact ⟨closes, by decide⟩
  | @some mark combinator joins =>
    have known := (joins_iff _ _).mp joins
    simp only [relation, List.nil_append, List.cons_append, reads_bind, exists_reads_advance,
      exists_reads_token, known, Option.isSome_some, if_true]
    refine ⟨joins_legal joins, legal_of_starts starts, argument, _, list, ?_⟩
    simp only [exists_reads_expect, reads_pure, and_self, and_true]
    exact ⟨closes, by decide⟩

theorem pseudo_class_given (budget : Nat) {name : String} {inside lexemes : List Lexeme}
    {value : Simple} (rest : List Lexeme) (call : Call name inside lexemes)
    (given : GivesInside (function simple name budget) inside value) :
    GivesHere (pseudoClass simple budget) lexemes value rest := by
  intro current ahead stream
  obtain @⟨mark, named, close, opens, kind, near, closes⟩ := call
  simp only [List.cons_append, List.append_assoc, List.nil_append, List.cons.injEq] at stream
  obtain ⟨rfl, rfl⟩ := stream
  refine ⟨close, ?_⟩
  simp only [pseudoClass, reads_bind, exists_reads_next]
  rw [if_neg (by simp [Window.next, near])]
  simp only [Window.next, List.headD_cons, kind, reads_bind, exists_reads_advance]
  exact ⟨by decide, given named close rest closes⟩

theorem function_given_argument (budget : Nat) {name : String} {inside : List Lexeme}
    {value : Argument} (notNot : Text.sameName name "not" = false)
    (notHas : Text.sameName name "has" = false) (phrase : ArgumentOf inside value)
    (enough : inside.length < budget) :
    GivesInside (function simple name budget) inside (.functional name value) := by
  intro current close rest closes
  unfold function
  rw [if_neg (by simp [notNot]), if_neg (by simp [notHas])]
  simp only [reads_bind, reads_pure]
  exact ⟨value, _, argument_given name budget inside rest close value phrase closes enough current,
    rfl, rfl⟩

theorem function_negation {name : String} (isNot : Text.sameName name "not" = true)
    (budget : Nat) : function simple name budget = negation simple budget := by
  unfold function
  rw [if_pos isNot]

/-- No name is both. -/
theorem function_relation {name : String} (isHas : Text.sameName name "has" = true)
    (budget : Nat) : function simple name budget = relation simple budget := by
  have notNot : ¬ Text.sameName name "not" = true := by
    rw [Text.same_name_iff] at isHas ⊢
    rw [isHas]
    decide +kernel
  unfold function
  rw [if_neg notNot, if_pos isHas]

end

theorem call_length {name : String} {inside lexemes : List Lexeme}
    (call : Call name inside lexemes) : lexemes.length = inside.length + 3 := by
  obtain ⟨_, _, _, _⟩ := call
  simp

theorem call_given (depth : Nat) {name : String} {inside lexemes : List Lexeme}
    {value : Simple} (rest : List Lexeme) (call : Call name inside lexemes)
    (given : GivesInside (function (simple depth) name depth) inside value) :
    GivesHere (simple (depth + 1)) lexemes value rest := by
  intro current ahead stream
  obtain ⟨last, one⟩ := pseudo_class_given depth rest call given current ahead stream
  obtain ⟨kind, _, _, _⟩ := call
  refine ⟨last, ?_⟩
  simp only [simple, reads_bind, exists_reads_token]
  simp only [(List.cons.inj stream).1, kind]
  rw [← (List.cons.inj stream).1]
  exact one

theorem hash_given (depth : Nat) {name : Lexeme} (rest : List Lexeme)
    (kind : name.token.kind = .hash) :
    GivesHere (simple (depth + 1)) [name] (.hash name.token.literal) rest := by
  intro current ahead stream
  obtain ⟨rfl, rfl⟩ := List.cons.inj stream
  refine ⟨current, ?_⟩
  simp only [simple, kind, reads_bind, exists_reads_token]
  exact (reads_pure _ _ _ _).mpr ⟨rfl, rfl⟩

theorem cls_given (depth : Nat) {mark name : Lexeme} (rest : List Lexeme)
    (kind : mark.token.kind = .dot) (named : name.token.kind = .ident)
    (near : name.spaced = false) :
    GivesHere (simple (depth + 1)) [mark, name] (.cls name.token.literal) rest := by
  intro current ahead stream
  obtain ⟨rfl, rfl⟩ := List.cons.inj stream
  refine ⟨name, ?_⟩
  simp only [simple, kind, reads_bind, reads_expect_adjacent, exists_reads_token, reads_pure]
  exact ⟨(), ⟨name, rest⟩, ⟨rfl, named, by decide, near⟩, rfl, rfl⟩

theorem pseudo_element_given (depth : Nat) {mark name : Lexeme} (rest : List Lexeme)
    (kind : mark.token.kind = .doubleColon) (named : name.token.kind = .ident)
    (near : name.spaced = false) :
    GivesHere (simple (depth + 1)) [mark, name] (.pseudo name.token.literal .pseudoElement)
      rest := by
  intro current ahead stream
  obtain ⟨rfl, rfl⟩ := List.cons.inj stream
  refine ⟨name, ?_⟩
  simp only [simple, kind, reads_bind, reads_expect_adjacent, exists_reads_token, reads_pure]
  exact ⟨(), ⟨name, rest⟩, ⟨rfl, named, by decide, near⟩, rfl, rfl⟩

theorem pseudo_class_name_given (depth : Nat) {mark name : Lexeme} (rest : List Lexeme)
    (kind : mark.token.kind = .colon) (named : name.token.kind = .ident)
    (near : name.spaced = false) :
    GivesHere (simple (depth + 1)) [mark, name] (.pseudo name.token.literal .pseudoClass)
      rest := by
  intro current ahead stream
  simp only [List.cons_append, List.nil_append, List.cons.injEq] at stream
  obtain ⟨rfl, rfl⟩ := stream
  refine ⟨name, ?_⟩
  simp only [simple, kind, pseudoClass, reads_bind, exists_reads_token, exists_reads_next]
  rw [if_neg (by simp [Window.next, near])]
  simp only [Window.next, List.headD_cons, named, reads_bind, exists_reads_advance, reads_pure,
    and_self, and_true]
  decide

theorem bracketed_given (depth : Nat) {lexemes : List Lexeme} {test : AttributeTest}
    (rest : List Lexeme) (phrase : Attribute lexemes test) :
    GivesHere (simple (depth + 1)) lexemes (.attribute test) rest := by
  intro current ahead stream
  obtain ⟨last, one⟩ := attribute_given rest phrase current ahead stream
  have kind : current.token.kind = .leftBracket := by
    cases phrase with
    | present opens _ _ => rw [(List.cons.inj stream).1, opens]
    | compared opens _ _ _ _ => rw [(List.cons.inj stream).1, opens]
  refine ⟨last, ?_⟩
  simp only [simple, kind, reads_bind, exists_reads_token, reads_pure]
  exact ⟨test, _, one, rfl, rfl⟩

/-- Each level down is entered by at least three tokens, so the length bounds the depth. -/
theorem simple_given (depth : Nat) : GivesSingles (simple depth) depth := by
  induction depth with
  | zero =>
    intro lexemes test rest phrase short
    obtain ⟨_, _, rfl, -⟩ := single_starts phrase
    simp at short
  | succ depth ih =>
      intro lexemes test rest phrase short
      cases phrase with
      | hash kind => exact hash_given depth rest kind
      | cls kind named near => exact cls_given depth rest kind named near
      | pseudoElement kind named near => exact pseudo_element_given depth rest kind named near
      | pseudoClass kind named near => exact pseudo_class_name_given depth rest kind named near
      | bracketed phrase => exact bracketed_given depth rest phrase
      | functional call notNot notHas phrase =>
        rw [call_length call] at short
        exact call_given depth rest call
          (function_given_argument depth notNot notHas phrase (by omega))
      | negation call isNot negated more =>
        rw [call_length call, List.length_append] at short
        refine call_given depth rest call ?_
        rw [function_negation isNot]
        exact negation_given ih depth negated more (by rw [List.length_append]; omega) (by omega)
      | has call isHas leads listing =>
        rw [call_length call, List.length_append] at short
        refine call_given depth rest call ?_
        rw [function_relation isHas]
        exact relation_given ih depth leads listing (by omega) (by omega)

end TreeSelect.Reading
