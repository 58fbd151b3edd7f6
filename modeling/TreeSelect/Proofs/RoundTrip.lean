import TreeSelect.Proofs.Printing

/-!
Printing and parsing are inverse on what is parsed. The spacing of a text, the quotes of its
values, the letter case of `:not` and `:has` and the spelling of numbers are lost in printing;
the tree is not. What can be parsed at all is told by the shape of the tree alone. Trees of
other shapes have a text too; it is parsed as another tree or not at all.
-/

namespace TreeSelect

open Grammar Token

/-! Compounds, chains and lists. -/

/-- What a selector is derived as: chains are lists of one, and compounds chains of one. -/
structure Phrase (lexemes : List Lexeme) (selector : Selector) : Prop where
  listing : Listing lexemes selector
  chain : selector.isGroup = false → Chain lexemes selector
  compound : selector.isCompound = true → Compound lexemes selector

theorem listing_of_chain {lexemes : List Lexeme} {selector : Selector}
    (chain : Chain lexemes selector) : Listing lexemes selector := by
  have listing := Listing.mk chain .none
  rwa [List.append_nil] at listing

theorem chain_of_compound {lexemes : List Lexeme} {selector : Selector}
    (compound : Compound lexemes selector) : Chain lexemes selector := by
  have chain := Chain.mk compound .none
  rwa [List.append_nil] at chain

theorem Phrase.of_compound {lexemes : List Lexeme} {base : Option Base} {filters : List Simple}
    (compound : Compound lexemes (.compound base filters)) :
    Phrase lexemes (.compound base filters) :=
  have chain := chain_of_compound compound
  ⟨listing_of_chain chain, fun _ => chain, fun _ => compound⟩

theorem Phrase.of_joined {lexemes : List Lexeme} {left right : Selector}
    {combinator : Combinator} (chain : Chain lexemes (.joined left combinator right)) :
    Phrase lexemes (.joined left combinator right) :=
  ⟨listing_of_chain chain, fun _ => chain, fun compound => by cases compound⟩

theorem Phrase.of_group {lexemes : List Lexeme} {selectors : List Selector}
    (listing : Listing lexemes (.group selectors)) : Phrase lexemes (.group selectors) :=
  ⟨listing, fun other => (by cases other), fun other => (by cases other)⟩

/-- A chain goes on where another has ended. -/
theorem chain_rest_trans {start middle final : Selector} {front back : List Lexeme} :
    ChainRest start front middle → ChainRest middle back final →
      ChainRest start (front ++ back) final
  | .none, after => after
  | .marked joins next others, after => by
      rw [List.cons_append, List.append_assoc]
      exact .marked joins next (chain_rest_trans others after)
  | .spaced space next others, after => by
      rw [List.cons_append, List.append_assoc]
      exact .spaced space next (chain_rest_trans others after)

theorem chain_append {front back : List Lexeme} {left whole : Selector}
    (chain : Chain front left) (after : ChainRest left back whole) :
    Chain (front ++ back) whole := by
  cases chain with
  | mk first others =>
      rw [List.append_assoc]
      exact .mk first (chain_rest_trans others after)

theorem filters_apart (tests : List Simple) {rest : List Char} (apart : Apart rest) :
    Apart ((filtersText tests).toList ++ rest) := by
  have opens : ∀ test : Simple, ∀ tail, Apart (test.text.toList ++ tail) := by
    intro test tail
    cases test with
    | pseudo name kind =>
        cases kind <;> simpa [Simple.text, PseudoKind.mark] using apart_cons (by decide)
    | _ => simpa [Simple.text, AttributeTest.text] using apart_cons (by decide)
  cases tests with
  | nil => exact apart
  | cons first others =>
      rw [filtersText, String.toList_append, List.append_assoc]
      exact opens first _

/-- Behind a base there is no white space before filters; without a base there may be. -/
structure FiltersPrint (tests : List Simple) : Prop where
  behind : ∀ rest, Apart rest → ∃ lexemes,
    Scans ((filtersText tests).toList ++ rest) lexemes rest ∧ Filters lexemes tests
  alone : tests ≠ [] → Prints (filtersText tests).toList (Compound · (.compound none tests))

theorem filters_none : FiltersPrint [] :=
  ⟨fun _ _ => ⟨[], .done, .none⟩, fun filled => absurd rfl filled⟩

theorem filters_more {first : Simple} {tests : List Simple}
    (here : Prints first.text.toList (Single · first)) (others : FiltersPrint tests) :
    FiltersPrint (first :: tests) := by
  have either : ∀ rest, Apart rest → ∀ spaced, ∃ token front back,
      Scans (gap spaced ++ ((filtersText (first :: tests)).toList ++ rest))
        (⟨spaced, token⟩ :: (front ++ back)) rest ∧
      Single (⟨spaced, token⟩ :: front) first ∧ Filters back tests := by
    intro rest apart spaced
    obtain ⟨back, scan, filters⟩ := others.behind rest apart
    obtain ⟨token, front, scan', single⟩ := here _ (filters_apart tests apart) spaced
    refine ⟨token, front, back, ?_, single, filters⟩
    simpa [filtersText] using scan'.append scan
  constructor
  · intro rest apart
    obtain ⟨token, front, back, scan, single, filters⟩ := either rest apart false
    exact ⟨_, scan, .more rfl single filters⟩
  · intro _ rest apart spaced
    obtain ⟨token, front, back, scan, single, filters⟩ := either rest apart spaced
    exact ⟨token, front ++ back, scan, .bare single filters⟩

theorem compound_prints {base : Option Base} {filters : List Simple}
    (shaped : (Selector.compound base filters).Shaped) (printed : FiltersPrint filters) :
    Prints (Selector.compound base filters).text.toList
      (Phrase · (.compound base filters)) := by
  cases base with
  | none =>
      have alone := printed.alone (shaped.1.resolve_left (· rfl))
      simpa [Selector.text] using alone.mono Phrase.of_compound
  | some base =>
      intro rest apart spaced
      obtain ⟨lexemes, scan, derived⟩ := printed.behind rest apart
      have behind := filters_apart filters apart
      cases base with
      | type name =>
          have named : isIdentifier name = true := shaped.2.1 _ rfl
          have whole := Scans.token (spelt_ident named behind.ends) rfl scan spaced
          have phrase : Compound (⟨spaced, .ident, name⟩ :: lexemes)
              (.compound (some (.type name)) filters) := .type rfl derived
          refine ⟨_, _, ?_, .of_compound phrase⟩
          simpa [Selector.text, Base.text] using whole
      | universal =>
          have whole := Scans.token (spelt_star behind) rfl scan spaced
          have phrase : Compound (⟨spaced, .asterisk, "*"⟩ :: lexemes)
              (.compound (some .universal) filters) := .universal rfl derived
          refine ⟨_, _, ?_, .of_compound phrase⟩
          simpa [Selector.text, Base.text] using whole

theorem joint_apart (combinator : Combinator) (rest : List Char) :
    Apart (combinator.joint.toList ++ rest) := by
  cases combinator <;> exact apart_cons (by decide)

/-- The joint is a mark between spaces, or the space alone. -/
theorem joint_prints (left : Selector) {right : Selector} (combinator : Combinator)
    {text rest : List Char} {token : Token} {next : List Lexeme}
    (scan : Scans (gap true ++ (text ++ rest)) (⟨true, token⟩ :: next) rest)
    (compound : Compound (⟨true, token⟩ :: next) right) :
    ∃ back, Scans (combinator.joint.toList ++ (text ++ rest)) back rest ∧
      ChainRest left back (.joined left combinator right) := by
  by_cases descendant : combinator = .descendant
  · obtain rfl := descendant
    -- The joint is no token here, but the white space before the compound.
    have derived := @ChainRest.spaced ⟨true, token⟩ next [] left right _ rfl compound .none
    rw [List.append_nil] at derived
    exact ⟨_, scan, derived⟩
  · obtain ⟨kind, joins, spelt⟩ := combinator_spelt descendant (text ++ rest)
    have whole := Scans.token spelt (joins_more joins) scan true
    have derived := @ChainRest.marked ⟨true, kind, combinator.symbol⟩ _ [] _ left right _
      joins compound .none
    rw [List.append_nil] at derived
    refine ⟨_, ?_, derived⟩
    cases combinator with
    | descendant => exact absurd rfl descendant
    | child => exact whole
    | nextSibling => exact whole
    | subsequentSibling => exact whole

theorem joined_prints {left right : Selector} {combinator : Combinator}
    (before : Prints left.text.toList (Chain · left))
    (after : Prints right.text.toList (Compound · right)) :
    Prints (Selector.joined left combinator right).text.toList
      (Phrase · (.joined left combinator right)) := by
  intro rest apart spaced
  obtain ⟨token, next, scan, compound⟩ := after rest apart true
  obtain ⟨back, scan', derived⟩ := joint_prints left combinator scan compound
  obtain ⟨token', front, scan, chain⟩ := before _ (joint_apart combinator _) spaced
  refine ⟨token', front ++ back, ?_, .of_joined (chain_append chain derived)⟩
  simpa [Selector.text] using scan.append scan'

/-- Alternatives behind one another, the first of them without a comma. -/
def Alternatives : List Selector → List Lexeme → Prop
  | [], _ => False
  | first :: rest, lexemes =>
      ∃ front back, lexemes = front ++ back ∧ Chain front first ∧ ListingRest back rest

/-- Two phrases with a comma and a space between them. -/
theorem comma_prints {first second : List Char} {here there : List Lexeme → Prop}
    (before : Prints first here) (after : Prints second there) :
    Prints (first ++ ',' :: ' ' :: second) fun lexemes => ∃ front comma back,
      lexemes = front ++ comma :: back ∧ comma.token.kind = .comma ∧ here front ∧ there back := by
  intro rest apart spaced
  obtain ⟨token, back, scan, behind⟩ := after rest apart true
  have comma := Scans.unspaced (@spelt_punctuation ',' .comma rfl _) rfl scan
  obtain ⟨token', front, scan', ahead⟩ := before _ (@apart_cons ',' _ (by decide)) spaced
  refine ⟨token', front ++ ⟨false, .comma, ','.toString⟩ :: ⟨true, token⟩ :: back, ?_,
    _, _, _, rfl, rfl, ahead, behind⟩
  simpa [gap] using scan'.append comma

theorem alternatives_one {selector : Selector} (printed : Prints selector.text.toList
    (Chain · selector)) : Prints (alternativesText [selector]).toList (Alternatives [selector]) :=
  printed.mono fun chain => ⟨_, [], (List.append_nil _).symm, chain, .none⟩

theorem alternatives_more {first second : Selector} {rest : List Selector}
    (here : Prints first.text.toList (Chain · first))
    (there : Prints (alternativesText (second :: rest)).toList (Alternatives (second :: rest))) :
    Prints (alternativesText (first :: second :: rest)).toList
      (Alternatives (first :: second :: rest)) := by
  have text : (alternativesText (first :: second :: rest)).toList =
      first.text.toList ++ ',' :: ' ' :: (alternativesText (second :: rest)).toList := by
    simp [alternativesText]
  rw [text]
  apply (comma_prints here there).mono
  rintro lexemes ⟨front, comma, _, same, kind, chain, next, others, rfl, chain', listed⟩
  exact ⟨front, _, same, chain, .more kind chain' listed⟩

theorem items_one {item : Negatable} (printed : Prints item.text.toList (Negated · item)) :
    Prints (negatablesText [item]).toList (Items [item]) :=
  printed.mono fun negated => ⟨_, [], (List.append_nil _).symm, negated, .none⟩

theorem items_more {first second : Negatable} {rest : List Negatable}
    (here : Prints first.text.toList (Negated · first))
    (there : Prints (negatablesText (second :: rest)).toList (Items (second :: rest))) :
    Prints (negatablesText (first :: second :: rest)).toList (Items (first :: second :: rest)) := by
  have text : (negatablesText (first :: second :: rest)).toList =
      first.text.toList ++ ',' :: ' ' :: (negatablesText (second :: rest)).toList := by
    simp [negatablesText]
  rw [text]
  apply (comma_prints here there).mono
  rintro lexemes ⟨front, comma, _, same, kind, negated, next, others, rfl, negated', listed⟩
  exact ⟨front, _, same, negated, .more kind negated' listed⟩

theorem name_item_prints {name : String} (identifier : isIdentifier name = true) :
    Prints (Negatable.type name).text.toList (Negated · (.type name)) := by
  intro rest apart spaced
  have phrase : Negated [⟨spaced, .ident, name⟩] (.type name) := .type rfl
  exact ⟨_, _, (spelt_ident identifier apart.ends).scans rfl spaced, phrase⟩

theorem star_item_prints : Prints Negatable.universal.text.toList (Negated · .universal) := by
  intro rest apart spaced
  have phrase : Negated [⟨spaced, .asterisk, "*"⟩] .universal := .universal rfl
  exact ⟨_, _, (spelt_star apart).scans rfl spaced, phrase⟩

theorem group_prints {selectors : List Selector} (several : 2 ≤ selectors.length)
    (printed : Prints (alternativesText selectors).toList (Alternatives selectors)) :
    Prints (Selector.group selectors).text.toList (Phrase · (.group selectors)) := by
  match selectors, several with
  | first :: second :: rest, _ =>
      intro final apart spaced
      obtain ⟨token, others, scan, front, back, same, chain, listed⟩ := printed final apart spaced
      have listing : Listing (⟨spaced, token⟩ :: others) (.group (first :: second :: rest)) :=
        same ▸ Listing.mk chain listed
      exact ⟨token, others, scan, .of_group listing⟩

theorem not_one_prints {item : Negatable} (printed : Prints item.text.toList (Negated · item)) :
    Prints (Simple.notOne item).text.toList (Single · (.notOne item)) := by
  intro rest _ spaced
  obtain ⟨token, others, scan, single⟩ := @negation_prints _ _ _ (items_one printed) rest spaced
  refine ⟨token, others, ?_, single⟩
  simpa [Simple.text, negatablesText] using scan

theorem not_any_prints {items : List Negatable} (several : 2 ≤ items.length)
    (printed : Prints (negatablesText items).toList (Items items)) :
    Prints (Simple.notAny items).text.toList (Single · (.notAny items)) := by
  match items, several with
  | first :: second :: rest, _ =>
      intro final _ spaced
      obtain ⟨token, others, scan, single⟩ := @negation_prints _ _ _ printed final spaced
      refine ⟨token, others, ?_, single⟩
      simpa [Simple.text] using scan

theorem filled_of_several {α : Type} {list : List α} (several : 2 ≤ list.length) : list ≠ [] := by
  rintro rfl
  simp at several

mutual
theorem selector_prints : (selector : Selector) → selector.Shaped →
    Prints selector.text.toList (Phrase · selector)
  | .group selectors, shaped =>
      group_prints shaped.1 (alternatives_print selectors (filled_of_several shaped.1) shaped.2)
  | .joined left _ right, shaped =>
      joined_prints
        ((selector_prints left shaped.1.2).mono fun phrase => phrase.chain shaped.1.1)
        ((selector_prints right shaped.2.2).mono fun phrase => phrase.compound shaped.2.1)
  | .compound _ filters, shaped =>
      compound_prints shaped (filters_print filters shaped.2.2)

theorem alternatives_print : (selectors : List Selector) → selectors ≠ [] →
    ShapedAlternatives selectors →
      Prints (alternativesText selectors).toList (Alternatives selectors)
  | [], filled, _ => absurd rfl filled
  | [last], _, shaped =>
      alternatives_one
        ((selector_prints last shaped.1.2).mono fun phrase => phrase.chain shaped.1.1)
  | first :: second :: rest, _, shaped =>
      alternatives_more
        ((selector_prints first shaped.1.2).mono fun phrase => phrase.chain shaped.1.1)
        (alternatives_print (second :: rest) (by simp) shaped.2)

theorem simple_prints : (test : Simple) → test.Shaped → Prints test.text.toList (Single · test)
  | .hash _, shaped => hash_prints shaped
  | .cls _, shaped => cls_prints shaped
  | .attribute _, shaped => bracketed_prints shaped
  | .pseudo _ kind, shaped => pseudo_prints kind shaped
  | .functional _ _, shaped => functional_prints shaped
  | .notOne item, shaped => not_one_prints (item_prints item shaped)
  | .notAny items, shaped =>
      not_any_prints shaped.1 (items_print items (filled_of_several shaped.1) shaped.2)
  | .has _ argument, shaped =>
      has_prints shaped.1 ((selector_prints argument shaped.2).mono Phrase.listing)

theorem item_prints : (item : Negatable) → item.Shaped →
    Prints item.text.toList (Negated · item)
  | .type _, shaped => name_item_prints shaped
  | .universal, _ => star_item_prints
  | .simple test, shaped =>
      (simple_prints test shaped.2).mono fun single => .simple single shaped.1

theorem items_print : (items : List Negatable) → items ≠ [] → ShapedItems items →
    Prints (negatablesText items).toList (Items items)
  | [], filled, _ => absurd rfl filled
  | [last], _, shaped => items_one (item_prints last shaped.1)
  | first :: second :: rest, _, shaped =>
      items_more (item_prints first shaped.1) (items_print (second :: rest) (by simp) shaped.2)

theorem filters_print : (tests : List Simple) → ShapedFilters tests → FiltersPrint tests
  | [], _ => filters_none
  | first :: others, shaped =>
      filters_more (simple_prints first shaped.1) (filters_print others shaped.2)
end

/-! Whole texts. -/

theorem whole_text {selector : Selector} (shaped : selector.Shaped) :
    Whole selector.text selector := by
  obtain ⟨token, others, scan, phrase⟩ :=
    selector_prints selector shaped [] True.intro false
  have ends : lexemes [] = [Window.endLexeme] := by
    rw [lexemes]
    rfl
  have same := scan.lexemes_eq
  rw [List.append_nil, ends] at same
  exact ⟨_, Window.endLexeme, same, rfl, phrase.listing⟩

/-- Every shaped selector is parsed from its canonical text. -/
theorem parse_text {selector : Selector} (shaped : selector.Shaped) :
    parse selector.text = .ok selector :=
  (parse_ok_iff selector.text selector).mpr (whole_text shaped)

/-- The trees that texts are parsed as are the shaped ones, all of them and no others. -/
theorem parsed_iff_shaped (selector : Selector) :
    (∃ text, parse text = .ok selector) ↔ selector.Shaped := by
  constructor
  · rintro ⟨text, parsed⟩
    exact whole_shaped ((parse_ok_iff text selector).mp parsed)
  · intro shaped
    exact ⟨selector.text, parse_text shaped⟩

/-- Whatever was parsed is parsed again from its canonical text. -/
theorem canonical_text_parses_back {text : String} {selector : Selector}
    (parsed : parse text = .ok selector) : parse selector.text = .ok selector :=
  parse_text (whole_shaped ((parse_ok_iff text selector).mp parsed))

/-- A leading zero, the blanks around signs and the single quotes do not come back. -/
theorem respelled_text_parses_back :
    ∃ selector, parse "ul >li:nth-child( -n + 003 ) ,:lang('de')" = .ok selector ∧
      selector.text = "ul > li:nth-child(-n+3), :lang(\"de\")" ∧
      parse selector.text = .ok selector := by
  have parsed : parse "ul >li:nth-child( -n + 003 ) ,:lang('de')" =
      .ok (.group [
        .joined (.compound (some (.type "ul")) []) .child
          (.compound (some (.type "li"))
            [.functional "nth-child" (.dimension ⟨1, .minus, 3, .plus⟩)]),
        .compound none [.functional "lang" (.string "de")]]) :=
    ok_of_to_option (by decide +kernel)
  exact ⟨_, parsed, by decide +kernel, canonical_text_parses_back parsed⟩

end TreeSelect
