import TreeSelect.Proofs.RoundTrip
import TreeSelect.Proofs.WhiteSpace

/-!
The tree of two texts put together. A comma puts the alternatives of the second text behind
those of the first; a combinator joins the last alternative of the first text to the first of
the second, and takes up the whole chain of the second while everything stays nested to the
left.
-/

namespace TreeSelect

namespace Selector

/-- A selector that is no group is its only alternative. -/
def alternatives : Selector → List Selector
  | .group several => several
  | only => [only]

theorem alternatives_alone {selector : Selector} (alone : selector.isGroup = false) :
    selector.alternatives = [selector] := by
  cases selector with
  | group several => cases alone
  | _ => rfl

def ofAlternatives : List Selector → Selector
  | [only] => only
  | several => .group several

theorem of_alternatives_append {here there : List Selector} (filled : here ≠ [])
    (filled' : there ≠ []) : ofAlternatives (here ++ there) = .group (here ++ there) := by
  obtain ⟨first, here, rfl⟩ := List.exists_cons_of_ne_nil filled
  obtain ⟨second, there, rfl⟩ := List.exists_cons_of_ne_nil filled'
  cases here <;> rfl

/-- The chain as a whole behind `left`, nested to the left again. -/
def join (left : Selector) (combinator : Combinator) : Selector → Selector
  | .joined first inner last => .joined (join left combinator first) inner last
  | other => .joined left combinator other

end Selector

/-- The ways to write a combinator between two compounds. -/
def Combinator.Written : Combinator → String → Prop
  | .descendant, text => text ≠ "" ∧ Text.Blank text.toList
  | combinator, text => ∃ before after : String, Text.Blank before.toList ∧
      Text.Blank after.toList ∧ text = before ++ combinator.symbol ++ after

namespace Grammar

/-! Chains behind chains. -/

theorem join_compound {xs : List Lexeme} {selector : Selector} (phrase : Compound xs selector)
    (left : Selector) (combinator : Combinator) :
    left.join combinator selector = .joined left combinator selector := by
  cases phrase <;> rfl

theorem chain_rest_join {start whole left joined : Selector} {xs : List Lexeme}
    {combinator : Combinator} : ChainRest start xs whole → left.join combinator start = joined →
      ChainRest joined xs (left.join combinator whole)
  | .none, rfl => .none
  | .marked joins next more, rfl => .marked joins next (chain_rest_join more rfl)
  | .spaced space next more, rfl => .spaced space next (chain_rest_join more rfl)

theorem chain_joined {mark : Lexeme} {combinator : Combinator} {xs ys : List Lexeme}
    {left right : Selector} (joins : Joins mark.token.kind combinator) (here : Chain xs left)
    (there : Chain ys right) : Chain (xs ++ mark :: ys) (left.join combinator right) := by
  obtain ⟨compound, more⟩ := there
  have attached := chain_rest_join more (join_compound compound left combinator)
  exact chain_append here (.marked joins compound attached)

theorem chain_descends {xs ys : List Lexeme} {left right : Selector}
    (space : ∀ start ∈ ys.head?, start.spaced = true) (here : Chain xs left)
    (there : Chain ys right) : Chain (xs ++ ys) (left.join .descendant right) := by
  obtain ⟨compound, more⟩ := there
  obtain ⟨start, rest, rfl, -⟩ := Reading.compound_starts compound
  have attached := chain_rest_join more (join_compound compound left .descendant)
  exact chain_append here (.spaced (space start rfl) compound attached)

theorem chain_rest_no_group {start whole : Selector} {xs : List Lexeme} :
    ChainRest start xs whole → start.isGroup = false → whole.isGroup = false
  | .none, alone => alone
  | .marked _ _ more, _ => chain_rest_no_group more rfl
  | .spaced _ _ more, _ => chain_rest_no_group more rfl

theorem chain_no_group {xs : List Lexeme} {selector : Selector} (phrase : Chain xs selector) :
    selector.isGroup = false := by
  obtain ⟨compound, more⟩ := phrase
  exact chain_rest_no_group more (by cases compound <;> rfl)

/-! Lists behind lists. With a comma in front a list is like what stands behind its first
chain, so that all chains of a list are treated the same. -/

theorem alternatives_eq {xs : List Lexeme} {first : Selector} (chain : Chain xs first)
    (rest : List Selector) : (alternatives first rest).alternatives = first :: rest := by
  cases rest with
  | nil => exact Selector.alternatives_alone (chain_no_group chain)
  | cons second rest => rfl

theorem listing_rest_of {comma : Lexeme} (kind : comma.token.kind = .comma) {xs : List Lexeme}
    {selector : Selector} (phrase : Listing xs selector) :
    ListingRest (comma :: xs) selector.alternatives := by
  obtain ⟨chain, more⟩ := phrase
  rw [alternatives_eq chain]
  exact .more kind chain more

theorem listing_of_rest {comma : Lexeme} {xs : List Lexeme} {selectors : List Selector}
    (phrase : ListingRest (comma :: xs) selectors) :
    Listing xs (Selector.ofAlternatives selectors) := by
  obtain _ | ⟨-, chain, more⟩ := phrase
  have whole := Listing.mk chain more
  cases more <;> exact whole

theorem listing_rest_append {xs ys : List Lexeme} {here there : List Selector}
    (front : ListingRest xs here) (back : ListingRest ys there) :
    ListingRest (xs ++ ys) (here ++ there) := by
  cases front with
  | none => exact back
  | more kind chain more =>
      rw [List.cons_append, List.append_assoc]
      exact .more kind chain (listing_rest_append more back)

/-- What goes on with the last chain goes on with the list. -/
theorem listing_rest_extend {tail : List Lexeme} {last changed : Selector}
    (longer : ∀ zs, Chain zs last → Chain (zs ++ tail) changed) (front : List Selector)
    {xs : List Lexeme} (phrase : ListingRest xs (front ++ [last])) :
    ListingRest (xs ++ tail) (front ++ [changed]) := by
  induction front generalizing xs with
  | nil =>
      obtain _ | ⟨kind, chain, _ | _⟩ := phrase
      have whole := ListingRest.more kind (longer _ chain) .none
      simpa using whole
  | cons first front ih =>
      obtain _ | ⟨kind, chain, more⟩ := phrase
      rw [List.cons_append, List.append_assoc]
      exact .more kind chain (ih more)

theorem alternatives_filled {xs : List Lexeme} {selector : Selector}
    (phrase : Listing xs selector) : selector.alternatives ≠ [] := by
  obtain ⟨chain, -⟩ := phrase
  rw [alternatives_eq chain]
  exact List.cons_ne_nil _ _

section
variable {xs ys : List Lexeme} {left right : Selector}

theorem listing_comma {comma : Lexeme} (kind : comma.token.kind = .comma) (here : Listing xs left)
    (there : Listing ys right) :
    Listing (xs ++ comma :: ys) (.group (left.alternatives ++ right.alternatives)) := by
  have both := listing_rest_append (listing_rest_of kind here) (listing_rest_of kind there)
  rw [← Selector.of_alternatives_append (alternatives_filled here) (alternatives_filled there)]
  exact listing_of_rest both

/-- The last chain of one list and the first of another made one chain. -/
theorem listing_joined {glue : List Lexeme} {front back : List Selector}
    {last next changed : Selector} (here : Listing xs left) (there : Listing ys right)
    (ending : left.alternatives = front ++ [last]) (opening : right.alternatives = next :: back)
    (joined : ∀ zs first others, ys = first ++ others → Chain zs last → Chain first next →
      Chain (zs ++ (glue ++ first)) changed) :
    Listing (xs ++ (glue ++ ys)) (Selector.ofAlternatives (front ++ changed :: back)) := by
  -- Behind a comma the first chain of a list is one of the others, so one lemma serves both lists.
  have comma : (Lexeme.mk false ⟨.comma, ","⟩).token.kind = .comma := rfl
  have first := listing_rest_of comma here
  have second := listing_rest_of comma there
  rw [ending] at first
  rw [opening] at second
  obtain _ | ⟨-, chain, more⟩ := second
  have longer := listing_rest_extend (fun zs before => joined zs _ _ rfl before chain) front first
  have whole := listing_of_rest (listing_rest_append longer more)
  simpa using whole

end

end Grammar

/-! Texts behind texts. -/

theorem led_spaced (xs : List Lexeme) : ∀ start ∈ (led true xs).head?, start.spaced = true := by
  cases xs <;> simp [led]

theorem lexemes_marked {front before after rest : List Char} {mark : Char} {kind : TokenKind}
    (closed : Text.openQuote front = none) (blank : Text.Blank before)
    (blank' : Text.Blank after) (clear : Token.Clear [mark])
    (spelt : Token.Spelt [mark] ⟨kind, mark.toString⟩ (after ++ rest)) (more : kind ≠ .eof) :
    lexemes (front ++ (before ++ ([mark] ++ (after ++ rest)))) =
      meet (lexemes front) (⟨!before.isEmpty, ⟨kind, mark.toString⟩⟩ ::
        led (!after.isEmpty) (lexemes rest)) := by
  have free : Token.Clear (before ++ ([mark] ++ (after ++ rest))) := by
    cases before with
    | nil => exact Token.clear_cons (clear mark rfl)
    | cons c before => exact Token.clear_blank blank (by simp) _
  rw [lexemes_append closed free, lexemes_token blank spelt (by simpa [Token.isEnd] using more),
    lexemes_blank blank']

/-- No accepted text begins with `=`, so none turns a mark before it into an operator. -/
theorem no_equals {text : String} {selector : Selector} (parsed : parse text = .ok selector) :
    text.toList.head? ≠ some '=' := by
  intro head
  obtain ⟨inside, last, all, -, listing⟩ := (parse_ok_iff text selector).mp parsed
  obtain ⟨start, rest, rfl, starts⟩ := Reading.listing_starts listing
  obtain ⟨c, others, spelled⟩ : ∃ c others, text.toList = c :: others :=
    List.exists_cons_of_ne_nil (by rintro none; simp [none] at head)
  rw [spelled] at head all
  obtain rfl := Option.some.inj head
  -- The first token would be this mark, and no compound starts with it.
  have token := @lexemes_token [] ['='] others ⟨.equals, "="⟩ (List.forall_mem_nil _)
    (Token.spelt_punctuation rfl others) rfl
  rw [List.nil_append, List.singleton_append, all] at token
  rw [(List.cons.inj token).1] at starts
  cases starts

section
variable {first second : String} {left right whole : Selector}

theorem complete_led {text : String} {selector : Selector} (parsed : parse text = .ok selector)
    (spaced : Bool) : Grammar.Complete (led spaced (lexemes text.toList)) selector := by
  have loose : ∀ x ∈ (lexemes text.toList).head?, Loose .comma x.token.kind :=
    fun _ _ => .inl (by decide)
  have alike := Alike.of_led loose false spaced
  rw [led_false] at alike
  exact complete_alike (lexemes_legible text.toList) alike ((parse_ok_iff text selector).mp parsed)

theorem parse_marked (here : parse first = .ok left) (there : parse second = .ok right)
    {before after : String} (blank : Text.Blank before.toList) (blank' : Text.Blank after.toList)
    {mark : Char} {kind : TokenKind} (clear : Token.Clear [mark]) (more : kind ≠ .eof)
    (spelt : ∀ rest : List Char, rest.head? ≠ some '=' →
      Token.Spelt [mark] ⟨kind, mark.toString⟩ rest)
    (phrase : ∀ xs ys, ∀ sign : Lexeme, sign.token.kind = kind → Grammar.Listing xs left →
      Grammar.Listing ys right → Grammar.Listing (xs ++ sign :: ys) whole) :
    parse (first ++ (before ++ mark.toString ++ after) ++ second) = .ok whole := by
  obtain ⟨xs, last, all, -, listing⟩ := (parse_ok_iff first left).mp here
  obtain ⟨ys, final, all', ends, listing'⟩ := complete_led there (!after.toList.isEmpty)
  -- Only `=` directly behind the mark could make another token of it.
  have other : (after.toList ++ second.toList).head? ≠ some '=' := by
    cases found : after.toList with
    | nil => exact no_equals there
    | cons c rest =>
        rintro ⟨⟩
        have space : Text.isBlank '=' = true := blank' _ (found ▸ List.mem_cons_self)
        exact absurd space (by decide)
  have between := lexemes_marked (closed_of_parsed here) blank blank' clear (spelt _ other) more
  rw [all, all', meet_concat, led] at between
  have joined := phrase xs ys ⟨last.spaced || !before.toList.isEmpty, ⟨kind, mark.toString⟩⟩ rfl
    listing listing'
  refine (parse_ok_iff _ whole).mpr ⟨_, final, ?_, ends, joined⟩
  simpa [String.toList_append] using between

theorem parse_spaced (here : parse first = .ok left) (there : parse second = .ok right)
    {gap : String} (filled : gap ≠ "") (blank : Text.Blank gap.toList)
    (phrase : ∀ xs ys : List Lexeme, (∀ start ∈ ys.head?, start.spaced = true) →
      Grammar.Listing xs left → Grammar.Listing ys right → Grammar.Listing (xs ++ ys) whole) :
    parse (first ++ gap ++ second) = .ok whole := by
  obtain ⟨xs, last, all, -, listing⟩ := (parse_ok_iff first left).mp here
  obtain ⟨ys, final, all', ends, listing'⟩ := complete_led there true
  have between := @lexemes_spaced _ _ second.toList (closed_of_parsed here) blank
    (by simpa using filled)
  rw [all, meet_concat, led_led, Bool.or_true, all'] at between
  have space : ∀ start ∈ ys.head?, start.spaced = true := by
    intro start head
    apply led_spaced (lexemes second.toList) start
    simp [all', Option.mem_def.mp head]
  refine (parse_ok_iff _ whole).mpr ⟨xs ++ ys, final, ?_, ends, phrase xs ys space listing listing'⟩
  simpa [String.toList_append] using between

theorem parse_comma (here : parse first = .ok left) (there : parse second = .ok right) :
    parse (first ++ "," ++ second) = .ok (.group (left.alternatives ++ right.alternatives)) := by
  have whole := @parse_marked first second left right _ here there "" "" (by decide) (by decide)
    ',' .comma (Token.clear_cons (by decide)) (by decide)
    (fun rest _ => Token.spelt_punctuation rfl rest)
    fun xs ys sign kind listing listing' => Grammar.listing_comma kind listing listing'
  rwa [show "" ++ ','.toString ++ "" = "," by decide] at whole

section
variable {front back : List Selector} {last next : Selector}

theorem parse_mark_joined (here : parse first = .ok left) (there : parse second = .ok right)
    (ending : left.alternatives = front ++ [last]) (opening : right.alternatives = next :: back)
    (mark : Char) {kind : TokenKind} {combinator : Combinator}
    (joins : Grammar.Joins kind combinator) (clear : Token.Clear [mark])
    (spelt : ∀ rest : List Char, rest.head? ≠ some '=' →
      Token.Spelt [mark] ⟨kind, mark.toString⟩ rest)
    {before after : String} (blank : Text.Blank before.toList) (blank' : Text.Blank after.toList) :
    parse (first ++ (before ++ mark.toString ++ after) ++ second) =
      .ok (.ofAlternatives (front ++ last.join combinator next :: back)) := by
  refine parse_marked here there blank blank' clear (Grammar.joins_meant joins).1 spelt ?_
  intro xs ys sign sort listing listing'
  refine @Grammar.listing_joined xs ys left right [sign] front back last next _ listing listing'
    ending opening ?_
  intro zs chain others _ before behind
  exact Grammar.chain_joined (sort ▸ joins) before behind

theorem parse_descends (here : parse first = .ok left) (there : parse second = .ok right)
    (ending : left.alternatives = front ++ [last]) (opening : right.alternatives = next :: back)
    {gap : String} (filled : gap ≠ "") (blank : Text.Blank gap.toList) :
    parse (first ++ gap ++ second) =
      .ok (.ofAlternatives (front ++ last.join .descendant next :: back)) := by
  refine parse_spaced here there filled blank fun xs ys space listing listing' => ?_
  refine @Grammar.listing_joined xs ys left right [] front back last next _ listing listing'
    ending opening ?_
  intro zs chain others same before behind
  refine Grammar.chain_descends ?_ before behind
  intro start head
  rw [List.nil_append] at head
  exact space start (by simp [same, Option.mem_def.mp head])

theorem parse_joined (here : parse first = .ok left) (there : parse second = .ok right)
    (ending : left.alternatives = front ++ [last]) (opening : right.alternatives = next :: back)
    {combinator : Combinator} {text : String} (written : combinator.Written text) :
    parse (first ++ text ++ second) =
      .ok (.ofAlternatives (front ++ last.join combinator next :: back)) := by
  cases combinator with
  | descendant => exact parse_descends here there ending opening written.1 written.2
  | child =>
      obtain ⟨before, after, blank, blank', rfl⟩ := written
      exact parse_mark_joined here there ending opening '>' .child (Token.clear_cons (by decide))
        (fun rest _ => Token.spelt_punctuation rfl rest) blank blank'
  | nextSibling =>
      obtain ⟨before, after, blank, blank', rfl⟩ := written
      exact parse_mark_joined here there ending opening '+' .nextSibling
        (Token.clear_cons (by decide)) (fun rest _ => Token.spelt_punctuation rfl rest) blank blank'
  | subsequentSibling =>
      obtain ⟨before, after, blank, blank', rfl⟩ := written
      have known : Token.pair? '~' = some ⟨'=', .includes, .tilde⟩ := rfl
      exact parse_mark_joined here there ending opening '~' .subsequentSibling
        (Token.clear_cons (by decide)) (fun _ other => Token.spelt_alone known other) blank blank'

end

end

/-- Parsing is compositional: the tree of two accepted texts with a comma or a combinator
between them is put together from their trees. -/
theorem parse_composed {first second : String} {left right : Selector}
    (here : parse first = .ok left) (there : parse second = .ok right) :
    parse (first ++ "," ++ second) = .ok (.group (left.alternatives ++ right.alternatives)) ∧
      ∃ front last next back, left.alternatives = front ++ [last] ∧
        right.alternatives = next :: back ∧
        ∀ combinator text, Combinator.Written combinator text →
          parse (first ++ text ++ second) =
            .ok (.ofAlternatives (front ++ last.join combinator next :: back)) := by
  obtain ⟨_, _, -, -, listing⟩ := (parse_ok_iff first left).mp here
  obtain ⟨_, _, -, -, listing'⟩ := (parse_ok_iff second right).mp there
  obtain ⟨front, last, ending⟩ :=
    (List.eq_nil_or_concat left.alternatives).resolve_left (Grammar.alternatives_filled listing)
  obtain ⟨next, back, opening⟩ :=
    List.exists_cons_of_ne_nil (Grammar.alternatives_filled listing')
  rw [List.concat_eq_append] at ending
  exact ⟨parse_comma here there, front, last, next, back, ending, opening,
    fun _ _ written => parse_joined here there ending opening written⟩

def Selector.ofType (name : String) : Selector := .compound (some (.type name)) []

/-- The chain behind the combinator is taken up link by link. -/
theorem item_lists_composed :
    ∃ left right, parse "ul,ol>li" = .ok left ∧ parse "a+b,i" = .ok right ∧
      parse ("ul,ol>li" ++ "," ++ "a+b,i") = .ok (.group (left.alternatives ++ right.alternatives)) ∧
      parse ("ul,ol>li" ++ " ~\t" ++ "a+b,i") = .ok (.group [.ofType "ul",
        .joined (.joined (.joined (.ofType "ol") .child (.ofType "li"))
          .subsequentSibling (.ofType "a")) .nextSibling (.ofType "b"), .ofType "i"]) := by
  have here : parse "ul,ol>li" = .ok (.group [.ofType "ul",
      .joined (.ofType "ol") .child (.ofType "li")]) := ok_of_to_option (by decide +kernel)
  have there : parse "a+b,i" = .ok (.group [.joined (.ofType "a") .nextSibling (.ofType "b"),
      .ofType "i"]) := ok_of_to_option (by decide +kernel)
  have written : Combinator.subsequentSibling.Written " ~\t" :=
    ⟨" ", "\t", by decide, by decide, by decide⟩
  obtain ⟨comma, front, last, next, back, ending, opening, joined⟩ := parse_composed here there
  obtain ⟨rfl, same⟩ := List.append_inj' (show [_] ++ [_] = front ++ [last] from ending) rfl
  obtain ⟨rfl, rfl⟩ := List.cons.inj opening
  obtain rfl := List.singleton_inj.mp same
  exact ⟨_, _, here, there, comma, joined _ _ written⟩

end TreeSelect
