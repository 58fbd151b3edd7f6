import Mathlib
import TreeSelect.Proofs.Recognition
import TreeSelect.Proofs.Spacing

/-!
White space carries meaning only where it separates. Every phrase of the grammar derives
alike lists of lexemes alike, so the tree of a text does not depend on white space beside
marks; how much white space stands between two tokens is never seen at all.
-/

namespace TreeSelect

namespace Grammar

/-! A compound ends with a token behind which white space counts. -/

theorem call_firm {name : String} {inside xs : List Lexeme} (call : Call name inside xs)
    (before : TokenKind) : (lastKind before xs).opens = false := by
  obtain ⟨-, -, -, closes⟩ := call
  simp only [lastKind, last_kind_append, closes]
  decide

theorem attribute_firm {xs : List Lexeme} {test : AttributeTest} (phrase : Attribute xs test)
    (before : TokenKind) : (lastKind before xs).opens = false := by
  cases phrase with
  | present _ _ closes => rw [lastKind, lastKind, lastKind, lastKind, closes]; decide
  | compared _ _ _ _ closes =>
      rw [lastKind, lastKind, lastKind, lastKind, lastKind, lastKind, closes]; decide

theorem single_firm {xs : List Lexeme} {test : Simple} (phrase : Single xs test)
    (before : TokenKind) : (lastKind before xs).opens = false := by
  cases phrase with
  | hash kind => rw [lastKind, lastKind, kind]; decide
  | cls _ named _ => rw [lastKind, lastKind, lastKind, named]; decide
  | pseudoElement _ named _ => rw [lastKind, lastKind, lastKind, named]; decide
  | pseudoClass _ named _ => rw [lastKind, lastKind, lastKind, named]; decide
  | bracketed phrase => exact attribute_firm phrase before
  | functional call _ _ _ => exact call_firm call before
  | negation call _ _ _ => exact call_firm call before
  | has call _ _ _ => exact call_firm call before

theorem filters_firm {xs : List Lexeme} {tests : List Simple} {before : TokenKind}
    (firm : before.opens = false) (phrase : Filters xs tests) :
    (lastKind before xs).opens = false := by
  cases phrase with
  | none => exact firm
  | more _ single more =>
      rw [← List.cons_append, last_kind_append]
      exact filters_firm (single_firm single before) more

theorem compound_firm {xs : List Lexeme} {selector : Selector} (phrase : Compound xs selector)
    (before : TokenKind) : (lastKind before xs).opens = false := by
  cases phrase with
  | @type name _ _ kind more =>
      have firm : name.token.kind.opens = false := by rw [kind]; decide
      exact @filters_firm _ _ name.token.kind firm more
  | @universal star _ _ kind more =>
      have firm : star.token.kind.opens = false := by rw [kind]; decide
      exact @filters_firm _ _ star.token.kind firm more
  | bare single more =>
      rw [last_kind_append]
      exact filters_firm (single_firm single before) more

theorem starts_firm {kind : TokenKind} (starts : startsCompound kind = true) :
    kind.closes = false ∧ kind ≠ .eof := by
  cases kind <;> first | exact absurd starts (by decide) | exact ⟨by decide, by decide⟩

theorem flag_of_starts {before kind : TokenKind} {here there : Bool} (firm : before.opens = false)
    (starts : startsCompound kind = true) (flag : there = here ∨ Loose before kind) :
    there = here := by
  obtain ⟨noClose, more⟩ := starts_firm starts
  refine flag.resolve_right ?_
  simp [Loose, firm, noClose, more]

/-! Alike lists are the same phrases. -/

theorem attribute_alike {before : TokenKind} {xs ys : List Lexeme} {test : AttributeTest}
    (phrase : Attribute xs test) (alike : Alike before xs ys) : Attribute ys test := by
  cases phrase with
  | present opens named closes =>
      obtain _ | ⟨left, -, _ | ⟨name, -, _ | ⟨right, -, _ | _⟩⟩⟩ := alike
      rw [← left] at opens
      rw [← name] at named ⊢
      rw [← right] at closes
      exact .present opens named closes
  | compared opens named compares valued closes =>
      obtain _ | ⟨left, -, _ | ⟨name, -, _ | ⟨mark, -, _ | ⟨value, -, _ | ⟨right, -, _ | _⟩⟩⟩⟩⟩ :=
        alike
      rw [← left] at opens
      rw [← mark] at compares
      rw [← right] at closes
      rw [← name] at named ⊢
      rw [← value] at valued ⊢
      exact .compared opens named compares valued closes

theorem call_alike {before : TokenKind} {name : String} {inside xs ys : List Lexeme}
    (call : Call name inside xs) (alike : Alike before xs ys) :
    ∃ others, Call name others ys ∧ Alike .function inside others := by
  obtain ⟨opens, named, attached, closes⟩ := call
  obtain _ | ⟨mark, -, _ | ⟨function, flag, rest⟩⟩ := alike
  obtain ⟨others, close, rfl, within, last⟩ := rest.split
  obtain _ | ⟨right, -, _ | _⟩ := last
  refine ⟨others, .mk (mark ▸ opens) (function.trans named) ?_ (right ▸ closes), ?_⟩
  · rw [named, opens] at flag
    rw [← attached]
    exact flag.resolve_right (by simp [Loose, TokenKind.opens, TokenKind.closes]; decide)
  · rwa [named] at within

theorem lead_alike {before : TokenKind} {xs ys : List Lexeme} {combinator : Option Combinator}
    (lead : Lead xs combinator) (alike : Alike before xs ys) : Lead ys combinator := by
  cases lead with
  | none =>
      obtain _ | _ := alike
      exact .none
  | some joins =>
      obtain _ | ⟨mark, -, _ | _⟩ := alike
      exact .some (mark ▸ joins)

theorem call_legible {name : String} {inside xs : List Lexeme} (call : Call name inside xs)
    (legible : ∀ x ∈ xs, x.token.Legible) : ∀ x ∈ inside, x.token.Legible := by
  obtain ⟨-, -, -, -⟩ := call
  exact fun x member => legible x (by simp [member])

theorem marked_name_alike {before : TokenKind} {mark name : Lexeme} {ys : List Lexeme}
    (firm : mark.token.kind.opens = false) (named : name.token.kind = .ident)
    (attached : name.spaced = false) (alike : Alike before [mark, name] ys) :
    ∃ mark' name', ys = [mark', name'] ∧ mark'.token = mark.token ∧ name'.token = name.token ∧
      name'.spaced = false := by
  obtain _ | ⟨sameMark, -, _ | ⟨sameName, flag, _ | _⟩⟩ := alike
  have starts : startsCompound name.token.kind = true := by rw [named]; decide
  exact ⟨_, _, rfl, sameMark, sameName, (flag_of_starts firm starts flag).trans attached⟩

mutual
theorem single_alike {before : TokenKind} {xs ys : List Lexeme} {test : Simple}
    (legible : ∀ x ∈ xs, x.token.Legible) (alike : Alike before xs ys) :
    Single xs test → Single ys test
  | .hash kind => by
      obtain _ | ⟨name, -, _ | _⟩ := alike
      rw [← name] at kind ⊢
      exact .hash kind
  | .cls kind named attached => by
      have firm := congrArg TokenKind.opens kind
      obtain ⟨mark, name, rfl, sameMark, sameName, attached⟩ :=
        marked_name_alike firm named attached alike
      rw [← sameName] at named ⊢
      exact .cls (sameMark ▸ kind) named attached
  | .pseudoElement kind named attached => by
      have firm := congrArg TokenKind.opens kind
      obtain ⟨mark, name, rfl, sameMark, sameName, attached⟩ :=
        marked_name_alike firm named attached alike
      rw [← sameName] at named ⊢
      exact .pseudoElement (sameMark ▸ kind) named attached
  | .pseudoClass kind named attached => by
      have firm := congrArg TokenKind.opens kind
      obtain ⟨mark, name, rfl, sameMark, sameName, attached⟩ :=
        marked_name_alike firm named attached alike
      rw [← sameName] at named ⊢
      exact .pseudoClass (sameMark ▸ kind) named attached
  | .bracketed phrase => .bracketed (attribute_alike phrase alike)
  | .functional call noNot noHas phrase => by
      obtain ⟨others, call', within⟩ := call_alike call alike
      exact .functional call' noNot noHas (within.argument_of phrase (call_legible call legible))
  | .negation call named negated more => by
      obtain ⟨others, call', within⟩ := call_alike call alike
      obtain ⟨first, rest, rfl, here, there⟩ := within.split
      obtain ⟨legible, legible'⟩ := List.forall_mem_append.mp (call_legible call legible)
      exact .negation call' named (negated_alike legible here negated)
        (negated_rest_alike legible' there more)
  | .has call named lead listing => by
      obtain ⟨others, call', within⟩ := call_alike call alike
      obtain ⟨first, rest, rfl, here, there⟩ := within.split
      obtain ⟨-, legible⟩ := List.forall_mem_append.mp (call_legible call legible)
      exact .has call' named (lead_alike lead here) (listing_alike legible there listing)

theorem negated_alike {before : TokenKind} {xs ys : List Lexeme} {item : Negatable}
    (legible : ∀ x ∈ xs, x.token.Legible) (alike : Alike before xs ys) :
    Negated xs item → Negated ys item
  | .type kind => by
      obtain _ | ⟨name, -, _ | _⟩ := alike
      rw [← name] at kind ⊢
      exact .type kind
  | .universal kind => by
      obtain _ | ⟨star, -, _ | _⟩ := alike
      exact .universal (star ▸ kind)
  | .simple single known => .simple (single_alike legible alike single) known

theorem negated_rest_alike {before : TokenKind} {xs ys : List Lexeme} {items : List Negatable}
    (legible : ∀ x ∈ xs, x.token.Legible) (alike : Alike before xs ys) :
    NegatedRest xs items → NegatedRest ys items
  | .none => by
      obtain _ | _ := alike
      exact .none
  | .more kind negated more => by
      obtain _ | ⟨comma, -, rest⟩ := alike
      obtain ⟨first, others, rfl, here, there⟩ := rest.split
      obtain ⟨legible, legible'⟩ :=
        List.forall_mem_append.mp (List.forall_mem_cons.mp legible).2
      exact .more (comma ▸ kind) (negated_alike legible here negated)
        (negated_rest_alike legible' there more)

theorem filters_alike {before : TokenKind} {xs ys : List Lexeme} {tests : List Simple}
    (legible : ∀ x ∈ xs, x.token.Legible) (firm : before.opens = false)
    (alike : Alike before xs ys) : Filters xs tests → Filters ys tests
  | .none => by
      obtain _ | _ := alike
      exact .none
  | .more attached single more => by
      obtain _ | ⟨token, flag, rest⟩ := alike
      obtain ⟨first, others, rfl, here, there⟩ := rest.split
      rw [← List.cons_append] at legible
      obtain ⟨legible, legible'⟩ := List.forall_mem_append.mp legible
      obtain ⟨_, _, same, starts⟩ := Reading.single_starts single
      rw [← (List.cons.inj same).1] at starts
      exact .more ((flag_of_starts firm (Reading.starts_compound starts) flag).trans attached)
        (single_alike legible (.cons token flag here) single)
        (filters_alike legible' (single_firm single before) there more)

theorem compound_alike {before : TokenKind} {xs ys : List Lexeme} {selector : Selector}
    (legible : ∀ x ∈ xs, x.token.Legible) (alike : Alike before xs ys) :
    Compound xs selector → Compound ys selector
  | .type kind more => by
      obtain _ | ⟨name, -, rest⟩ := alike
      rw [← name] at kind rest ⊢
      exact .type kind (filters_alike (List.forall_mem_cons.mp legible).2
        (congrArg TokenKind.opens kind) rest more)
  | .universal kind more => by
      obtain _ | ⟨star, -, rest⟩ := alike
      rw [← star] at kind rest
      exact .universal kind (filters_alike (List.forall_mem_cons.mp legible).2
        (congrArg TokenKind.opens kind) rest more)
  | .bare single more => by
      obtain ⟨first, others, rfl, here, there⟩ := alike.split
      obtain ⟨legible, legible'⟩ := List.forall_mem_append.mp legible
      exact .bare (single_alike legible here single)
        (filters_alike legible' (single_firm single before) there more)

theorem chain_rest_alike {before : TokenKind} {xs ys : List Lexeme} {left whole : Selector}
    (legible : ∀ x ∈ xs, x.token.Legible) (firm : before.opens = false)
    (alike : Alike before xs ys) : ChainRest left xs whole → ChainRest left ys whole
  | .none => by
      obtain _ | _ := alike
      exact .none
  | .marked joins next more => by
      obtain _ | ⟨mark, -, rest⟩ := alike
      obtain ⟨first, others, rfl, here, there⟩ := rest.split
      obtain ⟨legible, legible'⟩ :=
        List.forall_mem_append.mp (List.forall_mem_cons.mp legible).2
      exact .marked (mark ▸ joins) (compound_alike legible here next)
        (chain_rest_alike legible' (compound_firm next _) there more)
  | .spaced space next more => by
      obtain _ | ⟨token, flag, rest⟩ := alike
      obtain ⟨first, others, rfl, here, there⟩ := rest.split
      rw [← List.cons_append] at legible
      obtain ⟨legible, legible'⟩ := List.forall_mem_append.mp legible
      obtain ⟨_, _, same, starts⟩ := Reading.compound_starts next
      rw [← (List.cons.inj same).1] at starts
      exact .spaced ((flag_of_starts firm starts flag).trans space)
        (compound_alike legible (.cons token flag here) next)
        (chain_rest_alike legible' (compound_firm next before) there more)

theorem chain_alike {before : TokenKind} {xs ys : List Lexeme} {selector : Selector}
    (legible : ∀ x ∈ xs, x.token.Legible) (alike : Alike before xs ys) :
    Chain xs selector → Chain ys selector
  | .mk first more => by
      obtain ⟨front, others, rfl, here, there⟩ := alike.split
      obtain ⟨legible, legible'⟩ := List.forall_mem_append.mp legible
      exact .mk (compound_alike legible here first)
        (chain_rest_alike legible' (compound_firm first before) there more)

theorem listing_rest_alike {before : TokenKind} {xs ys : List Lexeme} {rest : List Selector}
    (legible : ∀ x ∈ xs, x.token.Legible) (alike : Alike before xs ys) :
    ListingRest xs rest → ListingRest ys rest
  | .none => by
      obtain _ | _ := alike
      exact .none
  | .more kind chain more => by
      obtain _ | ⟨comma, -, rest⟩ := alike
      obtain ⟨first, others, rfl, here, there⟩ := rest.split
      obtain ⟨legible, legible'⟩ :=
        List.forall_mem_append.mp (List.forall_mem_cons.mp legible).2
      exact .more (comma ▸ kind) (chain_alike legible here chain)
        (listing_rest_alike legible' there more)

theorem listing_alike {before : TokenKind} {xs ys : List Lexeme} {selector : Selector}
    (legible : ∀ x ∈ xs, x.token.Legible) (alike : Alike before xs ys) :
    Listing xs selector → Listing ys selector
  | .mk chain more => by
      obtain ⟨front, others, rfl, here, there⟩ := alike.split
      obtain ⟨legible, legible'⟩ := List.forall_mem_append.mp legible
      exact .mk (chain_alike legible here chain) (listing_rest_alike legible' there more)
end

end Grammar

/-! From lists of lexemes to texts. -/

theorem parse_of_lexemes {text other : String} (same : lexemes text.toList = lexemes other.toList) :
    parse text = parse other := by
  simp only [parse, Parser.ofText, Window.ofText, same]

theorem complete_alike {xs ys : List Lexeme} {selector : Selector}
    (legible : ∀ x ∈ xs, x.token.Legible) (alike : Alike .comma xs ys)
    (complete : Grammar.Complete xs selector) : Grammar.Complete ys selector := by
  obtain ⟨inside, last, rfl, ends, listing⟩ := complete
  obtain ⟨front, back, rfl, here, there⟩ := alike.split
  obtain _ | ⟨same, -, _ | _⟩ := there
  exact ⟨front, _, rfl, same ▸ ends,
    Grammar.listing_alike (List.forall_mem_append.mp legible).1 here listing⟩

theorem parse_of_alike {text other : String} {selector : Selector}
    (alike : Alike .comma (lexemes text.toList) (lexemes other.toList))
    (parsed : parse text = .ok selector) : parse other = .ok selector :=
  (parse_ok_iff other selector).mpr <|
    complete_alike (lexemes_legible text.toList) alike ((parse_ok_iff text selector).mp parsed)

/-- A quote that stays open makes an illegal token. -/
theorem closed_of_legal {text : List Char} {inside : List Lexeme} {last : Lexeme}
    (all : lexemes text = inside ++ [last]) (ends : last.token.isEnd = true)
    (legal : ∀ lexeme ∈ inside, lexeme.token.kind ≠ .illegal) : Text.openQuote text = none := by
  cases opened : Text.openQuote text with
  | none => rfl
  | some quote =>
      obtain ⟨-, lexeme, member, illegal⟩ := @lexemes_open _ [] quote opened (by simp)
      rw [all] at member
      rcases List.mem_append.mp member with here | final
      · exact absurd illegal (legal lexeme here)
      · rw [List.mem_singleton.mp final] at illegal
        simp [Token.isEnd, illegal] at ends

theorem closed_of_parsed {text : String} {selector : Selector}
    (parsed : parse text = .ok selector) : Text.openQuote text.toList = none := by
  obtain ⟨inside, last, all, ends, listing⟩ := (parse_ok_iff text selector).mp parsed
  exact closed_of_legal all ends fun lexeme here =>
    (Grammar.listing_meant listing lexeme here).2

theorem lexemes_spaced {front gap rest : List Char} (closed : Text.openQuote front = none)
    (blank : Text.Blank gap) (filled : gap ≠ []) :
    lexemes (front ++ (gap ++ rest)) = meet (lexemes front) (led true (lexemes rest)) := by
  have space : (!gap.isEmpty) = true := by simpa using filled
  rw [lexemes_append closed (Token.clear_blank blank filled rest), lexemes_blank blank, space]

theorem lexemes_respaced {front gap other rest : List Char} (blank : Text.Blank gap)
    (filled : gap ≠ []) (blank' : Text.Blank other) (filled' : other ≠ [])
    (outside : ¬ Text.InsideString front rest) :
    lexemes (front ++ (gap ++ rest)) = lexemes (front ++ (other ++ rest)) := by
  cases opened : Text.openQuote front with
  | none => rw [lexemes_spaced opened blank filled, lexemes_spaced opened blank' filled']
  | some quote =>
      -- The quote is never closed, so all that stands behind it is lost either way.
      have absent : quote ∉ rest := fun closes => outside ⟨quote, opened, closes⟩
      have lost {gap : List Char} (blank : Text.Blank gap) : quote ∉ gap ++ rest := by
        rw [List.mem_append, not_or]
        exact ⟨blank.not_mem opened, absent⟩
      rw [(lexemes_open opened (lost blank)).1, (lexemes_open opened (lost blank')).1]

theorem parse_leading (leading text : String) (blank : Text.Blank leading.toList)
    (selector : Selector) :
    parse (leading ++ text) = .ok selector ↔ parse text = .ok selector := by
  have first : ∀ x ∈ (lexemes text.toList).head?, Loose .comma x.token.kind :=
    fun _ _ => .inl (by decide)
  have alike := Alike.of_led first false (!leading.toList.isEmpty)
  rw [led_false, ← lexemes_blank blank, ← String.toList_append] at alike
  exact ⟨parse_of_alike alike.symm, parse_of_alike alike⟩

theorem parse_trailing (text trailing : String) (blank : Text.Blank trailing.toList)
    (selector : Selector) :
    parse (text ++ trailing) = .ok selector ↔ parse text = .ok selector := by
  cases opened : Text.openQuote text.toList with
  | none =>
      obtain ⟨inside, last, all, -⟩ := lexemes_end text.toList
      have alone : lexemes text.toList = meet (lexemes text.toList) (lexemes []) := by
        rw [← lexemes_append opened (by simp [Token.Clear]), List.append_nil]
      have followed : lexemes (text ++ trailing).toList =
          meet (lexemes text.toList) (led (!trailing.toList.isEmpty) (lexemes [])) := by
        rw [String.toList_append, lexemes_append opened (Token.clear_of_blank blank),
          ← lexemes_blank blank, List.append_nil]
      have loose : ∀ x ∈ (lexemes []).head?, Loose (lastKind .comma inside) x.token.kind := by
        rw [lexemes_nil]
        rintro _ ⟨⟩
        exact .inr (.inr rfl)
      have alike := Alike.of_meet last loose (!trailing.toList.isEmpty)
      rw [← all, ← alone, ← followed] at alike
      exact ⟨parse_of_alike alike.symm, parse_of_alike alike⟩
  | some quote =>
      have same := (lexemes_open opened (blank.not_mem opened)).1
      rw [← String.toList_append] at same
      rw [parse_of_lexemes same]

/-- The text is cut between two of its tokens, or in the white space between them. -/
def Text.CutBetween (before after : String) : Prop :=
  tokens (before ++ after) = (tokens before).dropLast ++ tokens after

instance (before after : String) : Decidable (Text.CutBetween before after) :=
  inferInstanceAs (Decidable (_ = _))

/-- What was read off a text is read again where only white space stands behind it. -/
theorem scans_covered {text rest : List Char} {front : List Lexeme}
    (scan : Scans text front rest) :
    ∃ covered, text = covered ++ rest ∧ ∀ gap, Text.Blank gap →
      (lexemes (covered ++ gap)).map Lexeme.token =
        front.map Lexeme.token ++ [Token.endOfInput] := by
  induction scan with
  | done =>
      refine ⟨[], rfl, fun gap blank => ?_⟩
      rw [List.nil_append, lexemes_blank_alone blank]
      rfl
  | @more text rest front more scan ih =>
      obtain ⟨covered, split, same⟩ := ih
      rw [List.map_cons, Lexeme.read]
      induction text using text_induction with
      | blank gap blank =>
          have found := read_blank blank []
          rw [List.append_nil] at found
          rw [found] at more
          cases more
      | token gap piece token left blank taken _ =>
          have found := read_spelt blank (taken.spelt left (.inl rfl))
          rw [found] at split ⊢
          obtain rfl : left = covered ++ rest := split
          refine ⟨gap ++ (piece ++ covered), by simp, fun space blank' => ?_⟩
          -- In both texts the token sees the same character, or one that it does not take.
          have follows : Token.Follows (covered ++ rest) (covered ++ space) := by
            cases covered with
            | nil => exact .inr (Token.clear_of_blank blank')
            | cons c covered => exact .inl rfl
          rw [List.append_assoc, List.append_assoc,
            lexemes_token blank (taken.spelt _ follows) taken.more, List.map_cons, same space blank']
          rfl
      | unclosed gap quote others blank mark absent =>
          have found := read_unclosed blank mark absent
          rw [found] at split ⊢
          obtain ⟨rfl, rfl⟩ := List.append_eq_nil_iff.mp (Eq.symm split)
          refine ⟨gap ++ quote :: others, by simp, fun space blank' => ?_⟩
          have none := same [] (by decide)
          have inside : quote ∉ others ++ space := by
            rw [List.mem_append, not_or]
            refine ⟨absent, fun member => ?_⟩
            rw [blank'.unquoted quote member] at mark
            cases mark
          rw [List.append_nil, lexemes_nil] at none
          rw [List.append_assoc, List.cons_append, lexemes_unclosed blank mark inside]
          exact congrArg (_ :: ·) none

/-- Wherever the reader comes to stand, in white space or not, the text is cut between tokens. -/
theorem cut_of_scans {before after : String} {gap : List Char} {front : List Lexeme}
    (blank : Text.Blank gap)
    (scan : Scans (before ++ after).toList front (gap ++ after.toList)) :
    Text.CutBetween before after := by
  obtain ⟨covered, split, same⟩ := scans_covered scan
  rw [String.toList_append, ← List.append_assoc] at split
  have first := List.append_cancel_right split
  unfold Text.CutBetween tokens
  rw [scan.lexemes_eq, first, same gap blank, lexemes_blank blank, List.map_append, led_tokens,
    List.dropLast_concat]

/-- The place between the two texts is directly behind or directly before a mark. -/
def Text.BesideMark (before after : String) : Prop :=
  (∃ token ∈ (tokens before).dropLast.getLast?, token.kind.opens = true) ∨
    ∃ token ∈ (tokens after).head?, token.kind.closes = true

theorem last_kind_of_token {token : Token} {xs : List Lexeme} (before : TokenKind)
    (last : token ∈ (xs.map Lexeme.token).getLast?) : lastKind before xs = token.kind := by
  rcases List.eq_nil_or_concat xs with rfl | ⟨front, final, rfl⟩
  · cases last
  · rw [List.concat_eq_append, List.map_append, List.map_singleton, List.getLast?_concat] at last
    rw [List.concat_eq_append, last_kind_append, ← Option.some.inj last]
    rfl

theorem legal_of_parsed {text : String} {selector : Selector}
    (parsed : parse text = .ok selector) : ∀ token ∈ tokens text, token.kind ≠ .illegal := by
  obtain ⟨inside, last, all, ends, listing⟩ := (parse_ok_iff text selector).mp parsed
  intro token member
  rw [tokens, all, List.mem_map] at member
  obtain ⟨lexeme, member, rfl⟩ := member
  rcases List.mem_append.mp member with here | final
  · exact (Grammar.listing_meant listing lexeme here).2
  · rw [List.mem_singleton.mp final]
    intro illegal
    simp [Token.isEnd, illegal] at ends

theorem closed_of_cut {before after : String} {selector : Selector}
    (cut : Text.CutBetween before after) (parsed : parse (before ++ after) = .ok selector) :
    Text.openQuote before.toList = none := by
  obtain ⟨inside, last, all, ends, -⟩ := lexemes_end before.toList
  refine closed_of_legal all ends fun lexeme here => ?_
  have kept : lexeme.token ∈ tokens (before ++ after) := by
    rw [cut, tokens, all, List.map_append, List.map_singleton, List.dropLast_concat]
    exact List.mem_append_left _ (List.mem_map_of_mem here)
  exact legal_of_parsed parsed _ kept

theorem parse_beside_mark {before gap after : String} {selector : Selector}
    (blank : Text.Blank gap.toList) (cut : Text.CutBetween before after)
    (beside : Text.BesideMark before after) (parsed : parse (before ++ after) = .ok selector) :
    parse (before ++ gap ++ after) = .ok selector := by
  by_cases filled : gap.toList = []
  · rwa [String.toList_eq_nil_iff.mp filled, String.append_empty]
  · obtain ⟨inside, last, all, -⟩ := lexemes_end before.toList
    have closed := closed_of_cut cut parsed
    have whole : lexemes (before ++ after).toList =
        meet (lexemes before.toList) (lexemes after.toList) := by
      rw [String.toList_append]
      apply lexemes_cut closed
      rw [← String.toList_append, meet_tokens (by simp [all])]
      exact cut
    have spaced : lexemes (before ++ gap ++ after).toList =
        meet (lexemes before.toList) (led true (lexemes after.toList)) := by
      rw [String.append_assoc, String.toList_append, String.toList_append,
        lexemes_spaced closed blank filled]
    have loose : ∀ x ∈ (lexemes after.toList).head?,
        Loose (lastKind .comma inside) x.token.kind := by
      intro x head
      rcases beside with ⟨token, member, opens⟩ | ⟨token, member, closes⟩
      · rw [tokens, all, List.map_append, List.map_singleton, List.dropLast_concat] at member
        exact .inl (last_kind_of_token .comma member ▸ opens)
      · rw [tokens, List.head?_map, Option.mem_def.mp head] at member
        rw [← Option.some.inj member] at closes
        exact .inr (.inl closes)
    have alike := Alike.of_meet last loose true
    rw [← all, ← whole, ← spaced] at alike
    exact parse_of_alike alike parsed

/-- White space carries meaning only where it separates. How much of it stands at one place
outside quoted strings makes no difference to the tree or the fault; around the whole text it
makes none to the tree; and beside a mark it may be put into every text that is accepted. -/
theorem white_space_only_separates :
    (∀ before gap other after : String, gap ≠ "" → Text.Blank gap.toList →
      other ≠ "" → Text.Blank other.toList → ¬ Text.InsideString before.toList after.toList →
      parse (before ++ gap ++ after) = parse (before ++ other ++ after)) ∧
    (∀ leading text trailing : String, Text.Blank leading.toList → Text.Blank trailing.toList →
      ∀ selector, parse (leading ++ text ++ trailing) = .ok selector ↔
        parse text = .ok selector) ∧
    (∀ before gap after : String, Text.Blank gap.toList → Text.CutBetween before after →
      Text.BesideMark before after → ∀ selector, parse (before ++ after) = .ok selector →
      parse (before ++ gap ++ after) = .ok selector) := by
  refine ⟨?_, ?_, ?_⟩
  · intro before gap other after filled blank filled' blank' outside
    apply parse_of_lexemes
    simp only [String.append_assoc, String.toList_append]
    exact lexemes_respaced blank (by simpa using filled) blank' (by simpa using filled') outside
  · intro leading text trailing blank blank' selector
    rw [parse_trailing _ trailing blank', parse_leading leading text blank]
  · intro before gap after blank cut beside selector parsed
    exact parse_beside_mark blank cut beside parsed

/-- The blank between the compounds is a combinator, the others say nothing. -/
theorem spaced_items_parsed :
    ∃ selector, parse ("ul li:nth-child(2n" ++ "+1)") = .ok selector ∧
      parse ("ul" ++ " " ++ "li:nth-child(2n+1)") = parse ("ul" ++ "\t\n" ++ "li:nth-child(2n+1)") ∧
      parse ("\n" ++ "ul li:nth-child(2n+1)" ++ " ") = .ok selector ∧
      parse ("ul li:nth-child(2n" ++ " " ++ "+1)") = .ok selector := by
  have parsed : parse "ul li:nth-child(2n+1)" =
      .ok (.joined (.compound (some (.type "ul")) []) .descendant
        (.compound (some (.type "li")) [.functional "nth-child" (.dimension ⟨2, .plus, 1, .plus⟩)])) :=
    ok_of_to_option (by decide +kernel)
  have outside : ¬ Text.InsideString "ul".toList "li:nth-child(2n+1)".toList := by
    rintro ⟨quote, opened, -⟩
    cases opened
  have respaced := white_space_only_separates.1 "ul" " " "\t\n" "li:nth-child(2n+1)"
    (by decide) (by decide) (by decide) (by decide) outside
  have around := white_space_only_separates.2.1 "\n" "ul li:nth-child(2n+1)" " "
    (by decide) (by decide)
  have beside := white_space_only_separates.2.2 "ul li:nth-child(2n" " " "+1)" (by decide)
    (by cbv) (.inr ⟨⟨.plus, "+"⟩, by cbv, by decide⟩)
  exact ⟨_, parsed, respaced, (around _).mpr parsed, beside _ parsed⟩

end TreeSelect
