import TreeSelect.Proofs.Recognition

/-!
How readings end. A reading that starts inside a text with a budget for every token ahead
comes to a value or to a fault: the budget is never used up, and nothing moves on from the end
token. On the way it passes over legal tokens only, so the first illegal token is the one that
a fault of this kind names.

Each reader is followed from the window that it starts on; what it leaves behind is a later
window of the same text.
-/

namespace TreeSelect

/-! Lexemes up to an illegal one. -/

def Legal (lexemes : List Lexeme) : Prop := ∀ lexeme ∈ lexemes, lexeme.token.kind ≠ .illegal

/-- The first illegal token has this literal. -/
def FirstIllegal (lexemes : List Lexeme) (literal : String) : Prop :=
  ∃ before found after, lexemes = before ++ found :: after ∧ Legal before ∧
    found.token.kind = .illegal ∧ found.token.literal = literal

namespace Window

/-- What the window shows, the current lexeme first. -/
def shown (window : Window) : List Lexeme := window.current :: window.ahead

/-- A window shows at least its current lexeme, so what it shows of a text ends as the text does. -/
theorem shown_of_suffix {window : Window} {inside : List Lexeme} {last : Lexeme}
    (left : window.shown <:+ inside ++ [last]) :
    ∃ front, window.shown = front ++ [last] ∧ front <:+ inside :=
  (List.suffix_concat_iff.mp left).resolve_left (List.cons_ne_nil _ _)

/-- The end token stands last. -/
def Closed (window : Window) : Prop :=
  ∃ inside last, window.shown = inside ++ [last] ∧ last.token.kind = .eof

/-- Only legal lexemes lie between the two windows. -/
def Passed (window after : Window) : Prop :=
  ∃ passed, window.shown = passed ++ after.shown ∧ Legal passed

/-- The window stands on a legal token with the end token still ahead. -/
structure Inside (window : Window) : Prop where
  closed : window.Closed
  legal : window.current.token.kind ≠ .illegal
  more : window.current.token.kind ≠ .eof

namespace Passed

theorem refl (window : Window) : Passed window window := ⟨[], rfl, nofun⟩

theorem trans {window middle after : Window} (first : Passed window middle)
    (second : Passed middle after) : Passed window after := by
  obtain ⟨here, same, legal⟩ := first
  obtain ⟨there, same', legal'⟩ := second
  exact ⟨here ++ there, by rw [same, same', List.append_assoc],
    List.forall_mem_append.mpr ⟨legal, legal'⟩⟩

theorem length {window after : Window} (passed : Passed window after) :
    after.ahead.length ≤ window.ahead.length := by
  obtain ⟨here, same, -⟩ := passed
  have lengths := congrArg List.length same
  simp only [shown, List.length_cons, List.length_append] at lengths
  omega

theorem closed {window after : Window} (passed : Passed window after) (closed : window.Closed) :
    after.Closed := by
  obtain ⟨here, same, -⟩ := passed
  obtain ⟨inside, last, whole, ends⟩ := closed
  obtain ⟨front, shows, -⟩ := shown_of_suffix ⟨here, same.symm.trans whole⟩
  exact ⟨front, last, shows, ends⟩

theorem first_illegal {window after : Window} {literal : String} (passed : Passed window after)
    (found : FirstIllegal after.shown literal) : FirstIllegal window.shown literal := by
  obtain ⟨here, same, legal⟩ := passed
  obtain ⟨before, illegal, rest, split, legal', kind⟩ := found
  exact ⟨here ++ before, illegal, rest, by rw [same, split, List.append_assoc],
    List.forall_mem_append.mpr ⟨legal, legal'⟩, kind⟩

/-- One token on, from a legal one. -/
theorem step {window after : Window} (moved : window.ahead = after.shown)
    (legal : window.current.token.kind ≠ .illegal) : Passed window after :=
  ⟨[window.current], by rw [shown, moved, List.singleton_append],
    List.forall_mem_singleton.mpr legal⟩

end Passed

theorem Inside.ahead {window : Window} (inside : window.Inside) :
    ∃ after : Window, window.ahead = after.shown := by
  cases ahead : window.ahead with
  | cons first rest => exact ⟨⟨first, rest⟩, rfl⟩
  | nil =>
      -- A lexeme with nothing ahead of it would be the end token.
      obtain ⟨before, last, whole, ends⟩ := inside.closed
      rw [shown, ahead] at whole
      rw [← List.nil_append [window.current]] at whole
      obtain ⟨-, same⟩ := List.append_inj' whole rfl
      exact absurd (List.singleton_inj.mp same ▸ ends) inside.more

theorem ahead_length {window after : Window} (moved : window.ahead = after.shown) :
    window.ahead.length = after.ahead.length + 1 := congrArg List.length moved

theorem next_of_shown {window after : Window} (moved : window.ahead = after.shown) :
    window.next = after.current := Reading.next_of_ahead moved

end Window

namespace Reading

open Window

variable {α β : Type}

/-- A fault, which for an illegal token is about the first one from the window on. -/
def Fair (window : Window) : Halt → Prop
  | .fault (.illegal literal) => FirstIllegal window.shown literal
  | .fault _ => True
  | .outOfBudget => False
  | .pastEnd => False

/-- The reading comes to a later window of which this holds, or to a fair fault. -/
def Meets (reading : Reading α) (window : Window) (ends : α → Window → Prop) : Prop :=
  match reading.run window with
  | .ok value after => Passed window after ∧ ends value after
  | .error halt _ => Fair window halt

/-- The reading ends on a token, if not for a fault. -/
def Steady (reading : Reading α) (window : Window) : Prop :=
  Meets reading window fun _ after => after.Inside

section
variable {window : Window} {ends : α → Window → Prop}

theorem fair_before {after : Window} {halt : Halt} (passed : Passed window after)
    (fair : Fair after halt) : Fair window halt := by
  match halt, fair with
  | .fault (.illegal literal), found => exact passed.first_illegal found
  | .fault (.noStart _ _), _ => exact True.intro
  | .fault (.expected _ _), _ => exact True.intro
  | .fault (.leftover _ _), _ => exact True.intro
  | .fault (.malformedArgument _ _), _ => exact True.intro
  | .fault (.unnegatable _), _ => exact True.intro

theorem Meets.bind {first : Reading α} {second : α → Reading β} {final : β → Window → Prop}
    (here : Meets first window ends)
    (there : ∀ value after, Passed window after → ends value after →
      Meets (second value) after final) : Meets (first >>= second) window final := by
  simp only [Meets, EStateM.run, Bind.bind, EStateM.bind] at here ⊢
  split at here
  · next value after found =>
    have later := there value after here.1 here.2
    simp only [Meets, EStateM.run] at later
    rw [found]
    dsimp only
    split at later
    · exact ⟨here.1.trans later.1, later.2⟩
    · exact fair_before here.1 later
  · next halt after found =>
    rw [found]
    exact here

theorem Meets.mono {reading : Reading α} {wider : α → Window → Prop}
    (meets : Meets reading window ends)
    (weaken : ∀ value after, ends value after → wider value after) :
    Meets reading window wider := by
  simp only [Meets] at meets ⊢
  split at meets
  · exact ⟨meets.1, weaken _ _ meets.2⟩
  · exact meets

theorem meets_pure {value : α} (holds : ends value window) : Meets (pure value) window ends :=
  ⟨.refl window, holds⟩

theorem steady_pure {value : α} (inside : window.Inside) : Steady (pure value) window :=
  meets_pure inside

/-- Every cause but an illegal token is fair. -/
theorem meets_halt {cause : Fault} (plain : ∀ literal, cause ≠ .illegal literal) :
    Meets (halt cause : Reading α) window ends := by
  show Fair window (.fault cause)
  cases cause with
  | illegal literal => exact absurd rfl (plain literal)
  | _ => exact True.intro

theorem illegal_here_fair (illegal : window.current.token.kind = .illegal) :
    Fair window (.fault (.illegal window.current.token.literal)) :=
  ⟨[], window.current, window.ahead, rfl, nofun, illegal, rfl⟩

theorem meets_illegal_here (illegal : window.current.token.kind = .illegal) :
    Meets (illegalHere : Reading α) window ends := illegal_here_fair illegal

theorem meets_next {second : Lexeme → Reading α} (there : Meets (second window.next) window ends) :
    Meets (next >>= second) window ends := there

theorem meets_token {second : Token → Reading α}
    (there : Meets (second window.current.token) window ends) :
    Meets (token >>= second) window ends := there

theorem meets_current {second : Lexeme → Reading α}
    (there : Meets (second window.current) window ends) :
    Meets (current >>= second) window ends := there

end

/-! Moving on, from a token inside. -/

section
variable {window : Window}

theorem meets_advance (inside : window.Inside) :
    Meets advance window fun _ after =>
      window.ahead = after.shown ∧ after.Closed ∧ after.current.token.kind ≠ .illegal := by
  obtain ⟨after, moved⟩ := inside.ahead
  have passed := Passed.step moved inside.legal
  obtain ⟨current, ahead⟩ := window
  obtain rfl : ahead = after.shown := moved
  have ran : EStateM.run advance ⟨current, after.shown⟩ =
      (if after.current.token.kind = .illegal then illegalHere else pure ()).run after := rfl
  simp only [Meets, ran]
  by_cases illegal : after.current.token.kind = .illegal
  · rw [if_pos illegal]
    exact fair_before passed (illegal_here_fair illegal)
  · rw [if_neg illegal]
    exact ⟨passed, rfl, passed.closed inside.closed, illegal⟩

theorem meets_onto (inside : window.Inside) (more : window.next.token.kind ≠ .eof) :
    Meets advance window fun _ after => window.ahead = after.shown ∧ after.Inside := by
  refine (meets_advance inside).mono fun _ after ⟨moved, closed, legal⟩ =>
    ⟨moved, closed, legal, ?_⟩
  exact next_of_shown moved ▸ more

theorem meets_unexpected_next {ends : α → Window → Prop} (inside : window.Inside)
    (wanted : Wanted) : Meets (unexpectedNext wanted) window ends := by
  obtain ⟨after, moved⟩ := inside.ahead
  refine meets_next ?_
  rw [next_of_shown moved]
  split
  · next illegal => exact fair_before (Passed.step moved inside.legal) (illegal_here_fair illegal)
  · exact meets_halt nofun

/-- The comma of a list and what opens its next item, which nothing has been asked of yet. -/
theorem meets_past_comma {second : Reading α} {ends : α → Window → Prop}
    (inside : window.Inside) (comma : window.next.token.kind = .comma)
    (there : ∀ start : Window, start.Closed → start.ahead.length + 2 = window.ahead.length →
      Meets second start ends) :
    Meets (do advance; advance; second) window ends := by
  refine (meets_onto inside (by simp [comma])).bind fun _ mark _ ⟨moved, inside⟩ => ?_
  refine (meets_advance inside).bind fun _ start _ ⟨moved', closed, _⟩ => ?_
  exact there start closed (by rw [ahead_length moved, ahead_length moved'])

theorem steady_expect (inside : window.Inside) {kind : TokenKind} (more : kind ≠ .eof)
    (wanted : Wanted) : Steady (expect kind wanted) window := by
  refine meets_next ?_
  split
  · next found => exact (meets_onto inside (found ▸ more)).mono fun _ _ reached => reached.2
  · exact meets_unexpected_next inside wanted

theorem steady_expect_adjacent (inside : window.Inside) {kind : TokenKind} (more : kind ≠ .eof)
    (wanted : Wanted) : Steady (expectAdjacent kind wanted) window := by
  refine meets_next ?_
  split
  · exact meets_halt nofun
  · exact steady_expect inside more wanted

/-! Attributes and plain arguments. -/

theorem steady_attribute_value (inside : window.Inside) : Steady attributeValue window := by
  refine meets_next ?_
  dsimp only
  split
  · next found =>
    have more : window.next.token.kind ≠ .eof := by rcases found with found | found <;> simp [found]
    refine (meets_onto inside more).bind fun _ after _ reached => ?_
    exact meets_token (meets_pure reached.2)
  · exact meets_unexpected_next inside _

theorem steady_attribute (inside : window.Inside) : Steady attributeTest window := by
  refine (steady_expect inside (by decide) _).bind fun _ named _ inside => ?_
  refine meets_token (meets_next ?_)
  dsimp only
  split
  · next closing =>
    refine (meets_onto inside (by simp [closing])).bind fun _ closed _ reached => ?_
    exact meets_pure reached.2
  · cases known : AttributeOperator.ofKind? named.next.token.kind with
    | none => exact meets_unexpected_next inside _
    | some operator =>
        have more : named.next.token.kind ≠ .eof := by
          intro ends
          rw [ends] at known
          cases known
        refine (meets_onto inside more).bind fun _ marked _ reached => ?_
        refine (steady_attribute_value reached.2).bind fun _ valued _ inside => ?_
        refine (steady_expect inside (by decide) _).bind fun _ closed _ inside => ?_
        exact meets_pure inside

theorem steady_argument_lexemes (name : String) (budget : Nat) (read : List Lexeme)
    (inside : window.Inside) (enough : window.ahead.length < budget) :
    Steady (argumentLexemes name budget read) window := by
  induction budget generalizing read window with
  | zero => omega
  | succ budget ih =>
      refine (meets_advance inside).bind fun _ after _ ⟨moved, closed, legal⟩ => ?_
      refine meets_current ?_
      split
      · next close => exact meets_pure ⟨closed, legal, by simp [close]⟩
      · exact meets_halt nofun
      · exact meets_halt nofun
      · exact meets_halt nofun
      · next noEnd _ _ =>
        have shorter := ahead_length moved
        exact ih _ ⟨closed, legal, noEnd⟩ (by omega)

theorem steady_argument (name : String) (budget : Nat) (inside : window.Inside)
    (enough : window.ahead.length < budget) : Steady (argument name budget) window := by
  refine (steady_argument_lexemes name budget [] inside enough).bind fun read after _ inside => ?_
  cases argumentOf? read with
  | some argument => exact meets_pure inside
  | none => exact meets_halt nofun

end

/-! Readers of compounds, chains and lists, given that simple selectors end well. -/

theorem filter_start_more {kind : TokenKind} (starts : startsFilter kind = true) :
    kind ≠ .eof ∧ kind ≠ .illegal := by
  constructor <;> rintro rfl <;> cases starts

theorem mark_more {kind : TokenKind} {combinator : Combinator}
    (known : Combinator.ofKind? kind = some combinator) : kind ≠ .eof := by
  rintro rfl
  cases known

/-- The reading ends on a token wherever fewer tokens are ahead than the depth. -/
def SteadyWithin (reading : Reading α) (depth : Nat) : Prop :=
  ∀ window : Window, window.Inside → window.ahead.length < depth → Steady reading window

section
variable {simple : Reading Simple} {depth : Nat} (steady : SteadyWithin simple depth)
include steady

theorem steady_filters (budget : Nat) (within : budget ≤ depth) {window : Window}
    (inside : window.Inside) (enough : window.ahead.length < budget) :
    Steady (filters simple budget) window := by
  induction budget generalizing window with
  | zero => omega
  | succ budget ih =>
      refine meets_next ?_
      split
      · next starts =>
        simp only [Bool.and_eq_true] at starts
        refine (meets_onto inside (filter_start_more starts.2).1).bind fun _ first _ reached => ?_
        have shorter := ahead_length reached.1
        -- The filter is read with the whole depth, the others with what is left of the budget.
        refine (steady first reached.2 (by omega)).bind fun filter last passed inside => ?_
        have shorter' := passed.length
        refine (ih (by omega) inside (by omega)).bind fun others after _ inside => ?_
        exact meets_pure inside
      · exact meets_pure inside

/-- A compound is looked for also where nothing has been checked yet. -/
theorem steady_compound (budget : Nat) (within : budget ≤ depth) {window : Window}
    (closed : window.Closed) (enough : window.ahead.length < budget) :
    Steady (compound simple budget) window := by
  have inside (legal : window.current.token.kind ≠ .illegal)
      (more : window.current.token.kind ≠ .eof) : window.Inside := ⟨closed, legal, more⟩
  refine meets_token ?_
  split
  · next found =>
    refine (steady_filters steady budget within (inside (by simp [found]) (by simp [found]))
      enough).bind fun filters after _ inside => meets_pure inside
  · next found =>
    refine (steady_filters steady budget within (inside (by simp [found]) (by simp [found]))
      enough).bind fun filters after _ inside => meets_pure inside
  · split
    · next starts =>
      have more := filter_start_more starts
      refine (steady window (inside more.2 more.1) (by omega)).bind
        fun filter last passed inside => ?_
      have shorter := passed.length
      refine (steady_filters steady budget within inside (by omega)).bind
        fun filters after _ inside => meets_pure inside
    · split
      · next illegal => exact meets_illegal_here illegal
      · exact meets_halt nofun

omit steady in
theorem steady_combinator {window : Window} (inside : window.Inside) :
    Steady combinator? window := by
  refine meets_next ?_
  cases known : Combinator.ofKind? window.next.token.kind with
  | some combinator =>
      refine (meets_onto inside (mark_more known)).bind fun _ after _ reached => ?_
      exact meets_pure reached.2
  | none =>
      dsimp only
      split
      · exact meets_pure inside
      · exact meets_pure inside

theorem steady_chain_after (budget : Nat) (within : budget ≤ depth) (left : Selector)
    {window : Window} (inside : window.Inside) (enough : window.ahead.length < budget) :
    Steady (chainAfter simple budget left) window := by
  induction budget generalizing left window with
  | zero => omega
  | succ budget ih =>
      refine (steady_combinator inside).bind fun found marked passed inside => ?_
      have shorter := passed.length
      cases found with
      | none => exact meets_pure inside
      | some combinator =>
          refine (meets_advance inside).bind fun _ start _ ⟨moved, closed, _⟩ => ?_
          have shorter' := ahead_length moved
          refine (steady_compound steady budget (by omega) closed (by omega)).bind
            fun right last passed inside => ?_
          have shorter'' := passed.length
          exact ih (by omega) _ inside (by omega)

theorem steady_chain (budget : Nat) (within : budget ≤ depth) {window : Window}
    (closed : window.Closed) (enough : window.ahead.length < budget) :
    Steady (chain simple budget) window := by
  refine (steady_compound steady budget within closed enough).bind
    fun first last passed inside => ?_
  have shorter := passed.length
  exact steady_chain_after steady budget within first inside (by omega)

theorem steady_alternatives_after (budget : Nat) (within : budget ≤ depth) {window : Window}
    (inside : window.Inside) (enough : window.ahead.length < budget) :
    Steady (alternativesAfter simple budget) window := by
  induction budget generalizing window with
  | zero => omega
  | succ budget ih =>
      refine meets_next ?_
      split
      · next comma =>
        refine meets_past_comma inside comma fun start closed shorter => ?_
        refine (steady_chain steady budget (by omega) closed (by omega)).bind
          fun alternative last passed inside => ?_
        have shorter' := passed.length
        refine (ih (by omega) inside (by omega)).bind fun others after _ inside => ?_
        exact meets_pure inside
      · exact meets_pure inside

theorem steady_selector_list (budget : Nat) (within : budget ≤ depth) {window : Window}
    (closed : window.Closed) (enough : window.ahead.length < budget) :
    Steady (selectorList simple budget) window := by
  refine (steady_chain steady budget within closed enough).bind fun first last passed inside => ?_
  have shorter := passed.length
  refine (steady_alternatives_after steady budget within inside (by omega)).bind
    fun others after _ inside => ?_
  cases others with
  | nil => exact meets_pure inside
  | cons second others => exact meets_pure inside

/-! The functions. -/

theorem steady_negatable {window : Window} (closed : window.Closed)
    (enough : window.ahead.length < depth) : Steady (negatable simple) window := by
  have alone {item : Negatable} {after : Window} (inside : after.Inside) :
      Steady (do
        let ahead ← next
        if !ahead.spaced && startsFilter ahead.token.kind then halt (.unnegatable .compound)
        else return item) after := by
    refine meets_next ?_
    split
    · exact meets_halt nofun
    · exact meets_pure inside
  refine meets_token ?_
  dsimp only
  split
  · next found =>
    have inside : window.Inside := ⟨closed, by simp [found], by simp [found]⟩
    exact (steady_pure inside).bind fun item after _ inside => alone inside
  · next found =>
    have inside : window.Inside := ⟨closed, by simp [found], by simp [found]⟩
    exact (steady_pure inside).bind fun item after _ inside => alone inside
  · split
    · next starts =>
      have more := filter_start_more starts
      refine (steady window ⟨closed, more.2, more.1⟩ enough).bind fun test after _ inside => ?_
      split
      · exact meets_halt nofun
      · exact meets_halt nofun
      · exact meets_halt nofun
      · exact (steady_pure inside).bind fun item after _ inside => alone inside
    · split
      · next illegal => exact meets_illegal_here illegal
      · exact meets_halt nofun

theorem steady_negatables_after (budget : Nat) (within : budget ≤ depth) {window : Window}
    (inside : window.Inside) (enough : window.ahead.length < budget) :
    Steady (negatablesAfter simple budget) window := by
  induction budget generalizing window with
  | zero => omega
  | succ budget ih =>
      refine meets_next ?_
      split
      · next comma =>
        refine meets_past_comma inside comma fun start closed shorter => ?_
        refine (steady_negatable steady closed (by omega)).bind fun item last passed inside => ?_
        have shorter' := passed.length
        refine (ih (by omega) inside (by omega)).bind fun others after _ inside => ?_
        exact meets_pure inside
      · exact meets_pure inside

theorem steady_negation (budget : Nat) (within : budget ≤ depth) {window : Window}
    (inside : window.Inside) (enough : window.ahead.length < budget) :
    Steady (negation simple budget) window := by
  refine (meets_advance inside).bind fun _ start _ ⟨moved, closed, _⟩ => ?_
  have shorter := ahead_length moved
  refine (steady_negatable steady closed (by omega)).bind fun first last passed inside => ?_
  have shorter' := passed.length
  refine (steady_negatables_after steady budget within inside (by omega)).bind
    fun others after _ inside => ?_
  refine (steady_expect inside (by decide) _).bind fun _ close _ inside => ?_
  cases others with
  | nil => exact meets_pure inside
  | cons second others => exact meets_pure inside

theorem steady_relation (budget : Nat) (within : budget ≤ depth) {window : Window}
    (inside : window.Inside) (enough : window.ahead.length < budget) :
    Steady (relation simple budget) window := by
  have argued {combinator : Option Combinator} {start : Window} (closed : start.Closed)
      (enough : start.ahead.length < budget) :
      Steady (do
        let argument ← selectorList simple budget
        expect .rightParen .hasClose
        return Simple.has combinator argument) start := by
    refine (steady_selector_list steady budget within closed enough).bind
      fun argument last _ inside => ?_
    refine (steady_expect inside (by decide) _).bind fun _ close _ inside => ?_
    exact meets_pure inside
  refine (meets_advance inside).bind fun _ start _ ⟨moved, closed, legal⟩ => ?_
  have shorter := ahead_length moved
  refine meets_token ?_
  dsimp only
  split
  · next known =>
    obtain ⟨combinator, known⟩ := Option.isSome_iff_exists.mp known
    refine (meets_advance ⟨closed, legal, mark_more known⟩).bind fun _ after passed reached => ?_
    have shorter' := passed.length
    exact argued reached.2.1 (by omega)
  · exact argued closed (by omega)

theorem steady_function (name : String) (budget : Nat) (within : budget ≤ depth)
    {window : Window} (inside : window.Inside) (enough : window.ahead.length < budget) :
    Steady (function simple name budget) window := by
  unfold function
  split
  · exact steady_negation steady budget within inside enough
  · split
    · exact steady_relation steady budget within inside enough
    · exact (steady_argument name budget inside enough).bind
        fun argument after _ inside => meets_pure inside

theorem steady_pseudo_class (budget : Nat) (within : budget ≤ depth) {window : Window}
    (inside : window.Inside) (enough : window.ahead.length ≤ budget) :
    Steady (pseudoClass simple budget) window := by
  refine meets_next ?_
  split
  · exact meets_unexpected_next inside _
  · split
    · next named =>
      refine (meets_onto inside (by simp [named])).bind fun _ after _ reached => ?_
      exact meets_pure reached.2
    · next named =>
      refine (meets_onto inside (by simp [named])).bind fun _ after _ reached => ?_
      have shorter := ahead_length reached.1
      exact steady_function steady _ budget within reached.2 (by omega)
    · exact meets_unexpected_next inside _

end

theorem steady_simple (depth : Nat) : SteadyWithin (simple depth) depth := by
  induction depth with
  | zero => exact fun window _ enough => absurd enough (Nat.not_lt_zero _)
  | succ depth ih =>
      intro window inside enough
      refine meets_token ?_
      split
      · exact meets_pure inside
      · refine (steady_expect_adjacent inside (by decide) _).bind fun _ after _ inside => ?_
        exact meets_token (meets_pure inside)
      · exact (steady_attribute inside).bind fun test after _ inside => meets_pure inside
      -- What stands in a function is read at the next depth, but behind its name.
      · exact steady_pseudo_class ih depth (Nat.le_refl depth) inside (by omega)
      · refine (steady_expect_adjacent inside (by decide) _).bind fun _ after _ inside => ?_
        exact meets_token (meets_pure inside)
      · exact meets_halt nofun

theorem meets_whole_selector (budget : Nat) {window : Window} (closed : window.Closed)
    (enough : window.ahead.length < budget) :
    Meets (wholeSelector budget) window fun _ after => after.Inside := by
  refine (steady_selector_list (steady_simple budget) budget (Nat.le_refl budget) closed
    enough).bind fun selector last _ inside => ?_
  refine meets_next ?_
  split
  · exact meets_pure inside
  · refine (meets_advance inside).bind fun _ after _ _ => ?_
    exact meets_token (meets_halt nofun)

end Reading

/-! Whole texts. -/

theorem of_text_closed (text : String) : (Window.ofText text).Closed := by
  obtain ⟨inside, last, all, ends, -⟩ := lexemes_end text.toList
  exact ⟨inside, last, (of_text_stream text).trans all, by simpa [Token.isEnd] using ends⟩

/-- Further on in a text, the end token still stands last and nowhere else. -/
theorem shown_end {text : String} {window : Window} (left : window.shown <:+ lexemes text.toList) :
    ∃ inside last, window.shown = inside ++ [last] ∧ last.token.isEnd = true ∧
      ∀ lexeme ∈ inside, lexeme.token.isEnd = false := by
  obtain ⟨inside, last, all, ends, others⟩ := lexemes_end text.toList
  rw [all] at left
  obtain ⟨front, shows, part⟩ := Window.shown_of_suffix left
  exact ⟨front, last, shows, ends, fun lexeme member => others lexeme (part.subset member)⟩

theorem of_text_meets (text : String) :
    Reading.Meets (Reading.wholeSelector (Window.ofText text).budget) (Window.ofText text)
      fun _ after => after.Inside :=
  Reading.meets_whole_selector _ (of_text_closed text) (Nat.lt_succ_self _)

end TreeSelect
