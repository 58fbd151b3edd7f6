import TreeSelect.Proofs.Lookahead

/-!
Calls on one parser, one after the other. A call reads on from where the last one has left the
window, whether that one gave a selector or a fault; the faults are kept, and nothing asks for them.
So a call behind one that failed gives a selector wherever what is left derives one.

What is left only gets less. A call that leaves all of it is repeated by every later call, so a
failure lasts if it has lasted for as many calls as there were tokens left.
-/

namespace TreeSelect

namespace Reading

open Window

variable {α β : Type}

/-- The reading comes to nothing, and has not moved. -/
def Stays (reading : Reading α) (window : Window) : Prop :=
  (∃ halt, answer reading window = .error halt) ∧ stop reading window = window

theorem Stays.bind {first : Reading α} {second : α → Reading β} {window : Window}
    (stays : Stays first window) : Stays (first >>= second) window := by
  obtain ⟨⟨halt, stopped⟩, same⟩ := stays
  refine ⟨⟨halt, ?_⟩, ?_⟩
  · rw [answer_bind, stopped]
  · rw [stop_bind, stopped]
    exact same

theorem Stays.behind_token {reading : Token → Reading α} {window : Window}
    (stays : Stays (reading window.current.token) window) : Stays (token >>= reading) window :=
  stays

/-- Where no compound starts, the reading of a selector stays. -/
theorem stays_whole_selector (budget : Nat) {window : Window}
    (none : startsCompound window.current.token.kind = false) :
    Stays (wholeSelector budget) window := by
  simp only [startsCompound, Bool.or_eq_false_iff, beq_eq_false_iff_ne] at none
  have compound : Stays (compound (simple budget) budget) window := by
    refine Stays.behind_token ?_
    split
    · next named => exact absurd named none.1.1
    · next star => exact absurd star none.1.2
    · rw [none.2, if_neg Bool.false_ne_true]
      split
      · exact ⟨⟨_, rfl⟩, rfl⟩
      · exact ⟨⟨_, rfl⟩, rfl⟩
  exact (compound.bind.bind).bind

end Reading

open Reading

namespace Parser

/-- The parser behind so many calls. -/
def after (parser : Parser) : Nat → Parser
  | 0 => parser
  | count + 1 => parser.next.2.after count

/-- The fault that a call has told. -/
def told : Except Fault Selector → List Fault
  | .ok _ => []
  | .error fault => [fault]

theorem next_faults (parser : Parser) :
    parser.next.2.faults = parser.faults ++ told parser.next.1 := by
  unfold next
  cases EStateM.run (wholeSelector parser.window.budget) parser.window with
  | ok selector window => exact (List.append_nil parser.faults).symm
  | error halt window => rfl

theorem faults_kept (parser : Parser) (count : Nat) :
    parser.faults <+: (parser.after count).faults := by
  induction count generalizing parser with
  | zero => exact List.prefix_rfl
  | succ count ih =>
      have here : parser.faults <+: parser.next.2.faults := ⟨_, (next_faults parser).symm⟩
      exact here.trans (ih parser.next.2)

/-- A call leaves the end of what it has found, be it all. -/
theorem next_suffix (parser : Parser) : parser.next.2.window.shown <:+ parser.window.shown := by
  have agrees : Local (wholeSelector parser.window.budget) (wholeSelector parser.window.budget) :=
    local_whole_selector _ _
  rw [next_window]
  exact stop_suffix agrees parser.window

theorem after_suffix (parser : Parser) (count : Nat) :
    (parser.after count).window.shown <:+ parser.window.shown := by
  induction count generalizing parser with
  | zero => exact List.suffix_rfl
  | succ count ih => exact (ih parser.next.2).trans (next_suffix parser)

/-- The faults that are kept have no part in what a call gives. -/
theorem next_same {parser other : Parser} (same : parser.window = other.window) :
    parser.next.1 = other.next.1 ∧ parser.next.2.window = other.next.2.window := by
  rw [next_answer, next_answer, next_window, next_window, same]
  exact ⟨rfl, rfl⟩

/-- A call that leaves all of what it has found is repeated by every later one. -/
theorem after_fixed {parser : Parser} (fixed : parser.next.2.window = parser.window)
    (count : Nat) : (parser.after count).window = parser.window := by
  induction count generalizing parser with
  | zero => rfl
  | succ count ih =>
      have again : parser.next.2.next.2.window = parser.next.2.window :=
        (next_same fixed).2
      exact (ih again).trans fixed

theorem shorter_of_moved {parser : Parser} (moved : parser.next.2.window ≠ parser.window) :
    parser.next.2.window.ahead.length < parser.window.ahead.length := by
  have suffix := next_suffix parser
  have length := suffix.length_le
  simp only [Window.shown, List.length_cons, Nat.add_le_add_iff_right] at length
  refine Nat.lt_of_le_of_ne length fun same => moved (Window.shown_injective ?_)
  exact suffix.eq_of_length (congrArg (· + 1) same)

def Fails (parser : Parser) : Prop := ∀ selector, parser.next.1 ≠ .ok selector

theorem fails_of_fixed {parser : Parser} (fixed : parser.next.2.window = parser.window)
    (fails : parser.Fails) (count : Nat) : (parser.after count).Fails := by
  intro selector
  rw [(next_same (after_fixed fixed count)).1]
  exact fails selector

/-- The induction is on the number of tokens left: a call that fails leaves fewer of them, or else
the same failure goes on for ever. -/
theorem fails_after {bound : Nat} {parser : Parser} (short : parser.window.ahead.length ≤ bound)
    (fails : ∀ count ≤ bound, (parser.after count).Fails) (count : Nat) :
    (parser.after count).Fails := by
  induction bound generalizing parser count with
  | zero =>
      by_cases fixed : parser.next.2.window = parser.window
      · exact fails_of_fixed fixed (fails 0 (Nat.le_refl 0)) count
      · have shorter := shorter_of_moved fixed
        omega
  | succ bound ih =>
      by_cases fixed : parser.next.2.window = parser.window
      · exact fails_of_fixed fixed (fails 0 (Nat.zero_le _)) count
      · have shorter := shorter_of_moved fixed
        cases count with
        | zero => exact fails 0 (Nat.zero_le _)
        | succ count =>
            exact ih (by omega) (fun later less => fails (later + 1) (Nat.succ_le_succ less)) count

/-! Parsers of texts. -/

/-- The parser stands in the text, at its beginning or further on. -/
def Within (parser : Parser) (text : String) : Prop :=
  parser.window.shown <:+ lexemes text.toList

theorem of_text_within (text : String) (count : Nat) : ((ofText text).after count).Within text := by
  have whole : (ofText text).window.shown = lexemes text.toList := of_text_shown text
  unfold Within
  rw [← whole]
  exact after_suffix (ofText text) count

theorem Within.next_ok_iff {parser : Parser} {text : String} (within : parser.Within text)
    (selector : Selector) :
    parser.next.1 = .ok selector ↔ Grammar.Complete parser.window.shown selector := by
  obtain ⟨inside, last, shows, ends, others⟩ := shown_end within
  exact TreeSelect.next_ok_iff shows ends others selector

theorem fails_of_no_start {parser : Parser}
    (none : startsCompound parser.window.current.token.kind = false) (count : Nat) :
    (parser.after count).Fails := by
  obtain ⟨⟨halt, stopped⟩, same⟩ := stays_whole_selector parser.window.budget none
  refine fails_of_fixed ((next_window parser).trans same) (fun selector given => ?_) count
  rw [next_answer, stopped] at given
  cases given

/-- Behind a call that failed its fault stays among the faults, and a later call gives a selector
all the same where the tokens that are left derive it. The later calls all fail exactly if none of
the first of them does, as many as there are tokens left and one more; and they do so where the
failed call has stopped on a token that starts no compound. -/
theorem failed_parser_reads_on {text : String} {count : Nat} {fault : Fault} {left : Parser}
    (failed : ((ofText text).after count).next = (.error fault, left)) :
    (∀ later, fault ∈ (left.after later).faults) ∧
      (∀ later, (left.after later).window.shown <:+ lexemes text.toList) ∧
      (∀ later selector, (left.after later).next.1 = .ok selector ↔
        Grammar.Complete (left.after later).window.shown selector) ∧
      ((∀ later, ∃ other, (left.after later).next.1 = .error other) ↔
        ∀ later ≤ left.window.ahead.length, ∀ selector,
          ¬ Grammar.Complete (left.after later).window.shown selector) ∧
      (startsCompound left.window.current.token.kind = false →
        ∀ later, ∃ other, (left.after later).next.1 = .error other) := by
  have within (later : Nat) : (left.after later).Within text := by
    have here := (next_suffix _).trans (of_text_within text count)
    rw [failed] at here
    exact (after_suffix left later).trans here
  have error (parser : Parser) : (∃ other, parser.next.1 = .error other) ↔ parser.Fails := by
    unfold Fails
    cases parser.next.1 <;> simp
  refine ⟨fun later => ?_, within, fun later => (within later).next_ok_iff, ?_, ?_⟩
  · have faults := next_faults ((ofText text).after count)
    rw [failed] at faults
    apply (faults_kept left later).subset
    rw [faults]
    exact List.mem_append_right _ List.mem_cons_self
  · simp only [error]
    constructor
    · intro fails later _ selector complete
      exact fails later selector (((within later).next_ok_iff selector).mpr complete)
    · intro none
      refine fails_after (Nat.le_refl _) fun later less selector given => ?_
      exact none later less selector (((within later).next_ok_iff selector).mp given)
  · intro none later
    exact (error _).mpr (fails_of_no_start none later)

def openNegation : String := ":not(b c"

/-- What `:not()` stopped in front of. -/
def descent : Selector :=
  .joined (.compound (some (.type "b")) []) .descendant (.compound (some (.type "c")) [])

/-- A negation that is not closed is a fault, and behind it the same parser gives a selector. -/
theorem descent_given_after_fault :
    ∃ left, ((ofText openNegation).after 0).next =
        (.error (.expected .negationClose .ident), left) ∧
      left.next.1 = .ok descent ∧
      .expected .negationClose .ident ∈ left.next.2.faults := by
  have failed : ((ofText openNegation).after 0).next =
      (.error (.expected .negationClose .ident), (ofText openNegation).next.2) :=
    Prod.ext (@parse_fails openNegation _ (by decide +kernel)) rfl
  obtain ⟨kept, -, reads, -⟩ := failed_parser_reads_on failed
  let second : Lexeme := ⟨false, ⟨.ident, "b"⟩⟩
  let third : Lexeme := ⟨true, ⟨.ident, "c"⟩⟩
  have shows : (ofText openNegation).next.2.window.shown =
      [second, third] ++ [⟨false, Token.endOfInput⟩] := by decide +kernel
  have chain : Grammar.Chain ([second] ++ third :: ([] ++ [])) descent :=
    .mk (.type rfl .none) (.spaced rfl (.type rfl .none) .none)
  have listing : Grammar.Listing [second, third] descent := .mk chain .none
  exact ⟨_, failed, (reads 0 descent).mpr ⟨_, _, shows, rfl, listing⟩, kept 1⟩

end Parser
end TreeSelect
