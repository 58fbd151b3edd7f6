import TreeSelect.Proofs.Shape
import TreeSelect.Proofs.Standalone

/-!
Texts of one name. A text is read as one identifier and nothing else exactly where it is an
identifier with white space around it, or none. So the test for identifiers, which looks at
characters only, says what reading the text would say: the literal is the whole text exactly where
there is no white space to lose.
-/

namespace TreeSelect

/-- A name between white space is read as a name: white space does not lengthen it, and it is no
parenthesis that would turn it into a function. -/
theorem lexemes_lone_name {name : String} (identifier : isIdentifier name = true)
    {before behind : List Char} (blank : Text.Blank before) (blank' : Text.Blank behind) :
    (lexemes (before ++ (name.toList ++ behind))).map Lexeme.token =
      [⟨.ident, name⟩, Token.endOfInput] := by
  have clear := Token.clear_of_blank blank'
  have ends : Token.startsWithIdentChar behind = false ∧ behind.head? ≠ some '(' :=
    ⟨(Token.starts_with_ident_char_iff behind).mpr fun c head => (clear c head).1,
      fun call => (clear '(' call).2.1 rfl⟩
  rw [lexemes_token blank (Token.spelt_ident identifier ends) rfl, lexemes_blank_alone blank']
  rfl

/-- The name is all that is not white space. -/
theorem exists_around_lone_name {text : List Char} {name : String}
    (read : (lexemes text).map Lexeme.token = [⟨.ident, name⟩, Token.endOfInput]) :
    isIdentifier name = true ∧ ∃ before behind, Text.Blank before ∧ Text.Blank behind ∧
      text = before ++ (name.toList ++ behind) := by
  obtain ⟨stretches, last, layout⟩ := exists_layout text
  have tokens : stretches.map Stretch.token = [⟨.ident, name⟩] :=
    List.append_cancel_right (layout.tokens_eq.symm.trans read)
  obtain ⟨⟨before, piece, token, blank, starts⟩, rfl, named⟩ := List.map_eq_singleton_iff.mp tokens
  obtain rfl : token = ⟨.ident, name⟩ := named
  obtain ⟨rest, whole, first, -, written, behind⟩ := layout.head
  obtain ⟨rfl, blank', -⟩ := behind.read_last
  have genuine := Token.genuine_read text
  rw [first] at genuine
  have spelled : piece = name.toList := by
    change Token.Written ⟨.ident, name⟩ piece rest at written
    cases written with
    | plainly _ _ => rfl
  refine ⟨genuine.ident rfl, before, rest, blank, blank', ?_⟩
  rw [whole, ← spelled]
  exact List.append_assoc before piece rest

/-- A text is an identifier exactly where it is read as one identifier token that has all of the
text for its literal, with the end token behind it. -/
theorem identifier_iff_lone_token (text : String) :
    isIdentifier text = true ↔ tokens text = [⟨.ident, text⟩, Token.endOfInput] := by
  constructor
  · intro identifier
    have nothing : Text.Blank [] := List.forall_mem_nil _
    have read := lexemes_lone_name identifier nothing nothing
    rwa [List.nil_append, List.append_nil] at read
  · exact fun read => (exists_around_lone_name read).1

end TreeSelect
