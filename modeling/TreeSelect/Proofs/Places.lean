import TreeSelect.Proofs.Layout
import TreeSelect.Token.Indexed

/-!
The cursor with a place, against the cursor with a rest. All along the place divides the text into
what was passed and what is left, and every program below goes from one division to another one:
forward over what is left, or back over a character that was passed just before. So no place is
ever before the start or behind the end of the text, what is cut out lies between two places that
the cursor has been at, and both cursors give the same answers for ever.
-/

namespace TreeSelect

namespace IndexedCursor

/-- The cursor between what was passed and what is left of the text. -/
def behind (passed rest : List Char) (ended : Bool) : IndexedCursor :=
  ⟨(passed ++ rest).toArray, passed.length, ended⟩

variable {passed rest : List Char} {ended : Bool}

@[simp] theorem peek_behind : (behind passed rest ended).peek? = rest.head? := by
  rw [peek?, behind, List.getElem?_toArray, List.getElem?_append_right (Nat.le_refl _),
    Nat.sub_self, List.head?_eq_getElem?]

theorem advanced_behind (c : Char) :
    (behind passed (c :: rest) ended).advanced = behind (passed ++ [c]) rest ended := by
  simp [behind, advanced]

theorem spaced_behind : (behind passed rest ended).spaced = Token.startsBlank rest := by
  rw [spaced, peek_behind]
  cases rest <;> rfl

theorem skip_while_behind (keep : Char → Bool) :
    (behind passed rest ended).skipWhile keep =
      behind (passed ++ rest.takeWhile keep) (rest.dropWhile keep) ended := by
  induction rest generalizing passed with
  | nil =>
      rw [skip_while_none keep peek_behind]
      simp
  | cons c rest ih =>
      rw [skip_while_some keep peek_behind, advanced_behind, ih]
      cases kept : keep c with
      | true => simp [kept]
      | false => simp [kept]

theorem skip_past_absent {wanted : Char} (absent : wanted ∉ rest) :
    (behind passed rest ended).skipPast wanted = (false, behind (passed ++ rest) [] ended) := by
  induction rest generalizing passed with
  | nil => rw [skip_past_none wanted peek_behind, List.append_nil]
  | cons c rest ih =>
      rw [List.mem_cons, not_or] at absent
      rw [skip_past_some wanted peek_behind, if_neg (Ne.symm absent.1), advanced_behind,
        ih absent.2, List.append_assoc, List.singleton_append]

theorem skip_past_found {wanted : Char} {front : List Char} (absent : wanted ∉ front)
    (after : List Char) :
    (behind passed (front ++ wanted :: after) ended).skipPast wanted =
      (true, behind (passed ++ front ++ [wanted]) after ended) := by
  induction front generalizing passed with
  | nil => rw [List.nil_append, skip_past_some wanted peek_behind, if_pos rfl, advanced_behind,
      List.append_nil]
  | cons c front ih =>
      rw [List.mem_cons, not_or] at absent
      rw [List.cons_append, skip_past_some wanted peek_behind, if_neg (Ne.symm absent.1),
        advanced_behind, ih absent.2, List.append_assoc passed, List.singleton_append]

end IndexedCursor

namespace Placing

open IndexedCursor

variable {α β : Type} {passed rest : List Char} {ended : Bool}

/-- From here the program comes to no fault: it gives the value and leaves the cursor at `after`. -/
def Goes (program : Placing α) (cursor : IndexedCursor) (value : α) (after : IndexedCursor) :
    Prop :=
  program.run cursor = .ok value after

theorem Goes.bind {first : Placing α} {second : α → Placing β} {cursor middle after : IndexedCursor}
    {value : α} {result : β} (here : Goes first cursor value middle)
    (there : Goes (second value) middle result after) :
    Goes (first >>= second) cursor result after := by
  simp only [Goes, EStateM.run, Bind.bind, EStateM.bind] at here there ⊢
  rw [here]
  exact there

theorem Goes.map {first : Placing α} {second : α → β} {cursor after : IndexedCursor} {value : α}
    (here : Goes first cursor value after) :
    Goes (first >>= fun found => pure (second found)) cursor (second value) after :=
  here.bind rfl

/-! Steps. -/

theorem goes_get (cursor : IndexedCursor) : Goes get cursor cursor cursor := rfl

theorem goes_set (cursor given : IndexedCursor) : Goes (set given) cursor ⟨⟩ given := rfl

theorem goes_consume_none :
    Goes consume? (behind passed [] ended) none (behind passed [] ended) := by
  refine (goes_get _).bind ?_
  rw [peek_behind]
  rfl

theorem goes_consume_some (c : Char) :
    Goes consume? (behind passed (c :: rest) ended) (some c) (behind (passed ++ [c]) rest ended) := by
  refine (goes_get _).bind ?_
  rw [peek_behind, ← advanced_behind]
  exact (goes_set _ _).map

theorem goes_consume_if_found (wanted : Char) :
    Goes (consumeIf wanted) (behind passed (wanted :: rest) ended) true
      (behind (passed ++ [wanted]) rest ended) := by
  refine (goes_get _).bind ?_
  rw [peek_behind, List.head?_cons, if_pos rfl, ← advanced_behind]
  exact (goes_set _ _).map

theorem goes_consume_if_other {wanted : Char} (other : rest.head? ≠ some wanted) :
    Goes (consumeIf wanted) (behind passed rest ended) false (behind passed rest ended) := by
  refine (goes_get _).bind ?_
  rw [peek_behind, if_neg other]
  rfl

theorem goes_one_before (c : Char) (cursor : IndexedCursor) :
    Goes (oneBefore (passed ++ [c]).length) cursor passed.length cursor := by
  rw [List.length_append]
  rfl

/-- Back over the character that was passed last. -/
theorem goes_reconsume (c : Char) :
    Goes reconsume (behind (passed ++ [c]) rest ended) ⟨⟩ (behind passed (c :: rest) ended) := by
  have back : { behind (passed ++ [c]) rest ended with place := passed.length } =
      behind passed (c :: rest) ended := by
    simp [behind]
  rw [← back]
  exact (goes_get _).bind ((goes_one_before c _).bind (goes_set _ _))

/-- What was passed in between is what is cut out. -/
theorem goes_cut {cursor : IndexedCursor} {taken : List Char}
    (whole : cursor.text = (passed ++ taken ++ rest).toArray) :
    Goes (cut passed.length (passed ++ taken).length) cursor (String.ofList taken) cursor := by
  have ordered : passed.length ≤ (passed ++ taken).length := by simp
  have inside : (passed ++ taken).length ≤ cursor.text.size := by simp [whole]
  have stretch : (cursor.text.extract passed.length (passed ++ taken).length).toList = taken := by
    simp [whole]
  refine (goes_get _).bind ?_
  rw [if_pos ⟨ordered, inside⟩, stretch]
  rfl

theorem goes_take_while (keep : Char → Bool) :
    Goes (takeWhile keep) (behind passed rest ended) (String.ofList (rest.takeWhile keep))
      (behind (passed ++ rest.takeWhile keep) (rest.dropWhile keep) ended) := by
  have skipped : Goes (modify (·.skipWhile keep)) (behind passed rest ended) ⟨⟩
      (behind (passed ++ rest.takeWhile keep) (rest.dropWhile keep) ended) := by
    rw [← skip_while_behind]
    rfl
  exact (goes_get _).bind (skipped.bind ((goes_get _).bind (goes_cut rfl)))

/-! Tokens. -/

/-- Behind the character that was consumed, the program gives what the reading of a token gives
and goes on to what it leaves. -/
def Takes (program : Placing Token) (c : Char) (rest : List Char) (reading : Token × List Char) :
    Prop :=
  ∀ passed ended, ∃ taken, c :: rest = taken ++ reading.2 ∧
    Goes program (behind (passed ++ [c]) rest ended) reading.1
      (behind (passed ++ taken) reading.2 ended)

variable {c : Char}

theorem takes_pure (token : Token) : Takes (pure token) c rest (token, rest) :=
  fun _ _ => ⟨[c], rfl, rfl⟩

theorem Takes.ite {condition : Prop} [Decidable condition] {program other : Placing Token}
    {reading otherwise : Token × List Char} (here : condition → Takes program c rest reading)
    (there : ¬ condition → Takes other c rest otherwise) :
    Takes (if condition then program else other) c rest
      (if condition then reading else otherwise) := by
  by_cases met : condition
  · rw [if_pos met, if_pos met]
    exact here met
  · rw [if_neg met, if_neg met]
    exact there met

/-- A program that looks ahead sees what is left. -/
theorem Takes.look {body : IndexedCursor → Placing Token} {program : Placing Token}
    {reading : Token × List Char}
    (seen : ∀ passed ended, body (behind (passed ++ [c]) rest ended) = program)
    (takes : Takes program c rest reading) : Takes (get >>= body) c rest reading := by
  intro passed ended
  obtain ⟨taken, split, goes⟩ := takes passed ended
  exact ⟨taken, split, (goes_get _).bind (seen passed ended ▸ goes)⟩

theorem takes_quoted {quote : Char} (mark : Token.isQuote quote = true) :
    Takes (quoted quote) quote rest (Token.readQuoted quote rest) := by
  intro passed ended
  have read : Token.readAt quote rest = Token.readQuoted quote rest := if_pos mark
  rw [← read]
  by_cases closed : quote ∈ rest
  · obtain ⟨literal, after, rfl, absent⟩ := List.eq_append_cons_of_mem closed
    -- The cursor stops behind the closing quote, and the literal ends one place before that.
    let stop := behind (passed ++ [quote] ++ literal ++ [quote]) after ended
    have skipped : Goes (modifyGet (·.skipPast quote))
        (behind (passed ++ [quote]) (literal ++ quote :: after) ended) true stop := by
      show EStateM.Result.ok _ _ = _
      rw [skip_past_found absent]
    have cut : Goes (cut (passed ++ [quote]).length (passed ++ [quote] ++ literal).length) stop
        (String.ofList literal) stop := by
      refine @goes_cut _ (quote :: after) stop literal (congrArg List.toArray ?_)
      simp
    rw [Token.read_at_string mark absent]
    refine ⟨quote :: (literal ++ [quote]), by simp, ?_⟩
    have whole : passed ++ quote :: (literal ++ [quote]) = passed ++ [quote] ++ literal ++ [quote] := by
      simp
    rw [whole]
    exact (goes_get _).bind (skipped.bind ((goes_get _).bind
      ((goes_one_before quote _).bind cut.map)))
  · have skipped : Goes (modifyGet (·.skipPast quote)) (behind (passed ++ [quote]) rest ended) false
        (behind (passed ++ [quote] ++ rest) [] ended) := by
      show EStateM.Result.ok _ _ = _
      rw [skip_past_absent closed]
    rw [Token.read_at_unclosed mark closed]
    refine ⟨quote :: rest, by simp, ?_⟩
    have whole : passed ++ quote :: rest = passed ++ [quote] ++ rest := by simp
    rw [whole]
    exact (goes_get _).bind (skipped.bind rfl)

theorem takes_paired (first : Char) (pair : Token.Pair) :
    Takes (paired first pair) first rest (Token.readPair first pair rest) := by
  intro passed ended
  by_cases found : rest.head? = some pair.second
  · obtain ⟨after, rfl⟩ := List.head?_eq_some_iff.mp found
    rw [Token.readPair, if_pos rfl]
    refine ⟨[first, pair.second], rfl, ?_⟩
    rw [List.append_cons passed first [pair.second]]
    exact (goes_consume_if_found pair.second).bind rfl
  · have alone : Token.readPair first pair rest = (⟨pair.alone, first.toString⟩, rest) := by
      cases rest with
      | nil => rfl
      | cons next rest => exact if_neg fun same => found (congrArg some same)
    rw [alone]
    exact ⟨[first], rfl, (goes_consume_if_other found).bind rfl⟩

theorem takes_marked (mark : Char) (kind : TokenKind) :
    Takes (marked mark kind) mark rest (Token.readSigil mark kind rest) := by
  have read : Token.readSigil mark kind rest = if rest.head?.any Text.isAlphabetic then
      (⟨kind, String.ofList (rest.takeWhile isIdentChar)⟩, rest.dropWhile isIdentChar)
      else (⟨.illegal, mark.toString⟩, rest) := by
    cases rest <;> rfl
  rw [read]
  refine Takes.look (fun passed ended => by rw [peek_behind]) ?_
  refine .ite (fun _ passed ended => ?_) fun _ => takes_pure _
  refine ⟨mark :: rest.takeWhile isIdentChar, ?_, ?_⟩
  · rw [List.cons_append, List.takeWhile_append_dropWhile]
  · rw [List.append_cons passed mark (rest.takeWhile isIdentChar)]
    exact (goes_take_while isIdentChar).map

theorem takes_name : Takes name c rest (Token.readName (c :: rest)) := by
  intro passed ended
  have split := (c :: rest).takeWhile_append_dropWhile (p := isIdentChar)
  have taken : Goes (takeWhile isIdentChar) (behind passed (c :: rest) ended) _ _ :=
    goes_take_while isIdentChar
  by_cases call : ((c :: rest).dropWhile isIdentChar).head? = some '('
  · obtain ⟨after, left⟩ := List.head?_eq_some_iff.mp call
    rw [left] at split taken
    have function : Token.readName (c :: rest) =
        (⟨.function, String.ofList ((c :: rest).takeWhile isIdentChar)⟩, after) := by
      simp only [Token.readName, left]
    rw [function]
    refine ⟨(c :: rest).takeWhile isIdentChar ++ ['('], ?_, ?_⟩
    · rw [List.append_assoc, List.singleton_append, split]
    · rw [← List.append_assoc]
      exact (goes_reconsume c).bind (taken.bind ((goes_consume_if_found '(').bind rfl))
  · have ident : Token.readName (c :: rest) =
        (⟨.ident, String.ofList ((c :: rest).takeWhile isIdentChar)⟩,
          (c :: rest).dropWhile isIdentChar) := by
      simp only [Token.readName]
      split
      · next left => exact absurd (congrArg List.head? left) call
      · rfl
    rw [ident]
    exact ⟨_, split.symm,
      (goes_reconsume c).bind (taken.bind ((goes_consume_if_other call).bind rfl))⟩

theorem takes_number : Takes number c rest (Token.readNumber (c :: rest)) := by
  intro passed ended
  exact ⟨(c :: rest).takeWhile Char.isDigit, (List.takeWhile_append_dropWhile).symm,
    (goes_reconsume c).bind (goes_take_while Char.isDigit).map⟩

theorem takes_unmarked (c : Char) (rest : List Char) :
    Takes (unmarked c) c rest
      (if c = '-' ∧ Token.startsWithIdentChar rest = false then (⟨.minus, "-"⟩, rest)
        else if isIdentStart c then Token.readName (c :: rest)
        else if c.isDigit then Token.readNumber (c :: rest)
        else (⟨.illegal, c.toString⟩, rest)) := by
  have ahead : Token.startsWithIdentChar rest = rest.head?.any isIdentChar := by
    cases rest <;> rfl
  rw [ahead]
  refine Takes.look (fun passed ended => by rw [peek_behind]) ?_
  refine .ite (fun _ => takes_pure _) fun _ => ?_
  refine .ite (fun _ => takes_name) fun _ => ?_
  exact .ite (fun _ => takes_number) fun _ => takes_pure _

theorem takes_token_at (c : Char) (rest : List Char) :
    Takes (tokenAt c) c rest (Token.readAt c rest) := by
  unfold tokenAt Token.readAt
  refine .ite takes_quoted fun _ => ?_
  cases Token.punctuation? c with
  | some kind => exact takes_pure _
  | none =>
  cases Token.pair? c with
  | some pair => exact takes_paired c pair
  | none =>
  cases Token.sigil? c with
  | some kind => exact takes_marked c kind
  | none => exact takes_unmarked c rest

/-- One token read by place is the token read off the rest, and the places stay apart. -/
theorem goes_token (passed rest : List Char) (ended : Bool) :
    ∃ taken, rest = taken ++ (Token.read rest).2 ∧
      Goes token (behind passed rest ended) (Token.read rest).1
        (behind (passed ++ taken) (Token.read rest).2 ended) := by
  have split := rest.takeWhile_append_dropWhile (p := Text.isBlank)
  have skipped : Goes (modify (·.skipWhile Text.isBlank)) (behind passed rest ended) ⟨⟩
      (behind (passed ++ rest.takeWhile Text.isBlank) (rest.dropWhile Text.isBlank) ended) := by
    rw [← skip_while_behind]
    rfl
  cases found : rest.dropWhile Text.isBlank with
  | nil =>
      have read : Token.read rest = (Token.endOfInput, []) := by rw [Token.read, found]
      rw [found] at split skipped
      rw [read]
      exact ⟨_, split.symm, skipped.bind (goes_consume_none.bind rfl)⟩
  | cons c left =>
      have read : Token.read rest = Token.readAt c left := by rw [Token.read, found]
      rw [found] at split skipped
      rw [read]
      obtain ⟨taken, whole, goes⟩ :=
        takes_token_at c left (passed ++ rest.takeWhile Text.isBlank) ended
      refine ⟨rest.takeWhile Text.isBlank ++ taken, ?_, ?_⟩
      · rw [List.append_assoc, ← whole, split]
      · rw [← List.append_assoc]
        exact skipped.bind ((goes_consume_some c).bind goes)

theorem goes_next (passed rest : List Char) (ended : Bool) :
    ∃ taken, rest = taken ++ (Cursor.next? ⟨rest, ended⟩).2.rest ∧
      Goes next? (behind passed rest ended) (Cursor.next? ⟨rest, ended⟩).1
        (behind (passed ++ taken) (Cursor.next? ⟨rest, ended⟩).2.rest
          (Cursor.next? ⟨rest, ended⟩).2.ended) := by
  cases ended with
  | true => exact ⟨[], rfl, (List.append_nil passed).symm ▸ rfl⟩
  | false =>
      obtain ⟨taken, split, goes⟩ := goes_token passed rest false
      exact ⟨taken, split, (goes_get _).bind (goes.bind rfl)⟩

/-! Calls, one after the other. -/

theorem goes_ask (passed : List Char) (cursor : Cursor) (call : CursorCall) :
    ∃ taken, cursor.rest = taken ++ (cursor.ask call).2.rest ∧
      Goes (ask call) (behind passed cursor.rest cursor.ended) (cursor.ask call).1
        (behind (passed ++ taken) (cursor.ask call).2.rest (cursor.ask call).2.ended) := by
  cases call with
  | read =>
      obtain ⟨taken, split, goes⟩ := goes_token passed cursor.rest cursor.ended
      exact ⟨taken, split, goes.map⟩
  | next =>
      obtain ⟨taken, split, goes⟩ := goes_next passed cursor.rest cursor.ended
      exact ⟨taken, split, goes.map⟩
  | spaced =>
      have looked : Goes (ask .spaced) (behind passed cursor.rest cursor.ended)
          (.spaced (behind passed cursor.rest cursor.ended).spaced)
          (behind passed cursor.rest cursor.ended) := rfl
      rw [spaced_behind] at looked
      exact ⟨[], rfl, (List.append_nil passed).symm ▸ looked⟩

/-- Both cursors give the same answers to the same calls, and with a place none of them fails. -/
theorem goes_ask_all (passed : List Char) (cursor : Cursor) (calls : List CursorCall) :
    ∃ taken, cursor.rest = taken ++ (cursor.askAll calls).2.rest ∧
      Goes (askAll calls) (behind passed cursor.rest cursor.ended) (cursor.askAll calls).1
        (behind (passed ++ taken) (cursor.askAll calls).2.rest
          (cursor.askAll calls).2.ended) := by
  induction calls generalizing passed cursor with
  | nil => exact ⟨[], rfl, (List.append_nil passed).symm ▸ rfl⟩
  | cons call rest ih =>
      obtain ⟨first, split, here⟩ := goes_ask passed cursor call
      obtain ⟨others, split', there⟩ := ih (passed ++ first) (cursor.ask call).2
      refine ⟨first ++ others, ?_, ?_⟩
      · rw [List.append_assoc, split, split']
        rfl
      · rw [← List.append_assoc]
        exact here.bind there.map

end Placing

/-! The end of the text. -/

theorem Token.read_of_end {text : List Char} (ends : (Token.read text).1.isEnd = true) :
    Token.read text = (Token.endOfInput, []) := by
  obtain ⟨stretches, last, layout⟩ := exists_layout text
  cases stretches with
  | nil => exact layout.read_last.2.2
  | cons first stretches =>
      obtain ⟨rest, -, read, more, -⟩ := layout.head
      rw [read, more] at ends
      cases ends

theorem Layout.length_le {text last : List Char} {stretches : List Stretch}
    (layout : Layout text stretches last) : stretches.length ≤ text.length := by
  induction layout with
  | last _ => exact Nat.zero_le _
  | @next stretch rest _ _ _ _ _ _ ih =>
      obtain ⟨c, tail, same, -⟩ := stretch.starts
      have filled : 1 ≤ stretch.text.length := by
        rw [Stretch.text, same, List.length_append, List.length_cons]
        omega
      rw [List.length_cons, List.length_append]
      omega

theorem Layout.more {text last : List Char} {stretches : List Stretch}
    (layout : Layout text stretches last) :
    ∀ token ∈ stretches.map Stretch.token, token.isEnd = false := by
  induction layout with
  | last _ => exact List.forall_mem_nil _
  | next more _ _ _ ih => exact List.forall_mem_cons.mpr ⟨more, ih⟩

namespace Cursor

/-- Where nothing is left, a token that is asked for outright is the end token. -/
theorem ask_at_end {cursor : Cursor} (finished : cursor.rest = []) (call : CursorCall) :
    (cursor.ask call).2.rest = [] ∧
      ∀ token, .read token = (cursor.ask call).1 → token = Token.endOfInput := by
  obtain ⟨rest, ended⟩ := cursor
  obtain rfl : rest = [] := finished
  cases call with
  | read => exact ⟨rfl, fun token same => CursorAnswer.read.inj same⟩
  | next => cases ended <;> exact ⟨rfl, nofun⟩
  | spaced => exact ⟨rfl, nofun⟩

theorem ask_all_at_end {cursor : Cursor} (finished : cursor.rest = []) (calls : List CursorCall) :
    ∀ token, .read token ∈ (cursor.askAll calls).1 → token = Token.endOfInput := by
  induction calls generalizing cursor with
  | nil => exact nofun
  | cons call rest ih =>
      obtain ⟨left, here⟩ := ask_at_end finished call
      exact fun token member => (List.mem_cons.mp member).elim (here token) (ih left token)

/-- The sequence is over. -/
theorem ask_all_ended (rest : List Char) (count : Nat) :
    (askAll ⟨rest, true⟩ (.replicate count .next)).1 = .replicate count (.next none) := by
  induction count with
  | zero => rfl
  | succ count ih => exact congrArg (.next none :: ·) ih

/-- Read as a sequence, the tokens of the text come one after the other and the end token behind
them, and then nothing more. -/
theorem ask_all_next {text last : List Char} {stretches : List Stretch}
    (layout : Layout text stretches last) (more : Nat) :
    (askAll ⟨text, false⟩ (.replicate (stretches.length + 1 + more) .next)).1 =
      (stretches.map Stretch.token ++ [Token.endOfInput]).map (fun token => .next (some token)) ++
        .replicate more (.next none) := by
  induction layout with
  | @last gap blank =>
      have read := (Layout.last blank).read_last.2.2
      have step : ask ⟨gap, false⟩ .next = (.next (some Token.endOfInput), ⟨[], true⟩) := by
        simp [ask, next?, Cursor.read, read, Token.isEnd, Token.endOfInput]
      rw [List.length_nil, Nat.zero_add, Nat.add_comm, List.replicate_succ, askAll, step]
      exact congrArg (_ :: ·) (ask_all_ended [] more)
  | @next stretch rest last stretches open' read written behind ih =>
      have step : ask ⟨stretch.text ++ rest, false⟩ .next =
          (.next (some stretch.token), ⟨rest, false⟩) := by
        simp [ask, next?, Cursor.read, read, open']
      rw [List.length_cons, show stretches.length + 1 + 1 + more = stretches.length + 1 + more + 1 by
        omega, List.replicate_succ, askAll, step]
      exact congrArg (_ :: ·) ih

end Cursor

/-! Main result. -/

/-- Whatever is asked of a cursor with a place, and in whatever order, no call goes back from the
start of the text or cuts between places that are out of order or outside of it; the answers are
those of a cursor that keeps what is left. Between the calls the place is in the text or right
behind it. A token that is asked for outright moves the place on, or else it is the end token, and
then so is every one after it. Read as a sequence, a text has at most one token for each of its
characters and then the end token, and nothing behind that. -/
theorem places_kept_in_text (text : String) :
    (∀ calls, ∃ cursor : IndexedCursor,
      (Placing.askAll calls).run (.ofText text) = .ok ((Cursor.ofText text).askAll calls).1 cursor ∧
      cursor.place ≤ text.length ∧
      ∃ token after, Placing.token.run cursor = .ok token after ∧
        (token.isEnd = false → cursor.place < after.place) ∧
        (token.isEnd = true → token = Token.endOfInput ∧
          ∀ more, ∃ answers last, (Placing.askAll more).run after = .ok answers last ∧
            ∀ later, .read later ∈ answers → later = Token.endOfInput)) ∧
    ∃ inside, tokens text = inside ++ [Token.endOfInput] ∧ inside.length ≤ text.length ∧
      (∀ token ∈ inside, token.isEnd = false) ∧
      ∀ more, ∃ cursor,
        (Placing.askAll (.replicate (inside.length + 1 + more) .next)).run (.ofText text) =
          .ok ((inside ++ [Token.endOfInput]).map (fun token => .next (some token)) ++
            .replicate more (.next none)) cursor := by
  refine ⟨fun calls => ?_, ?_⟩
  · obtain ⟨passed, whole, goes⟩ := Placing.goes_ask_all [] (.ofText text) calls
    let left := ((Cursor.ofText text).askAll calls).2
    have length : text.length = passed.length + left.rest.length := by
      rw [← String.length_toList, ← List.length_append]
      exact congrArg List.length whole
    obtain ⟨taken, split, read⟩ := Placing.goes_token passed left.rest left.ended
    refine ⟨_, goes, Nat.le.intro length.symm, _, _, read, fun more => ?_, fun ends => ?_⟩
    · -- The rest gets shorter by what is taken.
      have shorter := Token.read_length left.rest more
      have lengths := congrArg List.length split
      rw [List.length_append] at lengths
      show passed.length < (passed ++ taken).length
      rw [List.length_append]
      omega
    · have finished := Token.read_of_end ends
      refine ⟨congrArg Prod.fst finished, fun more => ?_⟩
      rw [finished]
      obtain ⟨_, -, later⟩ := Placing.goes_ask_all (passed ++ taken) ⟨[], left.ended⟩ more
      exact ⟨_, _, later, Cursor.ask_all_at_end rfl more⟩
  · obtain ⟨stretches, last, layout⟩ := exists_layout text.toList
    refine ⟨stretches.map Stretch.token, layout.tokens_eq, ?_, layout.more, fun more => ?_⟩
    · rw [List.length_map, ← String.length_toList]
      exact layout.length_le
    · obtain ⟨_, -, goes⟩ := Placing.goes_ask_all [] (.ofText text)
        (.replicate (stretches.length + 1 + more) .next)
      have answers := Cursor.ask_all_next layout more
      rw [List.length_map, ← answers]
      exact ⟨_, goes⟩

end TreeSelect
