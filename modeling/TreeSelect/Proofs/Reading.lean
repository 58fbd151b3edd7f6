import TreeSelect.Selector.Parser

/-!
Successful readings. `Reads reading window value after` says that the reading gives the
value and leaves the window at `after`. Each primitive of the window is characterised once,
in both directions, so that no later proof opens the state monad; what a failed reading
leaves behind is not covered.
-/

namespace TreeSelect.Reading

variable {α β : Type}

def Reads (reading : Reading α) (window : Window) (value : α) (after : Window) : Prop :=
  reading.run window = .ok value after

@[simp] theorem reads_pure (value given : α) (window after : Window) :
    Reads (pure given) window value after ↔ value = given ∧ window = after := by
  constructor
  · rintro ⟨⟩
    exact ⟨rfl, rfl⟩
  · rintro ⟨rfl, rfl⟩
    rfl

@[simp] theorem reads_bind (first : Reading α) (second : α → Reading β)
    (window after : Window) (value : β) :
    Reads (first >>= second) window value after ↔
      ∃ middle between, Reads first window middle between ∧
        Reads (second middle) between value after := by
  constructor
  · intro read
    simp only [Reads, EStateM.run, bind, EStateM.bind] at read ⊢
    split at read
    · next middle between reached => exact ⟨middle, between, reached, read⟩
    · cases read
  · rintro ⟨middle, between, reached, read⟩
    simp only [Reads, EStateM.run, bind, EStateM.bind] at reached read ⊢
    rw [reached]
    exact read

@[simp] theorem reads_throw (halted : Halt) (window after : Window) (value : α) :
    Reads (throw halted) window value after ↔ False := by
  constructor
  · intro read
    cases read
  · exact False.elim

@[simp] theorem reads_halt (cause : Fault) (window after : Window) (value : α) :
    Reads (halt cause) window value after ↔ False :=
  reads_throw (.fault cause) window after value

@[simp] theorem reads_set (given window after : Window) (value : PUnit) :
    Reads (set given) window value after ↔ after = given := by
  constructor
  · rintro ⟨⟩
    rfl
  · rintro rfl
    rfl

/-! Readings that only look at the window: what comes next starts from the same window. -/

theorem exists_look {reading : Reading α} {window : Window} {seen : α}
    (looks : ∀ value after, Reads reading window value after ↔ value = seen ∧ window = after)
    (follows : α → Window → Prop) :
    (∃ value after, Reads reading window value after ∧ follows value after) ↔
      follows seen window := by
  constructor
  · rintro ⟨value, after, read, done⟩
    obtain ⟨rfl, rfl⟩ := (looks value after).mp read
    exact done
  · exact fun done => ⟨seen, window, (looks seen window).mpr ⟨rfl, rfl⟩, done⟩

theorem reads_get (window value after : Window) :
    Reads get window value after ↔ value = window ∧ window = after := by
  constructor
  · rintro ⟨⟩
    exact ⟨rfl, rfl⟩
  · rintro ⟨rfl, rfl⟩
    rfl

@[simp] theorem exists_reads_get (window : Window) (follows : Window → Window → Prop) :
    (∃ value after, Reads get window value after ∧ follows value after) ↔
      follows window window :=
  exists_look (reads_get window) follows

theorem reads_next (window : Window) (lexeme : Lexeme) (after : Window) :
    Reads next window lexeme after ↔ lexeme = window.next ∧ window = after := by
  simp only [next, reads_bind, exists_reads_get, reads_pure]

@[simp] theorem exists_reads_next (window : Window) (follows : Lexeme → Window → Prop) :
    (∃ lexeme after, Reads next window lexeme after ∧ follows lexeme after) ↔
      follows window.next window :=
  exists_look (reads_next window) follows

theorem reads_current (window : Window) (lexeme : Lexeme) (after : Window) :
    Reads current window lexeme after ↔ lexeme = window.current ∧ window = after := by
  simp only [current, reads_bind, exists_reads_get, reads_pure]

@[simp] theorem exists_reads_current (window : Window) (follows : Lexeme → Window → Prop) :
    (∃ lexeme after, Reads current window lexeme after ∧ follows lexeme after) ↔
      follows window.current window :=
  exists_look (reads_current window) follows

theorem reads_token (window : Window) (found : Token) (after : Window) :
    Reads token window found after ↔ found = window.current.token ∧ window = after := by
  simp only [token, reads_bind, exists_reads_get, reads_pure]

@[simp] theorem exists_reads_token (window : Window) (follows : Token → Window → Prop) :
    (∃ found after, Reads token window found after ∧ follows found after) ↔
      follows window.current.token window :=
  exists_look (reads_token window) follows

@[simp] theorem reads_illegal_here (window after : Window) (value : α) :
    Reads illegalHere window value after ↔ False := by
  simp [illegalHere]

@[simp] theorem reads_unexpected_next (wanted : Wanted) (window after : Window) (value : α) :
    Reads (unexpectedNext wanted) window value after ↔ False := by
  simp only [unexpectedNext, reads_bind, iff_false]
  rintro ⟨_, _, _, read⟩
  split at read <;> exact (reads_halt _ _ _ _).mp read

/-- The window moves on by one token, and only onto one that is not illegal. -/
@[simp] theorem reads_advance (window after : Window) (value : Unit) :
    Reads advance window value after ↔
      window.ahead = after.current :: after.ahead ∧ after.current.token.kind ≠ .illegal := by
  obtain ⟨current, ahead⟩ := window
  simp only [advance, reads_bind, exists_reads_get]
  cases ahead with
  | nil => simp [Window.shift?]
  | cons first rest =>
    constructor
    · intro read
      simp only [Window.shift?, reads_bind, reads_set] at read
      obtain ⟨_, _, rfl, read⟩ := read
      split at read
      · exact ((reads_illegal_here _ _ _).mp read).elim
      · next legal =>
        obtain ⟨-, rfl⟩ := (reads_pure _ _ _ _).mp read
        exact ⟨rfl, legal⟩
    · obtain ⟨current', ahead'⟩ := after
      rintro ⟨same, legal⟩
      obtain ⟨rfl, rfl⟩ := List.cons.inj same
      simp only [Window.shift?, reads_bind, reads_set]
      refine ⟨⟨⟩, _, rfl, ?_⟩
      rw [if_neg legal]
      exact (reads_pure _ _ _ _).mpr ⟨rfl, rfl⟩

theorem next_of_ahead {window : Window} {lexeme : Lexeme} {rest : List Lexeme}
    (ahead : window.ahead = lexeme :: rest) : window.next = lexeme := by
  simp [Window.next, ahead]

@[simp] theorem reads_expect (kind : TokenKind) (wanted : Wanted) (window after : Window)
    (value : Unit) :
    Reads (expect kind wanted) window value after ↔
      window.ahead = after.current :: after.ahead ∧ after.current.token.kind = kind ∧
        kind ≠ .illegal := by
  simp only [expect, reads_bind, exists_reads_next]
  constructor
  · intro read
    split at read
    · next found =>
      obtain ⟨moved, legal⟩ := (reads_advance _ _ _).mp read
      rw [next_of_ahead moved] at found
      exact ⟨moved, found, found ▸ legal⟩
    · exact ((reads_unexpected_next _ _ _ _).mp read).elim
  · rintro ⟨moved, found, legal⟩
    rw [if_pos (by rw [next_of_ahead moved, found])]
    exact (reads_advance _ _ _).mpr ⟨moved, found ▸ legal⟩

@[simp] theorem reads_expect_adjacent (kind : TokenKind) (wanted : Wanted)
    (window after : Window) (value : Unit) :
    Reads (expectAdjacent kind wanted) window value after ↔
      window.ahead = after.current :: after.ahead ∧ after.current.token.kind = kind ∧
        kind ≠ .illegal ∧ after.current.spaced = false := by
  simp only [expectAdjacent, reads_bind, exists_reads_next]
  constructor
  · intro read
    split at read
    · exact ((reads_halt _ _ _ _).mp read).elim
    · next near =>
      obtain ⟨moved, found, legal⟩ := (reads_expect _ _ _ _ _).mp read
      rw [next_of_ahead moved] at near
      exact ⟨moved, found, legal, eq_false_of_ne_true near⟩
  · rintro ⟨moved, found, legal, near⟩
    rw [if_neg (by rw [next_of_ahead moved, near]; decide)]
    exact (reads_expect _ _ _ _ _).mpr ⟨moved, found, legal⟩

/-! Moving on where the next lexeme is known. -/

section
variable (current first : Lexeme) (rest : List Lexeme) (follows : Unit → Window → Prop)

theorem exists_reads_advance :
    (∃ value after, Reads advance ⟨current, first :: rest⟩ value after ∧ follows value after) ↔
      first.token.kind ≠ .illegal ∧ follows () ⟨first, rest⟩ := by
  simp only [reads_advance]
  constructor
  · rintro ⟨⟨⟩, ⟨_, _⟩, ⟨same, legal⟩, done⟩
    obtain ⟨rfl, rfl⟩ := List.cons.inj same
    exact ⟨legal, done⟩
  · rintro ⟨legal, done⟩
    exact ⟨(), ⟨first, rest⟩, ⟨rfl, legal⟩, done⟩

theorem exists_reads_expect (kind : TokenKind) (wanted : Wanted) :
    (∃ value after, Reads (expect kind wanted) ⟨current, first :: rest⟩ value after ∧
        follows value after) ↔
      (first.token.kind = kind ∧ kind ≠ .illegal) ∧ follows () ⟨first, rest⟩ := by
  simp only [reads_expect]
  constructor
  · rintro ⟨⟨⟩, ⟨_, _⟩, ⟨same, found⟩, done⟩
    obtain ⟨rfl, rfl⟩ := List.cons.inj same
    exact ⟨found, done⟩
  · rintro ⟨found, done⟩
    exact ⟨(), ⟨first, rest⟩, ⟨rfl, found⟩, done⟩

end

end TreeSelect.Reading
