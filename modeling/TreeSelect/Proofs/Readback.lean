import TreeSelect.Json.Printer
import TreeSelect.Json.Reader
import TreeSelect.Proofs.Scanning

/-!
Printed JSON is read back. Every value whose numbers are natural numbers of 64 bits is found
again in its text, whatever the level it is printed at, if it is not nested deeper than the
reader goes. So a reader loses nothing of what is printed, and takes nothing for something
else.
-/

namespace TreeSelect.Json

/-! Strings. -/

theorem unit_of_control : ∀ value < 0x20,
    unit? '0' '0' (Nat.digitChar (value / 16)) (Nat.digitChar (value % 16)) = some value := by
  decide

/-- A character stands for itself or is escaped, and then read from its escape. -/
theorem escape_read (c : Char) :
    ((escapeChar c).toList = [c] ∧ c ≠ '"' ∧ c ≠ '\\' ∧ ¬c.toNat < 0x20) ∨
      ∃ mark, (escapeChar c).toList = '\\' :: mark ∧
        ∀ rest, readEscape (mark ++ rest) = some (c, rest) := by
  unfold escapeChar
  split
  · exact .inr ⟨['"'], rfl, fun _ => rfl⟩
  · exact .inr ⟨['\\'], rfl, fun _ => rfl⟩
  · exact .inr ⟨['b'], rfl, fun _ => rfl⟩
  · exact .inr ⟨['t'], rfl, fun _ => rfl⟩
  · exact .inr ⟨['n'], rfl, fun _ => rfl⟩
  · exact .inr ⟨['f'], rfl, fun _ => rfl⟩
  · exact .inr ⟨['r'], rfl, fun _ => rfl⟩
  · next noQuote noSlash _ _ _ _ _ =>
    split
    · next control =>
      refine .inr ⟨['u', '0', '0', Nat.digitChar (c.toNat / 16), Nat.digitChar (c.toNat % 16)],
        by simp, fun rest => ?_⟩
      have high : isHighSurrogate c.toNat = false := by simp [isHighSurrogate]; omega
      have low : isLowSurrogate c.toNat = false := by simp [isLowSurrogate]; omega
      simp [readEscape, unit_of_control c.toNat control, high, low]
    · next plain => exact .inl ⟨by simp, noQuote, noSlash, plain⟩

def escaped (chars : List Char) : List Char := chars.flatMap fun c => (escapeChar c).toList

theorem length_escaped (chars : List Char) : chars.length ≤ (escaped chars).length := by
  induction chars with
  | nil => exact Nat.le_refl 0
  | cons c chars ih =>
      have some : 0 < (escapeChar c).toList.length := by
        rcases escape_read c with ⟨alone, -⟩ | ⟨mark, same, -⟩ <;> simp [*]
      simp only [escaped, List.flatMap_cons, List.length_append, List.length_cons] at ih ⊢
      omega

theorem read_chars_escaped (chars : List Char) (rest : List Char) {budget : Nat}
    (enough : chars.length < budget) :
    readChars budget (escaped chars ++ '"' :: rest) = some (chars, rest) := by
  induction chars generalizing budget with
  | nil =>
      obtain ⟨budget, rfl⟩ := Nat.exists_eq_add_one.mpr enough
      rfl
  | cons c chars ih =>
      obtain ⟨budget, rfl⟩ := Nat.exists_eq_add_one.mpr (Nat.zero_lt_of_lt enough)
      have later := ih (Nat.lt_of_succ_lt_succ enough)
      rw [escaped, List.flatMap_cons, List.append_assoc, ← escaped]
      rcases escape_read c with ⟨alone, noQuote, noSlash, plain⟩ | ⟨mark, same, reads⟩
      · rw [alone, List.singleton_append, readChars, if_neg noQuote, if_neg noSlash, if_neg plain,
          later]
        rfl
      · rw [same, List.cons_append, readChars, if_neg (by decide), if_pos rfl, reads]
        simp [later]

theorem string_text_list (value : String) :
    (stringText value).toList = '"' :: (escaped value.toList ++ ['"']) := by
  simp [stringText, escaped, String.toList_append, String.toList_join, List.flatMap_map]

theorem read_string_text (value : String) (rest : List Char) {budget : Nat}
    (enough : value.toList.length < budget) :
    readString budget (escaped value.toList ++ '"' :: rest) = some (value, rest) := by
  simp [readString, read_chars_escaped value.toList rest enough]

/-! Numbers. -/

namespace Scaled

theorem start_le_digits (text : List Char) (start : Nat) :
    start ≤ Nat.ofDigitChars 10 text start := by
  induction text generalizing start with
  | nil => exact Nat.le_refl start
  | cons c text ih =>
      rw [Nat.ofDigitChars_cons]
      refine Nat.le_trans ?_ (ih _)
      omega

/-- Digits are gathered as long as the number fits. -/
theorem gather_digits (text : List Char) (start : Nat)
    (room : Nat.ofDigitChars 10 text start < Nat.pow 2 64) :
    text.foldl addWhole ⟨start, 0⟩ = ⟨Nat.ofDigitChars 10 text start, 0⟩ := by
  induction text generalizing start with
  | nil => rfl
  | cons c text ih =>
      rw [Nat.ofDigitChars_cons, Nat.mul_comm] at room ⊢
      have step : addWhole ⟨start, 0⟩ c = ⟨start * 10 + digit c, 0⟩ := by
        have fit : fits (start * 10 + digit c) = true :=
          decide_eq_true (Nat.lt_of_le_of_lt (start_le_digits text _) room)
        simp [addWhole, fit]
      rw [List.foldl_cons, step]
      exact ih _ room

theorem double_precision_le (value : Nat) : toDoublePrecision value ≤ 2 * value := by
  unfold toDoublePrecision
  split
  · omega
  · next large =>
    have positive : value ≠ 0 := by
      rintro rfl
      exact large (by decide)
    have unit : Nat.pow 2 (value.log2 - 52) ≤ value :=
      Nat.le_trans (Nat.pow_le_pow_right (by decide) (Nat.sub_le _ 52)) (Nat.log2_self_le positive)
    have kept := Nat.div_mul_le_self value (Nat.pow 2 (value.log2 - 52))
    dsimp only
    split
    · rw [Nat.add_mul]
      omega
    · omega

theorem pow_lt_gap {low middle high : Nat} (first : low + 1 < high) (second : middle < high) :
    Nat.pow 2 low < Nat.pow 2 high - Nat.pow 2 middle := by
  obtain ⟨high, rfl⟩ := Nat.exists_eq_add_one.mpr (Nat.zero_lt_of_lt second)
  have smaller : 2 ^ low < 2 ^ high := Nat.pow_lt_pow_right (by decide) (by omega)
  have between : 2 ^ middle ≤ 2 ^ high := Nat.pow_le_pow_right (by decide) (by omega)
  have double : 2 ^ (high + 1) = 2 ^ high * 2 := Nat.pow_succ _ _
  simp only [Nat.pow_eq]
  omega

theorem lt_infinity_threshold : Nat.pow 2 65 < infinityThreshold := by
  -- The exponents are named, so that nothing works the powers out.
  obtain ⟨high, middle, same, power, less⟩ : ∃ high middle,
      infinityThreshold = Nat.pow 2 high - Nat.pow 2 middle ∧ high = 1024 ∧ middle = 970 :=
    ⟨_, _, rfl, rfl, rfl⟩
  rw [same]
  exact pow_lt_gap (by omega) (by omega)

theorem small_enough {value : Nat} (room : value < Nat.pow 2 64) : isTooLarge ⟨value, 0⟩ = false := by
  unfold isTooLarge
  split
  · rfl
  · have one : toDoublePrecision (Nat.pow 10 (0 : Int).toNat) = 1 := by decide
    have bound := double_precision_le value
    have large := lt_infinity_threshold
    have double : Nat.pow 2 65 = 2 * Nat.pow 2 64 := by decide
    simp only [one, Nat.mul_one]
    rw [if_neg (by decide)]
    exact decide_eq_false (by omega)

end Scaled

/-- What stands behind a number that is not part of it. -/
def EndsNumber (rest : List Char) : Prop :=
  ∀ c ∈ rest.head?, c.isDigit = false ∧ c ≠ '.' ∧ c ≠ 'e' ∧ c ≠ 'E'

theorem first_digit (value : Nat) (positive : 0 < value) :
    ∃ head rest, Nat.toDigits 10 value = head :: rest ∧ head ≠ '0' := by
  induction value using Nat.strongRecOn with
  | ind value ih =>
    rw [Nat.toDigits_eq_if (by decide)]
    have single : ∀ digit < 10, 0 < digit → Nat.digitChar digit ≠ '0' := by decide
    split
    · next small => exact ⟨_, [], rfl, single value small positive⟩
    · obtain ⟨head, rest, same, start⟩ := ih (value / 10) (by omega) (by omega)
      exact ⟨head, rest ++ [Nat.digitChar (value % 10)], by rw [same, List.cons_append], start⟩

theorem whole_part_digits (value : Nat) : isWholePart (Nat.toDigits 10 value) = true := by
  rcases Nat.eq_zero_or_pos value with rfl | positive
  · rfl
  · obtain ⟨head, rest, same, start⟩ := first_digit value positive
    rw [same]
    unfold isWholePart
    split
    · next none => cases none
    · rfl
    · next again => simpa [← (List.cons.inj again).1] using start

theorem no_fraction {rest : List Char} (ends : EndsNumber rest) :
    readFraction rest = some ([], rest) := by
  unfold readFraction
  split
  · exact absurd rfl (ends '.' rfl).2.1
  · rfl

theorem no_power {rest : List Char} (ends : EndsNumber rest) : readPower rest = some (0, rest) := by
  unfold readPower
  split
  · next mark rest =>
    obtain ⟨-, -, small, large⟩ := ends mark rfl
    rw [if_neg (by simp [small, large])]
  · rfl

theorem read_number (value : Nat) (room : value < Nat.pow 2 64) {rest : List Char}
    (ends : EndsNumber rest) :
    readNumber (Nat.toDigits 10 value ++ rest) = some (.ofNat value, rest) := by
  have inside (c : Char) (member : c ∈ Nat.toDigits 10 value) : c.isDigit = true :=
    Nat.isDigit_of_mem_toDigits (by decide) (by decide) member
  obtain ⟨taken, left⟩ := Token.span_stopped inside fun c head => (ends c head).1
  -- No digit is dropped on the way, since the whole number fits.
  have scaled : Scaled.ofDigits (Nat.toDigits 10 value) [] 0 = ⟨value, 0⟩ := by
    have same := @Nat.ofDigitChars_ten_toDigits value
    rw [Scaled.ofDigits, Scaled.gather_digits _ 0 (by rw [same]; exact room), same]
    rfl
  have unsigned (others : List Char) : Nat.toDigits 10 value ++ rest ≠ '-' :: others := by
    obtain ⟨first, later, digits⟩ := List.exists_cons_of_ne_nil (@Nat.toDigits_ne_nil value 10)
    have digit := inside first (digits ▸ List.mem_cons_self)
    rw [digits, List.cons_append]
    intro same
    rw [(List.cons.inj same).1] at digit
    cases digit
  have whole : (Nat.toDigits 10 value ++ rest).take
      ((Nat.toDigits 10 value ++ rest).length - rest.length) = Nat.toDigits 10 value := by
    rw [List.length_append, Nat.add_sub_cancel, List.take_left]
  unfold readNumber
  dsimp only
  split
  · next others minus => exact absurd minus (unsigned others)
  · simp only [digits, taken, left, whole_part_digits, no_fraction ends, no_power ends, scaled,
      Scaled.small_enough room, whole, Option.bind_eq_bind, Option.bind_some, Bool.not_true,
      Bool.false_eq_true, if_false]
    rw [ofNat, Nat.repr_eq_ofList_toDigits]

/-! White space between items. -/

theorem skip_mark {c : Char} (mark : isSpace c = false) (rest : List Char) :
    skipSpace (c :: rest) = c :: rest := by
  simp [skipSpace, mark]

theorem skip_new_line (level : Nat) (rest : List Char) :
    skipSpace ((newLine level).toList ++ rest) = skipSpace rest := by
  have blank : ∀ c ∈ (newLine level).toList, isSpace c = true := by
    simp [newLine, isSpace]
  exact List.dropWhile_append_of_pos blank

/-- Values are read from behind the white space before them. -/
theorem read_value_of_skip {budget depth : Nat} {text other : List Char}
    (same : skipSpace text = skipSpace other) :
    readValue budget depth text = readValue budget depth other := by
  cases depth <;> simp only [readValue, same]

/-! Values. -/

mutual
/-- Arrays and objects are nested at most so deep, and all numbers are natural numbers of
64 bits. -/
def Within : Json → Nat → Prop
  | .null, _ => True
  | .bool _, _ => True
  | .number spelling, _ => ∃ value : Nat, value < Nat.pow 2 64 ∧ spelling = value.repr
  | .string _, _ => True
  | .array items, depth => 0 < depth ∧ AllWithin items (depth - 1)
  | .object members, depth => 0 < depth ∧ MembersWithin members (depth - 1)

def AllWithin : List Json → Nat → Prop
  | [], _ => True
  | first :: rest, depth => first.Within depth ∧ AllWithin rest depth

def MembersWithin : List (String × Json) → Nat → Prop
  | [], _ => True
  | (_, value) :: rest, depth => value.Within depth ∧ MembersWithin rest depth
end

theorem all_within {items : List Json} {depth : Nat} (within : ∀ item ∈ items, item.Within depth) :
    AllWithin items depth := by
  induction items with
  | nil => exact True.intro
  | cons first others ih =>
      rw [List.forall_mem_cons] at within
      exact ⟨within.1, ih within.2⟩

def written (level : Nat) (json : Json) : List Char := (json.pretty level).toList

section
variable (level : Nat)

theorem written_null : written level .null = ['n', 'u', 'l', 'l'] := by simp [written, pretty]

theorem written_false : written level (.bool false) = ['f', 'a', 'l', 's', 'e'] := by
  simp [written, pretty]

theorem written_true : written level (.bool true) = ['t', 'r', 'u', 'e'] := by
  simp [written, pretty]

theorem written_number (value : Nat) :
    written level (.number value.repr) = Nat.toDigits 10 value := by simp [written, pretty]

theorem written_no_items : written level (.array []) = ['[', ']'] := by simp [written, pretty]

theorem written_no_members : written level (.object []) = ['\x7b', '\x7d'] := by
  simp [written, pretty]

theorem written_string (value : String) :
    written level (.string value) = '"' :: (escaped value.toList ++ ['"']) := string_text_list value

theorem written_array (first : Json) (others : List Json) :
    written level (.array (first :: others)) = '[' :: ((newLine (level + 1)).toList
      ++ (written (level + 1) first ++ ((prettyItems (level + 1) others).toList
        ++ ((newLine level).toList ++ [']'])))) := by
  simp [written, pretty, String.toList_append]

theorem written_object (name : String) (first : Json) (others : List (String × Json)) :
    written level (.object ((name, first) :: others)) = '\x7b' :: ((newLine (level + 1)).toList
      ++ ((stringText name).toList ++ ':' :: ' ' :: (written (level + 1) first
        ++ ((prettyMembers (level + 1) others).toList
          ++ ((newLine level).toList ++ ['\x7d']))))) := by
  simp [written, pretty, String.toList_append]

theorem items_cons (first : Json) (others : List Json) :
    (prettyItems level (first :: others)).toList = ',' :: ((newLine level).toList
      ++ (written level first ++ (prettyItems level others).toList)) := by
  simp [written, prettyItems, String.toList_append]

theorem members_cons (name : String) (first : Json) (others : List (String × Json)) :
    (prettyMembers level ((name, first) :: others)).toList = ',' :: ((newLine level).toList
      ++ ((stringText name).toList ++ ':' :: ' ' :: (written level first
        ++ (prettyMembers level others).toList))) := by
  simp [written, prettyMembers, String.toList_append]

end

/-- A value starts with a mark of its own, not with white space or the end of a list. -/
theorem written_start (level : Nat) {depth : Nat} {json : Json} (within : json.Within depth) :
    ∃ c rest, written level json = c :: rest ∧ isSpace c = false ∧ c ≠ ']' ∧ c ≠ '\x7d' := by
  cases json with
  | null => exact ⟨'n', _, written_null level, by decide⟩
  | bool value =>
      cases value
      · exact ⟨'f', _, written_false level, by decide⟩
      · exact ⟨'t', _, written_true level, by decide⟩
  | number spelling =>
      obtain ⟨value, -, rfl⟩ := within
      obtain ⟨first, others, digits⟩ := List.exists_cons_of_ne_nil (@Nat.toDigits_ne_nil value 10)
      have digit : first.isDigit = true :=
        Nat.isDigit_of_mem_toDigits (by decide) (by decide) (digits ▸ List.mem_cons_self)
      have plain := @Text.digit_induction (fun c => isSpace c = false ∧ c ≠ ']' ∧ c ≠ '\x7d')
        first digit (by decide)
      exact ⟨first, others, (written_number level value).trans digits, plain⟩
  | string value => exact ⟨'"', _, written_string level value, by decide⟩
  | array items =>
      cases items with
      | nil => exact ⟨'[', _, written_no_items level, by decide⟩
      | cons first others => exact ⟨'[', _, written_array level first others, by decide⟩
  | object members =>
      cases members with
      | nil => exact ⟨'\x7b', _, written_no_members level, by decide⟩
      | cons first others =>
          exact ⟨'\x7b', _, written_object level first.1 first.2 others, by decide⟩

/-- The value is read from its text, whatever follows. -/
def ReadsBack (budget depth level : Nat) (json : Json) : Prop :=
  ∀ rest, EndsNumber rest → readValue budget depth (written level json ++ rest) = some (json, rest)

theorem ends_new_line (level : Nat) (rest : List Char) :
    EndsNumber ((newLine level).toList ++ rest) := by
  intro c head
  simp [newLine] at head
  subst head
  decide

theorem ends_comma (rest : List Char) : EndsNumber (',' :: rest) := by
  intro c head
  obtain rfl : ',' = c := Option.some.inj head
  decide

theorem read_items_of_skip {budget depth loop : Nat} {text other : List Char}
    (same : skipSpace text = skipSpace other) :
    readItems (readValue budget depth) loop text =
      readItems (readValue budget depth) loop other := by
  cases loop <;> simp only [readItems, read_value_of_skip same]

theorem read_items_written (others : List Json) {first : Json} {level outer depth budget loop : Nat}
    (rest : List Char) (room : (prettyItems level others).toList.length < loop)
    (reads : ∀ item ∈ first :: others, ReadsBack budget depth level item) :
    readItems (readValue budget depth) loop (written level first
      ++ ((prettyItems level others).toList ++ ((newLine outer).toList ++ ']' :: rest))) =
        some (first :: others, rest) := by
  induction others generalizing first loop with
  | nil =>
      obtain ⟨loop, rfl⟩ := Nat.exists_eq_add_one.mpr (Nat.zero_lt_of_lt room)
      have value := reads first List.mem_cons_self _ (ends_new_line outer (']' :: rest))
      have closing := skip_mark (by decide : isSpace ']' = false) rest
      simp [prettyItems, readItems, value, skip_new_line, closing]
  | cons second others ih =>
      obtain ⟨loop, rfl⟩ := Nat.exists_eq_add_one.mpr (Nat.zero_lt_of_lt room)
      rw [items_cons] at room ⊢
      simp only [List.length_cons, List.length_append] at room
      simp only [List.cons_append, List.append_assoc]
      have later := @ih second loop (by omega) fun item member =>
        reads item (List.mem_cons_of_mem first member)
      rw [← read_items_of_skip (skip_new_line level _)] at later
      have value (tail : List Char) := reads first List.mem_cons_self _ (ends_comma tail)
      simp only [readItems, value, Option.bind_eq_bind, Option.bind_some,
        skip_mark (by decide : isSpace ',' = false), later]
      rfl

theorem read_member_of_skip {budget depth loop : Nat} {text other : List Char}
    (same : skipSpace text = skipSpace other) :
    readMember (readValue budget depth) loop text =
      readMember (readValue budget depth) loop other := by
  simp only [readMember, same]

theorem read_members_of_skip {budget depth loop : Nat} {text other : List Char}
    (same : skipSpace text = skipSpace other) :
    readMembers (readValue budget depth) loop text =
      readMembers (readValue budget depth) loop other := by
  cases loop <;> simp only [readMembers, read_member_of_skip same]

theorem read_member_written {name : String} {value : Json} {level depth budget loop : Nat}
    {tail : List Char} (room : (stringText name).toList.length ≤ loop)
    (reads : ReadsBack budget depth level value) (ends : EndsNumber tail) :
    readMember (readValue budget depth) loop ((stringText name).toList ++ ':' :: ' ' ::
      (written level value ++ tail)) = some ((name, value), tail) := by
  have shorter := length_escaped name.toList
  rw [string_text_list] at room ⊢
  simp only [List.length_cons, List.length_append] at room
  have content : readValue budget depth (' ' :: (written level value ++ tail)) =
      some (value, tail) :=
    have space : skipSpace (' ' :: (written level value ++ tail)) =
        skipSpace (written level value ++ tail) := rfl
    (read_value_of_skip space).trans (reads tail ends)
  simp only [readMember, List.cons_append, List.append_assoc, List.nil_append,
    skip_mark (by decide : isSpace '"' = false), skip_mark (by decide : isSpace ':' = false),
    read_string_text name (':' :: ' ' :: (written level value ++ tail)) (by omega : _ < loop),
    Option.bind_eq_bind, Option.bind_some, content]
  rfl

theorem read_members_written (others : List (String × Json)) {name : String} {first : Json}
    {level outer depth budget loop : Nat} (rest : List Char)
    (room : (stringText name).toList.length + (prettyMembers level others).toList.length ≤ loop)
    (reads : ∀ member ∈ (name, first) :: others, ReadsBack budget depth level member.2) :
    readMembers (readValue budget depth) loop ((stringText name).toList ++ ':' :: ' ' ::
      (written level first ++ ((prettyMembers level others).toList
        ++ ((newLine outer).toList ++ '\x7d' :: rest)))) =
          some ((name, first) :: others, rest) := by
  have some : 0 < (stringText name).toList.length := by simp [string_text_list]
  induction others generalizing name first loop with
  | nil =>
      obtain ⟨loop, rfl⟩ := Nat.exists_eq_add_one.mpr (by omega : 0 < loop)
      have named : (stringText name).toList.length ≤ loop + 1 := by omega
      have member := read_member_written named (reads (name, first) List.mem_cons_self)
        (ends_new_line outer ('\x7d' :: rest))
      have closing := skip_mark (by decide : isSpace '\x7d' = false) rest
      simp [prettyMembers, readMembers, member, skip_new_line, closing]
  | cons second others ih =>
      obtain ⟨loop, rfl⟩ := Nat.exists_eq_add_one.mpr (by omega : 0 < loop)
      rw [members_cons] at room ⊢
      simp only [List.length_cons, List.length_append] at room
      simp only [List.cons_append, List.append_assoc]
      have later := @ih second.1 second.2 loop (by omega)
        (fun member inside => reads member (List.mem_cons_of_mem _ inside))
        (by simp [string_text_list])
      rw [← read_members_of_skip (skip_new_line level _)] at later
      have named : (stringText name).toList.length ≤ loop + 1 := by omega
      have member (tail : List Char) :=
        read_member_written named (reads (name, first) List.mem_cons_self) (ends_comma tail)
      simp only [readMembers, member, Option.bind_eq_bind, Option.bind_some,
        skip_mark (by decide : isSpace ',' = false), later]
      rfl

theorem read_value_scalar {budget depth : Nat} {c : Char} (rest : List Char)
    (mark : isSpace c = false) (noBracket : c ≠ '[') (noBrace : c ≠ '\x7b') :
    readValue budget depth (c :: rest) = readScalar budget (c :: rest) := by
  cases depth with
  | zero => rw [readValue, skip_mark mark]
  | succ depth =>
      rw [readValue, skip_mark mark]
      split
      · next same => exact absurd (List.cons.inj same).1 noBracket
      · next same => exact absurd (List.cons.inj same).1 noBrace
      · rfl

theorem reads_back_word (budget depth level : Nat) :
    ReadsBack budget depth level .null ∧ ReadsBack budget depth level (.bool false) ∧
      ReadsBack budget depth level (.bool true) := by
  refine ⟨fun rest _ => ?_, fun rest _ => ?_, fun rest _ => ?_⟩
  · rw [written_null, List.cons_append, read_value_scalar _ (by decide) (by decide) (by decide)]
    simp [readScalar, readWord]
  · rw [written_false, List.cons_append, read_value_scalar _ (by decide) (by decide) (by decide)]
    simp [readScalar, readWord]
  · rw [written_true, List.cons_append, read_value_scalar _ (by decide) (by decide) (by decide)]
    simp [readScalar, readWord]

theorem reads_back_number (budget depth level value : Nat) (room : value < Nat.pow 2 64) :
    ReadsBack budget depth level (.number value.repr) := by
  intro rest ends
  have number := read_number value room ends
  obtain ⟨first, others, digits⟩ := List.exists_cons_of_ne_nil (@Nat.toDigits_ne_nil value 10)
  have digit : first.isDigit = true :=
    Nat.isDigit_of_mem_toDigits (by decide) (by decide) (digits ▸ List.mem_cons_self)
  have plain := @Text.digit_induction
    (fun c => isSpace c = false ∧ c ≠ '[' ∧ c ≠ '\x7b' ∧ c ≠ '"' ∧ c ≠ 't' ∧ c ≠ 'f' ∧ c ≠ 'n')
    first digit (by decide)
  obtain ⟨mark, noBracket, noBrace, noQuote, noTrue, noFalse, noNull⟩ := plain
  rw [digits, List.cons_append] at number
  rw [written_number, digits, List.cons_append]
  rw [read_value_scalar _ mark noBracket noBrace]
  -- Nothing else that a scalar can be starts with a digit.
  unfold readScalar
  split
  · next same => exact absurd (List.cons.inj same).1 noQuote
  · next same => exact absurd (List.cons.inj same).1 noTrue
  · next same => exact absurd (List.cons.inj same).1 noFalse
  · next same => exact absurd (List.cons.inj same).1 noNull
  · exact number

theorem reads_back_string {budget : Nat} (depth level : Nat) {value : String}
    (enough : (written level (.string value)).length ≤ budget) :
    ReadsBack budget depth level (.string value) := by
  intro rest _
  have shorter := length_escaped value.toList
  rw [written_string] at enough ⊢
  simp only [List.length_cons, List.length_append] at enough
  have read := read_string_text value rest (by omega : _ < budget)
  rw [List.cons_append, read_value_scalar _ (by decide) (by decide) (by decide), List.append_assoc]
  simp [readScalar, read]

theorem reads_back_array {budget depth level : Nat} {items : List Json}
    (within : (Json.array items).Within (depth + 1))
    (enough : (written level (.array items)).length ≤ budget)
    (reads : ∀ item ∈ items, ReadsBack budget depth (level + 1) item) :
    ReadsBack budget (depth + 1) level (.array items) := by
  intro rest _
  cases items with
  | nil =>
      rw [written_no_items, List.cons_append, readValue, skip_mark (by decide)]
      simp only [readArray, List.cons_append, skip_mark (by decide : isSpace ']' = false)]
      rfl
  | cons first others =>
      obtain ⟨c, tail, start, mark, noBracket, -⟩ := written_start (level + 1) within.2.1
      rw [written_array] at enough ⊢
      simp only [List.length_cons, List.length_append, List.length_nil] at enough
      have items := @read_items_written others first (level + 1) level depth budget budget rest
        (by omega) reads
      rw [start, List.cons_append] at items
      simp only [List.cons_append, List.append_assoc, List.nil_append]
      rw [readValue, skip_mark (by decide)]
      simp only [readArray, skip_new_line, start, List.cons_append, skip_mark mark]
      -- An empty list is told by the bracket, which no item starts with.
      split
      · next same => exact absurd (List.cons.inj same).1 noBracket
      · simp [items]

theorem reads_back_object {budget depth level : Nat} {members : List (String × Json)}
    (enough : (written level (.object members)).length ≤ budget)
    (reads : ∀ member ∈ members, ReadsBack budget depth (level + 1) member.2) :
    ReadsBack budget (depth + 1) level (.object members) := by
  intro rest _
  cases members with
  | nil =>
      rw [written_no_members, List.cons_append, readValue, skip_mark (by decide)]
      simp only [readObject, List.cons_append, skip_mark (by decide : isSpace '\x7d' = false)]
      rfl
  | cons first others =>
      obtain ⟨name, value⟩ := first
      rw [written_object] at enough ⊢
      simp only [List.length_cons, List.length_append, List.length_nil] at enough
      have members := @read_members_written others name value (level + 1) level depth budget budget
        rest (by omega) reads
      rw [string_text_list] at members ⊢
      simp only [List.cons_append, List.append_assoc, List.nil_append] at members ⊢
      rw [readValue, skip_mark (by decide)]
      simp only [readObject, skip_new_line, skip_mark (by decide : isSpace '"' = false)]
      simp [members]

/-! No part is longer than the whole. -/

theorem length_item (level : Nat) {item : Json} {items : List Json} (member : item ∈ items) :
    (written level item).length ≤ (prettyItems level items).toList.length := by
  induction items with
  | nil => cases member
  | cons first others ih =>
      rw [items_cons]
      simp only [List.length_cons, List.length_append]
      rcases List.mem_cons.mp member with rfl | later
      · omega
      · have := ih later
        omega

theorem length_member (level : Nat) {member : String × Json} {members : List (String × Json)}
    (inside : member ∈ members) :
    (written level member.2).length ≤ (prettyMembers level members).toList.length := by
  induction members with
  | nil => cases inside
  | cons first others ih =>
      obtain ⟨name, value⟩ := first
      rw [members_cons]
      simp only [List.length_cons, List.length_append]
      rcases List.mem_cons.mp inside with rfl | later
      · dsimp only
        omega
      · have := ih later
        omega

theorem length_in_array (level : Nat) {item : Json} {items : List Json} (member : item ∈ items) :
    (written (level + 1) item).length ≤ (written level (.array items)).length := by
  cases items with
  | nil => cases member
  | cons first others =>
      rw [written_array]
      simp only [List.length_cons, List.length_append]
      rcases List.mem_cons.mp member with rfl | later
      · omega
      · have := length_item (level + 1) later
        omega

theorem length_in_object (level : Nat) {member : String × Json} {members : List (String × Json)}
    (inside : member ∈ members) :
    (written (level + 1) member.2).length ≤ (written level (.object members)).length := by
  cases members with
  | nil => cases inside
  | cons first others =>
      obtain ⟨name, value⟩ := first
      rw [written_object]
      simp only [List.length_cons, List.length_append]
      rcases List.mem_cons.mp inside with rfl | later
      · dsimp only
        omega
      · have := length_member (level + 1) later
        omega

mutual
/-- Every value is read back from its own text by a reader with a budget for the text. -/
theorem reads_back : (json : Json) → {depth level budget : Nat} → json.Within depth →
    (written level json).length ≤ budget → ReadsBack budget depth level json
  | .null, depth, level, budget, _, _ => (reads_back_word budget depth level).1
  | .bool false, depth, level, budget, _, _ => (reads_back_word budget depth level).2.1
  | .bool true, depth, level, budget, _, _ => (reads_back_word budget depth level).2.2
  | .number _, depth, level, budget, within, _ => by
      obtain ⟨value, room, rfl⟩ := within
      exact reads_back_number budget depth level value room
  | .string _, depth, level, _, _, enough => reads_back_string depth level enough
  | .array items, 0, _, _, within, _ => absurd within.1 (Nat.lt_irrefl 0)
  | .array items, depth + 1, level, _, within, enough =>
      reads_back_array within enough (items_read_back items within.2 fun _ member =>
        Nat.le_trans (length_in_array level member) enough)
  | .object members, 0, _, _, within, _ => absurd within.1 (Nat.lt_irrefl 0)
  | .object members, depth + 1, level, _, within, enough =>
      reads_back_object enough (members_read_back members within.2 fun _ inside =>
        Nat.le_trans (length_in_object level inside) enough)

theorem items_read_back : (items : List Json) → {depth level budget : Nat} →
    AllWithin items depth → (∀ item ∈ items, (written level item).length ≤ budget) →
    ∀ item ∈ items, ReadsBack budget depth level item
  | [], _, _, _, _, _ => nofun
  | first :: others, _, _, _, within, enough =>
      List.forall_mem_cons.mpr ⟨reads_back first within.1 (enough first List.mem_cons_self),
        items_read_back others within.2 fun item member =>
          enough item (List.mem_cons_of_mem first member)⟩

theorem members_read_back : (members : List (String × Json)) → {depth level budget : Nat} →
    MembersWithin members depth →
    (∀ member ∈ members, (written level member.2).length ≤ budget) →
    ∀ member ∈ members, ReadsBack budget depth level member.2
  | [], _, _, _, _, _ => nofun
  | (name, first) :: others, _, _, _, within, enough =>
      List.forall_mem_cons.mpr ⟨reads_back first within.1 (enough (name, first) List.mem_cons_self),
        members_read_back others within.2 fun member inside =>
          enough member (List.mem_cons_of_mem (name, first) inside)⟩
end

/-- What is printed on a line of its own is a JSON text of the value. -/
theorem read_pretty {json : Json} (within : json.Within nestingLimit) :
    read? (json.pretty 0 ++ "\n") = some json := by
  have enough : (written 0 json).length ≤ (json.pretty 0 ++ "\n").toList.length + 1 := by
    simp [written]
    omega
  have text : (json.pretty 0 ++ "\n").toList = written 0 json ++ ['\n'] := by
    simp [written, String.toList_append]
  have read := reads_back json within enough ['\n'] (by
    intro c head
    obtain rfl : '\n' = c := Option.some.inj head
    decide)
  rw [← text] at read
  simp only [read?, read, Option.bind_eq_bind, Option.bind_some]
  rfl

end TreeSelect.Json
