import TreeSelect.Proofs.Arguments
import TreeSelect.Proofs.Pieces

/-!
White space in the text of an argument. What classification sees of it is whether it parts two
letters or numbers, and whether it parts anything at all. A condensed text, with one space for
every run of white space and none at its ends, parts the same characters as before, so it is
classified as the same argument.
-/

namespace TreeSelect

namespace Text

/-- White space, and nothing else, stands between two characters of a kind. -/
def Parts (kind : Char → Bool) (text : List Char) : Prop :=
  ∃ before first gap second after, text = before ++ first :: (gap ++ second :: after) ∧
    gap ≠ [] ∧ Blank gap ∧ kind first = true ∧ kind second = true

/-- The same found in one pass, behind a character and some white space, or none. -/
def partsAfter (kind : Char → Bool) (previous : Option Char) (spaced : Bool) : List Char → Bool
  | [] => false
  | c :: rest =>
      if isBlank c then partsAfter kind previous true rest
      else if spaced && kind c && previous.any kind then true
      else partsAfter kind (some c) false rest

/-- What `condensed` makes of a text behind something written already, or nothing, and behind
some white space, or none. -/
def condensedAfter (written spaced : Bool) : List Char → List Char
  | [] => []
  | c :: rest =>
      if isBlank c then condensedAfter written true rest
      else gap (written && spaced) ++ c :: condensedAfter true false rest

/-- The text with one space for every run of white space, and with none at its ends. -/
def condensed (text : List Char) : List Char := condensedAfter false false text

theorem blank_gap (spaced : Bool) : Blank (gap spaced) := by
  cases spaced <;> decide

theorem gap_filled (spaced : Bool) : (!(gap spaced).isEmpty) = spaced := by
  cases spaced <;> rfl

/-! The pass finds what is parted. -/

section
variable {kind : Char → Bool} {previous : Option Char} {spaced : Bool} {text : List Char}

theorem parts_after_gap {between : List Char} (blank : Blank between) (previous : Option Char)
    (spaced : Bool) (rest : List Char) :
    partsAfter kind previous spaced (between ++ rest) =
      partsAfter kind previous (spaced || !between.isEmpty) rest := by
  induction between generalizing spaced with
  | nil => simp
  | cons c between ih =>
      have later := ih (fun d member => blank d (List.mem_cons_of_mem c member)) true
      simp [partsAfter, blank c List.mem_cons_self, later]

theorem parts_after_blank (blank : Blank text) : partsAfter kind previous spaced text = false := by
  have none := @parts_after_gap kind text blank previous spaced []
  rwa [List.append_nil] at none

theorem parts_after_behind {rest : List Char}
    (found : ∀ previous spaced, partsAfter kind previous spaced rest = true)
    (before : List Char) (previous : Option Char) (spaced : Bool) :
    partsAfter kind previous spaced (before ++ rest) = true := by
  induction before generalizing previous spaced with
  | nil => exact found previous spaced
  | cons c before ih => simp [partsAfter, ih]

theorem parts_after_of_parts (solid : ∀ c, kind c = true → isBlank c = false)
    (parts : Parts kind text) : partsAfter kind previous spaced text = true := by
  obtain ⟨before, first, between, second, after, rfl, filled, blank, isFirst, isSecond⟩ := parts
  refine parts_after_behind (fun previous spaced => ?_) before previous spaced
  have behind : partsAfter kind (some first) false (between ++ second :: after) = true := by
    rw [parts_after_gap blank]
    simp [partsAfter, filled, solid second isSecond, isFirst, isSecond]
  simp [partsAfter, solid first isFirst, behind]

theorem Parts.cons {c : Char} (parts : Parts kind text) : Parts kind (c :: text) := by
  obtain ⟨before, first, between, second, after, rfl, found⟩ := parts
  exact ⟨c :: before, first, between, second, after, rfl, found⟩

/-- The first of the two characters may have been passed already. -/
theorem parts_of_after (found : partsAfter kind previous spaced text = true) :
    Parts kind text ∨ ∃ between second after, text = between ++ second :: after ∧
      Blank between ∧ (spaced = true ∨ between ≠ []) ∧ previous.any kind = true ∧
      kind second = true := by
  induction text generalizing previous spaced with
  | nil => cases found
  | cons c text ih =>
      simp only [partsAfter] at found
      by_cases blank : isBlank c = true
      · rw [if_pos blank] at found
        refine (ih found).imp Parts.cons ?_
        rintro ⟨between, second, after, rfl, blanks, -, isFirst, isSecond⟩
        exact ⟨c :: between, second, after, rfl, List.forall_mem_cons.mpr ⟨blank, blanks⟩,
          .inr (by simp), isFirst, isSecond⟩
      · rw [if_neg blank] at found
        by_cases here : (spaced && kind c && previous.any kind) = true
        · simp only [Bool.and_eq_true] at here
          exact .inr ⟨[], c, text, rfl, List.forall_mem_nil _, .inl here.1.1, here.2, here.1.2⟩
        · rw [if_neg here] at found
          rcases ih found with parts | ⟨between, second, after, rfl, blanks, gap, isFirst, isSecond⟩
          · exact .inl parts.cons
          · exact .inl ⟨[], c, between, second, after, rfl, by simpa using gap, blanks, isFirst,
              isSecond⟩

theorem parts_iff (solid : ∀ c, kind c = true → isBlank c = false) :
    partsAfter kind none false text = true ↔ Parts kind text := by
  constructor
  · intro found
    rcases parts_of_after found with parts | ⟨_, _, _, _, _, _, none, _⟩
    · exact parts
    · cases none
  · exact parts_after_of_parts solid

end

/-! Condensed texts. -/

theorem parts_after_condensed (kind : Char → Bool) (text : List Char) (previous : Option Char)
    (spaced : Bool) :
    partsAfter kind previous false (condensedAfter previous.isSome spaced text) =
      partsAfter kind previous spaced text := by
  induction text generalizing previous spaced with
  | nil => rfl
  | cons c text ih =>
      by_cases blank : isBlank c = true
      · simp only [condensedAfter, partsAfter, if_pos blank]
        exact ih previous true
      · have later : partsAfter kind (some c) false (condensedAfter true false text) =
            partsAfter kind (some c) false text := ih (some c) false
        simp only [condensedAfter, if_neg blank, parts_after_gap (blank_gap _), gap_filled,
          partsAfter, later]
        -- Where nothing was passed, white space parts nothing.
        cases previous <;> simp

theorem filter_condensed (text : List Char) (written spaced : Bool) :
    (condensedAfter written spaced text).filter (!isBlank ·) = text.filter (!isBlank ·) := by
  have none : ∀ spaced, (gap spaced).filter (!isBlank ·) = [] := by decide
  induction text generalizing written spaced with
  | nil => rfl
  | cons c text ih =>
      by_cases blank : isBlank c = true <;>
        simp [condensedAfter, blank, none, ih]

theorem condensed_after_gap {between : List Char} (blank : Blank between) (written spaced : Bool)
    (rest : List Char) :
    condensedAfter written spaced (between ++ rest) =
      condensedAfter written (spaced || !between.isEmpty) rest := by
  induction between generalizing spaced with
  | nil => simp
  | cons c between ih =>
      have later := ih (fun d member => blank d (List.mem_cons_of_mem c member)) true
      simp [condensedAfter, blank c List.mem_cons_self, later]

theorem condensed_after_blank {between : List Char} (blank : Blank between)
    (written spaced : Bool) : condensedAfter written spaced between = [] := by
  have none := condensed_after_gap blank written spaced []
  rwa [List.append_nil] at none

theorem condensed_after_solid {word : List Char} (solid : Argument.Solid word) (filled : word ≠ [])
    (written spaced : Bool) (rest : List Char) :
    condensedAfter written spaced (word ++ rest) =
      gap (written && spaced) ++ (word ++ condensedAfter true false rest) := by
  induction word generalizing written spaced with
  | nil => exact absurd rfl filled
  | cons c word ih =>
      have here := solid c List.mem_cons_self
      by_cases last : word = []
      · simp [last, condensedAfter, here]
      · have later := ih (fun d member => solid d (List.mem_cons_of_mem c member)) last true false
        simp [condensedAfter, here, later, gap]

end Text

namespace Argument

/-! Names: what is left of a text without the white space at its ends. -/

theorem trim_split (text : List Char) :
    ∃ leading trailing, text = leading ++ (trimBlanks text ++ trailing) ∧ Text.Blank leading ∧
      Text.Blank trailing ∧ (∀ c ∈ (trimBlanks text).head?, Text.isBlank c = false) ∧
      ∀ c ∈ (trimBlanks text).getLast?, Text.isBlank c = false := by
  have whole : trimBlanks text ++
      ((text.dropWhile Text.isBlank).reverse.takeWhile Text.isBlank).reverse =
        text.dropWhile Text.isBlank := by
    rw [trimBlanks, ← List.reverse_append, List.takeWhile_append_dropWhile, List.reverse_reverse]
  refine ⟨text.takeWhile Text.isBlank,
    ((text.dropWhile Text.isBlank).reverse.takeWhile Text.isBlank).reverse, ?_, ?_, ?_, ?_, ?_⟩
  · rw [whole, List.takeWhile_append_dropWhile]
  · exact List.all_eq_true.mp List.all_takeWhile
  · exact fun c member => List.all_eq_true.mp List.all_takeWhile c (List.mem_reverse.mp member)
  · intro c head
    refine Token.head_drop_while Text.isBlank text c ?_
    rw [← whole, List.head?_append, Option.mem_def.mp head]
    rfl
  · rw [trimBlanks, List.getLast?_reverse]
    exact Token.head_drop_while Text.isBlank _

/-- Behind one solid word there is nothing to part. -/
theorem solid_parts_nothing {word trailing : List Char} (solid : Solid word)
    (blank : Text.Blank trailing) (kind : Char → Bool) (previous : Option Char) :
    Text.partsAfter kind previous false (word ++ trailing) = false := by
  induction word generalizing previous with
  | nil => exact Text.parts_after_blank blank
  | cons c word ih =>
      have here := solid c List.mem_cons_self
      simp [Text.partsAfter, here, ih fun d member => solid d (List.mem_cons_of_mem c member)]

theorem last_of_cons {c : Char} {word : List Char}
    (last : ∀ d ∈ (c :: word).getLast?, Text.isBlank d = false) :
    ∀ d ∈ word.getLast?, Text.isBlank d = false := by
  intro d member
  refine last d ?_
  rw [List.getLast?_cons, Option.mem_def.mp member]
  rfl

theorem solid_of_nothing_parted {word trailing : List Char} {previous : Char} {spaced : Bool}
    (before : Text.isBlank previous = false) (last : ∀ c ∈ word.getLast?, Text.isBlank c = false)
    (none : Text.partsAfter (!Text.isBlank ·) (some previous) spaced (word ++ trailing) = false) :
    word = [] ∨ spaced = false ∧ Solid word := by
  induction word generalizing previous spaced with
  | nil => exact .inl rfl
  | cons c word ih =>
      right
      simp only [List.cons_append, Text.partsAfter] at none
      by_cases blank : Text.isBlank c = true
      · -- Behind white space the word goes on, and what comes there is parted.
        rw [if_pos blank] at none
        rcases ih before (last_of_cons last) none with rfl | ⟨⟨⟩, -⟩
        rw [last c rfl] at blank
        cases blank
      · have solid := eq_false_of_ne_true blank
        rw [if_neg blank] at none
        cases spaced with
        | true => simp [solid, before] at none
        | false =>
            refine ⟨rfl, List.forall_mem_cons.mpr ⟨solid, ?_⟩⟩
            rcases ih solid (last_of_cons last) (by simpa using none) with rfl | ⟨-, rest⟩
            · exact List.forall_mem_nil _
            · exact rest

theorem solid_trim_iff (text : List Char) :
    Solid (trimBlanks text) ↔ Text.partsAfter (!Text.isBlank ·) none false text = false := by
  obtain ⟨leading, trailing, split, blank, blank', head, last⟩ := trim_split text
  generalize trimBlanks text = word at split head last
  rw [split, Text.parts_after_gap blank]
  cases word with
  | nil => exact iff_of_true (List.forall_mem_nil _) (Text.parts_after_blank blank')
  | cons c word =>
      have solid := head c rfl
      have behind : Text.partsAfter (!Text.isBlank ·) none (false || !leading.isEmpty)
          (c :: word ++ trailing) =
            Text.partsAfter (!Text.isBlank ·) (some c) false (word ++ trailing) := by
        simp [Text.partsAfter, solid]
      rw [behind]
      constructor
      · intro word
        exact solid_parts_nothing (List.forall_mem_cons.mp word).2 blank' _ _
      · intro none
        have last' : ∀ d ∈ word.getLast?, Text.isBlank d = false := by
          intro d member
          refine last d ?_
          rw [List.getLast?_cons, Option.mem_def.mp member]
          rfl
        refine List.forall_mem_cons.mpr ⟨solid, ?_⟩
        rcases solid_of_nothing_parted solid (last_of_cons last) none with rfl | ⟨-, rest⟩
        · exact List.forall_mem_nil _
        · exact rest

/-- Where a name is left, condensing leaves the same one; elsewhere it leaves none either. -/
theorem name_condensed (text : List Char) :
    trimBlanks (Text.condensed text) = trimBlanks text ∨
      isIdentifier (String.ofList (trimBlanks (Text.condensed text))) = false ∧
        isIdentifier (String.ofList (trimBlanks text)) = false := by
  have same : Solid (trimBlanks (Text.condensed text)) ↔ Solid (trimBlanks text) := by
    have parts := Text.parts_after_condensed (!Text.isBlank ·) text none false
    rw [solid_trim_iff, solid_trim_iff, ← parts]
    rfl
  have noName : ∀ word, ¬ Solid word → isIdentifier (String.ofList word) = false := by
    intro word notSolid
    apply eq_false_of_ne_true
    intro identifier
    have solid := (identifier_plain identifier).solid
    rw [String.toList_ofList] at solid
    exact notSolid solid
  by_cases solid : Solid (trimBlanks text)
  · left
    rw [← filter_solid solid, ← filter_solid (same.mpr solid), filter_trim, filter_trim,
      Text.condensed, Text.filter_condensed]
  · exact .inr ⟨noName _ (solid ∘ same.mp), noName _ solid⟩

theorem splits_term_after_eq (previous : Option Char) (spaced : Bool) (text : List Char) :
    splitsTermAfter previous spaced text =
      Text.partsAfter Text.isAlphanumeric previous spaced text := by
  induction text generalizing previous spaced with
  | nil => rfl
  | cons c text ih => simp only [splitsTermAfter, Text.partsAfter, ih]

/-- Classification does not see how much white space stands at one place. -/
theorem classify_condensed (text : String) :
    classify (String.ofList (Text.condensed text.toList)) = classify text := by
  have splits : splitsTerm (Text.condensed text.toList) = splitsTerm text.toList := by
    rw [splitsTerm, splits_term_after_eq, splitsTerm, splits_term_after_eq]
    exact Text.parts_after_condensed Text.isAlphanumeric text.toList none false
  have kept : (Text.condensed text.toList).filter (!Text.isBlank ·) =
      text.toList.filter (!Text.isBlank ·) := Text.filter_condensed text.toList false false
  rcases name_condensed text.toList with same | ⟨noName, noName'⟩
  · simp only [classify, String.toList_ofList, splits, kept, same]
  · simp only [classify, String.toList_ofList, splits, kept, noName, noName', Bool.false_eq_true,
      if_false]

end Argument
end TreeSelect
