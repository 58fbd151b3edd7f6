import TreeSelect.Json

/-!
Numbers of JSON text. Only their spelling is kept, but a number that is too large for a
double is refused. The digits are gathered in 64 bits: digits of the whole part that no
longer fit are counted into the exponent, digits of the fraction that no longer fit are
dropped. The product of significand and power of ten is rounded as doubles are.
-/

namespace TreeSelect.Json

structure Scaled where
  significand : Nat
  exponent : Int

namespace Scaled

def digit (c : Char) : Nat := c.toNat - '0'.toNat

def fits (value : Nat) : Bool := decide (value < Nat.pow 2 64)

def addWhole (scaled : Scaled) (c : Char) : Scaled :=
  let next := scaled.significand * 10 + digit c
  if scaled.exponent = 0 ∧ fits next then { scaled with significand := next }
  else { scaled with exponent := scaled.exponent + 1 }

def addFraction (scaled : Scaled) : List Char → Scaled
  | [] => scaled
  | c :: rest =>
      let next := scaled.significand * 10 + digit c
      if fits next then addFraction ⟨next, scaled.exponent - 1⟩ rest else scaled

def ofDigits (whole fraction : List Char) (power : Int) : Scaled :=
  let scaled := (whole.foldl addWhole ⟨0, 0⟩).addFraction fraction
  { scaled with exponent := scaled.exponent + power }

/-- The nearest number of 53 binary digits, the even one of two that are equally near. -/
def toDoublePrecision (value : Nat) : Nat :=
  if value < Nat.pow 2 53 then value
  else
    let unit := Nat.pow 2 (value.log2 - 52)
    let kept := value / unit
    let dropped := value % unit
    let up := dropped * 2 > unit || (dropped * 2 == unit && kept % 2 == 1)
    (if up then kept + 1 else kept) * unit

/-- The least number that is rounded to infinity: half a step above the greatest double. -/
def infinityThreshold : Nat := Nat.pow 2 1024 - Nat.pow 2 970

def isTooLarge (scaled : Scaled) : Bool :=
  if scaled.significand = 0 ∨ scaled.exponent < 0 then false
  else if scaled.exponent > 308 then true
  else
    decide (infinityThreshold ≤
      toDoublePrecision scaled.significand * toDoublePrecision (Nat.pow 10 scaled.exponent.toNat))

end Scaled

def digits (text : List Char) : List Char × List Char :=
  (text.takeWhile Char.isDigit, text.dropWhile Char.isDigit)

/-- A whole part is `0`, or digits that do not start with `0`. -/
def isWholePart : List Char → Bool
  | [] => false
  | ['0'] => true
  | first :: _ => first != '0'

def readFraction (text : List Char) : Option (List Char × List Char) :=
  match text with
  | '.' :: rest =>
      let (fraction, after) := digits rest
      if fraction.isEmpty then none else some (fraction, after)
  | _ => some ([], text)

def readPower (text : List Char) : Option (Int × List Char) :=
  match text with
  | mark :: rest =>
      if mark = 'e' ∨ mark = 'E' then
        let (negative, unsigned) := match rest with
          | '-' :: more => (true, more)
          | '+' :: more => (false, more)
          | more => (false, more)
        let (power, after) := digits unsigned
        if power.isEmpty then none
        else
          let size : Int := Nat.ofDigitChars 10 power 0
          some (if negative then -size else size, after)
      else some (0, text)
  | [] => some (0, [])

def readNumber (text : List Char) : Option (Json × List Char) := do
  let unsigned := match text with
    | '-' :: rest => rest
    | _ => text
  let (whole, afterWhole) := digits unsigned
  if !isWholePart whole then none
  else
    let (fraction, afterFraction) ← readFraction afterWhole
    let (power, rest) ← readPower afterFraction
    if (Scaled.ofDigits whole fraction power).isTooLarge then none
    else some (.number (String.ofList (text.take (text.length - rest.length))), rest)

end TreeSelect.Json
