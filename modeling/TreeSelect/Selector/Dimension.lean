import TreeSelect.Text.Magnitude

/-!
The `An+B` form. Magnitudes and signs are kept apart, and `normal` gives a zero the plus
sign, so that `+0n-0` and `0n` are one value. A value built by hand may still hold a
negative zero; its step and offset are the same numbers.
-/

namespace TreeSelect

inductive Sign where
  | plus
  | minus
  deriving DecidableEq

def Sign.apply (sign : Sign) (magnitude : UInt32) : Int :=
  match sign with
  | .plus => magnitude.toNat
  | .minus => -magnitude.toNat

/-- At most one sign is taken off; a text without a sign is positive. -/
def Sign.split : List Char → Sign × List Char
  | '-' :: rest => (.minus, rest)
  | '+' :: rest => (.plus, rest)
  | text => (.plus, text)

structure Dimension where
  a : UInt32
  aSign : Sign
  b : UInt32
  bSign : Sign
  deriving DecidableEq

/-- An index is admitted when it is `step * n + offset` for some `n ≥ 0`. -/
structure Formula where
  step : Int
  offset : Int
  deriving DecidableEq

namespace Dimension

def normal (aSign : Sign) (a : UInt32) (bSign : Sign) (b : UInt32) : Dimension where
  a := a
  aSign := if a = 0 then .plus else aSign
  b := b
  bSign := if b = 0 then .plus else bSign

def step (d : Dimension) : Int := d.aSign.apply d.a

def offset (d : Dimension) : Int := d.bSign.apply d.b

def formula (d : Dimension) : Formula := ⟨d.step, d.offset⟩

def isUnknown (c : Char) : Bool := c == 'n' || c == 'N'

/-- Digits that may be left out, with the number that they then stand for. -/
def digitsOr (missing : UInt32) (digits : List Char) : Option UInt32 :=
  if digits.isEmpty then some missing else Text.magnitude? digits

/-- Reads `[sign][digits]n[sign][digits]`, without any white space: `n` is `1n+0`. -/
def read? (text : List Char) : Option Dimension :=
  let (aSign, rest) := Sign.split text
  match rest.dropWhile (!isUnknown ·) with
  | [] => none
  | _ :: tail =>
      let (bSign, bDigits) := Sign.split tail
      match digitsOr 1 (rest.takeWhile (!isUnknown ·)), digitsOr 0 bDigits with
      | some a, some b => some (normal aSign a bSign b)
      | _, _ => none

/-- A coefficient of one and an offset of zero are left out. -/
def text (d : Dimension) : String :=
  (if d.aSign = .minus then "-" else "")
    ++ (if d.a = 1 then "" else Nat.repr d.a.toNat)
    ++ "n"
    ++ (if d.b = 0 then ""
        else (if d.bSign = .minus then "-" else "+") ++ Nat.repr d.b.toNat)

end Dimension
end TreeSelect
