/-!
JSON values. A number keeps the spelling it was read with, and an object keeps all its
members in order, repeated names included.
-/

namespace TreeSelect

inductive Json where
  | null
  | bool (value : Bool)
  | number (spelling : String)
  | string (value : String)
  | array (items : List Json)
  | object (members : List (String × Json))

def Json.ofInt (value : Int) : Json := .number value.repr

def Json.ofNat (value : Nat) : Json := .number value.repr

/-- The members with this name, in order. -/
def Json.named (name : String) (members : List (String × Json)) : List Json :=
  (members.filter fun member => member.1 == name).map Prod.snd

end TreeSelect
