/-!
Names without regard to ASCII letter case. Letters outside ASCII keep their case:
`É` and `é` are different names.
-/

namespace TreeSelect.Text

def foldCase (name : String) : String := name.map Char.toLower

def sameName (left right : String) : Bool := foldCase left == foldCase right

theorem same_name_iff (left right : String) :
    sameName left right = true ↔ foldCase left = foldCase right := by
  simp [sameName]

theorem same_name_refl (name : String) : sameName name name = true := by
  simp [sameName]

theorem same_name_symm (left right : String) : sameName left right = sameName right left := by
  exact BEq.comm

end TreeSelect.Text
