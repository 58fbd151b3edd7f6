import TreeSelect.Matching.Report

/-!
Warnings are given once each. The memory holds the lines that were given since it was
last empty; the line of a warning names its component, and two warnings with one line are
the same warning.
-/

namespace TreeSelect

structure WarningMemory where
  lines : List String

def warningLine (component message : String) : String := "[" ++ component ++ "] " ++ message

namespace WarningMemory

def empty : WarningMemory := ⟨[]⟩

def warned (memory : WarningMemory) (component message : String) : Bool :=
  memory.lines.contains (warningLine component message)

/-- The records that are due, none for a warning given before. -/
def warn (memory : WarningMemory) (component message : String) :
    WarningMemory × List Record :=
  let line := warningLine component message
  if memory.lines.contains line then (memory, [])
  else (⟨memory.lines ++ [line]⟩, [⟨.warn, "sift", line⟩])

def log (memory : WarningMemory) : List Event → WarningMemory × List Record
  | [] => (memory, [])
  | .record record :: rest =>
      let (after, records) := memory.log rest
      (after, record :: records)
  | .warning component message :: rest =>
      let (warned, due) := memory.warn component message
      let (after, records) := warned.log rest
      (after, due ++ records)

end WarningMemory
end TreeSelect
