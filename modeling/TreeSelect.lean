import TreeSelect.Main
import TreeSelect.Token.Indexed
import TreeSelect.Proofs.Composition
import TreeSelect.Proofs.ElementStructure
import TreeSelect.Proofs.Loading
import TreeSelect.Proofs.Narrowing
import TreeSelect.Proofs.Nesting
import TreeSelect.Matching.Aloud
import TreeSelect.Proofs.Warnings
import TreeSelect.Proofs.Halting
import TreeSelect.Proofs.Lookahead
import TreeSelect.Proofs.Command
import TreeSelect.Proofs.Classification
import TreeSelect.Proofs.Formulas
import TreeSelect.Proofs.Siblings
import TreeSelect.Proofs.Partition
import TreeSelect.Proofs.Layout
import TreeSelect.Proofs.Refusal
import TreeSelect.Proofs.Standalone
import TreeSelect.Proofs.Calls
import TreeSelect.Proofs.Grafting
import TreeSelect.Proofs.Union
import TreeSelect.Proofs.LetterCase
import TreeSelect.Proofs.Conjunction
import TreeSelect.Proofs.Operators
import TreeSelect.Proofs.Canonical
import TreeSelect.Proofs.Neighbours
import TreeSelect.Proofs.Progress
import TreeSelect.Proofs.CountedType
import TreeSelect.Proofs.LoneNames
import TreeSelect.Proofs.Places
