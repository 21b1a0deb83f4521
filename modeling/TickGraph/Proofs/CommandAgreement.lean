import TickGraph.Proofs.FormulaText
import TickGraph.Proofs.SavedResults
import TickGraph.Proofs.SingleTicks

namespace TickGraph

section Halves

variable {h : Half}

end Halves

section Described

variable {file : File} {root : Node}

variable {graph : Json} (holds : file.Holds graph) (read : Node.read graph Path.graph = .ok root)

include holds read

end Described

section Evaluated

variable {file : File} {options : EvaluateOptions} {given : List Binding}

end Evaluated

end TickGraph
