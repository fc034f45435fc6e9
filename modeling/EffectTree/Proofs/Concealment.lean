import Mathlib
import EffectTree.Proofs.UnfoldedEvaluation

/-!
# Concealed references

A run conceals a reference to a result if nothing that is asked on the way can tell it from the
output of the result. An output that is neither unknown nor a record nor a bare `Ref` is always
concealed. For others it depends on the run: where there are finitely many questions, they can be
asked one after another.
-/
namespace EffectTree

open Resolution

namespace Resolver

variable {r : Resolver} {q q' : Question}

end Resolver

namespace Stored

variable {s : Stored} {r : Resolver}

end Stored

namespace Evaluation

variable {s : Stored} {node : Descriptor} {w : World}

namespace State

end State

end Evaluation

end EffectTree
