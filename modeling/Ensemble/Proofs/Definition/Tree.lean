import Ensemble.Definition.Basic
import Ensemble.Plan.Step

/-!
# Stored trees

The nodes of a stored tree in reading order, its height, and its outline
without templates, which a tree of steps has as well: `Step.skeleton`
forgets the names and messages of steps.
-/

namespace Ensemble

namespace Node

mutual

/-- The nodes of a tree, a node before those under it. -/
def walk : Node → List Node
  | .agentCall agent input => [.agentCall agent input]
  | .sequence nodes => .sequence nodes :: walkAll nodes
  | .parallel nodes => .parallel nodes :: walkAll nodes

def walkAll : List Node → List Node
  | [] => []
  | n :: rest => walk n ++ walkAll rest

end

mutual

/-- The number of levels of a tree. -/
def height : Node → Nat
  | .agentCall .. => 1
  | .sequence nodes => 1 + heightAll nodes
  | .parallel nodes => 1 + heightAll nodes

def heightAll : List Node → Nat
  | [] => 0
  | n :: rest => max (height n) (heightAll rest)

end

mutual

/-- A tree without its templates. -/
def skeleton : Node → Node
  | .agentCall agent _ => .agentCall agent none
  | .sequence nodes => .sequence (skeletonAll nodes)
  | .parallel nodes => .parallel (skeletonAll nodes)

def skeletonAll : List Node → List Node
  | [] => []
  | n :: rest => skeleton n :: skeletonAll rest

end

def isCall : Node → Bool
  | .agentCall .. => true
  | _ => false

/-- A node that has no nodes below it and is no call. -/
def IsEmptyNode (n : Node) : Prop := n = .sequence [] ∨ n = .parallel []

end Node

namespace Step

mutual

/-- A tree of steps without their names and messages. -/
def skeleton : Step → Node
  | .call c => .agentCall c.agent none
  | .sequence _ steps => .sequence (skeletonAll steps)
  | .parallel _ steps => .parallel (skeletonAll steps)

def skeletonAll : List Step → List Node
  | [] => []
  | s :: rest => skeleton s :: skeletonAll rest

end

/-- The last part of the names of steps: who is called, or the kind of node. -/
def label : Step → String
  | .call c => c.agent
  | .sequence .. => "sequence"
  | .parallel .. => "parallel"

end Step

end Ensemble
