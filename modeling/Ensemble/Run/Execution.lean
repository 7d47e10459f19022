import Ensemble.Agent.Registry
import Ensemble.Plan.Step

/-!
# Executing plans

Steps see the results of steps before them under the names of those steps and of their agents. A
sequence runs its steps in order, each with the results of the ones before it; when one fails the
rest is left out. The branches of a parallel node all see what the node sees, and nothing of each
other; its result is the list of their results.
-/

namespace Ensemble

/-- Results by the names that they are known by. -/
abbrev Bindings := List (String × Json)

/-- The result of a step, and what it and the steps under it have bound. -/
structure StepOutcome where
  value : Json
  bindings : Bindings
deriving Repr

namespace Execution

/-- The text of what a name is bound to. -/
def textOf (scope : Bindings) (name : String) : Option String := (scope.lookup name).map Json.plain

/-- Calls an agent of a registry. -/
def callAgent (r : Registry) (c : Call) (message : Message) :
    RunProg (Except CallError AgentReply) :=
  match r.find? c.agent with
  | some h => h.invoke c.name message
  | none => return .error { agent := c.agent, fault := .unknownAgent }

def callOutcome (c : Call) (text : String) : StepOutcome :=
  { value := .string text
    bindings := Table.insert c.agent (.string text) (Table.insert c.name (.string text) []) }

/-- A step that calls an agent. -/
def call (r : Registry) (c : Call) (scope : Bindings) :
    RunProg (Except FlowError StepOutcome) := do
  RunProg.note (.logStart c.name)
  match c.bind? (textOf scope) with
  | none => .crash
  | some message =>
    RunProg.note (.emitStart c.agent c.name message.toJson.canonical)
    match ← callAgent r c message with
    | .ok reply =>
      RunProg.note (.logSuccess c.name)
      RunProg.note (.count reply.modelCalls reply.toolCalls)
      return .ok (callOutcome c reply.text)
    | .error e =>
      RunProg.note (.logFailure c.name e.message)
      return .error (.call e)

/-- Notes that steps are left out. -/
def skipAll : List String → RunProg Unit
  | [] => return ()
  | name :: rest => do
    RunProg.note (.logSkip name)
    skipAll rest

/-! ## Outcomes of branches -/

/-- Whether a branch has not been run to its end although it has not failed. -/
def isLeftOut : BranchOutcome StepOutcome → Bool
  | .skipped => true
  | .cancelled => true
  | _ => false

def firstError? : List (BranchOutcome StepOutcome) → Option FlowError
  | [] => none
  | .failed e :: _ => some e
  | _ :: rest => firstError? rest

/-- The name of the first branch that was dropped. -/
def firstAborted? : List (String × BranchOutcome StepOutcome) → Option String
  | [] => none
  | (name, .cancelled) :: _ => some name
  | _ :: rest => firstAborted? rest

def completed? : BranchOutcome StepOutcome → Option StepOutcome
  | .completed out => some out
  | _ => none

/-- The result of a parallel node: the results of all branches, or the error of the first one that
failed, or that one was dropped. -/
def verdict (name : String) (branches : List (String × BranchOutcome StepOutcome)) :
    Except FlowError StepOutcome :=
  match firstError? (branches.map Prod.snd) with
  | some e => .error e
  | none =>
    match firstAborted? branches with
    | some branch => .error (.collaborator s!"parallel branch `{branch}` was aborted")
    | none =>
      let outs := branches.filterMap fun b => completed? b.2
      let value := Json.array (outs.map StepOutcome.value)
      let produced := outs.foldl (fun all out => Table.extend all out.bindings) []
      .ok { value, bindings := Table.insert name value produced }

/-- Notes the branches that were left out, and ends with the result of the node. -/
def collect (name : String) (branches : List (String × BranchOutcome StepOutcome)) :
    RunScript StepOutcome :=
  (skipAll ((branches.filter fun b => isLeftOut b.2).map Prod.fst)).andThen fun () =>
    .ret (verdict name branches)

/-! ## Steps -/

/-- The outcome of a sequence whose last step gave `last`. -/
def sequenceOutcome (name : String) (produced : Bindings) (last : Json) : StepOutcome :=
  { value := last, bindings := Table.insert name last produced }

mutual

/-- The script of a step that sees the given bindings. -/
def step (r : Registry) : Step → Bindings → RunScript StepOutcome
  | .call c, scope => (call r c scope).toScript
  | .sequence name steps, scope => sequence r name scope [] .null steps
  | .parallel name steps, scope =>
    .fork (branches r scope steps) fun outcomes =>
      collect name ((steps.map Step.name).zip outcomes)

/-- The rest of a sequence: what its steps see, what they have bound, and the last result. -/
def sequence (r : Registry) (name : String) (scope produced : Bindings) (last : Json) :
    List Step → RunScript StepOutcome
  | [] => .ret (.ok (sequenceOutcome name produced last))
  | s :: rest =>
    (step r s scope).andThen fun
      | .ok out =>
        sequence r name (Table.extend scope out.bindings) (Table.extend produced out.bindings)
          out.value rest
      | .error e => (skipAll (rest.map Step.name)).andThen fun () => .ret (.error e)

/-- The scripts of the branches of a parallel node. -/
def branches (r : Registry) (scope : Bindings) : List Step → List (RunScript StepOutcome)
  | [] => []
  | s :: rest => step r s scope :: branches r scope rest

end

end Execution

end Ensemble
