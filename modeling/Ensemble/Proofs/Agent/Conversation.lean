import Ensemble.Proofs.Agent.Handle
import Ensemble.Proofs.Process.Acts

/-!
# Conversations

All that a call of an agent performs, from its first request to its end:
requests, the uses of tools that an answer asks for, and what puts an
answer on record. `AgentHandle.Conversation` has a constructor for each way
in which a round can go, and `ends_rounds` says that every call is such a
conversation, so later files argue by induction on it and never look at
the program of the call. `AgentHandle.Performs` is what can be said of a
call that is still going on, too.
-/

namespace Ensemble

/-- What the reply of a call becomes with another answer. -/
def AgentReply.after (reply : AgentReply) (r : ModelResponse) (results : List Part) : AgentReply :=
  { text := r.text, usage := reply.usage + r.usage, modelCalls := reply.modelCalls + 1
    toolCalls := reply.toolCalls + results.length }

/-- Whether an act is a use of a tool. -/
def Act.IsUse : Act → Prop
  | .invoke .. => True
  | _ => False

/-! ## Records -/

namespace Accountant

/-- What the statistics are told of an answer whose usage was recorded. -/
def stat (a : Accountant) (reason : String) (usage : SessionUsage) : Usage.Stat :=
  Usage.Stat.ofEvent a.event usage.delta (some reason) usage.time

/-- What is performed when the session takes the usage of an answer. -/
def recorded (a : Accountant) (delta : Tokens) (reason : String) (usage : SessionUsage) :
    List (Exchange Act Act.Reply) :=
  ⟨.recordSession a.session a.agent delta, (Except.ok usage : Except String SessionUsage)⟩
    :: ⟨.aggregate (a.stat reason usage), ()⟩
    :: if a.bills then [⟨.bill usage (a.stat reason usage), ()⟩] else []

/-- What is performed when it does not. -/
def refused (a : Accountant) (delta : Tokens) (message : String) :
    List (Exchange Act Act.Reply) :=
  [⟨.recordSession a.session a.agent delta, (Except.error message : Except String SessionUsage)⟩]

variable {a : Accountant} {delta : Tokens} {reason : String} {xs : List (Exchange Act Act.Reply)}

theorem ends_record {out : Option (Except String Unit)}
    (h : (a.record delta reason).Ends xs out) :
    (∃ message, xs = a.refused delta message ∧ out = some (.error message)) ∨
      ∃ usage, xs = a.recorded delta reason usage ∧ out = some (.ok ()) := by
  obtain ⟨reply, ys, rfl, hnext⟩ := Prog.ends_act h
  change Except String SessionUsage at reply
  cases reply with
  | error message =>
      obtain ⟨rfl, rfl⟩ := Prog.ends_ret hnext
      exact Or.inl ⟨message, rfl, rfl⟩
  | ok usage =>
      refine Or.inr ⟨usage, ?_⟩
      obtain ⟨_, zs, rfl, hbill⟩ := Prog.ends_act hnext
      unfold recorded
      change Prog.Ends (if a.bills then _ else _) zs out at hbill
      by_cases hbills : a.bills = true
      · rw [if_pos hbills] at hbill ⊢
        obtain ⟨_, ws, rfl, hret⟩ := Prog.ends_act hbill
        obtain ⟨rfl, rfl⟩ := Prog.ends_ret hret
        exact ⟨rfl, rfl⟩
      · rw [if_neg hbills] at hbill ⊢
        obtain ⟨rfl, rfl⟩ := Prog.ends_ret hbill
        exact ⟨rfl, rfl⟩

end Accountant

namespace AgentHandle

variable {h : AgentHandle} {step : String} {xs : List (Exchange Act Act.Reply)}

/-- What puts an answer into the trace. -/
def finished (h : AgentHandle) (step : String) (r : ModelResponse) (results : List Part) :
    Exchange Act Act.Reply :=
  ⟨.emitFinish h.name h.model step (roundMessages r results) r.usage r.finishReason, ()⟩

/-- What is performed when an answer is put on record and into the trace. -/
def settled (h : AgentHandle) (step : String) (r : ModelResponse) (results : List Part)
    (usage : SessionUsage) : List (Exchange Act Act.Reply) :=
  h.accountant.recorded r.usage r.finishReason usage ++ [h.finished step r results]

theorem ends_finishRound {r : ModelResponse} {results : List Part}
    {out : Option (Except CallError Unit)}
    (hp : (h.finishRound step r (roundMessages r results)).Ends xs out) :
    (∃ message, xs = h.accountant.refused r.usage message
        ∧ out = some (.error (h.fail (.accounting message)))) ∨
      ∃ usage, xs = h.settled step r results usage ∧ out = some (.ok ()) := by
  rcases Prog.ends_bind hp with ⟨hrecord, -⟩ | ⟨ys, zs, result, rfl, hrecord, hnext⟩
  · rcases Accountant.ends_record hrecord with ⟨_, -, hout⟩ | ⟨_, -, hout⟩ <;> cases hout
  · rcases Accountant.ends_record hrecord with ⟨message, rfl, hout⟩ | ⟨usage, rfl, hout⟩
    · obtain rfl := Option.some.inj hout
      obtain ⟨rfl, rfl⟩ := Prog.ends_ret hnext
      exact Or.inl ⟨message, List.append_nil _, rfl⟩
    · obtain rfl := Option.some.inj hout
      obtain ⟨_, ws, rfl, hret⟩ := Prog.ends_act hnext
      obtain ⟨rfl, rfl⟩ := Prog.ends_ret hret
      exact Or.inr ⟨usage, rfl, rfl⟩

/-! ## Tools -/

theorem runTool_safe (context : ToolContext) (c : ToolCall) : (h.runTool context c).Safe := by
  unfold runTool
  split
  · trivial
  · intro reply
    change Except ToolError Json at reply
    cases reply <;> trivial

theorem runTool_uses (context : ToolContext) (c : ToolCall) :
    (h.runTool context c).All Act.IsUse := by
  unfold runTool
  split
  · trivial
  · refine ⟨trivial, fun reply => ?_⟩
    change Except ToolError Json at reply
    cases reply <;> trivial

theorem runTools_safe (context : ToolContext) (calls : List ToolCall) :
    (h.runTools context calls).Safe := by
  induction calls with
  | nil => trivial
  | cons c rest ih =>
      refine (runTool_safe context c).bind fun result => ?_
      cases result with
      | error e => trivial
      | ok result => exact ih.bind fun _ => trivial

theorem runTools_uses (context : ToolContext) (calls : List ToolCall) :
    (h.runTools context calls).All Act.IsUse := by
  induction calls with
  | nil => trivial
  | cons c rest ih =>
      refine (runTool_uses context c).bind fun result => ?_
      cases result with
      | error e => trivial
      | ok result => exact ih.bind fun _ => trivial

/-- An answer, and the uses of the tools that it asks for: their results, and
the failure of the last one, if it has failed. -/
def Uses (h : AgentHandle) (step : String) (r : ModelResponse) (xs : List (Exchange Act Act.Reply))
    (results : List Part) (failure : Option CallError) : Prop :=
  (h.runTools { h.context with step } r.toolCalls).Ends xs (some (results, failure))

theorem Uses.isUse {r : ModelResponse} {results : List Part} {failure : Option CallError}
    (hu : h.Uses step r xs results failure) : ∀ x ∈ xs, x.act.IsUse :=
  (runTools_uses _ _).of_ends hu

/-! ## What a call may perform -/

/-- What a call of the agent for a step may perform, when it is sent the
message `m`. -/
def Performs (h : AgentHandle) (step : String) (m : Message) : Act → Prop
  | .send request => ∃ rest, request = h.request (m :: rest)
  | .invoke .. | .recordSession .. | .aggregate _ | .bill .. => True
  | .emitFinish name model shown .. => name = h.name ∧ model = h.model ∧ shown = step
  | _ => False

variable {m : Message}

theorem await_all {P : Act → Prop} (h : AgentHandle) (pending : PendingModel) :
    (h.await pending).All P := by
  unfold await
  split
  · trivial
  · cases pending.outcome <;> trivial

theorem record_performs (h : AgentHandle) (delta : Tokens) (reason : String) :
    (h.accountant.record delta reason).All (h.Performs step m) := by
  refine ⟨trivial, fun reply => ?_⟩
  change Except String SessionUsage at reply
  cases reply with
  | error message => trivial
  | ok usage =>
      refine ⟨trivial, fun _ => ?_⟩
      change Prog.All (h.Performs step m) (if h.accountant.bills then _ else _)
      split
      · exact ⟨trivial, fun _ => trivial⟩
      · trivial

theorem finishRound_performs (h : AgentHandle) (step : String) (answer : ModelResponse)
    (messages : List Message) : (h.finishRound step answer messages).All (h.Performs step m) := by
  refine (record_performs h _ _).bind fun result => ?_
  cases result with
  | error message => trivial
  | ok _ => exact ⟨⟨rfl, rfl, rfl⟩, fun _ => trivial⟩

/-- All rounds of a call stay with its message and its step. -/
theorem rounds_performs (h : AgentHandle) (step : String) (left : Nat) (tail : List Message)
    (reply : AgentReply) : (h.rounds step left (m :: tail) reply).All (h.Performs step m) := by
  induction left generalizing tail reply with
  | zero => trivial
  | succ left ih =>
      refine ⟨⟨tail, rfl⟩, fun pending => (await_all h pending).bind fun result => ?_⟩
      cases result with
      | error e => trivial
      | ok answer =>
          have huse : ∀ a : Act, a.IsUse → h.Performs step m a := by
            intro a ha
            cases a <;> trivial
          refine Prog.All.bind ((runTools_uses _ _).mono huse) fun ⟨results, failure⟩ => ?_
          refine (finishRound_performs h step answer _).bind fun finished => ?_
          cases finished with
          | error e => trivial
          | ok _ =>
              cases failure with
              | some e => trivial
              | none =>
                  change Prog.All (h.Performs step m) (if answer.toolCalls.isEmpty then _ else _)
                  split
                  · trivial
                  · exact ih (tail ++ _) _

/-! ## Rounds -/

/-- Up to `left` more rounds of a call: what they perform, and how the call
ends, which is with nothing if the model crashes. -/
inductive Conversation (h : AgentHandle) (step : String) :
    Nat → List Message → AgentReply → List (Exchange Act Act.Reply) →
      Option (Except CallError AgentReply) → Prop
  /-- There is no round left. -/
  | spent (history : List Message) (reply : AgentReply) :
      Conversation h step 0 history reply [] (some (.ok reply))
  /-- No answer comes, or not in time. -/
  | unanswered {left : Nat} {history : List Message} {reply : AgentReply}
      {pending : PendingModel} {e : CallError} (late : h.awaited pending = some (.error e)) :
      Conversation h step (left + 1) history reply [⟨.send (h.request history), pending⟩]
        (some (.error e))
  | crashed {left : Nat} {history : List Message} {reply : AgentReply}
      {pending : PendingModel} (crash : h.awaited pending = none) :
      Conversation h step (left + 1) history reply [⟨.send (h.request history), pending⟩] none
  /-- The session does not take the usage of the answer. -/
  | refused {left : Nat} {history : List Message} {reply : AgentReply}
      {pending : PendingModel} {r : ModelResponse} {uses : List (Exchange Act Act.Reply)}
      {results : List Part} {failure : Option CallError} {message : String}
      (answer : h.awaited pending = some (.ok r)) (used : h.Uses step r uses results failure) :
      Conversation h step (left + 1) history reply
        (⟨.send (h.request history), pending⟩
          :: (uses ++ h.accountant.refused r.usage message))
        (some (.error (h.fail (.accounting message))))
  /-- A tool has failed. -/
  | failed {left : Nat} {history : List Message} {reply : AgentReply}
      {pending : PendingModel} {r : ModelResponse} {uses : List (Exchange Act Act.Reply)}
      {results : List Part} {usage : SessionUsage} {e : CallError}
      (answer : h.awaited pending = some (.ok r)) (used : h.Uses step r uses results (some e)) :
      Conversation h step (left + 1) history reply
        (⟨.send (h.request history), pending⟩ :: (uses ++ h.settled step r results usage))
        (some (.error e))
  /-- The answer asks for no tools. -/
  | last {left : Nat} {history : List Message} {reply : AgentReply}
      {pending : PendingModel} {r : ModelResponse} {uses : List (Exchange Act Act.Reply)}
      {results : List Part} {usage : SessionUsage}
      (answer : h.awaited pending = some (.ok r)) (used : h.Uses step r uses results none)
      (none : r.toolCalls = []) :
      Conversation h step (left + 1) history reply
        (⟨.send (h.request history), pending⟩ :: (uses ++ h.settled step r results usage))
        (some (.ok (reply.after r results)))
  /-- The model is asked again with the results of the tools. -/
  | again {left : Nat} {history : List Message} {reply : AgentReply}
      {pending : PendingModel} {r : ModelResponse} {uses rest : List (Exchange Act Act.Reply)}
      {results : List Part} {usage : SessionUsage} {out : Option (Except CallError AgentReply)}
      (answer : h.awaited pending = some (.ok r)) (used : h.Uses step r uses results none)
      (asks : r.toolCalls ≠ [])
      (more : Conversation h step left (history ++ roundMessages r results)
        (reply.after r results) rest out) :
      Conversation h step (left + 1) history reply
        (⟨.send (h.request history), pending⟩
          :: (uses ++ h.settled step r results usage ++ rest)) out

/-- The rounds of a call are a conversation. -/
theorem ends_rounds {left : Nat} {history : List Message} {reply : AgentReply}
    {out : Option (Except CallError AgentReply)}
    (hp : (h.rounds step left history reply).Ends xs out) :
    h.Conversation step left history reply xs out := by
  induction left generalizing history reply xs with
  | zero =>
      obtain ⟨rfl, rfl⟩ := Prog.ends_ret hp
      exact .spent history reply
  | succ left ih =>
      obtain ⟨pending, ys, rfl, hround⟩ := Prog.ends_act hp
      rcases Prog.ends_bind (p := h.await pending) hround with
        ⟨hawait, rfl⟩ | ⟨zs, ws, answer, rfl, hawait, hanswered⟩
      · obtain ⟨rfl, hnone⟩ := ends_await hawait
        exact .crashed hnone.symm
      obtain ⟨rfl, hanswer⟩ := ends_await hawait
      cases answer with
      | error e =>
          obtain ⟨rfl, rfl⟩ := Prog.ends_ret hanswered
          exact .unanswered hanswer.symm
      | ok r =>
          rcases Prog.ends_bind hanswered with
            ⟨hcrash, -⟩ | ⟨uses, vs, ⟨results, failure⟩, rfl, hused, hfinish⟩
          · exact absurd hcrash (runTools_safe _ _).not_ends_none
          rcases Prog.ends_bind hfinish with ⟨hcrash, -⟩ | ⟨record, rest, _, rfl, hrecord, hlast⟩
          · rcases ends_finishRound hcrash with ⟨_, -, hout⟩ | ⟨_, -, hout⟩ <;> cases hout
          rcases ends_finishRound hrecord with ⟨message, rfl, hout⟩ | ⟨usage, rfl, hout⟩
          · obtain rfl := Option.some.inj hout
            obtain ⟨rfl, rfl⟩ := Prog.ends_ret hlast
            rw [List.append_nil]
            exact .refused hanswer.symm hused
          obtain rfl := Option.some.inj hout
          cases failure with
          | some e =>
              obtain ⟨rfl, rfl⟩ := Prog.ends_ret hlast
              rw [List.append_nil]
              exact .failed hanswer.symm hused
          | none =>
              change Prog.Ends (if r.toolCalls.isEmpty = true then _ else _) rest out at hlast
              split at hlast
              · rename_i hnone
                obtain ⟨rfl, rfl⟩ := Prog.ends_ret hlast
                rw [List.append_nil]
                exact .last hanswer.symm hused (List.isEmpty_iff.mp hnone)
              · rename_i hasks
                rw [List.nil_append, ← List.append_assoc]
                exact .again hanswer.symm hused (mt List.isEmpty_iff.mpr hasks) (ih hlast)

end AgentHandle

end Ensemble
