import Ensemble.Proofs.Agent.Conversation
import Ensemble.Proofs.Run.Trace
import Ensemble.Proofs.Usage.Tokens
import Mathlib.Algebra.BigOperators.Fin
import Mathlib.Data.List.Infix

/-!
# Rounds

A conversation is a list of rounds, all of them on record, and an end
(`Conversation.split`). In each round tools are used in the order in which
the answer asks for them, up to the first that is unknown or fails
(`InTurn`), and what is shown of the round has the results of all uses
before that one. The rounds before the end are those that ask for tools and
get all their results (`Round.GoesOn`); `Closes` lists the ends.

What rounds ask, and what they show, can be read off their lists
(`filterMap_performed`), since all that they do between a request and what
shows its answer is of another kind (`Act.IsBetween`).
-/

namespace Ensemble

/-- Whether an act is done between a request and what shows its answer. -/
def Act.IsBetween : Act → Prop
  | .invoke .. | .recordSession .. | .aggregate _ | .bill .. => True
  | _ => False

theorem Act.IsUse.isBetween {a : Act} (ha : a.IsUse) : a.IsBetween := by
  cases a <;> trivial

theorem Accountant.recorded_isBetween (a : Accountant) (delta : Tokens) (reason : String)
    (usage : SessionUsage) : ∀ x ∈ a.recorded delta reason usage, x.act.IsBetween := by
  unfold recorded
  split <;> simp [Act.IsBetween]

theorem Accountant.refused_isBetween (a : Accountant) (delta : Tokens) (message : String) :
    ∀ x ∈ a.refused delta message, x.act.IsBetween := by
  simp [refused, Act.IsBetween]

namespace Exchange

/-- What a model is asked. -/
def request? (x : Exchange Act Act.Reply) : Option ModelRequest :=
  match x with
  | ⟨.send request, _⟩ => some request
  | _ => none

/-- What comes of it. -/
def pending? (x : Exchange Act Act.Reply) : Option PendingModel :=
  match x with
  | ⟨.send _, pending⟩ => some pending
  | _ => none

variable {x : Exchange Act Act.Reply}

theorem request?_between (hx : x.act.IsBetween) : x.request? = none := by
  obtain ⟨a, reply⟩ := x
  cases a <;> first | rfl | exact hx.elim

theorem pending?_between (hx : x.act.IsBetween) : x.pending? = none := by
  obtain ⟨a, reply⟩ := x
  cases a <;> first | rfl | exact hx.elim

theorem round?_between (hx : x.act.IsBetween) : x.act.round? = none := by
  obtain ⟨a, reply⟩ := x
  cases a <;> first | rfl | exact hx.elim

theorem filterMap_between {γ : Type} {f : Exchange Act Act.Reply → Option γ}
    (hf : ∀ x, x.act.IsBetween → f x = none) {xs : List (Exchange Act Act.Reply)}
    (hxs : ∀ x ∈ xs, x.act.IsBetween) : xs.filterMap f = [] :=
  List.filterMap_eq_nil_iff.mpr fun x hx => hf x (hxs x hx)

end Exchange

/-! ## Tools in turn -/

/-- A use of a tool that has given a value. -/
structure ToolUse where
  call : ToolCall
  tool : Tool
  value : Json

namespace ToolUse

/-- What is performed. -/
def exchange (context : ToolContext) (u : ToolUse) : Exchange Act Act.Reply :=
  ⟨.invoke u.tool u.call.args context, (Except.ok u.value : Except ToolError Json)⟩

/-- What the model is told of it. -/
def part (u : ToolUse) : Part := .toolResult u.call.id u.call.name u.value

end ToolUse

namespace AgentHandle

variable {h : AgentHandle} {step : String} {context : ToolContext}
  {xs : List (Exchange Act Act.Reply)} {history : List Message} {failure : Option CallError}

/-- How the use of tools stops, with the first of those that are still asked
for, and what that performs. -/
inductive Halts (h : AgentHandle) (context : ToolContext) :
    List ToolCall → List (Exchange Act Act.Reply) → Option CallError → Prop
  | done : Halts h context [] [] none
  | unknown {c : ToolCall} {rest : List ToolCall} (find : h.tools.lookup c.name = none) :
      Halts h context (c :: rest) [] (some (h.fail (.unknownTool c.name)))
  | failed {c : ToolCall} {rest : List ToolCall} {tool : Tool} {e : ToolError}
      (find : h.tools.lookup c.name = some tool) :
      Halts h context (c :: rest)
        [⟨.invoke tool c.args context, (Except.error e : Except ToolError Json)⟩]
        (some (h.fail (.tool c.name e)))

/-- Tools are used in the order in which they are asked for, none of them
after one that is unknown or fails. -/
def InTurn (h : AgentHandle) (context : ToolContext) (calls : List ToolCall) (used : List ToolUse)
    (xs : List (Exchange Act Act.Reply)) (failure : Option CallError) : Prop :=
  ∃ rest last, calls = used.map ToolUse.call ++ rest ∧
    xs = used.map (ToolUse.exchange context) ++ last ∧
    (∀ u ∈ used, h.tools.lookup u.call.name = some u.tool) ∧ h.Halts context rest last failure

theorem InTurn.cons {calls : List ToolCall} {used : List ToolUse}
    (ht : h.InTurn context calls used xs failure) {u : ToolUse}
    (hfind : h.tools.lookup u.call.name = some u.tool) :
    h.InTurn context (u.call :: calls) (u :: used) (u.exchange context :: xs) failure := by
  obtain ⟨rest, last, rfl, rfl, hknown, hhalts⟩ := ht
  exact ⟨rest, last, rfl, rfl, List.forall_mem_cons.mpr ⟨hfind, hknown⟩, hhalts⟩

theorem inTurn_halts {calls : List ToolCall} (hhalts : h.Halts context calls xs failure) :
    h.InTurn context calls [] xs failure :=
  ⟨calls, xs, rfl, rfl, by simp, hhalts⟩

theorem ends_runTool {c : ToolCall} {out : Option (Except CallError Json)}
    (hp : (h.runTool context c).Ends xs out) :
    (∃ tool value, h.tools.lookup c.name = some tool ∧
        xs = [(⟨c, tool, value⟩ : ToolUse).exchange context] ∧ out = some (.ok value)) ∨
      ∃ e, (∀ rest, h.Halts context (c :: rest) xs (some e)) ∧ out = some (.error e) := by
  unfold runTool at hp
  split at hp
  · rename_i hfind
    obtain ⟨rfl, rfl⟩ := Prog.ends_ret hp
    exact Or.inr ⟨_, fun _ => .unknown hfind, rfl⟩
  · rename_i tool hfind
    obtain ⟨reply, ys, rfl, hnext⟩ := Prog.ends_act hp
    change Except ToolError Json at reply
    cases reply with
    | ok value =>
        obtain ⟨rfl, rfl⟩ := Prog.ends_ret hnext
        exact Or.inl ⟨tool, value, hfind, rfl, rfl⟩
    | error e =>
        obtain ⟨rfl, rfl⟩ := Prog.ends_ret hnext
        exact Or.inr ⟨_, fun _ => .failed hfind, rfl⟩

theorem ends_runTools {calls : List ToolCall} {results : List Part}
    (hp : (h.runTools context calls).Ends xs (some (results, failure))) :
    ∃ used, results = used.map ToolUse.part ∧ h.InTurn context calls used xs failure := by
  induction calls generalizing xs results failure with
  | nil =>
      obtain ⟨rfl, hout⟩ := Prog.ends_ret hp
      obtain ⟨rfl, rfl⟩ := Prod.mk.inj (Option.some.inj hout)
      exact ⟨[], rfl, inTurn_halts .done⟩
  | cons c rest ih =>
      rcases Prog.ends_bind hp with ⟨-, hout⟩ | ⟨ys, zs, result, rfl, hfirst, hnext⟩
      · cases hout
      rcases ends_runTool hfirst with ⟨tool, value, hfind, rfl, hout⟩ | ⟨e, hhalts, hout⟩
      · obtain rfl := Option.some.inj hout
        rcases Prog.ends_bind hnext with
          ⟨-, hout⟩ | ⟨ws, vs, ⟨results', failure'⟩, rfl, hrest, hret⟩
        · cases hout
        obtain ⟨rfl, hout⟩ := Prog.ends_ret hret
        obtain ⟨rfl, rfl⟩ := Prod.mk.inj (Option.some.inj hout)
        obtain ⟨used, rfl, hturn⟩ := ih hrest
        refine ⟨⟨c, tool, value⟩ :: used, rfl, ?_⟩
        rw [List.append_nil]
        exact hturn.cons (u := ⟨c, tool, value⟩) hfind
      · obtain rfl := Option.some.inj hout
        obtain ⟨rfl, hout⟩ := Prog.ends_ret hnext
        obtain ⟨rfl, rfl⟩ := Prod.mk.inj (Option.some.inj hout)
        rw [List.append_nil]
        exact ⟨[], rfl, inTurn_halts (hhalts rest)⟩

theorem InTurn.isUse {calls : List ToolCall} {used : List ToolUse}
    (ht : h.InTurn context calls used xs failure) : ∀ x ∈ xs, x.act.IsUse := by
  obtain ⟨rest, last, -, rfl, -, hhalts⟩ := ht
  refine List.forall_mem_append.mpr ⟨?_, ?_⟩
  · simp [ToolUse.exchange, Act.IsUse]
  · cases hhalts <;> simp [Act.IsUse]

theorem InTurn.isBetween {calls : List ToolCall} {used : List ToolUse}
    (ht : h.InTurn context calls used xs failure) : ∀ x ∈ xs, x.act.IsBetween :=
  fun x hx => (ht.isUse x hx).isBetween

/-- Where no tool has failed, all that were asked for were used. -/
theorem InTurn.all_used {calls : List ToolCall} {used : List ToolUse}
    (ht : h.InTurn context calls used xs none) : used.map ToolUse.call = calls := by
  obtain ⟨rest, last, rfl, -, -, hhalts⟩ := ht
  cases hhalts
  exact (List.append_nil _).symm

end AgentHandle

/-! ## What messages show -/

namespace Part

/-- A tool call. -/
def call? : Part → Option ToolCall
  | .toolCall id name args => some { id, name, args }
  | _ => none

/-- The result of a tool. -/
def result? : Part → Option Json
  | .toolResult _ _ result => some result
  | _ => none

end Part

theorem AgentHandle.assistantMessage_calls (r : ModelResponse) :
    (assistantMessage r).content.filterMap Part.call? = r.toolCalls := by
  have htext : (if r.text.isEmpty then [] else [Part.text r.text]).filterMap Part.call? = [] := by
    split <;> rfl
  rw [assistantMessage, List.filterMap_append, htext, List.nil_append, List.filterMap_map]
  exact List.filterMap_some

/-! ## Rounds on record -/

/-- An answer that came in time and was put on record: the uses of tools that
it has led to, with what they have performed and the failure of the last
one, and what the session has taken. -/
structure Round where
  pending : PendingModel
  answer : ModelResponse
  used : List ToolUse
  uses : List (Exchange Act Act.Reply)
  failure : Option CallError
  usage : SessionUsage

namespace Round

/-- What the model is told of the tools. -/
def results (e : Round) : List Part := e.used.map ToolUse.part

/-- What the round adds to the conversation. -/
def messages (e : Round) : List Message := AgentHandle.roundMessages e.answer e.results

/-- What an agent shows of the round. -/
def shown (h : AgentHandle) (step : String) (e : Round) : ShownRound :=
  { agent := h.name, step, messages := e.messages }

/-- The round is one of an agent in a step. -/
structure Holds (h : AgentHandle) (step : String) (e : Round) : Prop where
  answered : h.awaited e.pending = some (.ok e.answer)
  turn : h.InTurn { h.context with step } e.answer.toolCalls e.used e.uses e.failure

/-- After the round the model is asked again. -/
structure GoesOn (h : AgentHandle) (step : String) (e : Round) : Prop extends Holds h step e where
  served : e.failure = none
  asks : e.answer.toolCalls ≠ []

theorem GoesOn.all_used {h : AgentHandle} {step : String} {e : Round} (he : e.GoesOn h step) :
    e.used.map ToolUse.call = e.answer.toolCalls := by
  have hturn := he.turn
  rw [he.served] at hturn
  exact hturn.all_used

end Round

/-- What the reply of a call becomes with some rounds. -/
def AgentReply.afterAll (reply : AgentReply) (rounds : List Round) : AgentReply :=
  rounds.foldl (fun reply e => reply.after e.answer e.results) reply

namespace AgentReply

variable (reply : AgentReply) (rounds : List Round)

theorem afterAll_concat (e : Round) :
    reply.afterAll (rounds ++ [e]) = (reply.afterAll rounds).after e.answer e.results := by
  rw [afterAll, List.foldl_append]
  rfl

theorem modelCalls_afterAll :
    (reply.afterAll rounds).modelCalls = reply.modelCalls + rounds.length := by
  induction rounds generalizing reply with
  | nil => rfl
  | cons e rest ih =>
      calc ((reply.after e.answer e.results).afterAll rest).modelCalls
          = reply.modelCalls + 1 + rest.length := ih _
        _ = reply.modelCalls + (rest.length + 1) := by omega

theorem toolCalls_afterAll : (reply.afterAll rounds).toolCalls
    = reply.toolCalls + (rounds.map fun e => e.results.length).sum := by
  induction rounds generalizing reply with
  | nil => rfl
  | cons e rest ih =>
      rw [List.map_cons, List.sum_cons, ← Nat.add_assoc]
      exact ih (reply.after e.answer e.results)

theorem usage_afterAll : (reply.afterAll rounds).usage
    = reply.usage + .sum (rounds.map fun e => e.answer.usage) := by
  induction rounds generalizing reply with
  | nil => exact (Tokens.add_zero _).symm
  | cons e rest ih =>
      calc ((reply.after e.answer e.results).afterAll rest).usage
          = reply.usage + e.answer.usage + .sum (rest.map fun e => e.answer.usage) := ih _
        _ = reply.usage + (.sum [e.answer.usage] + .sum (rest.map fun e => e.answer.usage)) := by
            rw [Tokens.sum_singleton, Tokens.add_assoc]
        _ = reply.usage + .sum ((e :: rest).map fun e => e.answer.usage) := by
            rw [← Tokens.sum_append]
            rfl

end AgentReply

namespace AgentHandle

variable {h : AgentHandle} {step : String} {history : List Message} {reply : AgentReply}
  {xs : List (Exchange Act Act.Reply)} {out : Option (Except CallError AgentReply)}

/-- What rounds perform, from a request with `history` on. -/
def performed (h : AgentHandle) (step : String) :
    List Message → List Round → List (Exchange Act Act.Reply)
  | _, [] => []
  | history, e :: rest =>
    ⟨.send (h.request history), e.pending⟩
      :: (e.uses ++ h.settled step e.answer e.results e.usage
        ++ h.performed step (history ++ e.messages) rest)

theorem performed_singleton (e : Round) : h.performed step history [e]
    = ⟨.send (h.request history), e.pending⟩
      :: (e.uses ++ h.settled step e.answer e.results e.usage) :=
  congrArg (List.cons _) (List.append_nil _)

theorem performed_concat (rounds : List Round) (e : Round) :
    h.performed step history (rounds ++ [e]) = h.performed step history rounds
      ++ h.performed step (history ++ rounds.flatMap Round.messages) [e] := by
  induction rounds generalizing history with
  | nil => rw [List.flatMap_nil, List.append_nil]; rfl
  | cons first rest ih =>
      rw [List.cons_append, performed, performed, ih, List.flatMap_cons,
        ← List.append_assoc history]
      simp only [List.cons_append, List.append_assoc]

/-- What is read off a round is read off its request and off what shows its
answer. -/
theorem filterMap_performed {γ : Type} {f : Exchange Act Act.Reply → Option γ}
    (hf : ∀ x, x.act.IsBetween → f x = none) {e : Round} (he : e.Holds h step)
    (rest : List Round) :
    (h.performed step history (e :: rest)).filterMap f
      = (f ⟨.send (h.request history), e.pending⟩).toList
        ++ (f (h.finished step e.answer e.results)).toList
        ++ (h.performed step (history ++ e.messages) rest).filterMap f := by
  have hcons : ∀ (x : Exchange Act Act.Reply) ys,
      (x :: ys).filterMap f = (f x).toList ++ ys.filterMap f := by
    intro x ys
    rw [List.filterMap_cons]
    cases f x <;> rfl
  rw [performed, hcons, List.filterMap_append, List.filterMap_append,
    Exchange.filterMap_between hf he.turn.isBetween, settled, List.filterMap_append,
    Exchange.filterMap_between hf (h.accountant.recorded_isBetween _ _ _), hcons]
  simp

variable {rounds : List Round} {ys : List (Exchange Act Act.Reply)}

/-- Each request tells what the rounds before it have added. -/
theorem requests_performed (hrounds : ∀ e ∈ rounds, Round.Holds h step e)
    (hlast : ys.filterMap Exchange.request?
      = [h.request (history ++ rounds.flatMap Round.messages)]) :
    (h.performed step history rounds ++ ys).filterMap Exchange.request?
      = rounds.inits.map fun told => h.request (history ++ told.flatMap Round.messages) := by
  induction rounds generalizing history with
  | nil => exact hlast
  | cons e rest ih =>
      obtain ⟨he, hrest⟩ := List.forall_mem_cons.mp hrounds
      rw [List.flatMap_cons, ← List.append_assoc] at hlast
      have hmore := ih hrest hlast
      rw [List.filterMap_append] at hmore ⊢
      rw [filterMap_performed (fun _ => Exchange.request?_between) he, List.append_assoc, hmore,
        List.inits_cons, List.map_cons, List.map_map, List.flatMap_nil, List.append_nil]
      refine congrArg (List.cons _) (List.map_congr_left fun told _ => ?_)
      rw [Function.comp_apply, List.flatMap_cons, List.append_assoc]

theorem pendings_performed (hrounds : ∀ e ∈ rounds, Round.Holds h step e) :
    (h.performed step history rounds).filterMap Exchange.pending? = rounds.map Round.pending := by
  induction rounds generalizing history with
  | nil => rfl
  | cons e rest ih =>
      obtain ⟨he, hrest⟩ := List.forall_mem_cons.mp hrounds
      rw [filterMap_performed (fun _ => Exchange.pending?_between) he, ih hrest]
      rfl

/-- Every round is shown. -/
theorem rounds_performed (hrounds : ∀ e ∈ rounds, Round.Holds h step e) :
    (h.performed step history rounds).filterMap (fun x => x.act.round?)
      = rounds.map (Round.shown h step) := by
  induction rounds generalizing history with
  | nil => rfl
  | cons e rest ih =>
      obtain ⟨he, hrest⟩ := List.forall_mem_cons.mp hrounds
      rw [filterMap_performed (fun _ => Exchange.round?_between) he, ih hrest]
      rfl

/-! ## How a call ends -/

/-- How a call ends with a last request, which may be the last that it is
allowed. -/
inductive Closes (h : AgentHandle) (step : String) (limit : Prop) (history : List Message)
    (reply : AgentReply) :
    PendingModel → List (Exchange Act Act.Reply) → Option (Except CallError AgentReply) → Prop
  | crashed {pending : PendingModel} (crash : h.awaited pending = none) :
      Closes h step limit history reply pending [⟨.send (h.request history), pending⟩] none
  /-- No answer comes, or not in time. -/
  | unanswered {pending : PendingModel} {e : CallError}
      (late : h.awaited pending = some (.error e)) :
      Closes h step limit history reply pending [⟨.send (h.request history), pending⟩]
        (some (.error e))
  /-- The session does not take the usage of the answer. -/
  | refused {pending : PendingModel} {r : ModelResponse} {used : List ToolUse}
      {uses : List (Exchange Act Act.Reply)} {failure : Option CallError} {message : String}
      (answer : h.awaited pending = some (.ok r))
      (turn : h.InTurn { h.context with step } r.toolCalls used uses failure) :
      Closes h step limit history reply pending
        (⟨.send (h.request history), pending⟩ :: (uses ++ h.accountant.refused r.usage message))
        (some (.error (h.fail (.accounting message))))
  /-- A tool has failed. -/
  | failed {e : Round} {error : CallError} (holds : e.Holds h step)
      (failure : e.failure = some error) :
      Closes h step limit history reply e.pending (h.performed step history [e])
        (some (.error error))
  /-- The answer asks for no tools, or it was the last one. -/
  | replied {e : Round} (holds : e.Holds h step) (served : e.failure = none)
      (stop : e.answer.toolCalls = [] ∨ limit) :
      Closes h step limit history reply e.pending (h.performed step history [e])
        (some (.ok (reply.after e.answer e.results)))

theorem Closes.imp {limit limit' : Prop} {pending : PendingModel}
    (hc : h.Closes step limit history reply pending xs out) (hlimit : limit → limit') :
    h.Closes step limit' history reply pending xs out := by
  cases hc with
  | crashed crash => exact .crashed crash
  | unanswered late => exact .unanswered late
  | refused answer turn => exact .refused answer turn
  | failed holds failure => exact .failed holds failure
  | replied holds served stop => exact .replied holds served (stop.imp_right hlimit)

/-- A call ends with one request and what comes of it. -/
theorem Closes.request {limit : Prop} {pending : PendingModel}
    (hc : h.Closes step limit history reply pending xs out) :
    xs.filterMap Exchange.request? = [h.request history] ∧
      xs.filterMap Exchange.pending? = [pending] := by
  cases hc with
  | crashed crash => exact ⟨rfl, rfl⟩
  | unanswered late => exact ⟨rfl, rfl⟩
  | @refused _ r _ _ _ message answer turn =>
      have hbetween := List.forall_mem_append.mpr
        ⟨turn.isBetween, h.accountant.refused_isBetween r.usage message⟩
      constructor
      · exact congrArg (List.cons _)
          (Exchange.filterMap_between (fun _ => Exchange.request?_between) hbetween)
      · exact congrArg (List.cons _)
          (Exchange.filterMap_between (fun _ => Exchange.pending?_between) hbetween)
  | failed holds failure =>
      exact ⟨filterMap_performed (fun _ => Exchange.request?_between) holds [],
        filterMap_performed (fun _ => Exchange.pending?_between) holds []⟩
  | replied holds served stop =>
      exact ⟨filterMap_performed (fun _ => Exchange.request?_between) holds [],
        filterMap_performed (fun _ => Exchange.pending?_between) holds []⟩

/-- A conversation with some rounds left is made of rounds after which the
model is asked again, and an end. -/
theorem Conversation.split {left : Nat} (hc : h.Conversation step left history reply xs out)
    (hleft : 0 < left) :
    ∃ before last ys, before.length + 1 ≤ left ∧ (∀ e ∈ before, Round.GoesOn h step e) ∧
      xs = h.performed step history before ++ ys ∧
      h.Closes step (before.length + 1 = left) (history ++ before.flatMap Round.messages)
        (reply.afterAll before) last ys out := by
  induction hc with
  | spent history reply => exact absurd hleft (Nat.lt_irrefl 0)
  | @unanswered left history reply pending e late =>
      refine ⟨[], pending, _, by simp, by simp, rfl, ?_⟩
      rw [List.flatMap_nil, List.append_nil]
      exact .unanswered late
  | @crashed left history reply pending crash =>
      refine ⟨[], pending, _, by simp, by simp, rfl, ?_⟩
      rw [List.flatMap_nil, List.append_nil]
      exact .crashed crash
  | @refused left history reply pending r uses results failure message answer hused =>
      obtain ⟨_, -, hturn⟩ := ends_runTools hused
      refine ⟨[], pending, _, by simp, by simp, rfl, ?_⟩
      rw [List.flatMap_nil, List.append_nil]
      exact .refused answer hturn
  | @failed left history reply pending r uses results usage error answer hused =>
      obtain ⟨used, rfl, hturn⟩ := ends_runTools hused
      let e : Round := ⟨pending, r, used, uses, some error, usage⟩
      have hclose : h.Closes step (0 + 1 = left + 1) history reply e.pending
          (h.performed step history [e]) (some (.error error)) := .failed ⟨answer, hturn⟩ rfl
      rw [performed_singleton] at hclose
      refine ⟨[], pending, _, by simp, by simp, rfl, ?_⟩
      rwa [List.flatMap_nil, List.append_nil]
  | @last left history reply pending r uses results usage answer hused none =>
      obtain ⟨used, rfl, hturn⟩ := ends_runTools hused
      let e : Round := ⟨pending, r, used, uses, .none, usage⟩
      have hclose : h.Closes step (0 + 1 = left + 1) history reply e.pending
          (h.performed step history [e]) (some (.ok (reply.after r e.results))) :=
        .replied ⟨answer, hturn⟩ rfl (Or.inl none)
      rw [performed_singleton] at hclose
      refine ⟨[], pending, _, by simp, by simp, rfl, ?_⟩
      rwa [List.flatMap_nil, List.append_nil]
  | @again left history reply pending r uses rest results usage out answer hused asks more ih =>
      obtain ⟨used, rfl, hturn⟩ := ends_runTools hused
      let e : Round := ⟨pending, r, used, uses, none, usage⟩
      cases left with
      | zero =>
          -- the limit is reached, so the round is the last one
          cases more
          have hclose : h.Closes step (0 + 1 = 0 + 1) history reply e.pending
              (h.performed step history [e]) (some (.ok (reply.after r e.results))) :=
            .replied ⟨answer, hturn⟩ rfl (Or.inr rfl)
          rw [performed_singleton] at hclose
          refine ⟨[], pending, _, by simp, by simp, rfl, ?_⟩
          rwa [List.flatMap_nil, List.append_nil, List.append_nil]
      | succ left =>
          obtain ⟨before, last, ys, hbound, hbefore, rfl, hcloses⟩ := ih (Nat.succ_pos _)
          refine ⟨e :: before, last, ys, Nat.succ_le_succ hbound,
            List.forall_mem_cons.mpr ⟨⟨⟨answer, hturn⟩, rfl, asks⟩, hbefore⟩, ?_, ?_⟩
          · rw [performed, List.cons_append, List.append_assoc (_ ++ _)]
            rfl
          · rw [List.flatMap_cons, ← List.append_assoc]
            exact hcloses.imp fun hlimit => congrArg (· + 1) hlimit

/-- A reply comes with a last round, and sums up all of them. -/
theorem Closes.summed {limit : Prop} {before : List Round} {last : PendingModel}
    {ys : List (Exchange Act Act.Reply)} {result : AgentReply}
    (hc : h.Closes step limit (history ++ before.flatMap Round.messages) (reply.afterAll before)
      last ys (some (.ok result))) :
    ∃ e : Round, e.Holds h step ∧ e.pending = last ∧
      h.performed step history before ++ ys = h.performed step history (before ++ [e]) ∧
      result = reply.afterAll (before ++ [e]) := by
  cases hc with
  | @replied e holds served stop =>
      exact ⟨e, holds, rfl, (performed_concat before e).symm, (reply.afterAll_concat before e).symm⟩

theorem Conversation.summed {left : Nat} {result : AgentReply}
    (hc : h.Conversation step left history reply xs (some (.ok result))) (hleft : 0 < left) :
    ∃ rounds, (∀ e ∈ rounds, Round.Holds h step e) ∧ xs = h.performed step history rounds ∧
      result = reply.afterAll rounds := by
  obtain ⟨before, last, ys, -, hbefore, rfl, hcloses⟩ := hc.split hleft
  obtain ⟨e, he, -, hall, hresult⟩ := hcloses.summed
  refine ⟨before ++ [e], List.forall_mem_append.mpr ⟨fun e he => (hbefore e he).toHolds, ?_⟩, hall,
    hresult⟩
  simpa using he

end AgentHandle

end Ensemble
