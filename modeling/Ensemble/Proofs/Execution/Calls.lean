import Ensemble.Proofs.Agent.Conversation
import Ensemble.Proofs.Execution.Steps

/-!
# How calls run

A call notes its start, shows the message that it sends, has its
conversation, and notes how that has ended (`ends_call`). A call that is
still going on has shown its message before anything else, every request
starts with it, and what it performs is its own business (`runs_call`,
`Follows`).
-/

namespace Ensemble

namespace Execution

variable {r : Registry} {c : Call} {scope : Bindings} {m : Message}
  {xs : List (Exchange Act Act.Reply)}

/-! ## Calls that have ended -/

theorem ends_callAgent {out : Option (Except CallError AgentReply)}
    (hp : (callAgent r c m).Ends xs out) :
    (∃ h, r.find? c.agent = some h ∧
        h.Conversation c.name (max h.maxSteps 1) [m] .empty xs out) ∨
      r.find? c.agent = none ∧ xs = [] ∧
        out = some (.error { agent := c.agent, fault := .unknownAgent }) := by
  unfold callAgent at hp
  split at hp
  · exact Or.inl ⟨_, ‹_›, AgentHandle.ends_rounds hp⟩
  · exact Or.inr ⟨‹_›, Prog.ends_ret hp⟩

/-- What a call does when its conversation has ended. -/
def conclusion (c : Call) :
    Except CallError AgentReply → RunProg (Except FlowError StepOutcome)
  | .ok reply => do
    RunProg.note (.logSuccess c.name)
    RunProg.note (.count reply.modelCalls reply.toolCalls)
    return .ok (callOutcome c reply.text)
  | .error e => do
    RunProg.note (.logFailure c.name e.message)
    return .error (.call e)

/-- What is noted when a conversation has ended, and with which result. -/
def Concludes (c : Call) : Option (Except CallError AgentReply) →
    List (Exchange Act Act.Reply) → Option (Except FlowError StepOutcome) → Prop
  | none, xs, out => xs = [] ∧ out = none
  | some (.ok reply), xs, out =>
    xs = [⟨.logSuccess c.name, ()⟩, ⟨.count reply.modelCalls reply.toolCalls, ()⟩] ∧
      out = some (.ok (callOutcome c reply.text))
  | some (.error e), xs, out =>
    xs = [⟨.logFailure c.name e.message, ()⟩] ∧ out = some (.error (.call e))

/-- What a call performs before its conversation. -/
def opening (c : Call) (m : Message) : List (Exchange Act Act.Reply) :=
  [⟨.logStart c.name, ()⟩, ⟨.emitStart c.agent c.name m.toJson.canonical, ()⟩]

theorem call_unbound (hbind : c.bind? (textOf scope) = none) :
    call r c scope = .act (.logStart c.name) fun _ => .crash := by
  unfold call
  rw [hbind]
  rfl

theorem call_bound (hbind : c.bind? (textOf scope) = some m) :
    call r c scope = .act (.logStart c.name) fun _ =>
      .act (.emitStart c.agent c.name m.toJson.canonical) fun _ =>
        (callAgent r c m).bind (conclusion c) := by
  unfold call
  rw [hbind]
  rfl

theorem ends_call {out : Option (Except FlowError StepOutcome)}
    (hp : (call r c scope).Ends xs out) :
    (c.bind? (textOf scope) = none ∧ xs = [⟨.logStart c.name, ()⟩] ∧ out = none) ∨
      ∃ m ys zs answer, c.bind? (textOf scope) = some m ∧ xs = opening c m ++ (ys ++ zs) ∧
        (callAgent r c m).Ends ys answer ∧ Concludes c answer zs out := by
  cases hbind : c.bind? (textOf scope) with
  | none =>
      rw [call_unbound hbind] at hp
      obtain ⟨_, xs, rfl, hcrash⟩ := Prog.ends_act hp
      obtain ⟨rfl, rfl⟩ := Prog.ends_crash hcrash
      exact Or.inl ⟨rfl, rfl, rfl⟩
  | some m =>
      rw [call_bound hbind] at hp
      obtain ⟨_, xs, rfl, hshown⟩ := Prog.ends_act hp
      obtain ⟨_, xs, rfl, hagent⟩ := Prog.ends_act hshown
      refine Or.inr ⟨m, ?_⟩
      rcases Prog.ends_bind (p := callAgent r c m) (f := conclusion c) hagent with
        ⟨hcrash, rfl⟩ | ⟨ys, zs, answer, rfl, hanswer, hlast⟩
      · exact ⟨xs, [], none, rfl, by rw [List.append_nil]; rfl, hcrash, rfl, rfl⟩
      refine ⟨ys, zs, some answer, rfl, rfl, hanswer, ?_⟩
      cases answer with
      | ok reply =>
          obtain ⟨_, zs, rfl, hcount⟩ := Prog.ends_act hlast
          obtain ⟨_, zs, rfl, hret⟩ := Prog.ends_act hcount
          obtain ⟨rfl, rfl⟩ := Prog.ends_ret hret
          exact ⟨rfl, rfl⟩
      | error e =>
          obtain ⟨_, zs, rfl, hret⟩ := Prog.ends_act hlast
          obtain ⟨rfl, rfl⟩ := Prog.ends_ret hret
          exact ⟨rfl, rfl⟩

/-! ## Calls that go on -/

/-- What a call may do once it has shown its message `m`: it shows no other
one, its requests start with `m`, and its answers are those of its step. -/
def Converses (step : String) (m : Message) : Act → Prop
  | .emitStart .. => False
  | .emitFinish _ _ shown _ _ _ => shown = step
  | .send request => ∃ rest, request.messages = m :: rest
  | _ => True

/-- What a call may do then, in full: what its agent may do for it, and notes
of how that has ended. -/
inductive Follows (r : Registry) (c : Call) (m : Message) : Act → Prop
  | agent {h : AgentHandle} {a : Act} (find : r.find? c.agent = some h)
      (performs : h.Performs c.name m a) : Follows r c m a
  | success : Follows r c m (.logSuccess c.name)
  | count (modelCalls toolCalls : Nat) : Follows r c m (.count modelCalls toolCalls)
  | failure (error : String) : Follows r c m (.logFailure c.name error)

theorem Follows.converses {a : Act} (ha : Follows r c m a) : Converses c.name m a := by
  cases ha with
  | @agent h a find performs =>
      cases a with
      | emitStart => exact performs
      | emitFinish => exact performs.2.2
      | send request =>
          obtain ⟨rest, rfl⟩ := performs
          exact ⟨rest, rfl⟩
      | _ => trivial
  | success => trivial
  | count => trivial
  | failure => trivial

theorem callAgent_performs (r : Registry) (c : Call) (m : Message) :
    (callAgent r c m).All fun a => ∃ h, r.find? c.agent = some h ∧ h.Performs c.name m a := by
  unfold callAgent
  split
  · rename_i h hfind
    exact (AgentHandle.rounds_performs h c.name _ [] _).mono fun a ha => ⟨h, hfind, ha⟩
  · trivial

/-- What follows a conversation is no part of it, but follows the message as well. -/
theorem conclusion_follows (r : Registry) (c : Call) (m : Message)
    (answer : Except CallError AgentReply) : Prog.All (Follows r c m) (conclusion c answer) := by
  cases answer with
  | ok reply => exact ⟨.success, fun _ => ⟨.count _ _, fun _ => trivial⟩⟩
  | error e => exact ⟨.failure _, fun _ => trivial⟩

theorem conversation_follows (r : Registry) (c : Call) (m : Message) :
    ((callAgent r c m).bind (conclusion c)).All (Follows r c m) :=
  ((callAgent_performs r c m).mono fun _ ⟨_, hfind, ha⟩ => .agent hfind ha).bind
    (conclusion_follows r c m)

/-- A call performs the note of its start, its message, and what follows that. -/
theorem call_all {P : Act → Prop} (r : Registry) (c : Call) (scope : Bindings)
    (hstart : P (.logStart c.name)) (hshown : ∀ input, P (.emitStart c.agent c.name input))
    (hfollows : ∀ m a, Follows r c m a → P a) : (call r c scope).All P := by
  cases hbind : c.bind? (textOf scope) with
  | none =>
      rw [call_unbound hbind]
      exact ⟨hstart, fun _ => trivial⟩
  | some m =>
      rw [call_bound hbind]
      exact ⟨hstart, fun _ => ⟨hshown _, fun _ => (conversation_follows r c m).mono (hfollows m)⟩⟩

/-- The first request of a call is the message alone. -/
theorem callAgent_first {q : Prog Act Act.Reply (Except CallError AgentReply)}
    {x : Exchange Act Act.Reply} {rest : List (Exchange Act Act.Reply)} {request : ModelRequest}
    (hp : (callAgent r c m).Runs (x :: rest) q) (hx : x.act = .send request) :
    request.messages = [m] := by
  unfold callAgent at hp
  split at hp
  · rename_i h _
    obtain ⟨k, hk⟩ : ∃ k, max h.maxSteps 1 = k + 1 := ⟨max h.maxSteps 1 - 1, by omega⟩
    rw [AgentHandle.invoke, hk] at hp
    cases hp with
    | act _ =>
        obtain rfl : h.request [m] = request := Act.send.inj hx
        rfl
  · cases hp

/-- A call that has shown its message goes on with requests that start with
it, and the first of them has nothing else. -/
def Opened (c : Call) (m : Message) (xs : List (Exchange Act Act.Reply)) : Prop :=
  (∀ x ∈ xs, Converses c.name m x.act) ∧
    ∀ x rest request, xs = x :: rest → x.act = .send request → request.messages = [m]

theorem conversation_opened {q : Prog Act Act.Reply (Except FlowError StepOutcome)}
    (hp : ((callAgent r c m).bind (conclusion c)).Runs xs q) : Opened c m xs := by
  refine ⟨fun x hx => ((conversation_follows r c m).of_runs hp x hx).converses, ?_⟩
  rintro x rest request rfl hx
  rcases Prog.runs_bind hp with ⟨p', hagent, -⟩ | ⟨ys, zs, answer, hsplit, hagent, hlast⟩
  · exact callAgent_first hagent hx
  cases ys with
  | cons y ys =>
      obtain ⟨rfl, -⟩ := List.cons.inj hsplit
      exact callAgent_first hagent hx
  | nil =>
      -- nothing was sent: what follows are notes
      obtain rfl : x :: rest = zs := hsplit
      cases answer <;> cases hlast <;> cases hx

/-- A call notes its start, then shows its message, then has its conversation. -/
theorem runs_call_opening {q : Prog Act Act.Reply (Except FlowError StepOutcome)}
    (hp : (call r c scope).Runs xs q) :
    (∀ x ∈ xs, x.act = .logStart c.name) ∨
      ∃ m later, c.bind? (textOf scope) = some m ∧ xs = opening c m ++ later ∧
        ((callAgent r c m).bind (conclusion c)).Runs later q := by
  cases hbind : c.bind? (textOf scope) with
  | none =>
      rw [call_unbound hbind] at hp
      rcases Prog.runs_act hp with rfl | ⟨_, xs, rfl, hcrash⟩
      · exact Or.inl (by simp)
      obtain ⟨rfl, -⟩ := Prog.runs_crash hcrash
      exact Or.inl (by simp)
  | some m =>
      rw [call_bound hbind] at hp
      rcases Prog.runs_act hp with rfl | ⟨_, xs, rfl, hshown⟩
      · exact Or.inl (by simp)
      rcases Prog.runs_act hshown with rfl | ⟨_, xs, rfl, hagent⟩
      · exact Or.inl (by simp)
      · exact Or.inr ⟨m, xs, rfl, rfl, hagent⟩

theorem runs_call {q : Prog Act Act.Reply (Except FlowError StepOutcome)}
    (hp : (call r c scope).Runs xs q) :
    (∀ x ∈ xs, x.act = .logStart c.name) ∨
      ∃ m later, c.bind? (textOf scope) = some m ∧ xs = opening c m ++ later ∧
        Opened c m later :=
  (runs_call_opening hp).imp_right fun ⟨m, later, hbind, hxs, hagent⟩ =>
    ⟨m, later, hbind, hxs, conversation_opened hagent⟩

/-! ## Calls as steps -/

variable {policy : FailurePolicy} {h : History Act Act.Reply}

/-- A call does not fork: all that it performs is its own. -/
theorem reaches_call {p : Process Act Act.Reply StepOutcome}
    (hr : (step r (.call c) scope).Reaches policy h p) :
    ∃ xs q, h = .own xs ∧ (call r c scope).Runs xs q := by
  rw [step] at hr
  rcases Script.reaches_prog hr with ⟨xs, q, hq, rfl, -⟩ | ⟨xs, result, later, hq, rfl, hret⟩
  · exact ⟨xs, q, rfl, hq⟩
  · obtain ⟨rfl, -⟩ := Script.reaches_ret hret
    exact ⟨xs, _, List.append_nil _, hq⟩

/-- A call that has ended has come to the end of its program. -/
theorem ends_step_call {e : Ending StepOutcome} (he : (step r (.call c) scope).Ends policy h e) :
    ∃ xs out, h = .own xs ∧ (call r c scope).Ends xs out := by
  rw [step] at he
  rcases Script.ends_prog he with ⟨xs, hcrash, rfl, -⟩ | ⟨xs, result, later, hcall, rfl, hret⟩
  · exact ⟨xs, none, rfl, hcrash⟩
  · obtain ⟨rfl, -⟩ := Script.ends_ret hret
    exact ⟨xs, some result, List.append_nil _, hcall⟩

/-- A call that has completed has shown its message, has had its conversation
and has noted its success. -/
theorem ends_completed_call {out : StepOutcome}
    (he : (step r (.call c) scope).Ends policy h (.completed out)) :
    ∃ m ys reply, h = .own (opening c m ++ (ys ++
        [⟨.logSuccess c.name, ()⟩, ⟨.count reply.modelCalls reply.toolCalls, ()⟩])) ∧
      (callAgent r c m).Ends ys (some (.ok reply)) ∧ out = callOutcome c reply.text := by
  rw [step] at he
  rcases Script.ends_prog he with ⟨_, -, -, hcrash⟩ | ⟨xs, result, later, hcall, rfl, hret⟩
  · cases hcrash
  obtain ⟨rfl, hresult⟩ := Script.ends_ret hret
  obtain rfl := ofResult_eq_completed.mp hresult.symm
  rcases ends_call hcall with ⟨-, -, hout⟩ | ⟨m, ys, zs, answer, -, rfl, hagent, hlast⟩
  · cases hout
  rcases answer with - | ⟨e⟩ | reply
  · cases hlast.2
  · cases hlast.2
  obtain ⟨rfl, hout⟩ := hlast
  obtain rfl := Except.ok.inj (Option.some.inj hout)
  exact ⟨m, ys, reply, List.append_nil _, hagent, rfl⟩

end Execution

end Ensemble
