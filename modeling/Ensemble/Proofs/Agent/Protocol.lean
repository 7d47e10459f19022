import Ensemble.Proofs.Agent.Rounds
import Ensemble.Proofs.Engine.Preparation
import Ensemble.Rehearsal.Tools

/-!
# The protocol of conversations

Models reject a conversation in which a tool call has no answer, or where
the answers come in another order. `Protocol` says that a call keeps to it:
every request tells the message of the call and then, for each earlier
round, the answer of the model and a message that answers its tool calls
one to one (`Message.Answers`). It says too when a call stops, and what its
reply sums up.
-/

namespace Ensemble

/-! ## Messages that answer each other -/

namespace Part

/-- The id and the name of the tool call that a result is for. -/
def answers? : Part → Option (String × String)
  | .toolResult id name _ => some (id, name)
  | _ => none

end Part

/-- The parts of a tool message answer the tool calls of a message of the
assistant one to one, in the same order. -/
structure Message.Answers (tool assistant : Message) : Prop where
  asked : assistant.role = .assistant
  told : tool.role = .tool
  parts : tool.content.map Part.answers?
    = (assistant.content.filterMap Part.call?).map fun c => some (c.id, c.name)
  nonempty : tool.content ≠ []

/-- A round after which the model is asked again adds two messages, of which
the second one answers the first. -/
theorem Round.GoesOn.answers {h : AgentHandle} {step : String} {e : Round}
    (he : e.GoesOn h step) :
    ∃ tool, e.messages = [AgentHandle.assistantMessage e.answer, tool] ∧
      tool.Answers (AgentHandle.assistantMessage e.answer) := by
  have hcalls := he.all_used
  have hresults : e.results ≠ [] := by
    intro hnone
    have hused : e.used = [] := List.map_eq_nil_iff.mp hnone
    exact he.asks (by rw [← hcalls, hused, List.map_nil])
  refine ⟨⟨.tool, e.results⟩, ?_, rfl, rfl, ?_, hresults⟩
  · rw [messages, AgentHandle.roundMessages, if_neg (mt List.isEmpty_iff.mp hresults)]
  · rw [AgentHandle.assistantMessage_calls, ← hcalls, results, List.map_map, List.map_map]
    rfl

/-- Every act can get a reply. -/
theorem Act.nonempty_reply (a : Act) : Nonempty a.Reply := by
  cases a with
  | send request => exact ⟨(⟨0, .crashed⟩ : PendingModel)⟩
  | invoke tool args context => exact ⟨(.ok .null : Except ToolError Json)⟩
  | recordSession session agent delta => exact ⟨(.error "" : Except String SessionUsage)⟩
  | _ => exact ⟨()⟩

namespace AgentHandle

variable {h : AgentHandle} {step : String} {m : Message} {xs : List (Exchange Act Act.Reply)}
  {out : Option (Except CallError AgentReply)}

/-! ## The protocol -/

/-- A call of an agent with the message `m` has performed `xs` by its end: the
rounds before its last request, and what came of that one. -/
structure Protocol (h : AgentHandle) (step : String) (m : Message) (before : List Round)
    (last : PendingModel) (xs : List (Exchange Act Act.Reply))
    (out : Option (Except CallError AgentReply)) : Prop where
  /-- One request is made, and no more than the limit. -/
  bound : before.length + 1 ≤ max h.maxSteps 1
  /-- Earlier answers came in time and asked for tools, all of which were used. -/
  goesOn : ∀ e ∈ before, e.GoesOn h step
  /-- Each request tells the message and then the rounds before it. -/
  messages : (xs.filterMap Exchange.request?).map ModelRequest.messages
    = before.inits.map fun told => m :: told.flatMap Round.messages
  /-- And it tells what the agent always tells. -/
  requests : xs.filterMap Exchange.request?
    = before.inits.map fun told => h.request (m :: told.flatMap Round.messages)
  pendings : xs.filterMap Exchange.pending? = before.map Round.pending ++ [last]
  answers : ∀ e ∈ before, ∃ tool, e.messages = [assistantMessage e.answer, tool] ∧
    tool.Answers (assistantMessage e.answer) ∧
    (assistantMessage e.answer).content.filterMap Part.call? = e.answer.toolCalls
  /-- The call ends at the first failure, at the first answer that asks for no
  tools, or at the limit. -/
  closes : ∃ ys, xs = h.performed step [m] before ++ ys ∧
    h.Closes step (before.length + 1 = max h.maxSteps 1) (m :: before.flatMap Round.messages)
      (AgentReply.empty.afterAll before) last ys out
  /-- A reply has the text of the last answer, and adds up all of them. -/
  replied : ∀ reply, out = some (.ok reply) → ∃ r, h.awaited last = some (.ok r) ∧
    reply.text = r.text ∧
    reply.usage = .sum ((before.map fun e => e.answer.usage) ++ [r.usage]) ∧
    reply.modelCalls = before.length + 1 ∧
    ∀ trace : List Chunk, trace.map Chunk.act = (xs.map Exchange.act).filter Act.writes →
      (trace.filterMap Chunk.round?).length = reply.modelCalls

theorem ends_invoke (hends : (h.invoke step m).Ends xs out) :
    ∃ before last, h.Protocol step m before last xs out := by
  obtain ⟨before, last, ys, hbound, hbefore, rfl, hcloses⟩ :=
    (ends_rounds hends).split (by omega)
  have hholds : ∀ e ∈ before, Round.Holds h step e := fun e he => (hbefore e he).toHolds
  obtain ⟨hrequest, hpending⟩ := hcloses.request
  have hrequests := requests_performed hholds hrequest
  refine ⟨before, last, hbound, hbefore, ?_, hrequests, ?_, ?_, ⟨ys, rfl, hcloses⟩, ?_⟩
  · rw [hrequests, List.map_map]
    rfl
  · rw [List.filterMap_append, pendings_performed hholds, hpending]
  · intro e he
    obtain ⟨tool, hmessages, hanswers⟩ := (hbefore e he).answers
    exact ⟨tool, hmessages, hanswers, assistantMessage_calls e.answer⟩
  · rintro reply rfl
    obtain ⟨e, he, rfl, hall, rfl⟩ := hcloses.summed
    have hrounds : ∀ e' ∈ before ++ [e], Round.Holds h step e' :=
      List.forall_mem_append.mpr ⟨hholds, by simpa using he⟩
    have hcalls : (AgentReply.empty.afterAll (before ++ [e])).modelCalls = before.length + 1 := by
      rw [AgentReply.modelCalls_afterAll, List.length_append]
      exact Nat.zero_add _
    refine ⟨e.answer, he.answered, ?_, ?_, hcalls, fun trace htrace => ?_⟩
    · rw [AgentReply.afterAll_concat]
      rfl
    · rw [AgentReply.usage_afterAll, AgentReply.empty, Tokens.zero_add, List.map_append]
      rfl
    · have hshown : (h.performed step [m] (before ++ [e])).filterMap (fun x => x.act.round?)
          = (before ++ [e]).map (Round.shown h step) := rounds_performed hrounds
      rw [rounds_of_trace htrace, List.filterMap_map, hall, hcalls]
      exact (congrArg List.length hshown).trans (by simp)

/-- **The tool loop keeps to the protocol.** Take any agent, step and message,
and models, tools and stores that answer as they like. A call that has come
anywhere can still end, and when it has ended it has kept to the protocol:
it has made at least one request and at most as many as are allowed; each
request tells the message and, for each earlier round in order, the answer
of the model and the results of its tools, one to one; the call has stopped
at the first failure, at the first answer that asks for no tools, or at the
limit; and its reply has the last text, all usages, and as many model calls
as there were rounds, each of which its trace shows. Agents of a registry
are allowed as many requests as it says, and always one. -/
theorem invoke_keeps_protocol (h : AgentHandle) (step : String) (m : Message) :
    (∀ xs q, (h.invoke step m).Runs xs q → ∃ ys out, (h.invoke step m).Ends (xs ++ ys) out) ∧
      (∀ xs out, (h.invoke step m).Ends xs out →
        ∃ before last, h.Protocol step m before last xs out) ∧
      ∀ c agents r name, Registry.build c agents = .ok r → r.find? name = some h →
        max h.maxSteps 1 = max c.maxToolSteps 1 := by
  refine ⟨fun xs q hruns => ?_, fun xs out => ends_invoke, fun c agents r name hbuild hfind => ?_⟩
  · obtain ⟨ys, out, hends⟩ := Prog.exists_ends Act.nonempty_reply q
    exact ⟨ys, out, hruns.ends hends⟩
  · rw [(Registry.build_serves hbuild hfind).limit]
    omega

/-- An agent with a tool that writes in capitals, and two requests. -/
def shouting : AgentHandle :=
  { name := "crier", model := "m", system := "", tools := [("upper", Rehearsal.upper .null)]
    context := { agentId := "a", sessionId := "s", agentName := "crier", step := "" }
    accountant := { event := "flow", session := "s", agent := "a", bills := false }
    maxSteps := 2, timeout := none }

/-- Models that ask for the tool first. -/
def asking : Environment Rehearsal.ScriptedModel :=
  { Engine.silentEnvironment with
    model := { replies := [("m", [{ Rehearsal.Reply.plain with
      toolCalls := [⟨"c", "upper", .object [("text", .string "x")], none⟩] }])] } }

/-- A model that has asked for a tool is asked again with its result. -/
theorem invoke_keeps_protocol_shouting : ∃ xs reply before last, reply.modelCalls = 2 ∧
    reply.toolCalls = 1 ∧ before.length = 1 ∧
      shouting.Protocol "cry" (.user []) before last xs (some (.ok reply)) := by
  let w : World Rehearsal.ScriptedModel := .start asking .buffered (.start "t" "s" "a" ⟨"", "", ""⟩)
  have hends := Prog.ends_alone World.perform (shouting.invoke "cry" (.user [])) w
  have hreplies : ((shouting.invoke "cry" (.user [])).alone World.perform w).2.any (fun result =>
      result.toOption.any fun reply => reply.modelCalls == 2 && reply.toolCalls == 1) = true := by
    decide +kernel
  obtain ⟨result, hresult, hreply⟩ := (Option.any_eq_true ..).mp hreplies
  obtain ⟨reply, hok, hcounts⟩ := (Option.any_eq_true ..).mp hreply
  obtain ⟨hcalls, htools⟩ := (Bool.and_eq_true ..).mp hcounts
  rw [hresult, eq_ok_of_toOption hok] at hends
  obtain ⟨before, last, hkeeps⟩ := (invoke_keeps_protocol shouting "cry" (.user [])).2.1 _ _ hends
  obtain ⟨-, -, -, -, hlength, -⟩ := hkeeps.replied reply rfl
  refine ⟨_, reply, before, last, eq_of_beq hcalls, eq_of_beq htools, ?_, hkeeps⟩
  rw [eq_of_beq hcalls] at hlength
  omega

end AgentHandle

end Ensemble
