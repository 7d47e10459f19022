import Ensemble.Proofs.Agent.Rounds

/-!
# Effects of tools

A call shows all that it has done with tools, also in a round in which a
tool fails, as long as the session takes the usage of its answers:
`Reported` says what it has performed, round by round, and what it has
shown of each round. `toolUses` reads the uses of tools, with their
results, back off the messages of a round.
-/

namespace Ensemble

namespace Exchange

/-- Whether the session refuses the usage of an answer. -/
def isRefusal : Exchange Act Act.Reply → Bool
  | ⟨.recordSession .., .error _⟩ => true
  | _ => false

end Exchange

/-! ## Uses that messages show -/

/-- The tool calls of messages that have a result, and these results, which are
those of the first calls. -/
def Message.toolUses (ms : List Message) : List (ToolCall × Json) :=
  let parts := ms.flatMap Message.content
  (parts.filterMap Part.call?).zip (parts.filterMap Part.result?)

section Shown

variable (r : ModelResponse) (used : List ToolUse)

theorem AgentHandle.roundMessages_content (results : List Part) :
    (roundMessages r results).flatMap Message.content
      = (assistantMessage r).content ++ results := by
  rw [roundMessages, List.flatMap_cons]
  cases results with
  | nil => rfl
  | cons p rest => simp

/-- All tool calls of the answer are shown. -/
theorem AgentHandle.roundMessages_calls :
    ((roundMessages r (used.map ToolUse.part)).flatMap Message.content).filterMap Part.call?
      = r.toolCalls := by
  have hresults : (used.map ToolUse.part).filterMap Part.call? = [] := by
    simp [ToolUse.part, Part.call?]
  rw [roundMessages_content, List.filterMap_append, assistantMessage_calls, hresults,
    List.append_nil]

theorem AgentHandle.assistantMessage_noResult (p : Part) (hp : p ∈ (assistantMessage r).content) :
    p.isToolResult = false ∧ p.result? = none := by
  rcases List.mem_append.mp hp with htext | hcall
  · split at htext
    · cases htext
    · obtain rfl := List.mem_singleton.mp htext
      exact ⟨rfl, rfl⟩
  · obtain ⟨c, -, rfl⟩ := List.mem_map.mp hcall
    exact ⟨rfl, rfl⟩

/-- The results that are shown are those of the uses that gave one. -/
theorem AgentHandle.roundMessages_results :
    ((roundMessages r (used.map ToolUse.part)).flatMap Message.content).filter Part.isToolResult
      = used.map ToolUse.part := by
  have hnone : (assistantMessage r).content.filter Part.isToolResult = [] :=
    List.filter_eq_nil_iff.mpr fun p hp => by simp [(assistantMessage_noResult r p hp).1]
  rw [roundMessages_content, List.filter_append, hnone, List.nil_append, List.filter_eq_self]
  simp [ToolUse.part, Part.isToolResult]

theorem AgentHandle.roundMessages_values :
    ((roundMessages r (used.map ToolUse.part)).flatMap Message.content).filterMap Part.result?
      = used.map ToolUse.value := by
  have hnone : (assistantMessage r).content.filterMap Part.result? = [] :=
    List.filterMap_eq_nil_iff.mpr fun p hp => (assistantMessage_noResult r p hp).2
  rw [roundMessages_content, List.filterMap_append, hnone, List.nil_append, List.filterMap_map,
    ← List.filterMap_eq_map]
  rfl

end Shown

/-- The uses of tools can be read off what is shown of a round. -/
theorem Round.Holds.toolUses {h : AgentHandle} {step : String} {e : Round} (he : e.Holds h step) :
    Message.toolUses e.messages = e.used.map fun u => (u.call, u.value) := by
  obtain ⟨rest, last, hcalls, -⟩ := he.turn
  have hzip : ∀ used : List ToolUse,
      (used.map ToolUse.call ++ rest).zip (used.map ToolUse.value)
        = used.map fun u => (u.call, u.value) := by
    intro used
    induction used with
    | nil => exact List.zip_nil_right
    | cons u used ih => exact congrArg (List.cons _) ih
  rw [Message.toolUses, messages, results, AgentHandle.roundMessages_calls,
    AgentHandle.roundMessages_values, hcalls]
  exact hzip e.used

/-! ## Calls that report what they do -/

namespace AgentHandle

variable {h : AgentHandle} {step : String} {history : List Message} {m : Message}
  {reply : AgentReply} {xs : List (Exchange Act Act.Reply)}
  {out : Option (Except CallError AgentReply)}

/-- By its end a call with the message `m` has gone through some rounds, and
has shown all that it has done in them; behind them there may be one more
request, to which no answer came in time. -/
structure Reported (h : AgentHandle) (step : String) (m : Message) (rounds : List Round)
    (tail xs : List (Exchange Act Act.Reply)) (out : Option (Except CallError AgentReply)) :
    Prop where
  performed : xs = h.performed step [m] rounds ++ tail
  unanswered : tail = [] ∨ ∃ request pending, tail = [⟨.send request, pending⟩] ∧
    ∀ r, h.awaited pending ≠ some (.ok r)
  /-- In each round the tools are used in turn, none after one that has failed. -/
  holds : ∀ e ∈ rounds, e.Holds h step
  /-- No tool is used outside of the rounds. -/
  uses : ∀ x ∈ xs, x.act.IsUse → ∃ e ∈ rounds, x ∈ e.uses
  shown : xs.filterMap (fun x => x.act.round?) = rounds.map (Round.shown h step)
  /-- A round shows all tool calls that its answer asks for, and the results of
  those that succeeded, which are the first ones. -/
  calls : ∀ e ∈ rounds,
    (e.messages.flatMap Message.content).filterMap Part.call? = e.answer.toolCalls
  results : ∀ e ∈ rounds, (e.messages.flatMap Message.content).filter Part.isToolResult
    = e.used.map ToolUse.part
  first : ∀ e ∈ rounds, e.used.map ToolUse.call <+: e.answer.toolCalls
  /-- The step fails with the first failure of a tool. -/
  failure : ∀ e ∈ rounds, ∀ error, e.failure = some error →
    rounds.getLast? = some e ∧ tail = [] ∧ out = some (.error error)

theorem settled_not_use (r : ModelResponse) (results : List Part) (usage : SessionUsage) :
    ∀ x ∈ h.settled step r results usage, ¬x.act.IsUse := by
  unfold settled Accountant.recorded
  split <;> simp [finished, Act.IsUse]

theorem uses_performed {rounds : List Round} {x : Exchange Act Act.Reply}
    (hx : x ∈ h.performed step history rounds) (huse : x.act.IsUse) :
    ∃ e ∈ rounds, x ∈ e.uses := by
  induction rounds generalizing history with
  | nil => cases hx
  | cons e rest ih =>
      rw [performed] at hx
      rcases List.mem_cons.mp hx with rfl | hx
      · exact huse.elim
      rcases List.mem_append.mp hx with hx | hx
      · rcases List.mem_append.mp hx with hx | hx
        · exact ⟨e, List.mem_cons_self .., hx⟩
        · exact absurd huse (settled_not_use _ _ _ x hx)
      · obtain ⟨e', he', hmem⟩ := ih hx
        exact ⟨e', List.mem_cons_of_mem _ he', hmem⟩

/-- Rounds and a last request report what they do, if the rounds are those of
the agent and only the last of them may have failed. -/
theorem reported_performed {rounds : List Round} {tail : List (Exchange Act Act.Reply)}
    (hholds : ∀ e ∈ rounds, Round.Holds h step e)
    (htail : tail = [] ∨ ∃ request pending, tail = [⟨.send request, pending⟩] ∧
      ∀ r, h.awaited pending ≠ some (.ok r))
    (hfailure : ∀ e ∈ rounds, ∀ error, e.failure = some error →
      rounds.getLast? = some e ∧ tail = [] ∧ out = some (.error error)) :
    h.Reported step m rounds tail (h.performed step [m] rounds ++ tail) out where
  performed := rfl
  unanswered := htail
  holds := hholds
  uses := by
    intro x hx huse
    rcases List.mem_append.mp hx with hx | hx
    · exact uses_performed hx huse
    · rcases htail with rfl | ⟨_, _, rfl, -⟩
      · cases hx
      · obtain rfl := List.mem_singleton.mp hx
        exact huse.elim
  shown := by
    rw [List.filterMap_append, rounds_performed hholds]
    rcases htail with rfl | ⟨_, _, rfl, -⟩ <;> exact List.append_nil _
  calls := fun e _ => roundMessages_calls e.answer e.used
  results := fun e _ => roundMessages_results e.answer e.used
  first := fun e he => by
    obtain ⟨rest, last, hcalls, -⟩ := (hholds e he).turn
    exact ⟨rest, hcalls.symm⟩
  failure := hfailure

section Before

variable {before : List Round} (hbefore : ∀ e ∈ before, Round.GoesOn h step e)

include hbefore

theorem reported_unanswered {request : ModelRequest} {pending : PendingModel}
    (hno : ∀ r, h.awaited pending ≠ some (.ok r)) :
    h.Reported step m before [⟨.send request, pending⟩]
      (h.performed step [m] before ++ [⟨.send request, pending⟩]) out := by
  refine reported_performed (fun e he => (hbefore e he).toHolds) (Or.inr ⟨_, _, rfl, hno⟩) ?_
  intro e he error hfailure
  cases (hbefore e he).served.symm.trans hfailure

theorem reported_concat {e : Round} (he : e.Holds h step)
    (hfailure : ∀ error, e.failure = some error → out = some (.error error)) :
    h.Reported step m (before ++ [e]) [] (h.performed step [m] (before ++ [e])) out := by
  have hreported : h.Reported step m (before ++ [e]) []
      (h.performed step [m] (before ++ [e]) ++ []) out := by
    refine reported_performed ?_ (Or.inl rfl) fun e' he' error herror => ?_
    · refine List.forall_mem_append.mpr ⟨fun e he => (hbefore e he).toHolds, ?_⟩
      simpa using he
    · rcases List.mem_append.mp he' with he' | he'
      · cases (hbefore e' he').served.symm.trans herror
      · obtain rfl := List.mem_singleton.mp he'
        exact ⟨List.getLast?_concat, rfl, hfailure error herror⟩
  rwa [List.append_nil] at hreported

end Before

/-- A call reports all that it does, if the session takes what it gets. -/
theorem Conversation.reported {left : Nat}
    (hc : h.Conversation step left [m] reply xs out) (hleft : 0 < left)
    (haccepts : ∀ x ∈ xs, x.isRefusal = false) :
    ∃ rounds tail, h.Reported step m rounds tail xs out := by
  obtain ⟨before, last, ys, -, hbefore, rfl, hcloses⟩ := hc.split hleft
  cases hcloses with
  | crashed crash => exact ⟨_, _, reported_unanswered hbefore (by simp [crash])⟩
  | unanswered late => exact ⟨_, _, reported_unanswered hbefore (by simp [late])⟩
  | @refused _ r _ _ _ message answer turn =>
      have hrefusal := haccepts ⟨.recordSession h.accountant.session h.accountant.agent r.usage,
        (.error message : Except String SessionUsage)⟩ (by simp [Accountant.refused])
      cases hrefusal
  | @failed e error holds failure =>
      rw [← performed_concat]
      refine ⟨_, _, reported_concat hbefore holds fun error' herror => ?_⟩
      obtain rfl := Option.some.inj (failure.symm.trans herror)
      rfl
  | @replied e holds served stop =>
      rw [← performed_concat]
      refine ⟨_, _, reported_concat hbefore holds fun error herror => ?_⟩
      cases served.symm.trans herror

end AgentHandle

end Ensemble
