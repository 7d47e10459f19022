import Ensemble.Proofs.Agent.Conversation

/-!
# Accounts of usage

What the exchanges of one task say of the usage of models, in five places:
the answers that came in time, the updates of the session, the trace, the
statistics and the bill. `Balanced` is that they agree: what the session
took is what the others show, once each and in the same order.

An answer and the update that takes it are two exchanges, so a list can be
cut between them. `Settles` are the balanced lists that leave nothing open;
they can be put one behind the other (`Settles.append`).
-/

namespace Ensemble

/-- What an answer of a model has cost, and why it has ended. -/
structure Cost where
  usage : Tokens
  reason : String
deriving DecidableEq, Repr

/-! ## Entries -/

/-- The answer of a model, if it comes within a limit. -/
def PendingModel.inTime? (limit : Option Nat) (pending : PendingModel) : Option ModelResponse :=
  if limit.all (pending.delay ≤ ·) then
    match pending.outcome with
    | .answered response => some response
    | _ => none
  else none

namespace Exchange

/-- The cost of a request that was answered in time. -/
def answer? (limit : Option Nat) : Exchange Act Act.Reply → Option Cost
  | ⟨.send _, pending⟩ =>
    (PendingModel.inTime? limit pending).map fun response =>
      { usage := response.usage, reason := response.finishReason }
  | _ => none

/-- The tokens that a session has taken. -/
def taken? : Exchange Act Act.Reply → Option (String × Tokens)
  | ⟨.recordSession session _ delta, .ok _⟩ => some (session, delta)
  | _ => none

/-- What is known of an answer once its task goes on: an update of the session
takes it or does not, and with another request it is too late. -/
def decides? : Exchange Act Act.Reply → Option Bool
  | ⟨.recordSession .., .ok _⟩ => some true
  | ⟨.recordSession .., .error _⟩ => some false
  | ⟨.send _, _⟩ => some false
  | _ => none

/-- The tokens that a session is said to have taken are those that it got. -/
def Honest : Exchange Act Act.Reply → Prop
  | ⟨.recordSession _ _ delta, .ok usage⟩ => usage.delta = delta
  | _ => True

end Exchange

namespace Act

/-- The tokens that a session is asked to take. -/
def update? : Act → Option (String × Tokens)
  | .recordSession session _ delta => some (session, delta)
  | _ => none

def finish? : Act → Option Cost
  | .emitFinish _ _ _ _ usage reason => some { usage, reason }
  | _ => none

def stat? : Act → Option Usage.Stat
  | .aggregate stat => some stat
  | _ => none

def bill? : Act → Option SessionUsage
  | .bill usage _ => some usage
  | _ => none

/-- Whether an act has nothing to do with usage. -/
def IsFree : Act → Prop
  | .send _ | .recordSession .. | .emitFinish .. | .aggregate _ | .bill .. => False
  | _ => True

theorem IsUse.isFree {a : Act} (ha : a.IsUse) : a.IsFree := by
  cases a <;> first | exact ha.elim | trivial

end Act

variable {a : Accountant} {limit : Option Nat} {xs ys : List (Exchange Act Act.Reply)}

/-! ## Settled answers -/

/-- Whether the next that is decided of an answer is that the session takes
it. -/
def isTaken (xs : List (Exchange Act Act.Reply)) : Bool :=
  (xs.findSome? Exchange.decides?).getD false

/-- The answers that came in time and were taken by the session. -/
def settled (limit : Option Nat) : List (Exchange Act Act.Reply) → List Cost
  | [] => []
  | x :: rest => (if isTaken rest then (x.answer? limit).toList else []) ++ settled limit rest

theorem answer?_send {request : ModelRequest} {pending : PendingModel} :
    Exchange.answer? limit ⟨.send request, pending⟩ = (pending.inTime? limit).map fun response =>
      { usage := response.usage, reason := response.finishReason } := rfl

theorem settled_of_unanswered (hxs : ∀ x ∈ xs, x.answer? limit = none) (ys) :
    settled limit (xs ++ ys) = settled limit ys := by
  induction xs with
  | nil => rfl
  | cons x xs ih =>
      have hx := hxs x (List.mem_cons_self ..)
      rw [List.cons_append, settled, hx, ih fun y hy => hxs y (List.mem_cons_of_mem _ hy)]
      split <;> rfl

/-! ## Free exchanges -/

section Free

variable {x : Exchange Act Act.Reply} {free : List (Exchange Act Act.Reply)}

theorem Act.IsFree.answer? (hx : x.act.IsFree) : x.answer? limit = none := by
  obtain ⟨act, reply⟩ := x
  cases act <;> first | rfl | exact hx.elim

theorem Act.IsFree.taken? (hx : x.act.IsFree) : x.taken? = none := by
  obtain ⟨act, reply⟩ := x
  cases act <;> first | rfl | exact hx.elim

theorem Act.IsFree.decides? (hx : x.act.IsFree) : x.decides? = none := by
  obtain ⟨act, reply⟩ := x
  cases act <;> first | rfl | exact hx.elim

theorem Act.IsFree.entries {a : Act} (ha : a.IsFree) :
    a.update? = none ∧ a.finish? = none ∧ a.stat? = none ∧ a.bill? = none := by
  cases a <;> first | exact ⟨rfl, rfl, rfl, rfl⟩ | exact ha.elim

/-- What leaves no entry can be left out. -/
theorem filterMap_leave_out {α γ : Type} {f : α → Option γ} {free : List α}
    (hfree : ∀ x ∈ free, f x = none) (xs ys : List α) :
    (xs ++ (free ++ ys)).filterMap f = (xs ++ ys).filterMap f := by
  rw [List.filterMap_append, List.filterMap_append, List.filterMap_eq_nil_iff.mpr hfree,
    List.nil_append, List.filterMap_append]

theorem isTaken_leave_out (hfree : ∀ x ∈ free, x.act.IsFree) (xs ys) :
    isTaken (xs ++ (free ++ ys)) = isTaken (xs ++ ys) := by
  have hnone := List.findSome?_eq_none_iff.mpr fun x hx => (hfree x hx).decides?
  rw [isTaken, isTaken, List.findSome?_append, List.findSome?_append, hnone, Option.none_or,
    List.findSome?_append]

theorem settled_leave_out (hfree : ∀ x ∈ free, x.act.IsFree) (xs ys) :
    settled limit (xs ++ (free ++ ys)) = settled limit (xs ++ ys) := by
  induction xs with
  | nil => exact settled_of_unanswered (fun x hx => (hfree x hx).answer?) ys
  | cons x xs ih =>
      rw [List.cons_append, settled, isTaken_leave_out hfree, ih]
      rfl

end Free

/-! ## Balanced accounts -/

/-- The accounts of a task whose calls write to the account `a` and wait no
longer than `limit` for an answer. -/
structure Balanced (a : Accountant) (limit : Option Nat) (xs : List (Exchange Act Act.Reply)) :
    Prop where
  /-- Every answer that came in time is put on record, whatever its tools do. -/
  updates : xs.filterMap (·.act.update?)
    = (xs.filterMap (Exchange.answer? limit)).map fun c => (a.session, c.usage)
  /-- Of these the session takes what is settled, and nothing else. -/
  taken : xs.filterMap Exchange.taken? = (settled limit xs).map fun c => (a.session, c.usage)
  finished : xs.filterMap (·.act.finish?) = settled limit xs
  stats : (xs.filterMap (·.act.stat?)).map (fun s => (s.usage, s.finishReasons))
    = (settled limit xs).map fun c => (c.usage, [c.reason])
  bills : (xs.filterMap (·.act.bill?)).map SessionUsage.delta
    = if a.bills then (settled limit xs).map Cost.usage else []

/-- Balanced accounts in which no answer is left undecided. -/
structure Settles (a : Accountant) (limit : Option Nat) (xs : List (Exchange Act Act.Reply)) :
    Prop extends Balanced a limit xs where
  closed : ∀ ys, settled limit (xs ++ ys) = settled limit xs ++ settled limit ys

/-- What the exchanges of an answer that is put on record leave where. -/
theorem entries_of_settled (h : AgentHandle) (limit : Option Nat) (step : String)
    (r : ModelResponse) (results : List Part) (usage : SessionUsage) :
    let xs := h.settled step r results usage
    (∀ x ∈ xs, x.answer? limit = none) ∧
      xs.filterMap (·.act.update?) = [(h.accountant.session, r.usage)] ∧
      xs.filterMap Exchange.taken? = [(h.accountant.session, r.usage)] ∧
      xs.filterMap (·.act.finish?) = [{ usage := r.usage, reason := r.finishReason }] ∧
      xs.filterMap (·.act.stat?) = [h.accountant.stat r.finishReason usage] ∧
      xs.filterMap (·.act.bill?) = if h.accountant.bills then [usage] else [] := by
  unfold AgentHandle.settled Accountant.recorded
  cases h.accountant.bills with
  | true =>
      exact ⟨by simp [Exchange.answer?, AgentHandle.finished], rfl, rfl, rfl, rfl, rfl⟩
  | false =>
      exact ⟨by simp [Exchange.answer?, AgentHandle.finished], rfl, rfl, rfl, rfl, rfl⟩

namespace Settles

theorem append (hx : Settles a limit xs) (hy : Settles a limit ys) :
    Settles a limit (xs ++ ys) where
  updates := by
    rw [List.filterMap_append, List.filterMap_append, List.map_append, hx.updates, hy.updates]
  taken := by rw [List.filterMap_append, hx.closed, List.map_append, hx.taken, hy.taken]
  finished := by rw [List.filterMap_append, hx.closed, hx.finished, hy.finished]
  stats := by
    rw [List.filterMap_append, List.map_append, hx.closed, List.map_append, hx.stats, hy.stats]
  bills := by
    rw [List.filterMap_append, List.map_append, hx.closed, hx.bills, hy.bills]
    split
    · rw [List.map_append]
    · rfl
  closed zs := by rw [List.append_assoc, hx.closed, hy.closed, hx.closed, List.append_assoc]

theorem nil : Settles a limit [] where
  updates := rfl
  taken := rfl
  finished := rfl
  stats := rfl
  bills := (ite_self _).symm
  closed _ := rfl

/-- Exchanges that have nothing to do with usage may stand anywhere. -/
theorem insert (xs : List (Exchange Act Act.Reply)) {free : List (Exchange Act Act.Reply)}
    (h : Settles a limit (xs ++ ys)) (hfree : ∀ x ∈ free, x.act.IsFree) :
    Settles a limit (xs ++ (free ++ ys)) where
  updates := by
    rw [filterMap_leave_out fun x hx => (hfree x hx).entries.1,
      filterMap_leave_out fun x hx => (hfree x hx).answer?, h.updates]
  taken := by
    rw [filterMap_leave_out fun x hx => (hfree x hx).taken?, settled_leave_out hfree, h.taken]
  finished := by
    rw [filterMap_leave_out fun x hx => (hfree x hx).entries.2.1, settled_leave_out hfree,
      h.finished]
  stats := by
    rw [filterMap_leave_out fun x hx => (hfree x hx).entries.2.2.1, settled_leave_out hfree,
      h.stats]
  bills := by
    rw [filterMap_leave_out fun x hx => (hfree x hx).entries.2.2.2, settled_leave_out hfree,
      h.bills]
  closed zs := by
    have hclosed := h.closed zs
    rw [List.append_assoc] at hclosed
    rw [List.append_assoc, List.append_assoc, settled_leave_out hfree, settled_leave_out hfree,
      hclosed]

theorem of_free (hxs : ∀ x ∈ xs, x.act.IsFree) : Settles a limit xs := by
  have hinsert : Settles a limit ([] ++ (xs ++ [])) := nil.insert [] hxs
  rwa [List.nil_append, List.append_nil] at hinsert

/-! ### Rounds of a conversation -/

variable {request : ModelRequest} {pending : PendingModel} {r : ModelResponse}

/-- A request that is not answered in time. -/
theorem unanswered (hlate : pending.inTime? limit = none) :
    Settles a limit [⟨.send request, pending⟩] := by
  have hanswer : Exchange.answer? limit ⟨.send request, pending⟩ = none := by
    rw [answer?_send, hlate]
    rfl
  have hsettled : ∀ ys, settled limit ([⟨.send request, pending⟩] ++ ys) = settled limit ys :=
    settled_of_unanswered (by simpa using hanswer)
  have hown : settled limit [⟨.send request, pending⟩] = [] := hsettled []
  refine ⟨⟨?_, ?_, ?_, ?_, ?_⟩, fun ys => by rw [hsettled, hown, List.nil_append]⟩
  · rw [List.filterMap_cons_none (f := Exchange.answer? limit) hanswer]
    rfl
  · rw [hown]
    rfl
  · rw [hown]
    rfl
  · rw [hown]
    rfl
  · rw [hown]
    exact (ite_self _).symm

/-- The session does not take the usage of an answer. -/
theorem refused (hanswer : pending.inTime? limit = some r) (message : String) :
    Settles a limit (⟨.send request, pending⟩ :: a.refused r.usage message) := by
  have hcost : Exchange.answer? limit ⟨.send request, pending⟩
      = some { usage := r.usage, reason := r.finishReason } := by
    rw [answer?_send, hanswer]
    rfl
  have hnone : ∀ x ∈ a.refused r.usage message, x.answer? limit = none := by
    simp [Accountant.refused, Exchange.answer?]
  refine ⟨⟨?_, rfl, rfl, rfl, (ite_self _).symm⟩, fun ys => ?_⟩
  · rw [List.filterMap_cons_some (f := Exchange.answer? limit) hcost]
    rfl
  · have hrest := settled_of_unanswered hnone ys
    exact hrest

/-- The session takes it, and the answer is put into all other places. -/
theorem round {h : AgentHandle} {step : String} {results : List Part} {usage : SessionUsage}
    (hanswer : pending.inTime? limit = some r) (hdelta : usage.delta = r.usage) :
    Settles h.accountant limit
      (⟨.send request, pending⟩ :: h.settled step r results usage) := by
  have hcost : Exchange.answer? limit ⟨.send request, pending⟩
      = some { usage := r.usage, reason := r.finishReason } := by
    rw [answer?_send, hanswer]
    rfl
  obtain ⟨hnone, hupdate, htaken, hfinish, hstat, hbill⟩ :=
    entries_of_settled h limit step r results usage
  have hdecided : ∀ ys, isTaken (h.settled step r results usage ++ ys) = true := fun _ => rfl
  have hsettled : ∀ ys, settled limit
      (⟨.send request, pending⟩ :: h.settled step r results usage ++ ys)
        = { usage := r.usage, reason := r.finishReason } :: settled limit ys := by
    intro ys
    rw [List.cons_append, settled, hdecided, hcost, settled_of_unanswered hnone]
    rfl
  have hown := hsettled []
  rw [List.append_nil, settled] at hown
  refine ⟨⟨?_, ?_, ?_, ?_, ?_⟩, fun ys => by rw [hsettled, hown]; rfl⟩
  · rw [List.filterMap_cons_some (f := Exchange.answer? limit) hcost,
      List.filterMap_eq_nil_iff.mpr hnone]
    exact hupdate
  · rw [hown]
    exact htaken
  · rw [hown]
    exact hfinish
  · rw [hown, List.filterMap_cons_none rfl, hstat, List.map_singleton, List.map_singleton,
      Accountant.stat, Usage.Stat.ofEvent, hdelta]
    rfl
  · rw [hown, List.filterMap_cons_none rfl, hbill]
    split
    · rw [List.map_singleton, List.map_singleton, hdelta]
    · rfl

end Settles

end Ensemble
