import Ensemble.Proofs.Execution.Calls
import Ensemble.Proofs.Execution.Composition
import Ensemble.Proofs.Run.Log

/-!
# What steps show of themselves

A step shows the start of each of its calls no more than once, and its
answers behind that, under the name of the agent (`step_orderly`,
`step_starts_le`). A step that has completed has started and has counted
each call once, and no failure was noted on the way (`Tallies.completed`).
-/

namespace Ensemble

/-! ## Kinds of acts -/

namespace Act

/-- Whether an act may be one of a step: it does not end a run. -/
def IsInner : Act → Prop
  | .emitFinal .. | .emitError _ | .logError _ | .finalize _ | .close => False
  | _ => True

/-- Whether an act shows the start of a step. -/
def starts (step : String) : Act → Bool
  | .emitStart _ shown _ => shown == step
  | _ => false

def isStart : Act → Bool
  | .emitStart .. => true
  | _ => false

/-- Whether an act is of one of these kinds. -/
def isMark (a : Act) : Bool := a.isStart || a.isCount || a.isFailure

end Act

/-- Answers for a step are shown behind its start, under the same name. -/
def Announced (acts : List Act) : Prop :=
  ∀ before after name model step messages usage reason,
    acts = before ++ .emitFinish name model step messages usage reason :: after →
    ∃ input, Act.emitStart name step input ∈ before

namespace Announced

variable {acts acts' : List Act}

theorem of_silent (h : ∀ a ∈ acts, ∀ name model step messages usage reason,
    a ≠ .emitFinish name model step messages usage reason) : Announced acts := by
  rintro before after name model step messages usage reason rfl
  exact absurd rfl (h _ (List.mem_append_right _ (List.mem_cons_self ..)) _ _ _ _ _ _)

theorem append (h : Announced acts) (h' : Announced acts') : Announced (acts ++ acts') := by
  intro before after name model step messages usage reason hsplit
  rcases List.append_eq_append_iff.mp hsplit with ⟨between, rfl, hx⟩ | ⟨tail, rfl, hx⟩
  · obtain ⟨input, hmem⟩ := h' between after _ _ _ _ _ _ hx
    exact ⟨input, List.mem_append_right _ hmem⟩
  · cases tail with
    | nil =>
        obtain ⟨input, hmem⟩ := h' [] after _ _ _ _ _ _ hx.symm
        cases hmem
    | cons a tail =>
        obtain ⟨rfl, -⟩ := List.cons.inj hx
        exact h before tail _ _ _ _ _ _ rfl

/-- A start announces all answers of its step. -/
theorem of_start {agent step : String} (input : Json)
    (h : ∀ name model shown messages usage reason,
      Act.emitFinish name model shown messages usage reason ∈ acts → name = agent ∧ shown = step) :
    Announced (.emitStart agent step input :: acts) := by
  intro before after name model shown messages usage reason hsplit
  cases before with
  | nil =>
      -- the first act is the start itself
      cases (List.cons.inj hsplit).1
  | cons b before =>
      obtain ⟨rfl, rfl⟩ := List.cons.inj hsplit
      obtain ⟨rfl, rfl⟩ := h _ _ _ _ _ _ (List.mem_append_right _ (List.mem_cons_self ..))
      exact ⟨input, List.mem_cons_self ..⟩

/-- What the branches of a fork announce, they announce in the whole as well. -/
theorem of_branches {n : Nat} {h : History Act Act.Reply} (hwithin : h.Within n)
    (hbranch : ∀ i < n, Announced (History.acts (h.below i))) : Announced (History.acts h) := by
  intro before after name model step messages usage reason hsplit
  obtain ⟨h₁, rest, rfl, rfl, hrest⟩ := List.map_eq_append_iff.mp hsplit
  obtain ⟨x, h₂, rfl, hx, rfl⟩ := List.map_eq_cons_iff.mp hrest
  obtain ⟨i, hi, path, hpath⟩ := hwithin x (List.mem_append_right _ (List.mem_cons_self ..))
  obtain ⟨task, x⟩ := x
  obtain rfl : task = i :: path := hpath
  -- the start is shown by the same branch
  have hbelow : History.acts (History.below i (h₁ ++ (i :: path, x) :: h₂))
      = History.acts (History.below i h₁) ++ x.act :: History.acts (History.below i h₂) := by
    rw [History.below_append, History.below_cons_same, History.acts_append]
    rfl
  obtain ⟨input, hmem⟩ := hbranch i hi _ _ _ _ _ _ _ _ (hx ▸ hbelow)
  obtain ⟨⟨task, y⟩, hy, hact⟩ := List.mem_map.mp hmem
  exact ⟨input, List.mem_map.mpr ⟨_, History.mem_below.mp hy, hact⟩⟩

end Announced

namespace Execution

variable {r : Registry} {policy : FailurePolicy}

theorem skips_acts {h : History Act Act.Reply} (hskips : ∀ x ∈ h, x.2.act.IsSkip) {a : Act}
    (ha : a ∈ History.acts h) : ∃ name, a = .logSkip name := by
  obtain ⟨x, hx, rfl⟩ := List.mem_map.mp ha
  have hskip := hskips x hx
  cases hact : x.2.act <;> rw [hact] at hskip <;> first | exact ⟨_, rfl⟩ | cases hskip

/-! ## Order -/

/-- What some calls show: starts of these calls, and answers behind them. -/
structure Orderly (cs : List Call) (h : History Act Act.Reply) : Prop where
  inner : ∀ a ∈ History.acts h, a.IsInner
  started : ∀ agent step input, Act.emitStart agent step input ∈ History.acts h →
    ∃ c ∈ cs, c.agent = agent ∧ c.name = step
  announced : Announced (History.acts h)

theorem orderly_composes : Composes Orderly where
  skips := by
    intro h hskips
    refine ⟨fun a ha => ?_, fun agent step input ha => ?_, .of_silent fun a ha => ?_⟩
    · obtain ⟨name, rfl⟩ := skips_acts hskips ha
      trivial
    · obtain ⟨name, hname⟩ := skips_acts hskips ha
      cases hname
    · obtain ⟨name, rfl⟩ := skips_acts hskips ha
      simp
  append := by
    intro cs cs' h h' ho ho'
    refine ⟨?_, ?_, ?_⟩
    · intro a ha
      rw [History.acts_append] at ha
      exact (List.mem_append.mp ha).elim (ho.inner a) (ho'.inner a)
    · intro agent step input ha
      rw [History.acts_append] at ha
      rcases List.mem_append.mp ha with ha | ha
      · obtain ⟨c, hc, heq⟩ := ho.started _ _ _ ha
        exact ⟨c, List.mem_append_left _ hc, heq⟩
      · obtain ⟨c, hc, heq⟩ := ho'.started _ _ _ ha
        exact ⟨c, List.mem_append_right _ hc, heq⟩
    · rw [History.acts_append]
      exact ho.announced.append ho'.announced
  fork := by
    intro h steps hwithin hbranch
    have hat : ∀ a ∈ History.acts h, ∃ (i : Nat) (s : Step), steps[i]? = some s ∧
        a ∈ History.acts (h.below i) := by
      intro a ha
      obtain ⟨⟨task, x⟩, hx, rfl⟩ := List.mem_map.mp ha
      obtain ⟨i, hi, path, rfl⟩ := hwithin _ hx
      exact ⟨i, _, List.getElem?_eq_getElem hi,
        List.mem_map.mpr ⟨_, History.mem_below.mpr hx, rfl⟩⟩
    refine ⟨?_, ?_, .of_branches hwithin fun i hi =>
      (hbranch i _ (List.getElem?_eq_getElem hi)).announced⟩
    · intro a ha
      obtain ⟨i, s, hs, hmem⟩ := hat a ha
      exact (hbranch i s hs).inner a hmem
    · intro agent step input ha
      obtain ⟨i, s, hs, hmem⟩ := hat _ ha
      obtain ⟨c, hc, heq⟩ := (hbranch i s hs).started _ _ _ hmem
      exact ⟨c, List.mem_flatMap.mpr ⟨s, List.mem_of_getElem? hs, hc⟩, heq⟩

/-- The agents of a registry are called as they are found. -/
def Named (r : Registry) : Prop := ∀ name h, r.find? name = some h → h.name = name

/-- What follows the message of a call is neither a start nor the end of a run. -/
theorem Follows.isInner {c : Call} {m : Message} {a : Act} (ha : Follows r c m a) : a.IsInner := by
  cases ha with
  | @agent h a find performs => cases a <;> trivial
  | success => trivial
  | count => trivial
  | failure => trivial

theorem Follows.ne_start {c : Call} {m : Message} {a : Act} (ha : Follows r c m a)
    (agent step : String) (input : Json) : a ≠ .emitStart agent step input := by
  rintro rfl
  exact ha.converses

theorem Follows.finish (hnamed : Named r) {c : Call} {m : Message} {name model step reason : String}
    {messages : List Message} {usage : Tokens}
    (ha : Follows r c m (.emitFinish name model step messages usage reason)) :
    name = c.agent ∧ step = c.name := by
  cases ha with
  | agent find performs => exact ⟨performs.1.trans (hnamed _ _ find), performs.2.2⟩

theorem call_orderly (hnamed : Named r) (c : Call) :
    Composes.Reached Orderly r policy (.call c) := by
  intro scope h p hr
  obtain ⟨xs, q, rfl, hruns⟩ := reaches_call hr
  rcases runs_call_opening hruns with hstart | ⟨m, later, -, rfl, hagent⟩
  · have hacts : ∀ a ∈ History.acts (History.own xs), a = .logStart c.name := by
      intro a ha
      rw [History.acts_own] at ha
      obtain ⟨x, hx, rfl⟩ := List.mem_map.mp ha
      exact hstart x hx
    refine ⟨fun a ha => ?_, fun agent step input ha => ?_, .of_silent fun a ha => ?_⟩
    · rw [hacts a ha]
      trivial
    · cases hacts _ ha
    · rw [hacts a ha]
      simp
  · have hfollows := (conversation_follows r c m).of_runs hagent
    have hacts : History.acts (History.own (opening c m ++ later)) =
        [.logStart c.name] ++ .emitStart c.agent c.name m.toJson.canonical
          :: later.map Exchange.act := by
      rw [History.acts_own, List.map_append]
      rfl
    change Orderly [c] _
    refine ⟨?_, ?_, ?_⟩
    · intro a ha
      rw [hacts] at ha
      rcases List.mem_append.mp ha with ha | ha
      · obtain rfl := List.mem_singleton.mp ha
        trivial
      rcases List.mem_cons.mp ha with rfl | ha
      · trivial
      · obtain ⟨x, hx, rfl⟩ := List.mem_map.mp ha
        exact (hfollows x hx).isInner
    · intro agent step input ha
      rw [hacts] at ha
      rcases List.mem_append.mp ha with ha | ha
      · cases List.mem_singleton.mp ha
      rcases List.mem_cons.mp ha with heq | ha
      · cases heq
        exact ⟨c, List.mem_singleton_self c, rfl, rfl⟩
      · obtain ⟨x, hx, heq⟩ := List.mem_map.mp ha
        exact absurd heq ((hfollows x hx).ne_start _ _ _)
    · rw [hacts]
      refine .append (.of_silent (by simp)) (.of_start _ ?_)
      intro name model shown messages usage reason ha
      obtain ⟨x, hx, heq⟩ := List.mem_map.mp ha
      exact Follows.finish hnamed (heq ▸ hfollows x hx)

/-- What a step shows is in order, as far as it has come. -/
theorem step_orderly (hnamed : Named r) (s : Step) : Composes.Reached Orderly r policy s := by
  refine orderly_composes.reached (fun cs => ⟨?_, ?_, .of_silent ?_⟩) fun c _ =>
    call_orderly hnamed c
  · simp [History.acts]
  · simp [History.acts]
  · simp [History.acts]

/-! ## Numbers -/

/-- Numbers of acts compare to numbers of calls as those of the parts do. -/
theorem count_composes {R : Nat → Nat → Prop} (hR : History.Additive R) {p : Act → Bool}
    (q : Call → Bool) (hskip : ∀ name, p (.logSkip name) = false) :
    Composes fun cs h => R (h.count p) (cs.countP q) where
  skips := by
    intro h hskips
    have hnone : h.count p = 0 := by
      refine History.count_eq_zero fun x hx => ?_
      obtain ⟨name, hname⟩ := skips_acts hskips (List.mem_map_of_mem hx)
      rw [hname, hskip]
    rw [hnone]
    exact hR.zero
  append := by
    intro cs cs' h h' hh hh'
    rw [History.count_append, List.countP_append]
    exact hR.add hh hh'
  fork := by
    intro h steps hwithin hbranch
    rw [List.countP_flatMap]
    exact hwithin.count_sum hR hbranch

/-- A step shows the start of a call at most as often as it has such calls. -/
theorem step_starts_le (n : String) (s : Step) :
    Composes.Reached (fun cs h => h.count (Act.starts n) ≤ cs.countP fun c => c.name == n) r policy
      s := by
  refine (count_composes History.additive_le _ fun _ => rfl).reached (fun cs => Nat.zero_le _) fun c _ => ?_
  intro scope h p hr
  obtain ⟨xs, q, rfl, hruns⟩ := reaches_call hr
  rw [History.count_own, show (Step.call c).calls = [c] from rfl, List.countP_singleton]
  rcases runs_call_opening hruns with hstart | ⟨m, later, -, rfl, hagent⟩
  · have hnone : (xs.countP fun x => x.act.starts n) = 0 :=
      List.countP_eq_zero.mpr fun x hx => by simp [hstart x hx, Act.starts]
    rw [hnone]
    exact Nat.zero_le _
  · have hnone : (later.countP fun x => x.act.starts n) = 0 := by
      refine List.countP_eq_zero.mpr fun x hx hstarts => ?_
      have hfollows := (conversation_follows r c m).of_runs hagent x hx
      cases hact : x.act with
      | emitStart agent step input => exact hfollows.ne_start _ _ _ hact
      | _ => rw [hact] at hstarts; cases hstarts
    rw [List.countP_append, hnone]
    simp [opening, Act.starts, List.countP_cons]

theorem isMark_of_performs {h : AgentHandle} {step : String} {m : Message} {a : Act}
    (ha : h.Performs step m a) : a.isMark = false := by
  cases a <;> first | rfl | cases ha

/-- The marks `p` are made once by each completed call with `q`: it either
shows its start or counts its end so. -/
structure Tallies (p : Act → Bool) (q : Call → Bool) : Prop where
  mark : ∀ a : Act, a.isMark = false → p a = false
  once : ∀ c input modelCalls toolCalls,
    (p (.emitStart c.agent c.name input)).toNat + (p (.count modelCalls toolCalls)).toNat
      = (q c).toNat

theorem Tallies.completed {p : Act → Bool} {q : Call → Bool} (ht : Tallies p q) (s : Step) :
    Composes.Completed (fun cs h => h.count p = cs.countP q) r policy s := by
  refine (count_composes History.additive_eq q fun _ => ht.mark _ rfl).completed fun c _ => ?_
  intro scope h out he
  obtain ⟨m, ys, reply, rfl, hagent, -⟩ := ends_completed_call he
  have hquiet : (ys.countP fun x => p x.act) = 0 := by
    refine List.countP_eq_zero.mpr fun y hy => ?_
    obtain ⟨handle, -, hperforms⟩ := (callAgent_performs r c m).of_ends hagent y hy
    simp [ht.mark _ (isMark_of_performs hperforms)]
  have honce := ht.once c m.toJson.canonical reply.modelCalls reply.toolCalls
  rw [History.count_own, show (Step.call c).calls = [c] from rfl, List.countP_append,
    List.countP_append, hquiet]
  simp only [opening, List.countP_cons, List.countP_nil, ht.mark (.logStart c.name) rfl,
    ht.mark (.logSuccess c.name) rfl]
  cases hp : p (.emitStart c.agent c.name m.toJson.canonical) <;>
    cases hp' : p (.count reply.modelCalls reply.toolCalls) <;>
    cases hq : q c <;> simp_all

theorem tallies_starts (n : String) : Tallies (Act.starts n) fun c => c.name == n :=
  ⟨fun a ha => (by cases a <;> first | rfl | cases ha), fun _ _ _ _ => rfl⟩

theorem tallies_isStart : Tallies Act.isStart fun _ => true :=
  ⟨fun a ha => (by cases a <;> first | rfl | cases ha), fun _ _ _ _ => rfl⟩

theorem tallies_isCount : Tallies Act.isCount fun _ => true :=
  ⟨fun a ha => (by cases a <;> first | rfl | cases ha), fun _ _ _ _ => rfl⟩

/-- A completed step has noted no failure. -/
theorem tallies_isFailure : Tallies Act.isFailure fun _ => false :=
  ⟨fun a ha => (by cases a <;> first | rfl | cases ha), fun _ _ _ _ => rfl⟩

end Execution

end Ensemble
