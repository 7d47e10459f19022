import Ensemble.Proofs.Engine.Preparation
import Ensemble.Proofs.Execution.Answers
import Ensemble.Proofs.Plan.Validation
import Ensemble.Proofs.Plan.Visible

/-!
# Order along sequences

Two calls of a tree that part at a sequence are in order, whatever else
goes on in the meantime: all that is shown of the earlier one comes before
all that is shown of the later one, and nothing is shown of the later one
unless the whole child of the sequence that has the earlier one has
completed (`step_ordered`).

What a sequence has performed falls into the parts of its steps, in order
(`sequence_parts`). The branches of a parallel node interleave, so there
the cut of a branch's part is one of the whole (`History.below`).
-/

namespace Ensemble

namespace Step

/-- `a` and `b` are calls of a tree that part at a sequence: `a` is below its
child `child`, and `b` below a later one. -/
def Precedes (root child : Step) (a b : Call) : Prop :=
  ∃ (path : List Nat) (name : String) (steps : List Step) (i j : Nat) (later : Step),
    root.at? path = some (.sequence name steps) ∧ i < j ∧ steps[i]? = some child ∧
    steps[j]? = some later ∧ a ∈ child.calls ∧ b ∈ later.calls

/-- The parts of a sequence that consists of a child and a call. -/
def beforeCall? : Step → Option (Step × Call)
  | .sequence _ [child, .call b] => some (child, b)
  | _ => none

theorem beforeCall?_eq_some {s child : Step} {b : Call} (h : s.beforeCall? = some (child, b)) :
    ∃ name, s = .sequence name [child, .call b] := by
  unfold beforeCall? at h
  split at h
  · obtain ⟨rfl, rfl⟩ := Prod.mk.inj (Option.some.inj h)
    exact ⟨_, rfl⟩
  · cases h

theorem mem_calls_sequence {name : String} {steps : List Step} {i : Nat} {s : Step} {c : Call}
    (hs : steps[i]? = some s) (hc : c ∈ s.calls) : c ∈ (sequence name steps).calls := by
  rw [calls_sequence]
  exact List.mem_flatMap.mpr ⟨s, List.mem_of_getElem? hs, hc⟩

/-- Calls below a place of a tree are calls of the tree. -/
theorem mem_calls_of_at? {path : List Nat} {root s : Step} {c : Call}
    (hat : root.at? path = some s) (hc : c ∈ s.calls) : c ∈ root.calls := by
  induction path generalizing root with
  | nil =>
      obtain rfl := Option.some.inj hat
      exact hc
  | cons i path ih =>
      obtain ⟨t, ht, hpath⟩ := Option.bind_eq_some_iff.mp hat
      cases root with
      | call c => cases ht
      | sequence name steps => exact mem_calls_sequence ht (ih hpath)
      | parallel name steps =>
          rw [calls_parallel]
          exact List.mem_flatMap.mpr ⟨t, List.mem_of_getElem? ht, ih hpath⟩

/-- The name is that of a call below a child. -/
def NamesBelow (steps : List Step) (i : Nat) (name : String) : Prop :=
  ∃ s, steps[i]? = some s ∧ name ∈ s.calls.map Call.name

theorem namesBelow_of_mem {steps : List Step} {name : String}
    (hname : name ∈ callNames steps) : ∃ i, NamesBelow steps i name := by
  obtain ⟨c, hc, rfl⟩ := List.mem_map.mp hname
  obtain ⟨s, hs, hc⟩ := List.mem_flatMap.mp hc
  obtain ⟨i, hi⟩ := List.getElem?_of_mem hs
  exact ⟨i, s, hi, List.mem_map_of_mem hc⟩

/-- If no two calls have one name, a name is below one child only. -/
theorem NamesBelow.eq {steps : List Step} {i j : Nat} {name : String}
    (hnodup : (callNames steps).Nodup) (hi : NamesBelow steps i name)
    (hj : NamesBelow steps j name) : i = j := by
  obtain ⟨s, hs, hname⟩ := hi
  obtain ⟨t, ht, hname'⟩ := hj
  exact eq_of_mem_callNames hnodup hs ht hname hname'

end Step

/-! ## What is shown of a step -/

/-- The step that an act shows something of. -/
def Act.shown? : Act → Option String
  | .emitStart _ step _ => some step
  | .emitFinish _ _ step _ _ _ => some step
  | _ => none

theorem Chunk.step?_eq (c : Chunk) : c.step? = c.act.shown? := by
  cases c <;> rfl

theorem Chunk.time_of_step {c : Chunk} {step : String} (h : c.step? = some step) :
    ∃ t, c.time? = some t := by
  cases c with
  | flowStart name step' input time => exact ⟨time, rfl⟩
  | stepFinish name model step' messages usage reason time => exact ⟨time, rfl⟩
  | finalResponse name result time => cases h
  | error message => cases h

/-- The act shows nothing of other steps than these. -/
def Act.ShowsIn (names : List String) (a : Act) : Prop :=
  ∀ name, a.shown? = some name → name ∈ names

/-- Something of a step is shown. -/
def History.Shows (h : History Act Act.Reply) (name : String) : Prop :=
  ∃ x ∈ h, x.2.act.shown? = some name

namespace History

variable {h h' : History Act Act.Reply} {name : String}

theorem shows_append : Shows (h ++ h') name ↔ h.Shows name ∨ h'.Shows name := by
  simp only [Shows, List.mem_append, or_and_right, exists_or]

theorem Shows.mem {names : List String} (hs : h.Shows name)
    (hall : ∀ x ∈ h, x.2.act.ShowsIn names) : name ∈ names := by
  obtain ⟨x, hx, hshown⟩ := hs
  exact hall x hx name hshown

theorem not_shows_nil (name : String) : ¬Shows [] name := by simp [Shows]

/-- What is shown in one of the first branches of a fork is shown there. -/
theorem Shows.below {n : Nat} (hs : h.Shows name) (hwithin : h.Within n) :
    ∃ i < n, (h.below i).Shows name := by
  obtain ⟨⟨task, x⟩, hx, hshown⟩ := hs
  obtain ⟨i, hi, path, rfl⟩ := hwithin _ hx
  exact ⟨i, hi, (path, x), mem_below.mpr hx, hshown⟩

/-- What is shown in a branch is shown in the whole. -/
theorem Shows.of_below {i : Nat} (hs : (h.below i).Shows name) : h.Shows name := by
  obtain ⟨⟨path, x⟩, hx, hshown⟩ := hs
  exact ⟨_, mem_below.mp hx, hshown⟩

/-- What the task at a path has performed, and the branches below it. -/
def beneath : List Nat → History Act Act.Reply → History Act Act.Reply
  | [], h => h
  | i :: task, h => beneath task (h.below i)

theorem beneath_append (task : List Nat) (h h' : History Act Act.Reply) :
    beneath task (h ++ h') = beneath task h ++ beneath task h' := by
  induction task generalizing h h' with
  | nil => rfl
  | cons i task ih => rw [beneath, below_append, ih]; rfl

/-- A cut of the part of a branch is made by a cut of the whole. -/
theorem below_eq_append {i : Nat} {h h₁ h₂ : History Act Act.Reply} (hcut : h.below i = h₁ ++ h₂) :
    ∃ l₁ l₂, h = l₁ ++ l₂ ∧ l₁.below i = h₁ ∧ l₂.below i = h₂ :=
  List.filterMap_eq_append_iff.mp hcut

end History

namespace Execution

variable {r : Registry} {policy : FailurePolicy}

theorem showsIn_of_silent {a : Act} (ha : a.shown? = none) (names : List String) :
    a.ShowsIn names := fun _ hname => nomatch ha.symm.trans hname

theorem skip_showsIn (names : List String) (name : String) : (Act.logSkip name).ShowsIn names :=
  showsIn_of_silent rfl names

/-- A call shows nothing but of itself. -/
theorem call_showsIn (c : Call) (scope : Bindings) :
    (call r c scope).All (Act.ShowsIn [c.name]) := by
  refine call_all r c scope (showsIn_of_silent rfl _) (fun input name hname => ?_)
    fun m a ha name hname => List.mem_singleton.mpr ?_
  · exact List.mem_singleton.mpr (Option.some.inj hname).symm
  have hconv := ha.converses
  cases a with
  | emitStart agent step input => exact hconv.elim
  | emitFinish agent model step messages usage reason =>
      exact (Option.some.inj hname).symm.trans hconv
  | _ => cases hname

theorem step_showsIn (s : Step) (scope : Bindings) :
    (step r s scope).All (Act.ShowsIn (s.calls.map Call.name)) := by
  refine step_all (skip_showsIn _) s (fun c hc scope => ?_) scope
  refine (call_showsIn c scope).mono fun a ha name hname => ?_
  obtain rfl := List.mem_singleton.mp (ha name hname)
  exact List.mem_map_of_mem hc

section Shown

variable {h : History Act Act.Reply} {p : Process Act Act.Reply StepOutcome} {name : String}

theorem shown_of_step {s : Step} {scope : Bindings} (hr : (step r s scope).Reaches policy h p)
    (hs : h.Shows name) : name ∈ s.calls.map Call.name :=
  hs.mem ((step_showsIn s scope).of_reaches hr)

theorem shown_of_sequence {steps : List Step} {node : String} {scope produced : Bindings}
    {last : Json} (hr : (sequence r node scope produced last steps).Reaches policy h p)
    (hs : h.Shows name) : name ∈ Step.callNames steps := by
  refine hs.mem ((sequence_all (skip_showsIn _) (fun s hs scope => ?_) node scope produced
    last).of_reaches hr)
  exact Script.All.mono (step_showsIn s scope) fun a ha name hname =>
    Step.mem_callNames hs (ha name hname)

/-- Acts that show no step show none in a history. -/
theorem not_shows_of_acts {P : Act → Prop} (hquiet : ∀ a, P a → a.shown? = none)
    (hacts : ∀ x ∈ h, P x.2.act) (name : String) : ¬h.Shows name := by
  rintro ⟨x, hx, hshown⟩
  cases (hquiet _ (hacts x hx)).symm.trans hshown

theorem not_shows_of_skips (hskips : ∀ x ∈ h, x.2.act.IsSkip) (name : String) :
    ¬h.Shows name := by
  refine not_shows_of_acts (fun a ha => ?_) hskips name
  cases a with
  | emitStart agent step input => exact ha.elim
  | emitFinish agent model step messages usage reason => exact ha.elim
  | _ => rfl

end Shown

/-! ## Sequences -/

/-- What a sequence has performed, around one of its steps: what the steps
before it have, its own part, and what comes behind it. Nothing is shown
behind it unless it has completed. -/
theorem sequence_parts {steps : List Step} {node : String} {scope produced : Bindings}
    {last : Json} {h : History Act Act.Reply} {p : Process Act Act.Reply StepOutcome}
    (hr : (sequence r node scope produced last steps).Reaches policy h p) {k : Nat} {s : Step}
    (hs : steps[k]? = some s) :
    ∃ before part later, h = before ++ (part ++ later) ∧
      (∃ scope q, (step r s scope).Reaches policy part q) ∧
      (∀ name, before.Shows name → ∃ i < k, Step.NamesBelow steps i name) ∧
      (∀ name, later.Shows name → (∃ i, k < i ∧ Step.NamesBelow steps i name) ∧
        ∃ scope out, (step r s scope).Ends policy part (.completed out)) := by
  induction steps generalizing k scope produced last h with
  | nil => cases hs
  | cons t rest ih =>
      have hnone : ∀ {P : String → Prop} (name : String), History.Shows [] name → P name :=
        fun name hshown => absurd hshown (History.not_shows_nil name)
      cases k with
      | zero =>
          obtain rfl : t = s := Option.some.inj hs
          rcases reaches_sequence hr with ⟨q, hq⟩ | ⟨before, later, rfl, hnext⟩
          · exact ⟨[], h, [], (List.append_nil h).symm, ⟨scope, q, hq⟩, hnone, hnone⟩
          rcases hnext with ⟨⟨q, hq⟩, hskips⟩ | ⟨first, hends, hrest⟩
          · exact ⟨[], before, later, rfl, ⟨scope, q, hq⟩, hnone,
              fun name hshown => absurd hshown (not_shows_of_skips hskips name)⟩
          · refine ⟨[], before, later, rfl, ⟨scope, _, hends.choose_spec.1⟩, hnone,
              fun name hshown => ⟨?_, scope, first, hends⟩⟩
            obtain ⟨i, hi⟩ := Step.namesBelow_of_mem (shown_of_sequence hrest hshown)
            exact ⟨i + 1, Nat.succ_pos i, hi⟩
      | succ k =>
          have hfirst : ∀ {part q}, (step r t scope).Reaches policy part q → ∀ name,
              part.Shows name → ∃ i < k + 1, Step.NamesBelow (t :: rest) i name :=
            fun hq name hshown => ⟨0, Nat.succ_pos k, t, rfl, shown_of_step hq hshown⟩
          -- while the first step goes on, the step has not started
          have hidle : ∃ scope q, (step r s scope).Reaches policy [] q := ⟨[], _, .start _⟩
          rcases reaches_sequence hr with ⟨q, hq⟩ | ⟨before, later, rfl, hnext⟩
          · exact ⟨h, [], [], (List.append_nil h).symm, hidle, hfirst hq, hnone⟩
          rcases hnext with ⟨⟨q, hq⟩, hskips⟩ | ⟨first, ⟨q, hq, -⟩, hrest⟩
          · exact ⟨before, [], later, rfl, hidle, hfirst hq,
              fun name hshown => absurd hshown (not_shows_of_skips hskips name)⟩
          · obtain ⟨before', part, later', rfl, hpart, hbefore, hlater⟩ := ih hrest hs
            refine ⟨before ++ before', part, later', (List.append_assoc ..).symm, hpart, ?_, ?_⟩
            · intro name hshown
              rcases History.shows_append.mp hshown with hshown | hshown
              · exact hfirst hq name hshown
              · obtain ⟨i, hi, hname⟩ := hbefore name hshown
                exact ⟨i + 1, Nat.succ_lt_succ hi, hname⟩
            · intro name hshown
              obtain ⟨⟨i, hi, hname⟩, hends⟩ := hlater name hshown
              exact ⟨⟨i + 1, Nat.succ_lt_succ hi, hname⟩, hends⟩

/-! ## Order -/

/-- The step has been run to its end, with a result, by some task. -/
def Accomplished (r : Registry) (policy : FailurePolicy) (s : Step) (h : History Act Act.Reply) :
    Prop :=
  ∃ task part scope out, part <:+: h.beneath task ∧
    (step r s scope).Ends policy part (.completed out)

namespace Accomplished

variable {s : Step} {h : History Act Act.Reply}

theorem append (ha : Accomplished r policy s h) (before later : History Act Act.Reply) :
    Accomplished r policy s (before ++ (h ++ later)) := by
  obtain ⟨task, part, scope, out, hpart, hends⟩ := ha
  refine ⟨task, part, scope, out, hpart.trans ?_, hends⟩
  rw [History.beneath_append, History.beneath_append]
  exact ⟨_, _, List.append_assoc ..⟩

theorem of_below {i : Nat} (ha : Accomplished r policy s (h.below i)) :
    Accomplished r policy s h := by
  obtain ⟨task, part, scope, out, hpart, hends⟩ := ha
  exact ⟨i :: task, part, scope, out, hpart, hends⟩

end Accomplished

/-- A history in which all that is shown of `a` comes before all that is shown
of `b`, and `s` has been accomplished in the meantime. -/
def InOrder (r : Registry) (policy : FailurePolicy) (s : Step) (a b : String)
    (h : History Act Act.Reply) : Prop :=
  ∃ before later, h = before ++ later ∧ ¬before.Shows b ∧ ¬later.Shows a ∧
    Accomplished r policy s before

namespace InOrder

variable {s : Step} {a b : String} {h : History Act Act.Reply}

theorem append (ho : InOrder r policy s a b h) {before later : History Act Act.Reply}
    (hbefore : ¬before.Shows b) (hlater : ¬later.Shows a) :
    InOrder r policy s a b (before ++ (h ++ later)) := by
  obtain ⟨h₁, h₂, rfl, hb, ha, hs⟩ := ho
  refine ⟨before ++ h₁, h₂ ++ later, by simp, ?_, ?_, ?_⟩
  · exact fun hshown => (History.shows_append.mp hshown).elim hbefore hb
  · exact fun hshown => (History.shows_append.mp hshown).elim ha hlater
  · simpa using hs.append before []

/-- The order in a branch is that of the whole, if other branches show
neither call. -/
theorem of_below {n i : Nat} (ho : InOrder r policy s a b (h.below i)) (hwithin : h.Within n)
    (hother : ∀ j < n, j ≠ i → ¬(h.below j).Shows a ∧ ¬(h.below j).Shows b) :
    InOrder r policy s a b h := by
  obtain ⟨h₁, h₂, hcut, hb, ha, hs⟩ := ho
  obtain ⟨before, later, rfl, rfl, rfl⟩ := History.below_eq_append hcut
  refine ⟨before, later, rfl, ?_, ?_, hs.of_below⟩
  · intro hshown
    obtain ⟨j, hj, hbranch⟩ := hshown.below fun x hx => hwithin x (List.mem_append_left _ hx)
    by_cases hji : j = i
    · exact hb (hji ▸ hbranch)
    · refine (hother j hj hji).2 ?_
      rw [History.below_append]
      exact History.shows_append.mpr (Or.inl hbranch)
  · intro hshown
    obtain ⟨j, hj, hbranch⟩ := hshown.below fun x hx => hwithin x (List.mem_append_right _ hx)
    by_cases hji : j = i
    · exact ha (hji ▸ hbranch)
    · refine (hother j hj hji).1 ?_
      rw [History.below_append]
      exact History.shows_append.mpr (Or.inr hbranch)

end InOrder

/-- What is to be shown of a step: at any time of any run calls that part at
a sequence are in order once something is shown of the later one. -/
def Ordered (r : Registry) (policy : FailurePolicy) (s child : Step) (a b : Call) : Prop :=
  ∀ scope h p, (step r s scope).Reaches policy h p → (s.calls.map Call.name).Nodup →
    h.Shows b.name → InOrder r policy child a.name b.name h

/-- Two children of a sequence: nothing is shown behind the first one unless
it has completed. -/
theorem children_ordered {name : String} {steps : List Step} {i j : Nat} {child later : Step}
    {a b : Call} (hij : i < j) (hi : steps[i]? = some child) (hj : steps[j]? = some later)
    (ha : a ∈ child.calls) (hb : b ∈ later.calls) :
    Ordered r policy (.sequence name steps) child a b := by
  intro scope h p hr hnodup hshown
  rw [Step.calls_sequence] at hnodup
  rw [step] at hr
  have ha : Step.NamesBelow steps i a.name := ⟨child, hi, List.mem_map_of_mem ha⟩
  have hb : Step.NamesBelow steps j b.name := ⟨later, hj, List.mem_map_of_mem hb⟩
  obtain ⟨before, part, rest, rfl, ⟨_, q, hq⟩, hbefore, hrest⟩ := sequence_parts hr hi
  have hearly : ¬(before ++ part).Shows b.name := by
    intro hshown
    rcases History.shows_append.mp hshown with hshown | hshown
    · obtain ⟨k, hk, hname⟩ := hbefore _ hshown
      have hkj := hname.eq hnodup hb
      omega
    · have hki := Step.NamesBelow.eq hnodup ⟨child, hi, shown_of_step hq hshown⟩ hb
      omega
  have hlate : rest.Shows b.name := by
    rw [← List.append_assoc] at hshown
    exact (History.shows_append.mp hshown).resolve_left hearly
  obtain ⟨-, scope', out, hends⟩ := hrest _ hlate
  refine ⟨before ++ part, rest, (List.append_assoc ..).symm, hearly, fun hshown => ?_, ?_⟩
  · obtain ⟨⟨k, hk, hname⟩, -⟩ := hrest _ hshown
    have hki := hname.eq hnodup ha
    omega
  · exact ⟨[], part, scope', out, List.suffix_append .. |>.isInfix, hends⟩

/-- Calls below one child of a sequence: its part is all that shows them. -/
theorem sequence_ordered {name : String} {steps : List Step} {k : Nat} {s child : Step}
    {a b : Call} (hk : steps[k]? = some s) (ha : a ∈ s.calls) (hb : b ∈ s.calls)
    (ho : Ordered r policy s child a b) : Ordered r policy (.sequence name steps) child a b := by
  intro scope h p hr hnodup hshown
  rw [Step.calls_sequence] at hnodup
  rw [step] at hr
  have hbelow : ∀ c ∈ s.calls, Step.NamesBelow steps k c.name :=
    fun c hc => ⟨s, hk, List.mem_map_of_mem hc⟩
  obtain ⟨before, part, rest, rfl, ⟨_, q, hq⟩, hbefore, hrest⟩ := sequence_parts hr hk
  have hearly : ∀ c ∈ s.calls, ¬before.Shows c.name := by
    intro c hc hshown
    obtain ⟨i, hi, hname⟩ := hbefore _ hshown
    have hik := hname.eq hnodup (hbelow c hc)
    omega
  have hlate : ∀ c ∈ s.calls, ¬rest.Shows c.name := by
    intro c hc hshown
    obtain ⟨⟨i, hi, hname⟩, -⟩ := hrest _ hshown
    have hik := hname.eq hnodup (hbelow c hc)
    omega
  have hpart : part.Shows b.name := by
    rcases History.shows_append.mp hshown with hshown | hshown
    · exact absurd hshown (hearly b hb)
    · exact (History.shows_append.mp hshown).resolve_right (hlate b hb)
  have hnodup' := Step.nodup_of_callNames hnodup (List.mem_of_getElem? hk)
  exact (ho _ _ _ hq hnodup' hpart).append (hearly b hb) (hlate a ha)

/-- Calls below one branch of a parallel node: other branches show neither. -/
theorem parallel_ordered {name : String} {steps : List Step} {k : Nat} {s child : Step}
    {a b : Call} (hk : steps[k]? = some s) (ha : a ∈ s.calls) (hb : b ∈ s.calls)
    (ho : Ordered r policy s child a b) : Ordered r policy (.parallel name steps) child a b := by
  intro scope h p hr hnodup hshown
  rw [Step.calls_parallel] at hnodup
  obtain ⟨before, rest, rfl, hwithin, hreach, hskips⟩ := reaches_parallel hr
  have hbelow : ∀ c ∈ s.calls, Step.NamesBelow steps k c.name :=
    fun c hc => ⟨s, hk, List.mem_map_of_mem hc⟩
  have hother : ∀ c ∈ s.calls, ∀ i < steps.length, (before.below i).Shows c.name → i = k := by
    intro c hc i hi hshown
    have hs := List.getElem?_eq_getElem hi
    obtain ⟨q, hq⟩ := hreach i _ hs
    exact Step.NamesBelow.eq hnodup ⟨_, hs, shown_of_step hq hshown⟩ (hbelow c hc)
  have hbefore : before.Shows b.name :=
    (History.shows_append.mp hshown).resolve_right (not_shows_of_skips hskips _)
  obtain ⟨i, hi, hbranch⟩ := hbefore.below hwithin
  obtain rfl := hother b hb i hi hbranch
  obtain ⟨q, hq⟩ := hreach i s hk
  have hnodup' := Step.nodup_of_callNames hnodup (List.mem_of_getElem? hk)
  have hwhole := (ho scope _ q hq hnodup' hbranch).of_below hwithin fun j hj hji =>
    ⟨fun hshown => hji (hother a ha j hj hshown), fun hshown => hji (hother b hb j hj hshown)⟩
  exact hwhole.append (History.not_shows_nil _) (not_shows_of_skips hskips _)

/-- Calls that part at a sequence are in order. -/
theorem step_ordered {s child : Step} {a b : Call} (hprec : s.Precedes child a b) :
    Ordered r policy s child a b := by
  obtain ⟨path, name, steps, i, j, later, hat, hij, hi, hj, ha, hb⟩ := hprec
  induction path generalizing s with
  | nil =>
      obtain rfl := Option.some.inj hat
      exact children_ordered hij hi hj ha hb
  | cons k path ih =>
      obtain ⟨t, ht, hpath⟩ := Option.bind_eq_some_iff.mp hat
      have hat' : a ∈ t.calls := Step.mem_calls_of_at? hpath (Step.mem_calls_sequence hi ha)
      have hbt' : b ∈ t.calls := Step.mem_calls_of_at? hpath (Step.mem_calls_sequence hj hb)
      cases s with
      | call c => cases ht
      | sequence node children => exact sequence_ordered ht hat' hbt' (ih hpath)
      | parallel node children => exact parallel_ordered ht hat' hbt' (ih hpath)

/-! ## Traces -/

section Traces

variable {chunks : List Chunk} {h : History Act Act.Reply} {name : String}

theorem shows_of_chunk (htrace : chunks.map Chunk.act = (History.acts h).filter Act.writes)
    {c : Chunk} (hc : c ∈ chunks) (hstep : c.step? = some name) : h.Shows name := by
  obtain ⟨x, hx, hact⟩ := List.mem_map.mp (act_mem_of_trace htrace hc)
  exact ⟨x, hx, hact ▸ c.step?_eq ▸ hstep⟩

/-- The trace of an ordered history is in order. -/
theorem InOrder.lt_of_trace {s : Step} {a b : String} (ho : InOrder r policy s a b h)
    (htrace : chunks.map Chunk.act = (History.acts h).filter Act.writes) {i j : Nat} {c d : Chunk}
    (hc : chunks[i]? = some c) (hd : chunks[j]? = some d) (ha : c.step? = some a)
    (hb : d.step? = some b) : i < j := by
  obtain ⟨before, later, rfl, hearly, hlate, -⟩ := ho
  rw [History.acts_append, List.filter_append] at htrace
  obtain ⟨first, rest, rfl, hfirst, hrest⟩ := List.map_eq_append_iff.mp htrace
  have hi : i < first.length := by
    by_contra hle
    rw [List.getElem?_append_right (Nat.le_of_not_lt hle)] at hc
    exact hlate (shows_of_chunk hrest (List.mem_of_getElem? hc) ha)
  have hj : first.length ≤ j := by
    by_contra hlt
    rw [List.getElem?_append_left (Nat.lt_of_not_le hlt)] at hd
    exact hearly (shows_of_chunk hfirst (List.mem_of_getElem? hd) hb)
  omega

end Traces

theorem not_shows_of_closing {h : History Act Act.Reply}
    (hcloses : ∀ x ∈ h, Engine.IsClosing x.2.act) (name : String) : ¬h.Shows name := by
  refine not_shows_of_acts (fun a ha => ?_) hcloses name
  cases a with
  | emitStart agent step input => exact ha.elim
  | emitFinish agent model step messages usage reason => exact ha.elim
  | _ => rfl

/-- **Order along sequences.** At any time of any run of a valid plan the times
of its trace ascend, whatever the wall clock shows. Of two calls that part at
a sequence, every chunk of the earlier one comes before every chunk of the
later one and has a smaller time, and there is no chunk of the later one
unless the child of the sequence that has the earlier one was accomplished
before. -/
theorem calls_in_order {M : Type} [LanguageModel M] (p : Prepared)
    (hvalid : p.plan.validate = .ok ()) (config : FanoutConfig)
    (drift : World M → World M → Prop)
    (hdrift : ∀ w w', drift w w' → w.sink.Abides w'.sink) {w₀ w : World M}
    (hfresh : w₀.sink.chunks = []) {h : History Act Act.Reply}
    {q : Process Act Act.Reply StepOutcome}
    (hrun : Process.Run config World.perform drift (.line (Engine.script p)) w₀ h q w) :
    w.sink.times.Pairwise (· < ·) ∧
      ∀ child a b, p.plan.root.Precedes child a b →
        (∀ (i j : Nat) (c d : Chunk), w.sink.chunks[i]? = some c → w.sink.chunks[j]? = some d →
          c.step? = some a.name → d.step? = some b.name →
          i < j ∧ ∃ t u, c.time? = some t ∧ d.time? = some u ∧ t < u) ∧
        ((∃ d ∈ w.sink.chunks, d.step? = some b.name) →
          InOrder p.registry config.failure child a.name b.name h) := by
  have htimed := World.times_of_run hdrift hfresh hrun
  have htrace := World.trace_of_run (fun w w' hd => (hdrift w w' hd).chunks) hrun
  rw [hfresh, List.map_nil, List.nil_append] at htrace
  refine ⟨htimed.ascending, fun child a b hprec => ?_⟩
  have hordered : h.Shows b.name → InOrder p.registry config.failure child a.name b.name h := by
    intro hshown
    obtain ⟨before, later, q', rfl, hq, hcloses⟩ := Engine.script_reaches hrun.reaches
    have hnodup := (Plan.validate_eq_ok_iff.mp hvalid).1.sublist p.plan.root.callNames_sublist
    have hbefore := (History.shows_append.mp hshown).resolve_right (not_shows_of_closing hcloses _)
    exact (step_ordered hprec [] before q' hq hnodup hbefore).append (History.not_shows_nil _)
      (not_shows_of_closing hcloses _)
  refine ⟨fun i j c d hc hd ha hb => ?_, fun ⟨d, hd, hb⟩ => hordered (shows_of_chunk htrace hd hb)⟩
  have hij := (hordered (shows_of_chunk htrace (List.mem_of_getElem? hd) hb)).lt_of_trace htrace hc
    hd ha hb
  obtain ⟨t, ht⟩ := Chunk.time_of_step ha
  obtain ⟨u, hu⟩ := Chunk.time_of_step hb
  exact ⟨hij, t, u, ht, hu, htimed.time_lt hc hd ht hu hij⟩

/-- In a run whose wall clock stands still, two branches of a parallel node
come before the call behind it. -/
theorem calls_in_order_echoed :
    ∃ (p : Prepared) (w : World Rehearsal.ScriptedModel) (h : History Act Act.Reply)
      (out : StepOutcome) (child : Step) (b : Call),
      Process.Run Engine.echoing.config.fanout World.perform Eq (.line (Engine.script p))
          (World.start Engine.silentEnvironment .buffered p.log) h (.line (.ret (.ok out))) w ∧
        w.sink.chunks.length = 7 ∧ w.sink.times.Pairwise (· < ·) ∧ child.calls.length = 2 ∧
        ∀ a ∈ child.calls, ∀ (i j : Nat) (c d : Chunk), w.sink.chunks[i]? = some c →
          w.sink.chunks[j]? = some d → c.step? = some a.name → d.step? = some b.name → i < j := by
  obtain ⟨p, w, h, out, hprepared, hrun, hlength⟩ := Engine.exists_run
  obtain ⟨-, -, -, -, hvalid, -⟩ := Engine.prepareAllowed_eq_ok hprepared
  obtain ⟨name, child, b, hroot, hcalls⟩ : ∃ name child b,
      p.plan.root = .sequence name [child, .call b] ∧ child.calls.length = 2 := by
    have hshape : (Engine.echoing.prepareAllowed Engine.emptyServices Engine.echoed).toOption.any
        (fun p => p.plan.root.beforeCall?.any fun x => x.1.calls.length == 2) = true := by
      decide +kernel
    rw [hprepared] at hshape
    obtain ⟨_, hp, hshape⟩ := (Option.any_eq_true ..).mp hshape
    obtain rfl := Option.some.inj hp
    obtain ⟨⟨child, b⟩, hparts, hcalls⟩ := (Option.any_eq_true ..).mp hshape
    obtain ⟨name, hroot⟩ := Step.beforeCall?_eq_some hparts
    exact ⟨name, child, b, hroot, eq_of_beq hcalls⟩
  obtain ⟨htimes, horder⟩ := calls_in_order p hvalid Engine.echoing.config.fanout Eq
    (fun w _ hw => hw ▸ ⟨rfl, Or.inl rfl⟩) rfl hrun
  refine ⟨p, w, h, out, child, b, hrun, hlength, htimes, hcalls, ?_⟩
  intro a ha i j c d hc hd hca hdb
  have hprec : p.plan.root.Precedes child a b :=
    ⟨[], name, [child, .call b], 0, 1, .call b, hroot ▸ rfl, Nat.zero_lt_one, rfl, rfl, ha,
      List.mem_singleton_self b⟩
  exact ((horder child a b hprec).1 i j c d hc hd hca hdb).1

end Execution

end Ensemble
