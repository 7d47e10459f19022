import Ensemble.Engine
import Ensemble.Proofs.Compile.Messages
import Ensemble.Proofs.Process.Acts
import Ensemble.Proofs.Run.Trace
import Ensemble.Proofs.Table
import Ensemble.Rehearsal.Model

/-!
# Prepared requests

What is known of a request that was prepared: its plan was compiled from
its definition, and every agent of its registry has the limits of the
engine and writes to the account of the request (`prepareAllowed_eq_ok`).
What the engine makes of it is a run of its script (`run_runs`).
-/

namespace Ensemble

/-! ## Registries -/

namespace Registry

variable {c : RegistryContext} {place : Nat} {h : AgentHandle}

/-- An agent of a registry has the name that it is found by and, besides the
one that saves results, tools of the library. It shares the rest with all
others. -/
structure Serves (c : RegistryContext) (name : String) (h : AgentHandle) : Prop where
  name : h.name = name
  accountant : h.accountant = c.accountant
  timeout : h.timeout = c.timeout
  limit : h.maxSteps = max c.maxToolSteps 1
  session : h.context.sessionId = c.sessionId
  agent : h.context.agentId = c.agentId
  saves : h.tools.lookup Tool.saveResultsName = some (.saveResults c.resultFormat)
  tools : ∀ handle tool, h.tools.lookup handle = some tool → handle = Tool.saveResultsName ∨
    ∃ binding options, c.tools.resolve binding options h.context = .ok tool

theorem buildTools_resolved {a : AgentConfig} {bindings : List ToolBinding}
    {tools : List (String × Tool)} (hb : buildTools c a place bindings = .ok tools) :
    ∀ x ∈ tools, ∃ binding options,
      c.tools.resolve binding options (toolContext c a) = .ok x.2 := by
  induction bindings generalizing place tools with
  | nil =>
      obtain rfl := Except.ok.inj hb
      simp
  | cons b rest ih =>
      rw [buildTools] at hb
      split at hb
      · cases hb
      · rename_i tool hresolve
        obtain ⟨others, hothers, hb⟩ := eq_ok_of_bind hb
        obtain rfl := Except.ok.inj hb
        exact List.forall_mem_cons.mpr ⟨⟨_, _, hresolve⟩, ih hothers⟩

theorem buildHandle_serves {a : AgentConfig} (hb : buildHandle c place a = .ok h) :
    Serves c a.name h := by
  obtain ⟨tools, htools, hb⟩ := eq_ok_of_bind hb
  obtain rfl := Except.ok.inj hb
  refine ⟨rfl, rfl, rfl, rfl, rfl, rfl, ?_, fun handle tool hfind => ?_⟩
  · exact Table.lookup_ofList_concat_self _ _ _
  · rcases List.mem_append.mp (Table.mem_of_lookup_ofList hfind) with hmem | hlast
    · exact Or.inr (buildTools_resolved htools _ hmem)
    · exact Or.inl (congrArg Prod.fst (List.mem_singleton.mp hlast))

theorem buildAll_serves {agents : List AgentConfig} {handles : List (String × AgentHandle)}
    (hb : buildAll c place agents = .ok handles) : ∀ x ∈ handles, Serves c x.1 x.2 := by
  induction agents generalizing place handles with
  | nil =>
      obtain rfl := Except.ok.inj hb
      simp
  | cons a rest ih =>
      obtain ⟨first, hfirst, hb⟩ := eq_ok_of_bind hb
      obtain ⟨others, hothers, hb⟩ := eq_ok_of_bind hb
      obtain rfl := Except.ok.inj hb
      intro x hx
      rcases List.mem_cons.mp hx with rfl | hx
      · exact buildHandle_serves hfirst
      · exact ih hothers x hx

/-- The agents that a registry finds. -/
theorem build_serves {agents : List AgentConfig} {r : Registry} (hb : build c agents = .ok r)
    {name : String} (hfind : r.find? name = some h) : Serves c name h := by
  obtain ⟨handles, hall, hb⟩ := eq_ok_of_bind hb
  obtain rfl := Except.ok.inj hb
  exact buildAll_serves hall _ (Table.mem_of_lookup_ofList hfind)

theorem keys_buildAll {agents : List AgentConfig} {handles : List (String × AgentHandle)}
    (hb : buildAll c place agents = .ok handles) :
    handles.map Prod.fst = agents.map AgentConfig.name := by
  induction agents generalizing place handles with
  | nil =>
      obtain rfl := Except.ok.inj hb
      rfl
  | cons a rest ih =>
      obtain ⟨first, -, hb⟩ := eq_ok_of_bind hb
      obtain ⟨others, hothers, hb⟩ := eq_ok_of_bind hb
      obtain rfl := Except.ok.inj hb
      exact congrArg (List.cons a.name) (ih hothers)

/-- A registry finds the agents that it was built of, and no others. -/
theorem exists_find?_iff {agents : List AgentConfig} {r : Registry}
    (hb : build c agents = .ok r) {name : String} :
    (∃ h, r.find? name = some h) ↔ name ∈ agents.map AgentConfig.name := by
  obtain ⟨handles, hall, hb⟩ := eq_ok_of_bind hb
  obtain rfl := Except.ok.inj hb
  rw [← keys_buildAll hall, ← Table.mem_keys_ofList_iff]
  exact Table.mem_keys_iff.symm

end Registry

namespace Engine

variable {e : Engine} {services : Services} {r : Request} {p : Prepared}

theorem orInvalid_eq_ok {α : Type} {x : Except Invalid α} {a : α} (h : orInvalid x = .ok a) :
    x = .ok a := by
  cases x with
  | error e => cases h
  | ok b => exact congrArg Except.ok (Except.ok.inj h)

/-- What a request is when it is ready to run. -/
theorem prepareAllowed_eq_ok (h : e.prepareAllowed services r = .ok p) :
    ∃ master inputs, e.findAgent services r = .ok master ∧
      compile master r.flow inputs e.config.defaultInjection = .ok p.plan ∧
      p.plan.validate = .ok () ∧
      Registry.build (e.registryContext services master r) master.agents = .ok p.registry ∧
      p.request = r ∧ p.master = master ∧ p.state = .compiling ∧ p.log.ok = true ∧
      p.log.steps = [] := by
  obtain ⟨master, hmaster, h⟩ := eq_ok_of_bind h
  obtain ⟨inputs, -, h⟩ := eq_ok_of_bind h
  obtain ⟨plan, hplan, h⟩ := eq_ok_of_bind h
  obtain ⟨_, hvalid, h⟩ := eq_ok_of_bind h
  cases hbuild : Registry.build (e.registryContext services master r) master.agents with
  | error error => rw [hbuild] at h; cases h
  | ok registry =>
      rw [hbuild] at h
      obtain rfl := Except.ok.inj h
      exact ⟨master, inputs, hmaster, orInvalid_eq_ok hplan, orInvalid_eq_ok hvalid, hbuild, rfl,
        rfl, rfl, rfl, rfl⟩

/-- All agents of a prepared request have its accountant and the time limit of
the engine. -/
theorem handle_of_prepared (h : e.prepareAllowed services r = .ok p) {name : String}
    {handle : AgentHandle} (hfind : p.registry.find? name = some handle) :
    handle.accountant = e.accountant services r ∧ handle.timeout = e.config.stepTimeout := by
  obtain ⟨master, _, -, -, -, hbuild, -⟩ := prepareAllowed_eq_ok h
  have hserves := Registry.build_serves hbuild hfind
  exact ⟨hserves.accountant, hserves.timeout⟩

theorem name_of_prepared (h : e.prepareAllowed services r = .ok p) {name : String}
    {handle : AgentHandle} (hfind : p.registry.find? name = some handle) : handle.name = name := by
  obtain ⟨master, _, -, -, -, hbuild, -⟩ := prepareAllowed_eq_ok h
  exact (Registry.build_serves hbuild hfind).name

/-! ## Runs -/

/-- What an engine reports is what comes of a run of its script. -/
theorem run_runs {M : Type} [LanguageModel M] {sink : Sink} {environment : Environment M}
    {rep : RunReport} {w : World M} (h : e.run p sink environment = (some rep, w)) :
    ∃ hist result, Process.Run e.config.fanout World.perform World.machine.Drifts
        (.line (script p)) (World.start environment sink p.log) hist (.line (.ret result)) w ∧
      rep = report p result w := by
  unfold run at h
  obtain ⟨hreport, rfl⟩ := Prod.mk.inj h
  obtain ⟨result, hresult, rfl⟩ := Option.map_eq_some_iff.mp hreport
  obtain ⟨hist, hrun⟩ := World.run_runs (Prod.ext hresult rfl)
  exact ⟨hist, result, hrun, rfl⟩

/-- Whether an act is one of those with which a run ends. -/
def IsClosing : Act → Prop
  | .emitFinal .. | .emitError _ | .logError _ | .finalize _ | .close => True
  | _ => False

theorem conclude_closes (p : Prepared) (result : Except FlowError StepOutcome) :
    Script.All IsClosing
      ((conclude p result).andThen fun () => (.ret result : RunScript StepOutcome)) := by
  refine Script.all_andThen_prog ?_ fun _ => .ret result
  cases result with
  | ok out => exact ⟨trivial, fun _ => ⟨trivial, fun _ => ⟨trivial, fun _ => trivial⟩⟩⟩
  | error e =>
      exact ⟨trivial, fun _ => ⟨trivial, fun _ => ⟨trivial, fun _ => ⟨trivial, fun _ => trivial⟩⟩⟩⟩

section Script

variable {policy : FailurePolicy} {h : History Act Act.Reply}

/-- The history of a run is that of its root step, but for its end. -/
theorem script_reaches {q : Process Act Act.Reply StepOutcome}
    (hr : (script p).Reaches policy h q) :
    ∃ before later q, h = before ++ later
      ∧ (Execution.step p.registry p.plan.root []).Reaches policy before q
      ∧ ∀ x ∈ later, IsClosing x.2.act := by
  rcases Script.reaches_andThen hr with ⟨q, hq, -⟩ | ⟨before, later, result, rfl, hq, hlast⟩
  · exact ⟨h, [], q, (List.append_nil h).symm, hq, by simp⟩
  · exact ⟨before, later, _, rfl, hq, (conclude_closes p result).of_reaches hlast⟩

theorem script_ends {e : Ending StepOutcome} (he : (script p).Ends policy h e) :
    ∃ before later e, h = before ++ later
      ∧ (Execution.step p.registry p.plan.root []).Ends policy before e
      ∧ ∀ x ∈ later, IsClosing x.2.act := by
  rcases Script.ends_andThen he with ⟨hcrash, -⟩ | ⟨before, later, result, rfl, hroot, q, hlast, -⟩
  · exact ⟨h, [], _, (List.append_nil h).symm, hcrash, by simp⟩
  · exact ⟨before, later, _, rfl, hroot, (conclude_closes p result).of_reaches hlast⟩

end Script

/-! ## A run in full -/

/-- An engine with one definition, whose models repeat what they are told. -/
def echoing : Engine :=
  { config := .default, agents := [("duo", Compile.askAbout)], tools := .empty, extractor := none
    identifier := fun _ => "00000000", traceId := "trace" }

/-- A request of that definition. -/
def echoed : Request :=
  { agent := "duo", session := "s", clock := { iso := "", localTime := "", timezone := "" }
    outputMode := .stream, execMode := .sync, flow := none, input := .object [] }

/-- Empty stores, and billing. -/
def emptyServices : Services :=
  { store := .empty, quota := .unlimited, faults := [], bills := true }

def silentEnvironment : Environment Rehearsal.ScriptedModel :=
  { services := emptyServices, model := { replies := [] }, requests := [], invocations := []
    time := 0
    now := { year := 2024, month := 1, day := 1, hour := 0, minute := 0, second := 0, nano := 0 } }

/-- The second branch is run and joined before the first one starts; then
come the call behind the node, and the end of the run. -/
def secondFirst : List (List Nat × Move) :=
  let branch (i : Nat) : List (List Nat × Move) :=
    ([], .dispatch i) :: List.replicate 10 ([i], .act) ++ [([], .finish i), ([], .join i)]
  ([], .fork) :: branch 1 ++ branch 0 ++ ([], .collect) :: List.replicate 13 ([], .act)

/-- Whether the request is prepared and its run on a sink, in that order,
succeeds with seven chunks. -/
def succeedsOn (sink : Sink) : Bool :=
  (echoing.prepareAllowed emptyServices echoed).toOption.any fun p =>
    (Process.play? echoing.config.fanout World.perform secondFirst (.line (script p))
      (World.start silentEnvironment sink p.log)).any fun x =>
        (x.2.1.ending?.any fun e => !e.isFailed && !e.isCrashed) && x.2.2.sink.chunks.length == 7

theorem run_of_succeedsOn {sink : Sink} (h : succeedsOn sink = true) : ∃ p w h out,
    echoing.prepareAllowed emptyServices echoed = .ok p ∧
      Process.Run echoing.config.fanout World.perform Eq (.line (script p))
        (World.start silentEnvironment sink p.log) h (.line (.ret (.ok out))) w ∧
      w.sink.chunks.length = 7 := by
  obtain ⟨p, hp, hany⟩ := (Option.any_eq_true ..).mp h
  obtain ⟨⟨h, q, w⟩, hplay, hends⟩ := (Option.any_eq_true ..).mp hany
  obtain ⟨hsucceeds, hlength⟩ := (Bool.and_eq_true ..).mp hends
  have hprepared := eq_ok_of_toOption hp
  obtain ⟨out, rfl⟩ : ∃ out, q = .line (.ret (.ok out)) := by
    obtain ⟨e, he, hsuccess⟩ := (Option.any_eq_true ..).mp hsucceeds
    rcases Process.ending?_eq_some he with ⟨result, rfl, rfl⟩ | ⟨-, rfl⟩
    · cases result with
      | ok out => exact ⟨out, rfl⟩
      | error err => cases hsuccess
    · cases hsuccess
  exact ⟨p, w, h, out, hprepared, Process.Run.start.play hplay, eq_of_beq hlength⟩

/-- There are requests that can be prepared and runs of them that succeed. -/
theorem exists_run : ∃ p w h out,
    echoing.prepareAllowed emptyServices echoed = .ok p ∧
      Process.Run echoing.config.fanout World.perform Eq (.line (script p))
        (World.start silentEnvironment .buffered p.log) h (.line (.ret (.ok out))) w ∧
      w.sink.chunks.length = 7 :=
  run_of_succeedsOn (by decide +kernel)

end Engine

end Ensemble
