import Ensemble.Proofs.Engine.Answering
import Ensemble.Proofs.Execution.Failures

/-!
# Every agent that is called is registered

Two parts of a preparation look at the agents of a definition: compiling
refuses a call of any other agent (`Compile.calls_declared`), and the
registry keeps a handle under each of their names, the last one where a name
is repeated (`Registry.exists_find?_iff`). So the calls of a prepared plan
find their agents, and since a run fails as one of its calls does
(`fails_of_run`) none fails for want of one (`calls_registered`).
-/

namespace Ensemble

/-- Whether no agent was found for a call. -/
def FlowError.IsUnknownAgent : FlowError → Prop
  | .call e => e.fault = .unknownAgent
  | _ => False

namespace Execution

/-- Steps of which all calls find their agents do not fail for want of one. -/
theorem Fails.not_isUnknownAgent {r : Registry} {calls : List Call} {err : FlowError}
    (hf : Fails r calls err) (hfound : ∀ c ∈ calls, ∃ h, r.find? c.agent = some h) :
    ¬err.IsUnknownAgent := by
  cases hf with
  | @call c m xs e mem ends =>
      intro hunknown
      obtain ⟨h, hfind⟩ := hfound c mem
      cases hfind.symm.trans (find?_of_unknownAgent ends hunknown)
  | dropped => exact id

end Execution

namespace Engine

variable {e : Engine} {services : Services} {r : Request} {p : Prepared}

/-- The calls of a prepared plan find an agent of the name that they ask for. -/
theorem exists_find?_of_prepared (h : e.prepareAllowed services r = .ok p) :
    ∀ c ∈ p.plan.root.calls, ∃ handle, p.registry.find? c.agent = some handle := by
  obtain ⟨master, inputs, -, hplan, -, hbuild, -⟩ := prepareAllowed_eq_ok h
  intro c hc
  exact (Registry.exists_find?_iff hbuild).mpr (Compile.calls_declared hplan c hc)

/-- **Every agent that is called is registered.** Take any request that can be
prepared, from a definition that may repeat the names of its agents. Each call
of its plan finds a handle with the name of its agent. No step of the plan,
be it a branch of a node or the root, fails for want of an agent, whatever is
bound where it starts and in whichever order its tasks move; no run of the
request ends so, in any world and on any schedule; and no report says so. -/
theorem calls_registered {M : Type} [LanguageModel M] {environment : Environment M}
    (h : e.prepare? environment r = some (.ok p)) :
    (∀ c ∈ p.plan.root.calls, ∃ handle, p.registry.find? c.agent = some handle ∧
        handle.name = c.agent) ∧
      (∀ s ∈ p.plan.root.walk, ∀ scope policy hist err,
        (Execution.step p.registry s scope).Ends policy hist (.failed err) →
          ¬err.IsUnknownAgent) ∧
      (∀ (W : Type) (config : FanoutConfig) (perform : (a : Act) → W → a.Reply × W)
        (drift : W → W → Prop) (w₀ w : W) hist err,
        Process.Run config perform drift (.line (script p)) w₀ hist
          (.line (.ret (.error err))) w → ¬err.IsUnknownAgent) ∧
      ∀ (sink : Sink) (environment' : Environment M) rep w err,
        e.run p sink environment' = (some rep, w) → rep.error = some err →
          ¬err.IsUnknownAgent := by
  have hallowed := prepareAllowed_of_prepare h
  have hfound := exists_find?_of_prepared hallowed
  refine ⟨fun c hc => ?_, fun s hs scope policy hist err hends => ?_,
    fun W config perform drift w₀ w hist err hruns => ?_,
    fun sink environment' rep w err hreport herr => ?_⟩
  · obtain ⟨handle, hfind⟩ := hfound c hc
    exact ⟨handle, hfind, name_of_prepared hallowed hfind⟩
  · exact (Execution.fails_of_ends s hends).not_isUnknownAgent fun c hc =>
      hfound c (Step.calls_subset_of_mem hs hc)
  · exact (fails_of_run hruns).not_isUnknownAgent hfound
  · obtain ⟨hist, result, hruns, rfl⟩ := run_runs hreport
    cases result with
    | ok out => cases herr
    | error err' =>
        obtain rfl := Option.some.inj herr
        exact (fails_of_run hruns).not_isUnknownAgent hfound

/-! ## A definition that repeats a name -/

/-- The name of the first agent is given again, to an agent with another model. -/
def doubled : MasterAgent :=
  { Compile.askAbout with
    agents := Compile.askAbout.agents ++
      [{ name := "a", model := "later", system := "", tools := [] }] }

def doubling : Engine := { echoing with agents := [("duo", doubled)] }

/-- That model is busy. -/
def laterBusyEnvironment : Environment Rehearsal.ScriptedModel :=
  let busy := { Rehearsal.Reply.plain with error := some (.request "busy") }
  { silentEnvironment with model := { replies := [("later", [busy])] } }

theorem run_of_doubled : ∃ p rep w err,
    doubling.prepare? laterBusyEnvironment echoed = some (.ok p) ∧
      p.plan.root.calls.map Call.agent = ["a", "a", "b"] ∧
      doubling.run p .buffered laterBusyEnvironment = (some rep, w) ∧ rep.error = some err ∧
      err.message = "agent `a` failed: model request failed: busy" := by
  have hplayed : (doubling.prepare? laterBusyEnvironment echoed).any (fun prepared =>
      prepared.toOption.any fun p => p.plan.root.calls.map Call.agent == ["a", "a", "b"] &&
        (doubling.run p .buffered laterBusyEnvironment).1.any fun rep =>
          rep.error.any fun err =>
            err.message == "agent `a` failed: model request failed: busy") = true := by
    decide +kernel
  obtain ⟨prepared, hprepared, hany⟩ := (Option.any_eq_true ..).mp hplayed
  obtain ⟨p, hp, hchecks⟩ := (Option.any_eq_true ..).mp hany
  obtain ⟨hagents, hany⟩ := (Bool.and_eq_true ..).mp hchecks
  obtain ⟨rep, hrep, hany⟩ := (Option.any_eq_true ..).mp hany
  obtain ⟨err, herr, hmessage⟩ := (Option.any_eq_true ..).mp hany
  obtain rfl := eq_ok_of_toOption hp
  exact ⟨p, rep, _, err, hprepared, eq_of_beq hagents, Prod.ext hrep rfl, herr,
    eq_of_beq hmessage⟩

/-- The later agent of a name is the one that is called, and its failure is
that of the run. -/
theorem calls_registered_doubled : ∃ p rep w err,
    doubling.prepare? laterBusyEnvironment echoed = some (.ok p) ∧
      p.plan.root.calls.map Call.agent = ["a", "a", "b"] ∧
      (∀ c ∈ p.plan.root.calls, ∃ handle, p.registry.find? c.agent = some handle ∧
        handle.name = c.agent) ∧
      doubling.run p .buffered laterBusyEnvironment = (some rep, w) ∧ rep.error = some err ∧
      err.message = "agent `a` failed: model request failed: busy" ∧ ¬err.IsUnknownAgent := by
  obtain ⟨p, rep, w, err, hprepared, hagents, hrun, herr, hmessage⟩ := run_of_doubled
  obtain ⟨hfound, -, -, hreports⟩ := calls_registered hprepared
  exact ⟨p, rep, w, err, hprepared, hagents, hfound, hrun, herr, hmessage,
    hreports .buffered laterBusyEnvironment rep w err hrun herr⟩

end Engine

end Ensemble
