import Ensemble.Proofs.Engine.Answering
import Ensemble.Proofs.Except

/-!
# Failures before a run and failures of a run

A failure says of itself whether it is one that keeps a run from starting.
What it goes by is its cause. All that ends a run is told apart rightly: the
failure of a call or of a branch (`not_preFlight_of_run`). What keeps a run
from starting is not: services that are not available while a request is
prepared, and tools of an agent that cannot be built, have causes that runs
have as well. `Engine.BreaksDown` lists these failures, and
`preflight_classified` says that there are no others.
-/

namespace Ensemble

/-! ## Tools that cannot be built -/

namespace Registry

variable {c : RegistryContext} {place : Nat} {fault : CallError}

/-- A tool of an agent that the library does not give. -/
def Lacks (c : RegistryContext) (a : AgentConfig) (fault : CallError) : Prop :=
  ∃ b ∈ a.tools, ∃ e, c.tools.resolve b.name b.options (toolContext c a) = .error e ∧
    fault = { agent := a.name, fault := .tool b.name e }

theorem buildTools_eq_error {a : AgentConfig} {bindings : List ToolBinding}
    (h : buildTools c a place bindings = .error fault) :
    ∃ b ∈ bindings, ∃ e, c.tools.resolve b.name b.options (toolContext c a) = .error e ∧
      fault = { agent := a.name, fault := .tool b.name e } := by
  induction bindings generalizing place with
  | nil => cases h
  | cons b rest ih =>
      rw [buildTools] at h
      split at h
      · rename_i e hresolve
        exact ⟨b, List.mem_cons_self .., e, hresolve, (Except.error.inj h).symm⟩
      · rcases bind_eq_error_iff.mp h with h | ⟨others, -, h⟩
        · obtain ⟨b', hb', hlacks⟩ := ih h
          exact ⟨b', List.mem_cons_of_mem _ hb', hlacks⟩
        · cases h

theorem buildAll_eq_error {agents : List AgentConfig}
    (h : buildAll c place agents = .error fault) : ∃ a ∈ agents, Lacks c a fault := by
  induction agents generalizing place with
  | nil => cases h
  | cons a rest ih =>
      rcases bind_eq_error_iff.mp h with h | ⟨first, -, h⟩
      · rcases bind_eq_error_iff.mp h with h | ⟨tools, -, h⟩
        · exact ⟨a, List.mem_cons_self .., buildTools_eq_error h⟩
        · cases h
      · rcases bind_eq_error_iff.mp h with h | ⟨others, -, h⟩
        · obtain ⟨a', ha', hlacks⟩ := ih h
          exact ⟨a', List.mem_cons_of_mem _ ha', hlacks⟩
        · cases h

/-- Agents cannot be built only for want of a tool. -/
theorem build_eq_error {agents : List AgentConfig} (h : build c agents = .error fault) :
    ∃ a ∈ agents, Lacks c a fault := by
  rcases bind_eq_error_iff.mp h with h | ⟨handles, -, h⟩
  · exact buildAll_eq_error h
  · cases h

end Registry

/-! ## How preparations fail -/

namespace Engine

variable {M : Type} {e : Engine} {services : Services} {r : Request} {p : Prepared}
  {environment : Environment M} {err : FlowError}

/-- A failure that keeps a request from being prepared, although it does not
say so: a service is not available, or a tool of an agent cannot be built. -/
inductive BreaksDown (e : Engine) (environment : Environment M) (r : Request) :
    FlowError → Prop
  | summary (hfault : .summarizeStats ∈ environment.services.faults) :
      BreaksDown e environment r (.collaborator ServiceCall.summarizeStats.failure)
  | quota {windows : Usage.Windows}
      (hsummary : environment.services.summary? environment.now = some (.ok windows))
      (hfault : .checkQuota ∈ environment.services.faults) :
      BreaksDown e environment r (.collaborator ServiceCall.checkQuota.failure)
  | find (hallowed : environment.services.checkQuota? environment.now = some (.ok ()))
      (hfault : .findAgent ∈ environment.services.faults) :
      BreaksDown e environment r (.collaborator ServiceCall.findAgent.failure)
  | tool {master : MasterAgent} {inputs : ResolvedInputs} {plan : Plan} {fault : CallError}
      (hallowed : environment.services.checkQuota? environment.now = some (.ok ()))
      (hmaster : e.findAgent environment.services r = .ok master)
      (hinputs : e.resolve master r = .ok inputs)
      (hplan : compile master r.flow inputs e.config.defaultInjection = .ok plan)
      (hvalid : plan.validate = .ok ())
      (hbuild : Registry.build (e.registryContext environment.services master r) master.agents
        = .error fault) : BreaksDown e environment r (.call fault)

theorem preFlight_of_orInvalid {α : Type} {x : Except Invalid α} (h : orInvalid x = .error err) :
    err.isPreFlight = true := by
  cases x with
  | ok a => cases h
  | error i =>
      obtain rfl := Except.error.inj h
      rfl

theorem preFlight_of_resolve {master : MasterAgent} (h : e.resolve master r = .error err) :
    err.isPreFlight = true := by
  rcases bind_eq_error_iff.mp h with h | ⟨_, -, h⟩
  · exact preFlight_of_orInvalid h
  · dsimp only at h
    split at h
    · split at h
      · obtain rfl := Except.error.inj h
        rfl
      · cases h
    · cases h

theorem findAgent_eq_error (h : e.findAgent services r = .error err) :
    .findAgent ∈ services.faults ∧ err = .collaborator ServiceCall.findAgent.failure ∨
      err.isPreFlight = true := by
  unfold findAgent at h
  split at h
  · rename_i hfault
    exact .inl ⟨by simpa using hfault, (Except.error.inj h).symm⟩
  · split at h
    · cases h
    · obtain rfl := Except.error.inj h
      exact .inr rfl

/-- The stages of a preparation that is allowed, each with what it fails with. -/
theorem prepareAllowed_eq_error (h : e.prepareAllowed services r = .error err)
    (herr : err.isPreFlight = false) :
    .findAgent ∈ services.faults ∧ err = .collaborator ServiceCall.findAgent.failure ∨
      ∃ master inputs plan fault, e.findAgent services r = .ok master ∧
        e.resolve master r = .ok inputs ∧
        compile master r.flow inputs e.config.defaultInjection = .ok plan ∧
        plan.validate = .ok () ∧
        Registry.build (e.registryContext services master r) master.agents = .error fault ∧
        err = .call fault := by
  have hno : err.isPreFlight ≠ true := by simp [herr]
  rcases bind_eq_error_iff.mp h with h | ⟨master, hmaster, h⟩
  · exact .inl ((findAgent_eq_error h).resolve_right hno)
  rcases bind_eq_error_iff.mp h with h | ⟨inputs, hinputs, h⟩
  · exact absurd (preFlight_of_resolve h) hno
  rcases bind_eq_error_iff.mp h with h | ⟨plan, hplan, h⟩
  · exact absurd (preFlight_of_orInvalid h) hno
  rcases bind_eq_error_iff.mp h with h | ⟨_, hvalid, h⟩
  · exact absurd (preFlight_of_orInvalid h) hno
  cases hbuild : Registry.build (e.registryContext services master r) master.agents with
  | ok registry => rw [hbuild] at h; cases h
  | error fault =>
      rw [hbuild] at h
      exact .inr ⟨master, inputs, plan, fault, hmaster, hinputs, orInvalid_eq_ok hplan,
        orInvalid_eq_ok hvalid, hbuild, (Except.error.inj h).symm⟩

theorem checkQuota?_of_faults {now : Instant} (h : .summarizeStats ∈ services.faults) :
    services.checkQuota? now
      = some (.error (.collaborator ServiceCall.summarizeStats.failure)) := by
  simp [Services.checkQuota?, Services.summary?, h]

theorem checkQuota?_of_summary {now : Instant} {windows : Usage.Windows}
    (hsummary : services.summary? now = some (.ok windows)) (h : .checkQuota ∈ services.faults) :
    services.checkQuota? now = some (.error (.collaborator ServiceCall.checkQuota.failure)) := by
  simp [Services.checkQuota?, hsummary, h]

theorem summary?_eq_error {now : Instant} {message : String}
    (h : services.summary? now = some (.error message)) :
    .summarizeStats ∈ services.faults ∧ message = ServiceCall.summarizeStats.failure := by
  unfold Services.summary? at h
  split at h
  · rename_i hfault
    exact ⟨by simpa using hfault, (Except.error.inj (Option.some.inj h)).symm⟩
  · obtain ⟨_, -, hok⟩ := Option.map_eq_some_iff.mp h
    cases hok

/-- The quota is exceeded, or a service was not available. -/
theorem checkQuota?_eq_error {now : Instant}
    (h : services.checkQuota? now = some (.error err)) (herr : err.isPreFlight = false) :
    .summarizeStats ∈ services.faults ∧
        err = .collaborator ServiceCall.summarizeStats.failure ∨
      (∃ windows, services.summary? now = some (.ok windows)) ∧
        .checkQuota ∈ services.faults ∧ err = .collaborator ServiceCall.checkQuota.failure := by
  unfold Services.checkQuota? at h
  split at h
  · cases h
  · rename_i message hsummary
    obtain ⟨hfault, rfl⟩ := summary?_eq_error hsummary
    exact .inl ⟨hfault, (Except.error.inj (Option.some.inj h)).symm⟩
  · rename_i windows hsummary
    split at h
    · rename_i hfault
      exact .inr ⟨⟨windows, hsummary⟩, by simpa using hfault,
        (Except.error.inj (Option.some.inj h)).symm⟩
    · split at h
      · cases h
      · obtain rfl := Except.error.inj (Option.some.inj h)
        cases herr

/-- What a preparation fails with and does not call a failure of a preparation. -/
theorem prepare?_eq_error_iff :
    e.prepare? environment r = some (.error err) ∧ err.isPreFlight = false ↔
      e.BreaksDown environment r err := by
  constructor
  · rintro ⟨h, herr⟩
    unfold prepare? at h
    split at h
    · cases h
    · rename_i hcheck
      obtain rfl := Except.error.inj (Option.some.inj h)
      rcases checkQuota?_eq_error hcheck herr with
        ⟨hfault, rfl⟩ | ⟨⟨windows, hsummary⟩, hfault, rfl⟩
      · exact .summary hfault
      · exact .quota hsummary hfault
    · rename_i hallowed
      rcases prepareAllowed_eq_error (Option.some.inj h) herr with ⟨hfault, rfl⟩ |
        ⟨master, inputs, plan, fault, hmaster, hinputs, hplan, hvalid, hbuild, rfl⟩
      · exact .find hallowed hfault
      · exact .tool hallowed hmaster hinputs hplan hvalid hbuild
  · intro h
    cases h with
    | summary hfault => exact ⟨by rw [prepare?, checkQuota?_of_faults hfault], rfl⟩
    | quota hsummary hfault => exact ⟨by rw [prepare?, checkQuota?_of_summary hsummary hfault], rfl⟩
    | find hallowed hfault =>
        have hfind : e.findAgent environment.services r
            = .error (.collaborator ServiceCall.findAgent.failure) := by
          simp [findAgent, hfault]
        refine ⟨?_, rfl⟩
        rw [prepare?, hallowed]
        exact congrArg some (bind_eq_error_iff.mpr (.inl hfind))
    | tool hallowed hmaster hinputs hplan hvalid hbuild =>
        refine ⟨?_, rfl⟩
        rw [prepare?, hallowed]
        refine congrArg some ?_
        refine bind_eq_error_iff.mpr (.inr ⟨_, hmaster, ?_⟩)
        refine bind_eq_error_iff.mpr (.inr ⟨_, hinputs, ?_⟩)
        refine bind_eq_error_iff.mpr (.inr ⟨_, congrArg orInvalid hplan, ?_⟩)
        refine bind_eq_error_iff.mpr (.inr ⟨_, congrArg orInvalid hvalid, ?_⟩)
        dsimp only
        rw [hbuild]
        rfl

section Runs

variable [LanguageModel M] {sink : Sink}

theorem execute?_eq_error_iff {environment' : Environment M} :
    e.execute? r sink environment = some (.error err, environment') ↔
      e.prepare? environment r = some (.error err) ∧ environment' = environment := by
  cases hprepared : e.prepare? environment r with
  | none => simp [execute?, hprepared]
  | some result =>
      cases result with
      | error err' => simp [execute?, hprepared, eq_comm]
      | ok p => cases hrun : (e.run p sink environment).1 <;> simp [execute?, hprepared, hrun]

theorem execute?_eq_ok {rep : RunReport} {environment' : Environment M}
    (h : e.execute? r sink environment = some (.ok rep, environment')) :
    ∃ p w, e.prepare? environment r = some (.ok p) ∧ e.run p sink environment = (some rep, w) := by
  cases hprepared : e.prepare? environment r with
  | none => simp [execute?, hprepared] at h
  | some result =>
      cases result with
      | error err' => simp [execute?, hprepared] at h
      | ok p =>
          cases hrun : (e.run p sink environment).1 with
          | none => simp [execute?, hprepared, hrun] at h
          | some rep' =>
              obtain ⟨rfl, -⟩ : rep' = rep ∧ _ := by simpa [execute?, hprepared, hrun] using h
              exact ⟨p, _, rfl, Prod.ext hrun rfl⟩

end Runs

/-- What ends a run on any schedule is no failure of a preparation. -/
theorem not_preFlight_of_run {W : Type} {config : FanoutConfig}
    {perform : (a : Act) → W → a.Reply × W} {drift : W → W → Prop} {w₀ w : W}
    {h : History Act Act.Reply}
    (hrun : Process.Run config perform drift (.line (script p)) w₀ h
      (.line (.ret (.error err))) w) :
    err.isPreFlight = false := by
  cases fails_of_run hrun with
  | call => rfl
  | dropped => rfl

/-! ## Which failures are told apart -/

/-- Definitions cannot be found. -/
def closedEnvironment : Environment Rehearsal.ScriptedModel :=
  { silentEnvironment with services := { emptyServices with faults := [.findAgent] } }

/-- A request can fail before anything was done, and the failure not say so. -/
theorem hidden_preflight :
    ¬∀ (e : Engine) (r : Request) (sink : Sink) (environment : Environment Rehearsal.ScriptedModel)
      (err : FlowError) (environment' : Environment Rehearsal.ScriptedModel),
      e.execute? r sink environment = some (.error err, environment') →
        err.isPreFlight = true := by
  intro h
  have hprepared : echoing.prepare? closedEnvironment echoed
      = some (.error (.collaborator ServiceCall.findAgent.failure)) := rfl
  have hpre := h echoing echoed .buffered closedEnvironment _ _
    (execute?_eq_error_iff.mpr ⟨hprepared, rfl⟩)
  cases hpre

/-- **Failures before a run and failures of a run.** A request that fails
before it was run has a failure that says so, unless a service was not
available to the preparation or an agent could not be built, for want of a
tool; these failures, and only these, say what those of runs say. A report
never shows a failure that is one of preparations, and no run of a prepared
request ends with one, on any schedule. -/
theorem preflight_classified {M : Type} [LanguageModel M] (e : Engine) (r : Request) (sink : Sink)
    (environment : Environment M) :
    (∀ err, (e.execute? r sink environment = some (.error err, environment) ∧
        err.isPreFlight = false) ↔ e.BreaksDown environment r err) ∧
      (∀ err environment', e.execute? r sink environment = some (.error err, environment') →
        environment' = environment) ∧
      (∀ c agents fault, Registry.build c agents = .error fault →
        ∃ a ∈ agents, Registry.Lacks c a fault) ∧
      (∀ rep environment' err, e.execute? r sink environment = some (.ok rep, environment') →
        rep.error = some err → err.isPreFlight = false) ∧
      ∀ p, e.prepare? environment r = some (.ok p) →
        ∀ (drift : World M → World M → Prop) (w₀ w : World M) h err,
          Process.Run e.config.fanout World.perform drift (.line (script p)) w₀ h
            (.line (.ret (.error err))) w → err.isPreFlight = false := by
  refine ⟨fun err => ?_, fun err environment' h => (execute?_eq_error_iff.mp h).2,
    fun c agents fault => Registry.build_eq_error, ?_, ?_⟩
  · rw [execute?_eq_error_iff, ← prepare?_eq_error_iff]
    simp
  · intro rep environment' err h herr
    obtain ⟨p, w, -, hrun⟩ := execute?_eq_ok h
    obtain ⟨hist, result, hruns, rfl⟩ := run_runs hrun
    cases result with
    | ok out => cases herr
    | error err' =>
        obtain rfl := Option.some.inj herr
        exact not_preFlight_of_run hruns
  · intro p _ drift w₀ w h err hrun
    exact not_preFlight_of_run hrun

/-- A definition with an agent that is to have a tool. -/
def equipped : MasterAgent :=
  { Compile.askAbout with
    agents := [
      { name := "a", model := "", system := "", tools := [{ name := "lookup", options := .null }] },
      { name := "b", model := "", system := "", tools := [] }] }

/-- An engine whose library has no such tool. -/
def toolless : Engine := { echoing with agents := [("duo", equipped)] }

/-- Usage cannot be put on record. -/
def unaccountedEnvironment : Environment Rehearsal.ScriptedModel :=
  { silentEnvironment with services := { emptyServices with faults := [.recordSession] } }

/-- The message of the failure that ends a run. -/
def failureIn (environment : Environment Rehearsal.ScriptedModel) : Option String := do
  let (answer, _) ← echoing.execute? echoed .buffered environment
  let rep ← answer.toOption
  let err ← rep.error
  return err.message

/-- A tool that is missing says the same before a run as a tool that fails in
one; what ends a run is told apart from a wrong request. -/
theorem preflight_classified_missing :
    (∃ err, toolless.execute? echoed .buffered silentEnvironment
        = some (.error err, silentEnvironment) ∧
      err.message = "agent `a` failed: tool `lookup` failed: tool not found: lookup" ∧
      err.isPreFlight = false) ∧
    ∃ rep environment' err, echoing.execute? echoed .buffered unaccountedEnvironment
        = some (.ok rep, environment') ∧ rep.error = some err ∧ err.isPreFlight = false := by
  constructor
  · have hbreaks : toolless.BreaksDown silentEnvironment echoed
        (.call { agent := "a", fault := .tool "lookup" (.notFound "lookup") }) := by
      have hmaster : toolless.findAgent silentEnvironment.services echoed = .ok equipped := rfl
      have hprepared : (toolless.resolve equipped echoed).toOption.any (fun inputs =>
          (compile equipped echoed.flow inputs toolless.config.defaultInjection).toOption.any
            fun plan => plan.validate.toOption.isSome) = true := by decide +kernel
      obtain ⟨inputs, hinputs, hany⟩ := (Option.any_eq_true ..).mp hprepared
      obtain ⟨plan, hplan, hany⟩ := (Option.any_eq_true ..).mp hany
      obtain ⟨⟨⟩, hvalid⟩ := Option.isSome_iff_exists.mp hany
      exact .tool rfl hmaster (eq_ok_of_toOption hinputs) (eq_ok_of_toOption hplan)
        (eq_ok_of_toOption hvalid) rfl
    obtain ⟨hexecuted, hpre⟩ :=
      ((preflight_classified toolless echoed .buffered silentEnvironment).1 _).mpr hbreaks
    exact ⟨_, hexecuted, by decide +kernel, hpre⟩
  · obtain ⟨message, hmessage⟩ : ∃ message, failureIn unaccountedEnvironment = some message :=
      Option.isSome_iff_exists.mp (by decide +kernel)
    simp only [failureIn, Option.bind_eq_bind, Option.pure_def, Option.bind_eq_some_iff] at hmessage
    obtain ⟨⟨answer, environment'⟩, hexecuted, rep, hrep, err, herr, -⟩ := hmessage
    obtain rfl := eq_ok_of_toOption hrep
    obtain ⟨-, -, -, hreports, -⟩ :=
      preflight_classified echoing echoed .buffered unaccountedEnvironment
    exact ⟨rep, environment', err, hexecuted, herr, hreports rep environment' err hexecuted herr⟩

end Engine

end Ensemble
