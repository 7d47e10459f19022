import Ensemble.Proofs.Agent.Protocol
import Ensemble.Proofs.Engine.Preparation
import Ensemble.Proofs.Execution.Filing
import Ensemble.Proofs.Plan.Validation

/-!
# Results saved in runs

No effect of a tool is missing from the trace (`effects_shown`): a call
shows all uses of tools that have succeeded, also in a round in which a tool
fails (`AgentHandle.Reported`), so the results that a session gets in a run
are those that the trace shows to have been saved, step by step.
-/

namespace Ensemble

/-- The results that a session has got between two states of the store are, one
for one and in the order of each step, those that a trace shows. -/
def FiledAsShown (r : Registry) (session : String) (before after : Store) (trace : List Chunk) :
    Prop :=
  ∃ filed : List (String × ResultRecord),
    after.resultsFor session = before.resultsFor session ++ filed.map Prod.snd ∧
    ∀ step, List.Forall₂ Saving.Kept
      (r.savings ((trace.filterMap Chunk.round?).filter fun s => s.step = step))
      ((filed.filter fun f => f.1 = step).map Prod.snd)

/-- Agents save results with the tool for it and, if the library has no other
such tool, with no other one. -/
structure Registry.SavesByName (r : Registry) (tools : ToolLibrary) : Prop where
  saves : ∀ agent h, r.find? agent = some h → r.saves agent Tool.saveResultsName = true
  only : (∀ binding options context tool, tools.resolve binding options context = .ok tool →
      ∃ spec run, tool = .custom spec run) →
    ∀ agent tool, r.saves agent tool = true → tool = Tool.saveResultsName

namespace Engine

variable {e : Engine} {services : Services} {r : Request} {p : Prepared}

theorem filesFor_of_prepared (hprepared : e.prepareAllowed services r = .ok p) :
    Execution.FilesFor p.registry r.session := by
  intro name h hfind
  obtain ⟨master, _, -, -, -, hbuild, -⟩ := prepareAllowed_eq_ok hprepared
  have hserves := Registry.build_serves hbuild hfind
  exact ⟨hserves.name, hserves.session⟩

theorem savesByName_of_prepared (hprepared : e.prepareAllowed services r = .ok p) :
    p.registry.SavesByName e.tools := by
  obtain ⟨master, _, -, -, -, hbuild, -⟩ := prepareAllowed_eq_ok hprepared
  refine ⟨fun agent h hfind => ?_, fun hlibrary agent tool hsaves => ?_⟩
  · rw [Registry.saves, hfind, Option.bind_some, (Registry.build_serves hbuild hfind).saves]
  · unfold Registry.saves at hsaves
    split at hsaves
    · rename_i usual hlookup
      obtain ⟨h, hfind, htool⟩ := Option.bind_eq_some_iff.mp hlookup
      rcases (Registry.build_serves hbuild hfind).tools tool _ htool with
        hname | ⟨binding, options, hresolve⟩
      · exact hname
      · obtain ⟨spec, run, hcustom⟩ := hlibrary _ _ _ _ hresolve
        cases hcustom
    · cases hsaves

theorem isSilent_of_isClosing {session : String} {x : Exchange Act Act.Reply}
    (hx : IsClosing x.act) : x.IsSilent session := by
  obtain ⟨a, reply⟩ := x
  cases a <;> first | exact ⟨rfl, rfl⟩ | exact hx.elim

/-- What a run has saved is what it has shown, step by step. -/
theorem script_filed (hprepared : e.prepareAllowed services r = .ok p)
    {h : History Act Act.Reply} {ending : Ending StepOutcome}
    (he : (script p).Ends .completeInFlight h ending) (haccepts : ∀ x ∈ h, x.2.isRefusal = false) :
    Execution.Filed p.registry r.session p.plan.root.calls h := by
  obtain ⟨master, _, -, -, hvalid, -⟩ := prepareAllowed_eq_ok hprepared
  have hnodup : (p.plan.root.calls.map Call.name).Nodup :=
    (Plan.validate_eq_ok_iff.mp hvalid).1.sublist (Step.callNames_sublist _)
  obtain ⟨before, later, root, rfl, hroot, hcloses⟩ := script_ends he
  have hfiled := Execution.step_files (filesFor_of_prepared hprepared) p.plan.root [] before root
    hroot hnodup fun x hx => haccepts x (List.mem_append_left _ hx)
  rw [← List.append_nil p.plan.root.calls]
  exact hfiled.append (Execution.filed_of_silent fun x hx => isSilent_of_isClosing (hcloses x hx))

/-- **No effect is missing from the trace.** Take first any call of an agent
that has ended, and to which the session has not refused to take the usage of
an answer: in each round it has used tools in the order in which they were
asked for, and none after one that was unknown or has failed; it has shown all
tool calls of the round and the results of those that succeeded; and it has
failed with the first failure of a tool. Take then any run of a prepared
request that has ended, where no branch is dropped: its moves may come in any
order, and between two moves the world may change in all but the trace and the
results of the session. Again if no usage is refused, the results that the
session has got are those that the trace shows to have been saved. -/
theorem effects_shown :
    (∀ (h : AgentHandle) (step : String) (m : Message) (xs : List (Exchange Act Act.Reply))
        (out : Option (Except CallError AgentReply)), (h.invoke step m).Ends xs out →
      (∀ x ∈ xs, x.isRefusal = false) → ∃ rounds tail, h.Reported step m rounds tail xs out) ∧
    ∀ {M : Type} [LanguageModel M] (e : Engine) (services : Services) (r : Request) (p : Prepared)
        (environment : Environment M) (sink : Sink) (drift : World M → World M → Prop)
        (h : History Act Act.Reply) (q : Process Act Act.Reply StepOutcome) (w : World M),
      e.prepareAllowed services r = .ok p → e.config.fanout.failure = .completeInFlight →
      sink.chunks = [] →
      (∀ w w', drift w w' → w'.sink.chunks = w.sink.chunks ∧
        w'.store.resultsFor r.session = w.store.resultsFor r.session) →
      Process.Run e.config.fanout World.perform drift (.line (script p))
        (World.start environment sink p.log) h q w →
      q.ending?.isSome = true → (∀ x ∈ h, x.2.isRefusal = false) →
      FiledAsShown p.registry r.session environment.services.store w.store w.sink.chunks ∧
        p.registry.SavesByName e.tools := by
  refine ⟨fun h step m xs out hends haccepts => ?_, ?_⟩
  · exact (AgentHandle.ends_rounds hends).reported (by omega) haccepts
  intro M _ e services r p environment sink drift h q w hprepared hpolicy hsink hdrift hrun hended
    haccepts
  obtain ⟨ending, hending⟩ := Option.isSome_iff_exists.mp hended
  have hends : (script p).Ends .completeInFlight h ending := ⟨q, hpolicy ▸ hrun.reaches, hending⟩
  have hfiled := script_filed hprepared hends haccepts
  obtain ⟨records, hresults, hkept⟩ :=
    World.results_of_run (fun w w' hd => (hdrift w w' hd).2) hrun
  obtain ⟨filed, rfl, hkeyed⟩ := exists_keyed Saving.step hkept
  refine ⟨⟨filed, hresults, fun step => ?_⟩, savesByName_of_prepared hprepared⟩
  have hrounds : w.sink.chunks.filterMap Chunk.round?
      = h.filterMap fun x => x.2.act.round? := by
    have htrace := World.trace_of_run (fun w w' hd => (hdrift w w' hd).1) hrun
    rw [World.start, hsink, List.map_nil, List.nil_append] at htrace
    rw [rounds_of_trace htrace]
    exact List.filterMap_map
  have hshown : (h.filterMap fun x => x.2.saving? r.session).filter (fun s => s.step = step)
      = p.registry.savings
          ((h.filterMap fun x => x.2.act.round?).filter fun s => s.step = step) := by
    rw [List.filter_filterMap, List.filter_filterMap]
    exact hfiled.shown step
  rw [hrounds, ← hshown]
  exact hkeyed step

/-- The first call saves a result; the second one does too, and then asks for a
tool that there is not. -/
def savingEnvironment : Environment Rehearsal.ScriptedModel :=
  let save (id content : String) : Rehearsal.ScriptedCall :=
    ⟨id, Tool.saveResultsName, .object [("result", .string content)], none⟩
  { silentEnvironment with
    model := { replies := [("",
      [{ Rehearsal.Reply.plain with toolCalls := [save "1" "x"] }, Rehearsal.Reply.plain,
        { Rehearsal.Reply.plain with toolCalls := [save "2" "y", ⟨"3", "none", .null, none⟩] }])] } }

/-- One branch after the other, and the failure of the second one. -/
def secondFails : List (List Nat × Move) :=
  let branch (i acts : Nat) : List (List Nat × Move) :=
    ([], .dispatch i) :: List.replicate acts ([i], .act) ++ [([], .finish i), ([], .join i)]
  ([], .fork) :: branch 0 17 ++ branch 1 10 ++ ([], .collect) :: List.replicate 5 ([], .act)

/-- A call that has used a tool, and a run in which two results are saved, one
of them by a call that fails in the same round. -/
theorem effects_shown_saving :
    (∃ rounds tail xs out, xs.length = 9 ∧
      AgentHandle.shouting.Reported "cry" (.user []) rounds tail xs out) ∧
    ∃ (p : Prepared) (w : World Rehearsal.ScriptedModel),
      echoing.prepareAllowed emptyServices echoed = .ok p ∧
        (w.store.resultsFor "s").map ResultRecord.content = ["x", "y"] ∧
        FiledAsShown p.registry "s" emptyServices.store w.store w.sink.chunks := by
  constructor
  · let w : World Rehearsal.ScriptedModel :=
      .start AgentHandle.asking .buffered (.start "t" "s" "a" ⟨"", "", ""⟩)
    have hends := Prog.ends_alone World.perform (AgentHandle.shouting.invoke "cry" (.user [])) w
    have hchecks : ((AgentHandle.shouting.invoke "cry" (.user [])).alone World.perform w).1.length
        = 9 ∧ ((AgentHandle.shouting.invoke "cry" (.user [])).alone World.perform w).1.all
          (fun x => !x.isRefusal) = true := by
      decide +kernel
    obtain ⟨rounds, tail, hreported⟩ := effects_shown.1 _ _ _ _ _ hends fun x hx => by
      simpa using List.all_eq_true.mp hchecks.2 x hx
    exact ⟨rounds, tail, _, _, hchecks.1, hreported⟩
  · have hplayed : (echoing.prepareAllowed emptyServices echoed).toOption.any (fun p =>
        (Process.play? echoing.config.fanout World.perform secondFails (.line (script p))
          (World.start savingEnvironment .buffered p.log)).any fun x =>
            x.2.1.ending?.isSome && (x.1.all fun y => !y.2.isRefusal) &&
              (x.2.2.store.resultsFor "s").map ResultRecord.content == ["x", "y"]) = true := by
      decide +kernel
    obtain ⟨p, hp, hany⟩ := (Option.any_eq_true ..).mp hplayed
    obtain ⟨⟨h, q, w⟩, hplay, hchecks⟩ := (Option.any_eq_true ..).mp hany
    simp only [Bool.and_eq_true] at hchecks
    obtain ⟨⟨hended, haccepts⟩, hcontents⟩ := hchecks
    have hprepared := eq_ok_of_toOption hp
    have hrun : Process.Run echoing.config.fanout World.perform Eq (.line (script p))
        (World.start savingEnvironment .buffered p.log) h q w := Process.Run.start.play hplay
    obtain ⟨hfiled, -⟩ := effects_shown.2 echoing emptyServices echoed p savingEnvironment .buffered
      Eq h q w hprepared rfl rfl (fun w w' hw => hw ▸ ⟨rfl, rfl⟩) hrun hended fun x hx => by
        simpa using List.all_eq_true.mp haccepts x hx
    exact ⟨p, w, hprepared, eq_of_beq hcontents, hfiled⟩

end Engine

end Ensemble
