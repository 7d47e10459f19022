import Ensemble.Proofs.Run.Tokens

/-!
# Results saved in a run

A session gets a saved result with each use of the tool that saves them, if
that use gives a value, and in no other way (`perform_results`). So the
results that a session has got in a run are those of the uses in its
history, one for one and in order (`results_of_run`), if nobody else saves
results for it meanwhile.
-/

namespace Ensemble

/-- A use of the tool that saves results, which has saved one. -/
structure Saving where
  step : String
  args : Json
  result : Json

/-- What an exchange saves for a session. -/
def Exchange.saving? (session : String) : Exchange Act Act.Reply → Option Saving
  | ⟨.invoke (.saveResults _) args context, .ok result⟩ =>
    if context.sessionId = session then some { step := context.step, args, result } else none
  | _ => none

/-- A record has the content that the tool was given, and the format that it
has answered. -/
structure Saving.Kept (s : Saving) (record : ResultRecord) : Prop where
  content : Tool.contentToSave s.args = .ok record.content
  answer : s.result = Tool.saved record.format

theorem Exchange.saving?_of_not_use {x : Exchange Act Act.Reply} (hx : ¬x.act.IsUse)
    (session : String) : x.saving? session = none := by
  obtain ⟨a, reply⟩ := x
  cases a <;> first | rfl | exact absurd trivial hx

/-- The results of a session. -/
def Store.resultsFor (session : String) (s : Store) : List ResultRecord :=
  s.results.filter fun record => record.session = session

/-- Only the use of a tool can save a result. -/
theorem Exchange.Stores.results {x : Exchange Act Act.Reply} {s s' : Store} (hs : x.Stores s s')
    (hx : ¬x.act.IsUse) : s'.results = s.results := by
  cases hs with
  | saves record => exact absurd trivial hx
  | finishes time =>
      unfold Store.finalize
      split <;> rfl
  | _ => rfl

namespace World

variable {M : Type} {session : String}

/-- What a use of a tool does to the results of a session. -/
theorem invoke_results (tool : Tool) (args : Json) (context : ToolContext) (w : World M) :
    let x : Exchange Act Act.Reply :=
      ⟨.invoke tool args context, (w.invoke tool args context).1⟩
    (x.saving? session = none ∧ (w.invoke tool args context).2.store.resultsFor session
        = w.store.resultsFor session) ∨
      ∃ s record, x.saving? session = some s ∧ s.Kept record ∧
        (w.invoke tool args context).2.store.resultsFor session
          = w.store.resultsFor session ++ [record] := by
  cases tool with
  | custom spec run => exact Or.inl ⟨rfl, rfl⟩
  | saveResults usual =>
      dsimp only
      rw [invoke]
      split
      · exact Or.inl ⟨rfl, rfl⟩
      · rename_i content hcontent
        dsimp only
        split
        · rename_i w' hsave
          rcases serve_call hsave fun _ => rfl with ⟨⟨_, hreply⟩, -⟩ | ⟨-, hstore⟩
          · cases hreply
          rw [hstore]
          by_cases hsession : context.sessionId = session
          · let record : ResultRecord :=
              { agent := context.agentId, session := context.sessionId, content
                format := Tool.formatToSave usual args, createdAt := w.environment.now
                updatedAt := w.environment.now, finalizedAt := some w.environment.now }
            refine Or.inr ⟨_, record, if_pos hsession, ⟨hcontent, rfl⟩, ?_⟩
            simp [Store.resultsFor, Store.save, hsession, record]
          · refine Or.inl ⟨if_neg hsession, ?_⟩
            simp [Store.resultsFor, Store.save, hsession]
        · rename_i w' hsave
          rcases serve_call hsave fun _ => rfl with ⟨-, rfl⟩ | ⟨hreply, -⟩
          · exact Or.inl ⟨rfl, rfl⟩
          · cases hreply

variable [LanguageModel M]

theorem perform_results (session : String) (a : Act) (w : World M) :
    let x : Exchange Act Act.Reply := ⟨a, (perform a w).1⟩
    (x.saving? session = none ∧
        (perform a w).2.store.resultsFor session = w.store.resultsFor session) ∨
      ∃ s record, x.saving? session = some s ∧ s.Kept record ∧
        (perform a w).2.store.resultsFor session = w.store.resultsFor session ++ [record] := by
  by_cases huse : a.IsUse
  · cases a with
    | invoke tool args context => exact invoke_results tool args context w
    | _ => exact huse.elim
  · refine Or.inl ⟨Exchange.saving?_of_not_use huse session, ?_⟩
    rw [Store.resultsFor, (perform_stores a w).results huse]
    rfl

variable {β : Type} {config : FanoutConfig} {drift : World M → World M → Prop}
  {p₀ p : Process Act Act.Reply β} {w₀ w : World M} {h : History Act Act.Reply}

/-- The results that a session has got in a run are those that its history has
saved. -/
theorem results_of_run
    (hdrift : ∀ w w', drift w w' → w'.store.resultsFor session = w.store.resultsFor session)
    (hrun : Process.Run config perform drift p₀ w₀ h p w) :
    ∃ records, w.store.resultsFor session = w₀.store.resultsFor session ++ records ∧
      List.Forall₂ Saving.Kept (h.filterMap fun x => x.2.saving? session) records := by
  refine hrun.along (fun h w => ∃ records,
    w.store.resultsFor session = w₀.store.resultsFor session ++ records ∧
      List.Forall₂ Saving.Kept (h.filterMap fun x => x.2.saving? session) records) ?_ ?_ ?_
  · exact ⟨[], (List.append_nil _).symm, .nil⟩
  · rintro h w w' ⟨records, hw, hkept⟩ hd
    exact ⟨records, (hdrift w w' hd).trans hw, hkept⟩
  · rintro h w task a ⟨records, hw, hkept⟩
    rw [List.filterMap_append]
    rcases perform_results session a w with
      ⟨hnone, hsame⟩ | ⟨s, record, hsome, hs, hadds⟩
    · refine ⟨records, hsame.trans hw, ?_⟩
      have hlast : ([(task, ⟨a, (perform a w).1⟩)] : History Act Act.Reply).filterMap
          (fun x => x.2.saving? session) = [] := List.filterMap_cons_none hnone
      rwa [hlast, List.append_nil]
    · refine ⟨records ++ [record], ?_, ?_⟩
      · rw [hadds, hw, List.append_assoc]
      · have hlast : ([(task, ⟨a, (perform a w).1⟩)] : History Act Act.Reply).filterMap
            (fun x => x.2.saving? session) = [s] := List.filterMap_cons_some hsome
        rw [hlast]
        exact List.rel_append hkept (.cons hs .nil)

end World

/-! ## Step by step -/

/-- Related lists can be taken apart by a key of the first one. -/
theorem exists_keyed {α β κ : Type} [DecidableEq κ] {R : α → β → Prop} {xs : List α} {ys : List β}
    (key : α → κ) (hxs : List.Forall₂ R xs ys) :
    ∃ keyed : List (κ × β), keyed.map Prod.snd = ys ∧ ∀ k,
      List.Forall₂ R (xs.filter fun x => key x = k)
        ((keyed.filter fun y => y.1 = k).map Prod.snd) := by
  induction hxs with
  | nil => exact ⟨[], rfl, fun _ => .nil⟩
  | @cons x y xs ys hxy _ ih =>
      obtain ⟨keyed, rfl, hkeyed⟩ := ih
      refine ⟨(key x, y) :: keyed, rfl, fun k => ?_⟩
      by_cases hk : key x = k
      · rw [List.filter_cons_of_pos (by simpa using hk),
          List.filter_cons_of_pos (by simpa using hk)]
        exact .cons hxy (hkeyed k)
      · rw [List.filter_cons_of_neg (by simpa using hk),
          List.filter_cons_of_neg (by simpa using hk)]
        exact hkeyed k

end Ensemble
