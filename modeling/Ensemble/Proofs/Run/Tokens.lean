import Ensemble.Proofs.Run.Trace
import Ensemble.Proofs.Usage.Accounts
import Ensemble.Proofs.Usage.Sessions

/-!
# Tokens of a session in a run

An act changes the tokens of a session only if it is an update that the
session takes, and then by what the update says (`perform_tokens`); the
statistics change only with a record (`aggregate_of_stats_ne`). So the
total of a session after a run is the one before it and the updates of the
history (`tokens_of_run`), if nobody else changes it meanwhile.
-/

namespace Ensemble

/-- The tokens of a session: none if there is no such session yet. -/
def Store.tokens (id : String) (s : Store) : Tokens :=
  ((s.session? id).map Session.usage).getD .zero

/-- The tokens that an exchange adds to a session, if the session takes them. -/
def Exchange.takenBy? (id : String) (x : Exchange Act Act.Reply) : Option Tokens :=
  x.taken?.bind fun entry => if id = entry.1 then some entry.2 else none

theorem Store.tokens_recordUsage (u : SessionUsage) (s : Store) (id : String) :
    (s.recordUsage u).2.tokens id
      = if id = u.session then s.tokens id + u.delta else s.tokens id := by
  rw [tokens, session?_recordUsage]
  by_cases hid : id = u.session
  · rw [if_pos hid, if_pos hid, hid, tokens, recordUsage]
    cases s.session? u.session <;> rfl
  · rw [if_neg hid, if_neg hid, tokens]

theorem Store.tokens_finalize (session : String) (time : Instant) (s : Store) (id : String) :
    (s.finalize session time).2.tokens id = s.tokens id := by
  rw [tokens, session?_finalize]
  by_cases hid : id = session
  · rw [if_pos hid, hid, tokens]
    cases s.session? session <;> rfl
  · rw [if_neg hid, tokens]

/-! ## What an act does to the stores -/

/-- What an exchange can do to the store. -/
inductive Exchange.Stores : Exchange Act Act.Reply → Store → Store → Prop
  | keeps {x : Exchange Act Act.Reply} {s : Store} (hx : x.taken? = none) : Stores x s s
  | takes {session agent : String} {delta : Tokens} {s : Store} (time : Instant) :
      Stores ⟨.recordSession session agent delta, .ok { session, agent, delta, time }⟩ s
        (s.recordUsage { session, agent, delta, time }).2
  | counts {stat : Usage.Stat} {s : Store} : Stores ⟨.aggregate stat, ()⟩ s (s.aggregate stat)
  | bills {usage : SessionUsage} {stat : Usage.Stat} {s : Store} :
      Stores ⟨.bill usage stat, ()⟩ s (s.bill usage stat)
  | saves {tool : Tool} {args : Json} {context : ToolContext} {reply : Except ToolError Json}
      {s : Store} (record : ResultRecord) :
      Stores ⟨.invoke tool args context, reply⟩ s (s.save record)
  | finishes {session : String} {s : Store} (time : Instant) :
      Stores ⟨.finalize session, ()⟩ s (s.finalize session time).2

namespace World

variable {M : Type}

def store (w : World M) : Store := w.environment.services.store

/-- A call of a service fails and changes nothing, or it succeeds. -/
theorem serve_call {α : Type} {f : Services → Except String α × Services} {c : ServiceCall}
    {g : Store → α × Store} {w w' : World M} {reply : Except String α}
    (h : w.serve f = (reply, w')) (hf : ∀ s, f s = s.call c g) :
    ((∃ message, reply = .error message) ∧ w' = w) ∨
      reply = .ok (g w.store).1 ∧ w'.store = (g w.store).2 := by
  rw [serve, hf, Services.call] at h
  by_cases hfault : w.environment.services.faults.contains c = true
  · rw [if_pos hfault] at h
    obtain ⟨rfl, rfl⟩ := Prod.mk.inj h
    exact Or.inl ⟨⟨_, rfl⟩, rfl⟩
  · rw [if_neg hfault] at h
    obtain ⟨rfl, rfl⟩ := Prod.mk.inj h
    exact Or.inr ⟨rfl, rfl⟩

theorem invoke_stores (tool : Tool) (args : Json) (context : ToolContext) (w : World M) :
    Exchange.Stores ⟨.invoke tool args context, (w.invoke tool args context).1⟩ w.store
      (w.invoke tool args context).2.store := by
  cases tool with
  | custom spec run => exact .keeps rfl
  | saveResults usual =>
      rw [invoke]
      split
      · exact .keeps rfl
      · dsimp only
        split
        · rename_i w' hsave
          rcases serve_call hsave fun _ => rfl with ⟨⟨_, hreply⟩, -⟩ | ⟨-, hstore⟩
          · cases hreply
          · rw [hstore]
            exact .saves _
        · rename_i w' hsave
          rcases serve_call hsave fun _ => rfl with ⟨-, rfl⟩ | ⟨hreply, -⟩
          · exact .keeps rfl
          · cases hreply

theorem recordSession_stores {session agent : String} {delta : Tokens} {w w' : World M}
    {reply : Except String SessionUsage} (h : w.recordSession session agent delta = (reply, w')) :
    Exchange.Stores ⟨.recordSession session agent delta, reply⟩ w.store w'.store := by
  unfold recordSession at h
  dsimp only at h
  split at h
  · rename_i found w₁ hrecord
    obtain ⟨rfl, rfl⟩ := Prod.mk.inj h
    rcases serve_call hrecord fun _ => rfl with ⟨⟨_, hreply⟩, -⟩ | ⟨-, hstore⟩
    · cases hreply
    · rw [hstore]
      exact .takes _
  · rename_i message w₁ hrecord
    obtain ⟨rfl, rfl⟩ := Prod.mk.inj h
    rcases serve_call hrecord fun _ => rfl with ⟨-, rfl⟩ | ⟨hreply, -⟩
    · exact .keeps rfl
    · cases hreply

theorem finalize_stores (session : String) (w : World M) :
    Exchange.Stores ⟨.finalize session, ()⟩ w.store (w.finalize session).store := by
  unfold finalize
  split
  · rename_i finalized w' hfinalize
    rcases serve_call hfinalize fun _ => rfl with ⟨⟨_, hreply⟩, -⟩ | ⟨-, hstore⟩
    · cases hreply
    · change Exchange.Stores _ _ w'.store
      rw [hstore]
      exact .finishes _
  · rename_i message w' hfinalize
    rcases serve_call hfinalize fun _ => rfl with ⟨-, rfl⟩ | ⟨hreply, -⟩
    · exact .keeps rfl
    · cases hreply

variable [LanguageModel M]

theorem perform_stores (a : Act) (w : World M) :
    Exchange.Stores ⟨a, (perform a w).1⟩ w.store (perform a w).2.store := by
  cases a with
  | invoke tool args context => exact invoke_stores tool args context w
  | recordSession session agent delta => exact recordSession_stores (w := w) rfl
  | finalize session => exact finalize_stores session w
  | aggregate stat =>
      rcases serve_call (w := w) (f := Services.aggregate stat) rfl fun _ => rfl with
        ⟨-, hkeeps⟩ | ⟨-, hstore⟩
      · exact congrArg store hkeeps ▸ .keeps rfl
      · exact hstore ▸ .counts
  | bill usage stat =>
      rcases serve_call (w := w) (f := Services.bill usage stat) rfl fun _ => rfl with
        ⟨-, hkeeps⟩ | ⟨-, hstore⟩
      · exact congrArg store hkeeps ▸ .keeps rfl
      · exact hstore ▸ .bills
  | _ => exact .keeps rfl

/-! ## What a run does to a session -/

/-- The tokens of a session in a world. -/
def tokens (id : String) (w : World M) : Tokens := w.store.tokens id

/-- Replies say what the session has taken. -/
theorem perform_honest (a : Act) (w : World M) :
    (⟨a, (perform a w).1⟩ : Exchange Act Act.Reply).Honest := by
  have hstores := perform_stores a w
  generalize (⟨a, (perform a w).1⟩ : Exchange Act Act.Reply) = x at hstores ⊢
  generalize (perform a w).2.store = s' at hstores
  cases hstores with
  | keeps hx =>
      obtain ⟨act, reply⟩ := x
      cases act with
      | recordSession session agent delta =>
          change Except String SessionUsage at reply
          cases reply with
          | error message => trivial
          | ok usage => cases hx
      | _ => trivial
  | takes time => exact rfl
  | _ => trivial

/-- Of all acts only an update that the session takes changes its tokens, and
by what the update says. -/
theorem perform_tokens (a : Act) (w : World M) (id : String) :
    (perform a w).2.tokens id
      = w.tokens id + (Exchange.takenBy? id ⟨a, (perform a w).1⟩).getD .zero := by
  have hstores := perform_stores a w
  unfold tokens
  generalize (⟨a, (perform a w).1⟩ : Exchange Act Act.Reply) = x at hstores ⊢
  generalize (perform a w).2.store = s' at hstores ⊢
  cases hstores with
  | keeps hx =>
      rw [Exchange.takenBy?, hx]
      exact (Tokens.add_zero _).symm
  | @takes session agent delta _ time =>
      have htaken : Exchange.takenBy? id ⟨.recordSession session agent delta,
          (.ok { session, agent, delta, time } : Except String SessionUsage)⟩
            = if id = session then some delta else none := rfl
      rw [Store.tokens_recordUsage, htaken]
      by_cases hid : id = session
      · rw [if_pos hid, if_pos hid, Option.getD_some]
      · rw [if_neg hid, if_neg hid]
        exact (Tokens.add_zero _).symm
  | finishes time =>
      rw [Store.tokens_finalize]
      exact (Tokens.add_zero _).symm
  | _ => exact (Tokens.add_zero _).symm

theorem taken?_of_tokens_ne {a : Act} {w : World M} {id : String}
    (hne : (perform a w).2.tokens id ≠ w.tokens id) :
    ∃ delta, (⟨a, (perform a w).1⟩ : Exchange Act Act.Reply).taken? = some (id, delta) ∧
      (perform a w).2.tokens id = w.tokens id + delta := by
  have htokens := perform_tokens a w id
  cases htaken : Exchange.takenBy? id ⟨a, (perform a w).1⟩ with
  | none =>
      rw [htaken] at htokens
      exact absurd (htokens.trans (Tokens.add_zero _)) hne
  | some delta =>
      rw [htaken] at htokens
      obtain ⟨⟨session, delta'⟩, hentry, hid⟩ := Option.bind_eq_some_iff.mp htaken
      by_cases heq : id = session
      · subst heq
        obtain rfl : delta' = delta := by simpa using hid
        exact ⟨delta', hentry, htokens⟩
      · rw [if_neg heq] at hid
        cases hid

/-- Of all acts only a record changes the statistics. -/
theorem aggregate_of_stats_ne {a : Act} {w : World M}
    (hne : (perform a w).2.store.stats ≠ w.store.stats) :
    ∃ stat, a = .aggregate stat ∧
      (perform a w).2.store.stats = Store.insertStat stat w.store.stats := by
  have hstores := perform_stores a w
  generalize hx : (⟨a, (perform a w).1⟩ : Exchange Act Act.Reply) = x at hstores
  generalize (perform a w).2.store = s' at hstores hne ⊢
  obtain rfl : a = x.act := congrArg Exchange.act hx
  cases hstores with
  | counts => exact ⟨_, rfl, rfl⟩
  | finishes time =>
      refine absurd ?_ hne
      unfold Store.finalize
      split <;> rfl
  | _ => exact absurd rfl hne

variable {β : Type} {config : FanoutConfig} {drift : World M → World M → Prop}
  {p₀ p : Process Act Act.Reply β} {w₀ w : World M} {h : History Act Act.Reply}

theorem honest_of_run (hrun : Process.Run config perform drift p₀ w₀ h p w) :
    ∀ x ∈ h, x.2.Honest := by
  refine hrun.along (fun h _ => ∀ x ∈ h, x.2.Honest) (by simp) (fun _ _ _ hh _ => hh) ?_
  intro h w task a hh x hx
  rcases List.mem_append.mp hx with hx | hx
  · exact hh x hx
  · obtain rfl := List.mem_singleton.mp hx
    exact perform_honest a w

/-- The tokens that a session has taken in a history. -/
def tokensTaken (id : String) (h : History Act Act.Reply) : List Tokens :=
  h.filterMap fun x => x.2.takenBy? id

/-- If nobody else changes a session, its total after a run is the one before
it and what it has taken in the run. -/
theorem tokens_of_run {id : String} (hdrift : ∀ w w', drift w w' → w'.tokens id = w.tokens id)
    (hrun : Process.Run config perform drift p₀ w₀ h p w) :
    w.tokens id = w₀.tokens id + .sum (tokensTaken id h) := by
  refine hrun.along (fun h w => w.tokens id = w₀.tokens id + .sum (tokensTaken id h)) ?_ ?_ ?_
  · exact (Tokens.add_zero _).symm
  · intro h w w' hw hd
    rw [hdrift w w' hd, hw]
  · intro h w task a hw
    rw [tokensTaken, List.filterMap_append, Tokens.sum_append, ← Tokens.add_assoc, ← tokensTaken,
      ← hw, perform_tokens, List.filterMap_cons]
    cases Exchange.takenBy? id ⟨a, (perform a w).1⟩ with
    | none => rfl
    | some delta => exact congrArg (w.tokens id + ·) (Tokens.sum_singleton delta).symm

end World

end Ensemble
