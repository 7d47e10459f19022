import Ensemble.Proofs.Process.Acts

/-!
# What makes a task crash

`Prog.Robust Fault` and `Script.Robust Fault` say that a program or a
script does not crash by itself, but only after a reply that is a fault.
Branches are left out: a crash of a branch is an outcome that its node
learns of. So when the outermost task has crashed, one of its own acts got
a reply that is a fault (`Script.Robust.fault_of_crash`).
-/

namespace Ensemble

variable {A : Type} {R : A → Type} {α β γ : Type} {Fault : (a : A) → R a → Prop}

namespace Prog

/-- The program crashes at most after a fault. -/
def Robust (Fault : (a : A) → R a → Prop) : Prog A R α → Prop
  | .ret _ => True
  | .act a next => ∀ reply, ¬Fault a reply → (next reply).Robust Fault
  | .pause _ next => next.Robust Fault
  | .crash => False

variable {p : Prog A R α} {f : α → Prog A R γ}

theorem Safe.robust (hp : p.Safe) : p.Robust Fault := by
  induction p with
  | ret a => trivial
  | act a next ih => exact fun reply _ => ih reply (hp reply)
  | pause ms next ih => exact ih hp
  | crash => exact hp.elim

theorem Robust.bind (hp : p.Robust Fault) (hf : ∀ a, (f a).Robust Fault) :
    (p.bind f).Robust Fault := by
  induction p with
  | ret a => exact hf a
  | act a next ih => exact fun reply hreply => ih reply (hp reply hreply)
  | pause ms next ih => exact ih hp
  | crash => exact hp.elim

/-- If the program has crashed, one of its acts was answered by a fault. -/
theorem Robust.fault_of_crash (hp : p.Robust Fault) {xs : List (Exchange A R)}
    (hr : p.Ends xs none) : ∃ x ∈ xs, Fault x.act x.reply := by
  induction p generalizing xs with
  | ret a => cases (ends_ret hr).2
  | act a next ih =>
      obtain ⟨reply, ys, rfl, hnext⟩ := ends_act hr
      by_cases hfault : Fault a reply
      · exact ⟨⟨a, reply⟩, List.mem_cons_self .., hfault⟩
      · obtain ⟨x, hx, hx'⟩ := ih reply (hp reply hfault) hnext
        exact ⟨x, List.mem_cons_of_mem _ hx, hx'⟩
  | pause ms next ih => exact ih hp (ends_pause hr)
  | crash => exact hp.elim

end Prog

namespace Script

/-- The task of the script crashes at most after a fault, whatever becomes
of its branches. -/
inductive Robust (Fault : (a : A) → R a → Prop) : Script A R β → Prop
  | ret (r : Except FlowError β) : Robust Fault (.ret r)
  | act {a : A} {next : R a → Script A R β}
      (tail : ∀ reply, ¬Fault a reply → Robust Fault (next reply)) : Robust Fault (.act a next)
  | pause {ms : Nat} {next : Script A R β} (tail : Robust Fault next) :
      Robust Fault (.pause ms next)
  | fork (branches : List (Script A R β)) {next : List (BranchOutcome β) → Script A R β}
      (tail : ∀ outcomes, Robust Fault (next outcomes)) : Robust Fault (.fork branches next)

variable {s : Script A R β} {policy : FailurePolicy} {h : History A R} {p : Process A R β}

theorem robust_andThen_prog {prog : Prog A R α} {k : α → Script A R β} (hp : prog.Robust Fault)
    (hk : ∀ a, (k a).Robust Fault) : (prog.andThen k).Robust Fault := by
  induction prog with
  | ret a => exact hk a
  | act a next ih => exact .act fun reply hreply => ih reply (hp reply hreply)
  | pause ms next ih => exact .pause (ih hp)
  | crash => exact hp.elim

theorem Robust.andThen {k : Except FlowError β → Script A R β} (hs : s.Robust Fault)
    (hk : ∀ r, (k r).Robust Fault) : (s.andThen k).Robust Fault := by
  induction hs with
  | ret r => exact hk r
  | act _ ih => exact .act ih
  | pause _ ih => exact .pause ih
  | fork branches _ ih => exact .fork branches ih

/-- If the outermost task has crashed, one of its acts was answered by a fault. -/
theorem Robust.fault_of_crash (hs : s.Robust Fault) (hr : s.Ends policy h .crashed) :
    ∃ x, ([], x) ∈ h ∧ Fault x.act x.reply := by
  obtain ⟨p, hr, he⟩ := hr
  induction hr with
  | start s =>
      cases hs with
      | ret r => cases r <;> cases he
      | act | pause | fork => cases he
  | @act a next reply h p _ ih =>
      cases hs with
      | act tail =>
          by_cases hfault : Fault a reply
          · exact ⟨⟨a, reply⟩, List.mem_cons_self .., hfault⟩
          · obtain ⟨x, hx, hx'⟩ := ih (tail reply hfault) he
            exact ⟨x, List.mem_cons_of_mem _ hx, hx'⟩
  | pause _ ih =>
      cases hs with
      | pause tail => exact ih tail he
  | fork => cases he
  | collect _ _ _ _ _ ih =>
      cases hs with
      | fork _ tail =>
          obtain ⟨x, hx, hx'⟩ := ih (tail _) he
          exact ⟨x, List.mem_append_right _ hx, hx'⟩

end Script

end Ensemble
