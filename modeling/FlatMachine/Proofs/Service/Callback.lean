import FlatMachine.Proofs.World.Goes

/-! # Where callbacks go

An engine is **`Engine.Tame`** if anybody may call what it calls.  Then whatever is firm outlasts
the actions, guards, hooks and cancel callbacks that a service has called on its behalf, and each
of them is called in a role that the live state's definition sanctions. -/

namespace FlatMachine

/-- Anybody may call whatever the engine calls. -/
def Engine.Tame (g : Engine) : Prop := ∀ owner f args c, (g.call owner f args c).Tame

theorem World.Sanctions.ofUnvetted {w : World} {owner : Owner} {role : Role} {f : Value}
    (h : role.isVetted = false) :
    w.Sanctions owner role f := by
  intro i _ hv
  rw [h] at hv
  cases hv

/-- The guard of a transition can be called. -/
def World.SanctionsGuard (w : World) (owner : Owner) (candidate : Value) : Prop :=
  ∀ t, Transition.ofValue? candidate = some t → t.guard.isNull = false →
    w.Sanctions owner .guard t.guard

namespace Engine

open Run

variable {g : Engine} {sc : Scope} {P : World → Prop} {owner : Owner}

theorem run_invoke (role : Role) (f : Value) (args : List Object) (w : World) :
    (g.invoke owner role f args).run w =
      match (g.call owner f args none).run (w.noted (.called owner role f args)) with
      | (.ok a, w') => (.ok a.1, w')
      | (.error h, w') => (.error h, w') := by
  unfold invoke
  rw [run_bind, run_note]
  dsimp only
  rw [run_bind]
  rcases (g.call owner f args none).run
    (w.noted (.called owner role f args)) with ⟨h | a, w'⟩ <;> rfl

theorem goes_invoke (hg : g.Tame) (hP : Firm P) {role : Role} {f : Value} {args : List Object}
    (other : role.isCancel = false) (hs : ∀ w, P w → w.Sanctions owner role f) :
    (g.invoke owner role f args).Goes sc P fun _ => P := by
  unfold invoke
  refine .bind (.noted hP fun w hw => .call other (hs w hw)) fun _ => ?_
  exact .bind (.frame hP (hg _ _ _ _)) fun _ => .pure fun _ => id

theorem goes_callMember (hg : g.Tame) (hP : Firm P) {v : Value} {name : String}
    {args : List Object} :
    (g.callMember owner v name args).Goes sc P fun _ => P := by
  unfold callMember
  refine .learn .member fun f _ => ?_
  exact .bind (goes_invoke hg hP rfl fun _ _ => .ofUnvetted rfl) fun _ => .pure fun _ => id

/-! ### Actions -/

theorem goes_runAction (hg : g.Tame) (hP : Firm P) {e : Event} {c : Context} {f : Value}
    (hs : ∀ w, P w → w.Sanctions owner .action f) :
    (g.runAction owner e c f).Goes sc P fun _ => P := by
  unfold runAction
  refine .bind (.noted hP fun w hw => .call rfl (hs w hw)) fun _ => ?_
  exact .bind (.frame hP (hg _ _ _ _)) fun _ => .pure fun _ => id

theorem goes_runActions (hg : g.Tame) (hP : Firm P) {actions : List Value} {c : Context} {e : Event}
    (hs : ∀ w, P w → ∀ f ∈ actions, w.Sanctions owner .action f) :
    (g.runActions owner actions c e).Goes sc P fun _ => P := by
  unfold runActions
  exact .foldlM (fun c f hf => goes_runAction hg hP fun w hw => hs w hw f hf) c

theorem goes_runActionsOf (hg : g.Tame) (hP : Firm P) {actions : Value} {c : Context} {e : Event}
    (hs : ∀ w, P w → ∀ fs, actions.items = .ok fs → ∀ f ∈ fs, w.Sanctions owner .action f) :
    (g.runActionsOf owner actions c e).Goes sc P fun _ => P := by
  unfold runActionsOf
  refine .ite (fun _ => .learn .ofExcept fun fs hfs => ?_) fun _ => .pure fun _ => id
  exact goes_runActions hg hP fun w hw => hs w hw fs hfs

/-! ### Candidates -/

theorem goes_guardHolds (hg : g.Tame) (hP : Firm P) {t : Transition} {c : Context} {e : Event}
    (hs : ∀ w, P w → t.guard.isNull = false → w.Sanctions owner .guard t.guard) :
    (g.guardHolds owner t c e).Goes sc P fun _ => P := by
  unfold guardHolds
  refine .ite (fun _ => .pure fun _ => id) fun hn => ?_
  have hn : t.guard.isNull = false := by simpa using hn
  exact .bind (goes_invoke hg hP rfl fun w hw => hs w hw hn) fun _ => .pure fun _ => id

theorem goes_isEligible (hg : g.Tame) (hP : Firm P) {candidate : Value} {c : Context} {e : Event}
    (hs : ∀ w, P w → w.SanctionsGuard owner candidate) :
    (g.isEligible owner candidate c e).Goes sc P fun _ => P := by
  unfold isEligible
  split
  · exact goes_guardHolds hg hP fun w hw => hs w hw _ ‹_›
  · exact .bind (goes_callMember hg hP) fun _ => .pure fun _ => id

/-- What is resolved is one of the candidates. -/
theorem goes_resolveFrom (hg : g.Tame) (hP : Firm P) {candidates : List Value}
    {c : Context} {e : Event} (hs : ∀ w, P w → ∀ v ∈ candidates, w.SanctionsGuard owner v)
    (n : Nat) :
    (g.resolveFrom owner c e n candidates).Goes sc P fun found w =>
      P w ∧ ∀ p, found = some p → p.2 ∈ candidates := by
  induction candidates generalizing n with
  | nil => exact .pure fun _ hw => ⟨hw, nofun⟩
  | cons v rest ih =>
    refine .bind (goes_isEligible hg hP fun w hw => hs w hw v List.mem_cons_self) fun eligible => ?_
    refine .ite (fun _ => .pure fun _ hw => ⟨hw, fun p hp => ?_⟩) fun _ => ?_
    · cases hp
      exact List.mem_cons_self
    · refine (ih (fun w hw v hv => hs w hw v (List.mem_cons_of_mem _ hv)) (n + 1)).post
        fun found w h => ?_
      exact ⟨h.1, fun p hp => List.mem_cons_of_mem _ (h.2 p hp)⟩

theorem goes_resolve (hg : g.Tame) (hP : Firm P) {candidates : List Value} {c : Context} {e : Event}
    (hs : ∀ w, P w → ∀ v ∈ candidates, w.SanctionsGuard owner v) :
    (g.resolve owner candidates c e).Goes sc P fun found w =>
      P w ∧ ∀ p, found = some p → p.2 ∈ candidates :=
  goes_resolveFrom hg hP hs 0

/-- A candidate that is a transition answers by its target. -/
theorem goes_internality (hg : g.Tame) (hP : Firm P) {candidate current : Value} :
    (g.internality owner candidate current).Goes sc P fun v w =>
      P w ∧ ∀ t, Transition.ofValue? candidate = some t → v = .bool (t.isInternal current) := by
  unfold internality
  split
  · rename_i t ht
    refine .pure fun _ hw => ⟨hw, fun t' ht' => ?_⟩
    cases ht.symm.trans ht'
    rfl
  · rename_i hn
    exact (goes_callMember hg hP).post fun _ _ hw => ⟨hw, fun t ht => by rw [hn] at ht; cases ht⟩

/-- A node that is one has its candidates by event type. -/
theorem goes_candidatesFor (hg : g.Tame) (hP : Firm P) {node : Value} {type : String} :
    (g.candidatesFor owner node type).Goes sc P fun candidates w =>
      P w ∧ ∀ n, Node.ofValue? node = some n → candidates = n.candidatesFor type := by
  unfold candidatesFor
  split
  · rename_i n hn
    refine .pure fun _ hw => ⟨hw, fun n' hn' => ?_⟩
    cases hn.symm.trans hn'
    rfl
  · rename_i hn
    refine .bind (goes_callMember hg hP) fun _ => Goes.ofExcept.post fun _ _ hw =>
      ⟨hw.1, fun n hn' => ?_⟩
    rw [hn] at hn'
    cases hn'

/-! ### Hooks and cancel callbacks -/

theorem goes_observe (hg : g.Tame) (hP : Firm P) {hooks : List Hook} {m : Moment}
    {args : List Object} :
    (g.observe owner hooks m args).Goes sc P fun _ => P := by
  unfold observe
  refine .forM fun h _ => ?_
  split
  · exact .pure fun _ => id
  · exact .discard (goes_invoke hg hP rfl fun _ _ => .ofUnvetted rfl)

/-- What is left to do of a cancel callback once its call is written into the journal. -/
def finishCancel (g : Engine) (owner : Owner) (f : Value) : Run (Option Failure) :=
  rescue (do discard (g.call owner f [] none); return none) fun failure => do
    record .warning "Invocation cancel callback failed; ignoring"
    return some failure

theorem run_callCancel (t : Option Token) (f : Value) (w : World) :
    (g.callCancel owner t f).run w =
      (g.finishCancel owner f).run (w.noted (.called owner (.cancel t) f [])) := by
  unfold callCancel finishCancel rescue
  rw [run_tryCatch, run_tryCatch, run_bind, run_bind, run_discard, run_discard, run_invoke]
  rcases (g.call owner f [] none).run
    (w.noted (.called owner (.cancel t) f [])) with ⟨h | a, w'⟩ <;> rfl

theorem tame_finishCancel (hg : g.Tame) {f : Value} : (g.finishCancel owner f).Tame := by
  refine .rescue .ofSane ?_ fun failure => ?_
  · exact .bind (.discard (.frame .ofSane (hg _ _ _ _))) fun _ => .pure fun _ => id
  · exact .bind (.record .ofSane) fun _ => .pure fun _ => id

end Engine
end FlatMachine
