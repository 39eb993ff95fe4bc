import FlatMachine.Service.Running
import FlatMachine.Proofs.Service.Lifecycle

/-! # Where programs go

Every effect that a program can have is one that anybody may have, so programs are tame, and so
is the engine of any book (**`Engine.tame_ofBook`**): a callback takes no part in the drain that
has it called, but through what it returns. -/

namespace FlatMachine

namespace Run

theorem tame_addAwaitable (owner : Owner) (x : Awaitable) : (addAwaitable owner x).Tame := by
  unfold addAwaitable
  refine .bind ?_ fun a => .bind (.aside .ofSane fun _ => ⟨rfl, rfl, rfl⟩) fun _ =>
    .pure fun _ => id
  exact tame_mint owner

theorem tame_addFuture (owner : Owner) : (addFuture owner).Tame :=
  .bind (tame_addAwaitable owner _) fun _ =>
    .bind (.aside .ofSane fun _ => ⟨rfl, rfl, rfl⟩) fun _ => .pure fun _ => id

theorem tame_tick : tick.Tame := by
  unfold tick
  refine .bind .get fun v => .bind (Q := fun _ => World.Sane) (.set fun w h => ?_) fun _ =>
    .pure fun _ => id
  obtain ⟨hw, rfl⟩ := h
  have step : Step .free v { v with clock := v.clock + 1 } := .aside rfl rfl rfl
  exact ⟨.free step, step.sane hw⟩

theorem tame_settleAwaitable (a : AwaitableId) (settlement : Settlement) :
    (settleAwaitable a settlement).Tame := by
  unfold settleAwaitable
  refine .bind .get fun v => ?_
  split
  · rename_i waiters _
    refine .bind (Q := fun _ => World.Sane) (.set fun w h => ?_) fun _ => .pure fun _ => id
    obtain ⟨hw, rfl⟩ := h
    have step : Step .free v { v.setAwaitable a (.future (some settlement) waiters) with
        ready := v.ready ++ waiters.map fun waiter => Ready.complete waiter a } :=
          .aside rfl rfl rfl
    exact ⟨.free step, step.sane hw⟩
  · exact .pure fun _ h => h.1

end Run

namespace Engine

open Run

variable {g : Engine}

theorem tame_sendFor (hg : g.Tame) (owner : Owner) (event : Value) :
    (g.sendFor owner event).Tame := by
  cases owner with
  | service i => exact tame_send hg event
  | bench => exact .aside .ofSane fun _ => ⟨rfl, rfl, rfl⟩

theorem tame_answer (hg : g.Tame) (owner : Owner) (r : Effect) : (g.answer owner r).Tame := by
  cases r with
  | log label values => exact .noted .ofSane fun _ _ => .report rfl
  | call f args => exact goes_invoke hg .ofSane rfl fun _ _ => .ofUnvetted rfl
  | send sender event => exact tame_sendFor hg sender event
  | start i => exact tame_start hg .null
  | stop i => exact tame_stop hg
  | subscribe i name =>
    exact .bind (tame_listenerNamed name none) fun listener => .discard (tame_subscribe listener)
  | unsubscribe n => exact tame_unsubscribe n
  | isActive i t => exact .peek fun _ => .pure fun _ => id
  | cancelInvocation i t => exact tame_revoke hg t
  | liveState i => exact .bind (tame_currentSnapshot false) fun _ => .pure fun _ => id
  | state i => exact .peek fun _ => .pure fun _ => id
  | status i => exact .peek fun _ => .pure fun _ => id
  | future => exact tame_addFuture owner
  | settle a settlement => exact .discard (tame_settleAwaitable a settlement)
  | sharedFuture n =>
    refine .look fun v => ?_
    split
    · exact .pure fun _ => id
    · exact .fail _
  | coroutine pauses body args => exact tame_addAwaitable owner _
  | now => exact tame_tick
  | origin => exact .bind (tame_mint owner) fun _ => .pure fun _ => id

/-- A program goes where its effects go. -/
theorem tame_exec (hg : g.Tame) (owner : Owner) {α : Type} (p : Prog α) (c : Option Context) :
    (g.exec owner p c).Tame := by
  induction p generalizing c with
  | done a => exact .pure fun _ => id
  | fail f => exact .fail f
  | pending next ih =>
    cases c with
    | none => exact .fail _
    | some c => exact ih c (some c)
  | write o next ih =>
    cases c with
    | none => exact .fail _
    | some c => exact .bind (tame_adopt owner o) fun c => ih (some c)
  | ask r next ih => exact .bind (tame_answer hg owner r) fun reply => ih reply c
  | handle r next ih => exact .bind (tame_answer hg owner r).attempt fun reply => ih reply c

/-- Whatever the book and the fuel, callbacks do only what anybody may do. -/
theorem tame_ofBook (book : Book) (fuel : Nat) : (ofBook book fuel).Tame := by
  induction fuel with
  | zero => exact fun _ _ _ _ => .throw _
  | succ fuel ih => exact fun owner f args c => tame_exec ih owner (book f args) c

end Engine

end FlatMachine
