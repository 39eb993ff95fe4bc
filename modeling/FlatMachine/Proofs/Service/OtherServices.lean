import FlatMachine.Proofs.World.Deeds
import FlatMachine.Proofs.Service.ItemInvariants
import FlatMachine.Proofs.Service.Lifecycle

/-! # What other services do

An assertion that is about one service at most stands by, whatever others do:
**`Engine.Bystands`** says that it outlasts what is not about the service, **`Engine.Sustains`**
that it outlasts callbacks.  So it outlasts all that other services do
(**`Engine.Bystands.working`**), with their drains and their starts. -/

namespace FlatMachine

/-- The outcome of an invocation comes in. -/
def Entry.isArrival : Entry → Bool
  | accepted _ (.outcome _) => true
  | _ => false

namespace Engine

open Run

/-- The assertion outlasts whatever is not about the service; of the outcomes that come in,
nothing is said. -/
structure Bystands (g : Engine) (i : Nat) (K : World → Prop) : Prop where
  aside : ∀ {w w' : World}, w.Advances w' → K w → K w'
  noted : ∀ {w : World} {e : Entry}, e.deed? ≠ some i → e.isArrival = false → K w → K (w.noted e)
  others : ∀ {w : World} {j : Nat} (f : Service → Service), j ≠ i → K w → K (w.change j f)
  created : ∀ {w : World} {s : Service}, s.Fresh → K w → K { w with services := w.services ++ [s] }

/-- The assertion outlasts callbacks. -/
def Sustains (g : Engine) (K : World → Prop) : Prop :=
  ∀ owner f args c, Respects K (g.call owner f args c)

namespace Bystands

variable {g : Engine} {i j : Nat} {K : World → Prop}

theorem note (h : g.Bystands i K) {e : Entry} (deed : e.deed? ≠ some i)
    (news : e.isArrival = false) : Respects K (note e) :=
  fun _ => h.noted deed news

theorem ofOther (h : g.Bystands i K) (hij : j ≠ i) {f : Service → Service} :
    Respects K (update j f) :=
  fun _ => h.others f hij

theorem working (h : g.Bystands i K) (hc : g.Sustains K) (hij : j ≠ i) : g.Working j K where
  aside := h.aside
  noted := by
    intro w e he
    have other : e.deed? ≠ some i := fun deed => hij <| by
      cases he with
      | acting acting =>
        cases acting with
        | quiet quiet =>
          cases quiet with
          | free free =>
            cases free with
            | cancel | error => exact absurd deed (Entry.deed?_of_other rfl)
            | _ => cases deed
          | guard | member => exact Owner.service.inj (Entry.deed?_called.mp deed).1
          | _ => exact Option.some.inj deed
        | action => exact Owner.service.inj (Entry.deed?_called.mp deed).1
      | hook | source => exact Owner.service.inj (Entry.deed?_called.mp deed).1
      | _ => exact Option.some.inj deed
    refine h.noted other ?_
    cases he with
    | acting acting =>
      cases acting with
      | quiet quiet =>
        cases quiet with
        | free free => cases free <;> rfl
        | _ => rfl
      | action => rfl
    | _ => rfl
  changed := fun _ => h.others _ hij
  calls := hc

theorem publish (h : g.Bystands i K) (hc : g.Sustains K) (hij : j ≠ i) :
    Respects K (g.publish j) := by
  refine (h.working hc hij).quiet.free.publish (fun {w e} announced => ?_) fun sn => h.others _ hij
  refine h.noted (fun deed => hij ?_) (by cases announced <;> rfl)
  cases announced with
  | listener => exact Owner.service.inj (Entry.deed?_called.mp deed).1
  | _ => exact Option.some.inj deed

theorem processPending (h : g.Bystands i K) (hc : g.Sustains K) (hij : j ≠ i) (fuel : Nat) :
    Respects K (g.processPending j fuel) := by
  have processNext (s : Service) (item : Item) : Respects K (g.processNext j s item) := by
    refine .bind (h.ofOther hij) fun _ =>
      .bind (h.note (fun deed => hij (Option.some.inj deed)) rfl) fun _ => ?_
    refine .bind ((h.working hc hij).process item) fun _ => .peek fun after =>
      .ite (fun _ => ?_) fun _ => .pure
    exact .ite (fun _ => .bind (h.publish hc hij) fun _ => .pure) fun _ => .pure
  induction fuel with
  | zero => exact .throw
  | succ fuel ih =>
    refine .peek fun s => ?_
    split
    · exact .pure
    · refine .ite (fun _ => ?_) fun _ => .pure
      exact .bind (processNext s _) fun more => .ite (fun _ => ih) fun _ => .pure

theorem draining (h : g.Bystands i K) (hij : j ≠ i) {body : Run Unit} (hb : Respects K body) :
    Respects K (draining j body) := by
  have frame (e : Entry) (deed : e.deed? = some j) (news : e.isArrival = false) :
      Respects K (Run.note e) :=
    h.note (fun other => hij (Option.some.inj (deed.symm.trans other))) news
  refine .bind (h.ofOther hij) fun _ => .bind (frame (.began j) rfl rfl) fun _ =>
    .bind ?_ fun _ => ?_
  · refine .tryCatch hb fun halt => .bind (h.ofOther hij) fun _ => ?_
    exact .bind (frame (.ended j (some halt)) rfl rfl) fun _ => .throw
  · exact .bind (h.ofOther hij) fun _ => frame (.ended j none) rfl rfl

theorem runQueue (h : g.Bystands i K) (hc : g.Sustains K) (hij : j ≠ i) :
    Respects K (g.runQueue j) :=
  .peek fun _ => .ite (fun _ => .pure) fun _ => h.draining hij (h.processPending hc hij _)

theorem accept (h : g.Bystands i K) (hc : g.Sustains K) (hij : j ≠ i) {item : Item}
    (arrives : Respects K (Run.note (.accepted j item))) : Respects K (g.accept j item) :=
  .bind (h.ofOther hij) fun _ => .bind arrives fun _ => h.runQueue hc hij

theorem start (h : g.Bystands i K) (hc : g.Sustains K) (hij : j ≠ i) (override : Value) :
    Respects K (g.start j override) := by
  have working := h.working hc hij
  refine .peek fun s => .ite (fun _ => ?_) fun _ => .pure
  refine .bind .ofExcept fun base => .bind .ofExcept fun merged => ?_
  refine .bind (.bind working.quiet.free.mint fun _ => .pure) fun c =>
    .bind (h.ofOther hij) fun _ => ?_
  refine .bind (h.note nofun rfl) fun _ => h.draining hij ?_
  exact .bind (working.enter .init) fun _ => .bind (h.publish hc hij) fun _ =>
    h.processPending hc hij _

end Bystands
end Engine
end FlatMachine
