import FlatMachine.Command

/-! # Runs, one computation at a time

What the building blocks of a `Run` do to a world.  `x.run w` is the outcome of `x` in the world
`w`, a result or the reason why it ended early, with the world that it leaves behind; the lemmas
here compute it for the primitive computations and split it for composed ones.  What halts a
computation never takes back what it did. -/

namespace FlatMachine
namespace Run

variable {α β : Type}

theorem run_bind (x : Run α) (f : α → Run β) (w : World) :
    ExceptT.run (x >>= f) w = match x.run w with
      | (.ok a, w') => (f a).run w'
      | (.error h, w') => (.error h, w') := by
  unfold ExceptT.run
  simp only [bind, ExceptT.bind, ExceptT.mk, StateT.bind, ExceptT.bindCont]
  rcases x w with ⟨h | a, w'⟩ <;> rfl

/-- What is done in turn returns only if all of it does. -/
theorem bind_returns {x : Run α} {f : α → Run β} {w w' : World} {b : β}
    (run : (x >>= f).run w = (.ok b, w')) :
    ∃ a v, x.run w = (.ok a, v) ∧ (f a).run v = (.ok b, w') := by
  rw [run_bind] at run
  generalize x.run w = out at run ⊢
  obtain ⟨halt | a, v⟩ := out
  · cases run
  · exact ⟨a, v, rfl, run⟩

theorem run_tryCatch (x : Run α) (f : Halt → Run α) (w : World) :
    ExceptT.run (tryCatch x f) w = match x.run w with
      | (.ok a, w') => (.ok a, w')
      | (.error h, w') => (f h).run w' := by
  unfold ExceptT.run
  simp only [tryCatch, tryCatchThe, MonadExceptOf.tryCatch, ExceptT.tryCatch, bind, ExceptT.mk,
    StateT.bind]
  rcases x w with ⟨h | a, w'⟩ <;> rfl

theorem discard_eq (x : Run α) : (discard x : Run Unit) = x >>= fun _ => pure () := by
  unfold discard
  rw [LawfulFunctor.map_const]
  exact (bind_pure_comp _ _).symm

theorem run_discard (x : Run α) (w : World) :
    ExceptT.run (discard x) w = match x.run w with
      | (.ok _, w') => (.ok (), w')
      | (.error h, w') => (.error h, w') := by
  rw [discard_eq, run_bind]
  rcases x.run w with ⟨h | a, w'⟩ <;> rfl

/-- An attempt ends with a result, unless fuel runs out. -/
theorem run_attempt (x : Run α) (w : World) :
    (attempt x).run w = match x.run w with
      | (.ok a, w') => (.ok (.ok a), w')
      | (.error (.raised f), w') => (.ok (.error f), w')
      | (.error .exhausted, w') => (.error .exhausted, w') := by
  unfold attempt
  rw [run_tryCatch, run_bind]
  rcases x.run w with ⟨(f | _) | a, w'⟩ <;> rfl

theorem run_get (w : World) : ExceptT.run (get : Run World) w = (.ok w, w) := rfl

theorem run_update (i : Nat) (f : Service → Service) (w : World) :
    (update i f).run w = (.ok (), w.change i f) := rfl

theorem run_note (e : Entry) (w : World) : (note e).run w = (.ok (), w.noted e) := rfl

theorem run_ofExcept_ok (a : α) (w : World) : (ofExcept (.ok a)).run w = (.ok a, w) := rfl

theorem run_service {i : Nat} {w : World} {s : Service} (h : w.services[i]? = some s) :
    (service i).run w = (.ok s, w) := by
  unfold service
  rw [run_bind, run_get]
  dsimp only
  rw [h]
  rfl

theorem run_service_none {i : Nat} {w : World} (h : w.services[i]? = none) :
    (service i).run w = (.error (.raised (.missingIndex "list")), w) := by
  unfold service
  rw [run_bind, run_get]
  dsimp only
  rw [h]
  rfl

theorem ofExcept_returns {e : Except Failure α} {w w' : World} {a : α}
    (run : (ofExcept e).run w = (.ok a, w')) :
    e = .ok a ∧ w' = w := by
  cases e with
  | ok => cases run; exact ⟨rfl, rfl⟩
  | error => cases run

theorem service_returns {i : Nat} {w w' : World} {s : Service}
    (run : (service i).run w = (.ok s, w')) :
    w.services[i]? = some s ∧ w' = w := by
  cases hs : w.services[i]? with
  | none => rw [run_service_none hs] at run; cases run
  | some s => rw [run_service hs] at run; cases run; exact ⟨rfl, rfl⟩

theorem run_node {i : Nat} {w : World} {s : Service} (h : w.services[i]? = some s) :
    (node i).run w = (lookUp i (s.machine.node s.stateName)).run w := by
  unfold node
  rw [run_bind, run_service h]

end Run

namespace World

@[simp] theorem change_journal (w : World) (i : Nat) (f : Service → Service) :
    (w.change i f).journal = w.journal := rfl

@[simp] theorem change_points (w : World) (i : Nat) (f : Service → Service) :
    (w.change i f).points = w.points := rfl

@[simp] theorem noted_services (w : World) (e : Entry) : (w.noted e).services = w.services := rfl

@[simp] theorem noted_journal (w : World) (e : Entry) : (w.noted e).journal = e :: w.journal := rfl

@[simp] theorem noted_points (w : World) (e : Entry) :
    (w.noted e).points = ⟨w.services, e :: w.journal⟩ :: w.points := rfl

theorem change_services (w : World) (i j : Nat) (f : Service → Service) :
    (w.change i f).services[j]? = if i = j then w.services[j]?.map f else w.services[j]? := by
  show (w.services.modify i f)[j]? = _
  rw [List.getElem?_modify]
  split <;> simp

theorem change_self {w : World} {i : Nat} {s : Service} (f : Service → Service)
    (h : w.services[i]? = some s) :
    (w.change i f).services[i]? = some (f s) := by
  rw [change_services, if_pos rfl, h]
  rfl

theorem change_ne (w : World) {i j : Nat} (f : Service → Service) (h : i ≠ j) :
    (w.change i f).services[j]? = w.services[j]? := by
  rw [change_services, if_neg h]

/-- Only what a change does to the service itself counts. -/
theorem change_congr {w : World} {i : Nat} {s : Service} {f g : Service → Service}
    (h : w.services[i]? = some s) (hfg : f s = g s) : w.change i f = w.change i g := by
  have : w.services.modify i f = w.services.modify i g := by
    apply List.ext_getElem?
    intro j
    rw [List.getElem?_modify, List.getElem?_modify]
    by_cases hj : i = j
    · subst hj; simp [h, hfg]
    · simp [hj]
  unfold change
  rw [this]

theorem change_same (w : World) (i : Nat) : w.change i id = w := by
  have : w.services.modify i id = w.services := by
    apply List.ext_getElem?
    intro j
    rw [List.getElem?_modify]
    split <;> simp
  unfold change
  rw [this]

theorem change_id {w : World} {i : Nat} {s : Service} {f : Service → Service}
    (h : w.services[i]? = some s) (hf : f s = s) : w.change i f = w := by
  rw [change_congr h (g := id) hf, change_same]

theorem change_none {w : World} {i : Nat} (f : Service → Service) (h : w.services[i]? = none) :
    w.change i f = w := by
  unfold World.change
  rw [List.modify_eq_self (List.getElem?_eq_none_iff.mp h)]

theorem change_change (w : World) (i : Nat) (f g : Service → Service) :
    (w.change i f).change i g = w.change i (g ∘ f) := by
  have : (w.services.modify i f).modify i g = w.services.modify i (g ∘ f) := by
    apply List.ext_getElem?
    intro j
    rw [List.getElem?_modify, List.getElem?_modify, List.getElem?_modify]
    split <;> simp [Function.comp_def]
  unfold change
  rw [this]

/-! ### What was written -/

/-- What was written since. -/
def since (w' w : World) : List Entry := w'.journal.take (w'.journal.length - w.journal.length)

theorem since_append {w w' : World} {since : List Entry} (h : w'.journal = since ++ w.journal) :
    w'.since w = since := by
  unfold World.since
  rw [h, List.length_append, Nat.add_sub_cancel, List.take_left]

theorem since_still {w w' : World} (h : w'.journal = w.journal) : w'.since w = [] := since_append h

theorem since_change (w : World) (i : Nat) (f : Service → Service) : (w.change i f).since w = [] :=
  since_still rfl

theorem since_noted (w : World) (e : Entry) : (w.noted e).since w = [e] := since_append rfl

theorem since_suffix {w w' : World} (h : w.journal <:+ w'.journal) :
    w'.journal = w'.since w ++ w.journal := by
  obtain ⟨later, journal⟩ := h
  rw [since_append journal.symm, journal]

theorem since_trans {w w' w'' : World} (h : w.journal <:+ w'.journal)
    (h' : w'.journal <:+ w''.journal) :
    w''.since w = w''.since w' ++ w'.since w := by
  refine since_append ?_
  rw [List.append_assoc, ← since_suffix h, ← since_suffix h']

end World
end FlatMachine
