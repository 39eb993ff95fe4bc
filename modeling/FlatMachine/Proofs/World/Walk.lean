import FlatMachine.Proofs.World.Path

/-! # What a computation leaves as it was

A computation that begins a drain ends it, so the flags of all queues are in the end as they
were, however the computation ends.

* **`World.Draining`**: the flag of the queue is set.
* **`Walk`**: a path that keeps the flags.
* **`World.AtRest`**: nobody drains any queue.  What is in order at rest is in order at the end
  of every walk from there (**`Walk.atRest`**). -/

namespace FlatMachine

namespace World

/-- The flag of the service's queue is set. -/
def Draining (w : World) (i : Nat) : Prop := ∃ s, w.services[i]? = some s ∧ s.queue.draining = true

/-- Nobody drains a queue. -/
structure AtRest (w : World) : Prop where
  sane : w.Sane
  idle : ∀ i, ¬ w.Draining i

theorem not_draining {w : World} {i : Nat} {s : Service} (hs : w.services[i]? = some s) :
    ¬ w.Draining i ↔ s.queue.draining = false := by
  constructor
  · intro h
    cases hd : s.queue.draining with
    | false => rfl
    | true => exact absurd ⟨s, hs, hd⟩ h
  · rintro hd ⟨s', hs', hd'⟩
    cases hs.symm.trans hs'
    rw [hd] at hd'
    cases hd'

theorem not_busy {w : World} {i : Nat} (h : ¬ w.Draining i) : ¬ w.Busy i :=
  fun ⟨s, hs, hb⟩ => h ⟨s, hs, hb.draining⟩

/-- Nothing waits in a queue that nobody drains, unless the service is stopped. -/
theorem AtRest.quiet {w : World} {i : Nat} {s : Service} (hw : w.AtRest)
    (hs : w.services[i]? = some s) :
    s.queue.draining = false ∧ (s.status ≠ .stopped → s.queue.items = []) := by
  have idle := (not_draining hs).mp (hw.idle i)
  exact ⟨idle, fun going => (hw.sane i s hs).drained going idle⟩

/-- At rest, the queue of a running service is empty. -/
theorem AtRest.empty {w : World} {i : Nat} {s : Service} (hw : w.AtRest)
    (hs : w.services[i]? = some s) (running : s.status = .running) : s.queue = .empty := by
  obtain ⟨idle, empty⟩ := hw.quiet hs
  rw [Queue.empty, ← idle, ← empty (by rw [running]; exact nofun)]

end World

namespace Step

variable {l : Label} {w w' : World} {i : Nat}

theorem draining_iff (h : Step l w w') (hl : l ≠ .frame i) : w'.Draining i ↔ w.Draining i := by
  cases hs : w.services[i]? with
  | none =>
    constructor
    · rintro ⟨s', hs', hd⟩
      rw [(h.born hs hs').1.queue] at hd
      cases hd
    · rintro ⟨s, hs', -⟩
      rw [hs] at hs'
      cases hs'
  | some s =>
    obtain ⟨s', entries, hs', -, hf⟩ := h.fate hs
    have flag := hf.draining hl
    constructor
    · rintro ⟨s₁, hs₁, hd⟩
      cases hs'.symm.trans hs₁
      exact ⟨s, hs, flag ▸ hd⟩
    · rintro ⟨s₁, hs₁, hd⟩
      cases hs.symm.trans hs₁
      exact ⟨s', hs', flag.trans hd⟩

end Step

/-- A path between whose ends no drain began or ended. -/
structure Walk (sc : Scope) (w w' : World) : Prop where
  path : Path sc w w'
  draining : ∀ i, w'.Draining i ↔ w.Draining i

namespace Walk

variable {sc sc' : Scope} {i : Nat} {w w' w'' : World}

theorem refl (sc : Scope) (w : World) : Walk sc w w := ⟨.refl sc w, fun _ => Iff.rfl⟩

theorem step {l : Label} (hl : sc.allows w l) (hf : ∀ i, l ≠ .frame i) (h : Step l w w') :
    Walk sc w w' :=
  ⟨.step hl h, fun i => h.draining_iff (hf i)⟩

theorem free (h : Step .free w w') : Walk sc w w' := step (sc.allows_free w) nofun h

theorem work (h : Step (.work i) w w') : Walk (.item i) w w' :=
  step (l := .work i) (Or.inl rfl) nofun h

theorem publish (h : Step (.view i) w w') : Walk (.round i) w w' :=
  step (l := .view i) (Or.inl rfl) nofun h

theorem take (h : Step (.take i) w w') : Walk (.drain i) w w' :=
  step (l := .take i) (Or.inl rfl) nofun h

theorem trans (h : Walk sc w w') (h' : Walk sc w' w'') : Walk sc w w'' where
  path := h.path.trans h'.path
  draining := fun i => (h'.draining i).trans (h.draining i)

theorem widen (h : Walk sc w w') (hsc : Path sc w w' → Path sc' w w') : Walk sc' w w' :=
  ⟨hsc h.path, h.draining⟩

theorem sane (h : Walk sc w w') (hw : w.Sane) : w'.Sane := h.path.sane hw

/-- From a world at rest, whatever happens leaves it at rest. -/
theorem atRest (h : Walk sc w w') (hw : w.AtRest) : w'.AtRest :=
  ⟨h.sane hw.sane, fun i => mt (h.draining i).mp (hw.idle i)⟩

/-- A drain, with its two ends. -/
theorem drain {v v' : World} (idle : ¬ w.Draining i) (h : Step (.frame i) w v)
    (hp : Walk (.drain i) v v') (h' : Step (.frame i) v' w') (idle' : ¬ w'.Draining i) :
    Walk sc w w' where
  path := .drain (World.not_busy idle) h hp.path h'
  draining := by
    intro j
    by_cases hij : i = j
    · subst hij
      exact iff_of_false idle' idle
    · have other : Label.frame i ≠ .frame j := fun e => hij (Label.frame.inj e)
      exact (h'.draining_iff other).trans ((hp.draining j).trans (h.draining_iff other))

end Walk

end FlatMachine
