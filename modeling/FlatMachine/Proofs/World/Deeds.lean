import FlatMachine.Proofs.World.Turn
import FlatMachine.Proofs.World.Advances

/-! # What only the drain of a service does

A **deed** of a service is what its drain alone writes into the journal.  It calls guards,
actions, hooks, sources and listeners on behalf of the service, notifies listeners without a
callback, and tells how items are taken, states left and entered, and snapshots published.  Of
what is called on its behalf, only cancel callbacks are not deeds, with the error hooks that may
be told of their failure, since whoever stops the service or cancels its invocation calls them.

A world **spares** a service (**`World.Spares`**) from an earlier one on if nothing was done to
it but what anybody may do while it is drained, and no deed of it was done. -/

namespace FlatMachine

namespace Role

/-- Only the drain of a service calls in the role on its behalf. -/
def isOwn : Role → Bool
  | guard | action | source _ | listener | member _ => true
  | hook m => m != .error
  | cancel _ | body | nested => false

end Role

/-- The service whose drain alone does what the entry tells of. -/
def Entry.deed? : Entry → Option Nat
  | called (.service i) role .. => if role.isOwn then some i else none
  | notified i .. => some i
  | e => e.driver

namespace Entry

variable {e : Entry} {i : Nat}

theorem deed?_called {owner : Owner} {role : Role} {f : Value} {args : List Object} :
    (called owner role f args).deed? = some i ↔ owner = .service i ∧ role.isOwn = true := by
  cases owner with
  | bench => exact ⟨nofun, fun h => nomatch h.1⟩
  | service j =>
    show (if role.isOwn = true then some j else none) = some i ↔ _
    split
    · rename_i own
      exact ⟨fun h => ⟨congrArg Owner.service (Option.some.inj h), own⟩, fun h =>
        congrArg some (Owner.service.inj h.1)⟩
    · rename_i other
      exact ⟨nofun, fun h => absurd h.2 other⟩

/-- What is called in another role is nobody's deed. -/
theorem deed?_of_other {owner : Owner} {role : Role} {f : Value} {args : List Object}
    (h : role.isOwn = false) :
    (called owner role f args).deed? ≠ some i := fun deed => by
  rw [(deed?_called.mp deed).2] at h
  cases h

end Entry

/-- What others leave of a service, and of what it was made with, while its drain goes on. -/
structure Service.Spared (s s' : Service) : Prop where
  holds : s.Holds s'
  hooks : s'.hooks = s.hooks

namespace Service.Spared

variable {s s' s'' : Service}

theorem refl (s : Service) : s.Spared s := ⟨.refl s, rfl⟩

theorem trans (h : s.Spared s') (h' : s'.Spared s'') : s.Spared s'' :=
  ⟨h.holds.trans h'.holds, h'.hooks.trans h.hooks⟩

end Service.Spared

namespace World

/-- No deed of the service was done from one world to the other, and the service was spared, at
every point between. -/
structure Spares (i : Nat) (w w' : World) : Prop where
  service : ∀ s, w.services[i]? = some s → ∃ s', w'.services[i]? = some s' ∧ s.Spared s'
  journal : ∃ later, w'.journal = later ++ w.journal ∧ ∀ e ∈ later, e.deed? ≠ some i
  points : ∃ later, w'.points = later ++ w.points ∧ ∀ p ∈ later,
    (∃ e entries, p.journal = e :: entries ++ w.journal ∧ ∀ x ∈ e :: entries, x.deed? ≠ some i) ∧
    ∀ s, w.services[i]? = some s → ∃ s', p.services[i]? = some s' ∧ s.Spared s'
  clock : w.clock ≤ w'.clock

namespace Spares

variable {i : Nat} {w w' w'' : World}

/-- What is not about the service spares it. -/
theorem aside (services : w'.services[i]? = w.services[i]?) (journal : w'.journal = w.journal)
    (points : w'.points = w.points) (clock : w.clock ≤ w'.clock) : Spares i w w' where
  service := fun s hs => ⟨s, services.trans hs, .refl s⟩
  journal := ⟨[], journal, List.forall_mem_nil _⟩
  points := ⟨[], points, List.forall_mem_nil _⟩
  clock := clock

theorem advanced (h : w.Advances w') : Spares i w w' :=
  .aside (congrArg (·[i]?) h.services) h.journal h.points h.clock

theorem refl (w : World) : Spares i w w := .aside rfl rfl rfl (Nat.le_refl _)

theorem noted {e : Entry} (h : e.deed? ≠ some i) : Spares i w (w.noted e) where
  service := fun s hs => ⟨s, hs, .refl s⟩
  journal := ⟨[e], rfl, List.forall_mem_singleton.mpr h⟩
  points := by
    refine ⟨[⟨w.services, e :: w.journal⟩], rfl,
      List.forall_mem_singleton.mpr ⟨?_, fun s hs => ⟨s, hs, .refl s⟩⟩⟩
    exact ⟨e, [], rfl, List.forall_mem_singleton.mpr h⟩
  clock := Nat.le_refl _

theorem changed {s : Service} {f : Service → Service} (hs : w.services[i]? = some s)
    (h : s.Spared (f s)) :
    Spares i w (w.change i f) where
  service := fun s' hs' => by
    cases hs.symm.trans hs'
    exact ⟨f s, change_self f hs, h⟩
  journal := ⟨[], rfl, List.forall_mem_nil _⟩
  points := ⟨[], rfl, List.forall_mem_nil _⟩
  clock := Nat.le_refl _

theorem trans (h : Spares i w w') (h' : Spares i w' w'') : Spares i w w'' where
  service := fun s hs => by
    obtain ⟨s', hs', spared⟩ := h.service s hs
    obtain ⟨s'', hs'', spared'⟩ := h'.service s' hs'
    exact ⟨s'', hs'', spared.trans spared'⟩
  journal := by
    obtain ⟨later, hj, others⟩ := h.journal
    obtain ⟨later', hj', others'⟩ := h'.journal
    exact ⟨later' ++ later, by
      rw [hj', hj, List.append_assoc], List.forall_mem_append.mpr ⟨others', others⟩⟩
  points := by
    obtain ⟨later, hp, others⟩ := h.points
    obtain ⟨later', hp', others'⟩ := h'.points
    refine ⟨later' ++ later, by
      rw [hp', hp, List.append_assoc], List.forall_mem_append.mpr ⟨fun p hp => ?_, others⟩⟩
    refine ⟨?_, fun s hs => ?_⟩
    · obtain ⟨entries, journal, deeds⟩ := h.journal
      obtain ⟨e, entries', journal', deeds'⟩ := (others' p hp).1
      refine ⟨e, entries' ++ entries, by rw [journal', journal]; simp, ?_⟩
      rw [← List.cons_append]
      exact List.forall_mem_append.mpr ⟨deeds', deeds⟩
    obtain ⟨s', hs', spared⟩ := h.service s hs
    obtain ⟨s'', hs'', spared'⟩ := (others' p hp).2 s' hs'
    exact ⟨s'', hs'', spared.trans spared'⟩
  clock := Nat.le_trans h.clock h'.clock

theorem busy (h : Spares i w w') (hb : w.Busy i) : w'.Busy i := by
  obtain ⟨s, hs, busy⟩ := hb
  obtain ⟨s', hs', spared⟩ := h.service s hs
  exact ⟨s', hs', spared.holds.busy busy⟩

/-- Of the points at which only deeds are done, none is new. -/
theorem filter_points (h : Spares i w w') {keep : Entry → Bool}
    (deeds : ∀ e, keep e = true → e.deed? = some i) :
    w'.points.filter (·.journal.head?.any keep) = w.points.filter (·.journal.head?.any keep) := by
  obtain ⟨later, points, others⟩ := h.points
  rw [points, List.filter_append, List.append_left_eq_self, List.filter_eq_nil_iff]
  intro p hp kept
  obtain ⟨e, entries, journal, none⟩ := (others p hp).1
  rw [journal] at kept
  exact none e List.mem_cons_self (deeds e kept)

end Spares

end World

end FlatMachine
