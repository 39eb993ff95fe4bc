import FlatMachine.Proofs.World.Step

/-! # Turns

What a turn of a service leaves alone, and what it writes.

* **`Service.Holds`**: what is left of a service while its drain goes on, whatever others do.
  Its state, context and snapshot stay, its slot may be emptied and it may be stopped.
* **`Service.Sane`**: what holds of a service when somebody has a turn.  Before it is started, it
  has no invocation and nobody drains its queue; while nobody does and it is not stopped, nothing
  waits in the queue, and while it runs its snapshot is settled. -/

namespace FlatMachine

theorem Status.running_of {status : Status} (started : status ≠ .notStarted)
    (going : status ≠ .stopped) :
    status = .running := by
  cases status
  · exact absurd rfl started
  · rfl
  · exact absurd rfl going

/-- What others leave of a service while its drain goes on. -/
structure Service.Holds (s s' : Service) : Prop where
  machine : s'.machine = s.machine
  stateName : s'.stateName = s.stateName
  context : s'.context = s.context
  snapshot : s'.snapshot = s.snapshot
  draining : s'.queue.draining = s.queue.draining
  slot : s'.slot = s.slot ∨ s'.slot = .empty
  status : s'.status = s.status ∨ s.status = .running ∧ s'.status = .stopped

namespace Service.Holds

variable {s s' s'' : Service}

theorem refl (s : Service) : s.Holds s := ⟨rfl, rfl, rfl, rfl, rfl, Or.inl rfl, Or.inl rfl⟩

theorem trans (h : s.Holds s') (h' : s'.Holds s'') : s.Holds s'' where
  machine := h'.machine.trans h.machine
  stateName := h'.stateName.trans h.stateName
  context := h'.context.trans h.context
  snapshot := h'.snapshot.trans h.snapshot
  draining := h'.draining.trans h.draining
  slot := by
    rcases h'.slot with e | e
    · rw [e]; exact h.slot
    · exact Or.inr e
  status := by
    rcases h'.status with e | ⟨r, e⟩
    · rw [e]; exact h.status
    · rcases h.status with e' | ⟨-, e'⟩
      · exact Or.inr ⟨e' ▸ r, e⟩
      · rw [r] at e'; cases e'

theorem busy (h : s.Holds s') (hb : s.Busy) : s'.Busy := by
  refine ⟨h.draining.trans hb.draining, ?_⟩
  rcases h.status with e | ⟨-, e⟩ <;> rw [e]
  · exact hb.started
  · exact Status.noConfusion

theorem vacant (h : s.Holds s') (hv : s.slot = .empty) : s'.slot = .empty := by
  rcases h.slot with e | e
  · exact e.trans hv
  · exact e

/-- Whoever runs now was running before. -/
theorem running (h : s.Holds s') (hr : s'.status = .running) : s.status = .running := by
  rcases h.status with e | ⟨r, -⟩
  · exact e ▸ hr
  · exact r

end Service.Holds

/-! ### Snapshots -/

namespace Service

variable {s s' s'' : Service} {i : Nat}

theorem SameView.refl (s : Service) : s.SameView s := ⟨rfl, rfl, .refl _, rfl⟩

theorem SameView.symm (h : s.SameView s') : s'.SameView s :=
  ⟨h.machine.symm, h.snapshot.symm, h.name.symm, h.context.symm⟩

theorem SameView.trans (h : s.SameView s') (h' : s'.SameView s'') : s.SameView s'' :=
  ⟨h'.machine.trans h.machine, h'.snapshot.trans h.snapshot, h'.name.trans _ _ _ h.name,
    h'.context.trans h.context⟩

theorem SameView.current (h : s.SameView s') (hc : s.Current) : s'.Current where
  name := by rw [h.snapshot]; exact h.name.trans _ _ _ hc.name
  context := by rw [h.snapshot, h.context]; exact hc.context
  tags := by rw [h.snapshot, h.machine]; exact hc.tags

theorem Holds.sameView (h : s.Holds s') : s.SameView s' :=
  ⟨h.machine, h.snapshot, h.stateName ▸ .refl _, congrArg Context.stamp h.context⟩

theorem Settled.mono {points points' : List Point} (h : s.Settled i points) (hp : points ⊆ points')
    (hv : s'.SameView s) : s'.Settled i points' := by
  obtain ⟨⟨q, hq, announces⟩, view⟩ := h
  refine ⟨⟨q, hp hq, announces⟩, ?_⟩
  rcases view with hc | ⟨p, hmem, s₁, hb, hn, hv'⟩
  · exact Or.inl (hv.symm.current hc)
  · exact Or.inr ⟨p, hp hmem, s₁, hb, hn, hv'.trans hv.symm⟩

/-- What holds of every service when somebody has a turn. -/
structure Sane (s : Service) (i : Nat) (points : List Point) : Prop where
  vacant : s.status = .notStarted → s.slot = .empty
  unopened : s.status = .notStarted → s.queue.draining = false
  drained : s.status ≠ .stopped → s.queue.draining = false → s.queue.items = []
  settled : s.status = .running → s.queue.draining = false → s.Settled i points

end Service

/-! ### The entries of a turn -/

theorem Entry.service?_of_driver {e : Entry} {i : Nat} (h : e.driver = some i) :
    e.service? = some i := by
  cases e <;> first | exact h | cases h

theorem Entry.service?_of_isReport {e : Entry} (h : e.isReport = true) : e.service? = none := by
  cases e <;> first | rfl | cases h

theorem Slot.mem_farewell {slot : Slot} {i : Nat} {e : Entry} (h : e ∈ slot.farewell i) :
    (∃ t, slot.token = some t ∧ e = .cancelled i t) ∨
      ∃ f, slot.cancel = some f ∧ e = .called (.service i) (.cancel slot.token) f [] := by
  unfold farewell at h
  rcases List.mem_append.mp h with h | h
  · obtain ⟨f, hf, rfl⟩ := Option.map_eq_some_iff.mp (Option.mem_toList.mp h)
    exact Or.inr ⟨f, hf, rfl⟩
  · obtain ⟨t, ht, rfl⟩ := Option.map_eq_some_iff.mp (Option.mem_toList.mp h)
    exact Or.inl ⟨t, ht, rfl⟩

theorem Slot.eq_empty_of_farewell {slot : Slot} {i : Nat} (h : slot.farewell i = []) :
    slot = .empty := by
  obtain ⟨token, cancel⟩ := slot
  cases token <;> cases cancel <;> first | rfl | cases h

theorem Slot.service?_of_farewell {slot : Slot} {i : Nat} {e : Entry} (h : e ∈ slot.farewell i) :
    e.service? = some i := by
  rcases mem_farewell h with ⟨t, -, rfl⟩ | ⟨f, -, rfl⟩ <;> rfl

theorem Slot.driver_of_farewell {slot : Slot} {i j : Nat} {e : Entry} (h : e ∈ slot.farewell i) :
    e.driver ≠ some j := by
  rcases mem_farewell h with ⟨t, -, rfl⟩ | ⟨f, -, rfl⟩ <;> exact nofun

theorem Slot.attach_of_active {slot : Slot} {t : Token} {f : Value} (hf : f.isNull = false)
    (ht : slot.isActive t = true) : slot.attach t f = (⟨slot.token, some f⟩, none) := by
  unfold attach
  simp [hf, ht]

theorem Slot.attach_of_inactive {slot : Slot} {t : Token} {f : Value} (hf : f.isNull = false)
    (ht : slot.isActive t = false) : slot.attach t f = (slot, some f) := by
  unfold attach
  simp [hf, ht]

theorem Slot.welcome_of_active {slot : Slot} {i : Nat} {t : Token} {f : Value}
    (hf : f.isNull = false) (ht : slot.isActive t = true) :
    slot.welcome i t f = [.attached i t f] := by
  unfold welcome
  rw [attach_of_active hf ht]
  rfl

theorem Slot.welcome_of_inactive {slot : Slot} {i : Nat} {t : Token} {f : Value}
    (hf : f.isNull = false) (ht : slot.isActive t = false) :
    slot.welcome i t f = [.called (.service i) (.cancel (some t)) f [], .attached i t f] := by
  unfold welcome
  rw [attach_of_inactive hf ht]
  rfl

theorem Slot.mem_welcome {slot : Slot} {i : Nat} {t : Token} {f : Value} {e : Entry}
    (hf : f.isNull = false) (h : e ∈ slot.welcome i t f) :
    e = .attached i t f ∨ e = .called (.service i) (.cancel (some t)) f [] := by
  cases ht : slot.isActive t with
  | true =>
    rw [welcome_of_active hf ht] at h
    exact Or.inl (List.mem_singleton.mp h)
  | false =>
    rw [welcome_of_inactive hf ht] at h
    rcases List.mem_cons.mp h with rfl | h
    · exact Or.inr rfl
    · exact Or.inl (List.mem_singleton.mp h)

namespace Turn

variable {i : Nat} {w : World} {l : Label} {s s' : Service} {entries : List Entry}

theorem service? (h : Turn i w s l s' entries) : ∀ e ∈ entries, e.service? = some i := by
  intro e he
  cases h with
  | stop => exact Slot.service?_of_farewell he
  | attach _ present => rcases Slot.mem_welcome present he with rfl | rfl <;> rfl
  | _ => first | (rw [List.mem_singleton.mp he]; rfl) | cases he

/-- A turn that is not of the service's own drain. -/
theorem holds (h : Turn i w s l s' entries) (hl : l.service? ≠ some i) : s.Holds s' := by
  cases h with
  | stop running => exact ⟨rfl, rfl, rfl, rfl, rfl, Or.inr rfl, Or.inr ⟨running, rfl⟩⟩
  | _ => first | exact absurd rfl hl | exact ⟨rfl, rfl, rfl, rfl, rfl, Or.inl rfl, Or.inl rfl⟩

theorem driver (h : Turn i w s l s' entries) (hl : l.service? ≠ some i) :
    ∀ e ∈ entries, e.driver ≠ some i := by
  intro e he
  cases h with
  | stop => exact Slot.driver_of_farewell he
  | fault | accept => rw [List.mem_singleton.mp he]; exact nofun
  | _ => first | exact absurd rfl hl | cases he

theorem machine (h : Turn i w s l s' entries) : s'.machine = s.machine := by
  cases h <;> rfl

/-- Only the ends of a drain set the flag. -/
theorem draining (h : Turn i w s l s' entries) (hl : l ≠ .frame i) :
    s'.queue.draining = s.queue.draining := by
  cases h with
  | leave => exact absurd rfl hl
  | take => exact Queue.draining_dequeue _
  | _ => rfl

/-- Nobody but the one who began a drain ends it. -/
theorem busy (h : Turn i w s l s' entries) (hl : l ≠ .frame i) (hb : s.Busy) : s'.Busy := by
  refine ⟨(h.draining hl).trans hb.draining, ?_⟩
  cases h with
  | stop => exact Status.noConfusion
  | _ => exact hb.started

/-- Only a publication, or the making of a service, gives it another snapshot. -/
theorem snapshot (h : Turn i w s l s' entries) (hl : l ≠ .view i) : s'.snapshot = s.snapshot := by
  cases h <;> first | rfl | exact absurd rfl hl

end Turn
end FlatMachine
