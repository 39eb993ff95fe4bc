import FlatMachine.Loop

/-! # The clock and what is awaited

What concerns no service goes one way: the clock is never set back, an event that was put into
the tray stays there, an awaitable that is settled stays so, with those who waited for it, and
nobody is told of one that is not settled, or that he does not wait for (**`World.Advances`**). -/

namespace FlatMachine
namespace World

/-- The waiter waits for the awaitable, and it ended so. -/
def Awaited (w : World) (waiter : Waiter) (a : AwaitableId) (settlement : Settlement) : Prop :=
  ∃ waiters, w.awaitables.lookup a = some (.future (some settlement) waiters) ∧ waiter ∈ waiters

/-- Nothing happened to a service and nothing was written; the clock may have been read, and the
event loop went on. -/
structure Advances (w w' : World) : Prop where
  services : w'.services = w.services
  journal : w'.journal = w.journal
  points : w'.points = w.points
  clock : w.clock ≤ w'.clock
  tray : w.tray <+: w'.tray
  settled : ∀ {waiter a settlement}, w.Awaited waiter a settlement → w'.Awaited waiter a settlement
  ready : ∀ {waiter a}, .complete waiter a ∈ w'.ready → .complete waiter a ∈ w.ready ∨
    ∃ settlement, w'.Awaited waiter a settlement

variable {w : World} {a : AwaitableId} {x : Awaitable}

theorem lookup_setAwaitable (w : World) (a b : AwaitableId) (x : Awaitable) :
    (w.setAwaitable a x).awaitables.lookup b =
      if b = a then (w.awaitables.lookup b).map fun _ => x else w.awaitables.lookup b := by
  unfold setAwaitable
  dsimp only
  induction w.awaitables with
  | nil => simp
  | cons p rest ih =>
    obtain ⟨c, y⟩ := p
    by_cases hb : b = c
    · subst hb
      by_cases ha : b = a
      · simp [ha]
      · simp [ha]
    · have hb' : (b == c) = false := by simpa using hb
      by_cases hc : c = a
      · subst hc
        rw [List.map_cons, if_pos rfl, List.lookup_cons, hb']
        dsimp only
        rw [ih, List.lookup_cons, hb', if_neg hb]
      · rw [List.map_cons, if_neg hc, List.lookup_cons, hb']
        dsimp only
        rw [ih, List.lookup_cons, hb']

namespace Advances

variable {w' : World} {waiter : Waiter} {waiters : List Waiter} {settlement : Settlement}

/-- What changes neither the awaitables nor the ready queue advances the world, if the clock and the
tray only go on. -/
theorem plain (services : w'.services = w.services) (journal : w'.journal = w.journal)
    (points : w'.points = w.points) (clock : w.clock ≤ w'.clock)
    (awaitables : w'.awaitables = w.awaitables) (ready : w'.ready = w.ready)
    (tray : w.tray <+: w'.tray) : w.Advances w' where
  services := services
  journal := journal
  points := points
  clock := clock
  tray := tray
  settled := fun h => by
    unfold Awaited
    rwa [awaitables]
  ready := fun h => Or.inl (ready ▸ h)

/-- The clock is read. -/
theorem ticked (w : World) : w.Advances { w with clock := w.clock + 1 } :=
  plain rfl rfl rfl (Nat.le_succ _) rfl rfl List.prefix_rfl

/-- Work is put into the ready queue. -/
theorem queued (pauses : Nat) (body : Value) (args : List Object) :
    w.Advances { w with ready := w.ready ++ [Ready.step a pauses body args] } where
  services := rfl
  journal := rfl
  points := rfl
  clock := Nat.le_refl _
  tray := List.prefix_rfl
  settled := id
  ready := fun h => Or.inl (by simpa using h)

/-- The first in the ready queue is taken. -/
theorem dequeued {r : Ready} {rest : List Ready} (h : w.ready = r :: rest) :
    w.Advances { w with ready := rest } where
  services := rfl
  journal := rfl
  points := rfl
  clock := Nat.le_refl _
  tray := List.prefix_rfl
  settled := id
  ready := fun hr => Or.inl (h ▸ List.mem_cons_of_mem r hr)

/-- An awaitable is made. -/
theorem added (a : AwaitableId) (x : Awaitable) :
    w.Advances { w with awaitables := w.awaitables ++ [(a, x)] } where
  services := rfl
  journal := rfl
  points := rfl
  clock := Nat.le_refl _
  tray := List.prefix_rfl
  settled := by
    rintro waiter b settlement ⟨waiters, h, mem⟩
    refine ⟨waiters, ?_, mem⟩
    show List.lookup b (w.awaitables ++ [(a, x)]) = _
    rw [List.lookup_append, h]
    rfl
  ready := Or.inl

/-- What another awaitable has become leaves those alone that are settled. -/
theorem awaited_set (h : w.Awaited waiter a settlement) {b : AwaitableId} (other : a ≠ b)
    (x : Awaitable) :
    (w.setAwaitable b x).Awaited waiter a settlement := by
  obtain ⟨waiters, found, mem⟩ := h
  exact ⟨waiters, by rw [lookup_setAwaitable, if_neg other, found], mem⟩

/-- An awaitable that was not settled has become another, and those are told who wait for it, if
it is settled now. -/
theorem set {y : Awaitable} (found : w.awaitables.lookup a = some y)
    (pending : ∀ settlement waiters, y ≠ .future (some settlement) waiters) (ready : List Ready)
    (told : ∀ {waiter b}, .complete waiter b ∈ ready → .complete waiter b ∈ w.ready ∨
      ∃ settlement, (w.setAwaitable a x).Awaited waiter b settlement) :
    w.Advances { w.setAwaitable a x with ready } where
  services := rfl
  journal := rfl
  points := rfl
  clock := Nat.le_refl _
  tray := List.prefix_rfl
  settled := by
    rintro waiter b settlement ⟨waiters, h, mem⟩
    refine awaited_set ⟨waiters, h, mem⟩ (fun same => ?_) x
    subst same
    exact pending _ _ (Option.some.inj (found.symm.trans h))
  ready := told

/-- Somebody waits for a future. -/
theorem joined (found : w.awaitables.lookup a = some (.future none waiters)) (waiter : Waiter) :
    w.Advances (w.setAwaitable a (.future none (waiters ++ [waiter]))) :=
  set found (fun _ _ => nofun) w.ready Or.inl

/-- Scheduled work becomes a future. -/
theorem scheduled {pauses : Nat} {body : Value} {args : List Object}
    (found : w.awaitables.lookup a = some (.coroutine pauses body args)) :
    w.Advances { w.setAwaitable a (.future none []) with
      ready := w.ready ++ [Ready.step a pauses body args] } :=
  set found (fun _ _ => nofun) _ fun h => Or.inl (by simpa using h)

/-- A future is settled, and all who wait for it are told. -/
theorem settles (found : w.awaitables.lookup a = some (.future none waiters))
    (settlement : Settlement) :
    w.Advances { w.setAwaitable a (.future (some settlement) waiters) with
      ready := w.ready ++ waiters.map fun waiter => Ready.complete waiter a } := by
  refine set found (fun _ _ => nofun) _ fun {waiter b} h => ?_
  rcases List.mem_append.mp h with h | h
  · exact Or.inl h
  · obtain ⟨waiter', mem, same⟩ := List.mem_map.mp h
    cases same
    exact Or.inr ⟨settlement, waiters, by rw [lookup_setAwaitable, if_pos rfl, found]; rfl, mem⟩

/-- Somebody waits for a future that is settled, and is told. -/
theorem told (found : w.awaitables.lookup a = some (.future (some settlement) waiters))
    (waiter : Waiter) :
    w.Advances { w.setAwaitable a (.future (some settlement) (waiters ++ [waiter])) with
      ready := w.ready ++ [Ready.complete waiter a] } where
  services := rfl
  journal := rfl
  points := rfl
  clock := Nat.le_refl _
  tray := List.prefix_rfl
  settled := by
    rintro other b settlement' ⟨before, h, mem⟩
    by_cases same : b = a
    · subst same
      cases h.symm.trans found
      exact ⟨_, by rw [lookup_setAwaitable, if_pos rfl, found]; rfl, List.mem_append_left _ mem⟩
    · exact awaited_set ⟨before, h, mem⟩ same _
  ready := by
    intro other b h
    rcases List.mem_append.mp h with h | h
    · exact Or.inl h
    · cases List.mem_singleton.mp h
      exact Or.inr ⟨settlement, _, by rw [lookup_setAwaitable, if_pos rfl, found]; rfl, by simp⟩

end Advances
end World
end FlatMachine
