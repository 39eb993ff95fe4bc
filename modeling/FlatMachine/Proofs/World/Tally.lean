import FlatMachine.Proofs.Service.Alongside

/-! # Worlds that tell the same

Two worlds may have the same services, or related ones, and histories that differ only in entries
that do not matter.  What matters is said by a test on entries: **`World.Tallies`** compares what
the journals hold of those that are told.  Whatever is done in worlds with the same services
leaves them so (**`Bond.tallying_open`**).  Often just one service is not the same
(**`Service.SingledOut`**). -/

namespace FlatMachine

/-- The worlds have all in common that does not concern services, the services are related one by
one, and of the entries that are told the journals hold the same. -/
structure World.Tallies (told : Entry → Bool) (R : Nat → Service → Service → Prop)
    (w v : World) : Prop where
  beside : v =
    { w with
      services := v.services, journal := v.journal, points := v.points, settings := v.settings }
  services : ∀ i, Option.Rel (R i) w.services[i]? v.services[i]?
  told : v.journal.filter told = w.journal.filter told

namespace World.Tallies

variable {told : Entry → Bool} {R : Nat → Service → Service → Prop} {w v : World}

theorem same (h : Tallies told (fun _ => Eq) w v) : w.services = v.services := by
  apply List.ext_getElem?
  intro i
  have related := h.services i
  generalize w.services[i]? = found, v.services[i]? = found' at related
  cases related with
  | none => rfl
  | some same => rw [same]

theorem ofSame
    (beside : v = { w with journal := v.journal, points := v.points, settings := v.settings })
    (told_ : v.journal.filter told = w.journal.filter told) : Tallies told (fun _ => Eq) w v where
  beside := by
    have services : v.services = w.services := by rw [beside]
    rw [services]
    exact beside
  services := fun i => by
    rw [beside]
    cases w.services[i]? with
    | none => exact .none
    | some s => exact .some rfl
  told := told_

theorem refl (told : Entry → Bool) (w : World) : Tallies told (fun _ => Eq) w w := ofSame rfl rfl

theorem heard (h : Tallies told R w v) : w.subscriptions = v.subscriptions := by rw [h.beside]

theorem side (h : Tallies told R w v) : v = w.beside v := by
  refine h.beside.trans ?_
  unfold World.beside
  rw [h.heard]

theorem moved (h : Tallies told R w v) (u : World) : Tallies told R (u.beside w) (u.beside v) := by
  refine ⟨?_, h.services, h.told⟩
  unfold World.beside
  rw [h.heard]

theorem noted (h : Tallies told R w v) (e : Entry) : Tallies told R (w.noted e) (v.noted e) where
  beside := by
    unfold World.noted
    rw [h.beside]
  services := h.services
  told := by
    show List.filter told (e :: v.journal) = List.filter told (e :: w.journal)
    rw [List.filter_cons, List.filter_cons, h.told]

/-- An entry that is not told is written in the second world. -/
theorem silent (h : Tallies told R w v) {e : Entry} (he : told e = false) :
    Tallies told R w (v.noted e) where
  beside := by
    unfold World.noted
    rw [h.beside]
  services := h.services
  told := (List.filter_cons_of_neg (by rw [he]; exact nofun)).trans h.told

/-- An entry that is not told is written in the first world. -/
theorem silently (h : Tallies told R w v) {e : Entry} (he : told e = false) :
    Tallies told R (w.noted e) v where
  beside := h.beside
  services := h.services
  told := h.told.trans (List.filter_cons_of_neg (by rw [he]; exact nofun)).symm

/-- A service is changed in both, and what relates it then may be another relation. -/
theorem remade {R' : Nat → Service → Service → Prop} (h : Tallies told R w v) {i : Nat}
    {f f' : Service → Service} (own : ∀ s s', R i s s' → R' i (f s) (f' s'))
    (others : ∀ k s s', k ≠ i → R k s s' → R' k s s') :
    Tallies told R' (w.change i f) (v.change i f') where
  beside := by
    unfold World.change
    rw [h.beside]
  services := fun j => by
    have related := h.services j
    rw [change_services, change_services]
    generalize w.services[j]? = found, v.services[j]? = found' at related
    by_cases hij : i = j
    · subst hij
      rw [if_pos rfl, if_pos rfl]
      cases related with
      | none => exact .none
      | some same => exact .some (own _ _ same)
    · rw [if_neg hij, if_neg hij]
      cases related with
      | none => exact .none
      | some same => exact .some (others j _ _ (Ne.symm hij) same)
  told := h.told

/-- A service is changed in the second world. -/
theorem across {R' : Nat → Service → Service → Prop} (h : Tallies told R w v) {i : Nat}
    {f : Service → Service} (own : ∀ s s', R i s s' → R' i s (f s'))
    (others : ∀ k s s', k ≠ i → R k s s' → R' k s s') :
    Tallies told R' w (v.change i f) := by
  have changed := h.remade (f := id) own others
  rwa [change_same] at changed

theorem changed (h : Tallies told R w v) {i : Nat} {f f' : Service → Service}
    (hf : ∀ s s', R i s s' → R i (f s) (f' s')) :
    Tallies told R (w.change i f) (v.change i f') :=
  h.remade hf fun _ _ _ _ => id

theorem mono {R' : Nat → Service → Service → Prop} (h : Tallies told R w v)
    (hR : ∀ k s s', R k s s' → R' k s s') :
    Tallies told R' w v where
  beside := h.beside
  services := fun k => by
    have related := h.services k
    generalize w.services[k]? = found, v.services[k]? = found' at related
    cases related with
    | none => exact .none
    | some same => exact .some (hR k _ _ same)
  told := h.told

theorem trans {u : World} (h : Tallies told (fun _ => Eq) w v)
    (h' : Tallies told (fun _ => Eq) v u) :
    Tallies told (fun _ => Eq) w u where
  beside := h'.beside.trans (by rw [h.beside])
  services := fun i => by rw [← h'.same, ← h.same]; exact (refl told w).services i
  told := h'.told.trans h.told

theorem symm (h : Tallies told (fun _ => Eq) w v) : Tallies told (fun _ => Eq) v w where
  beside := by rw [h.beside]
  services := fun i => by rw [← h.same]; exact (refl told w).services i
  told := h.told.symm

/-- Worlds that tell the same, with the same services, still do when the same is done to a service
of both. -/
theorem also (h : Tallies told (fun _ => Eq) w v) (i : Nat) (f : Service → Service) :
    Tallies told (fun _ => Eq) (w.change i f) (v.change i f) :=
  h.changed fun _ _ => congrArg f

theorem counted (h : Tallies told R w v) : w.services.length = v.services.length := by
  have absent (k : Nat) : w.services.length ≤ k ↔ v.services.length ≤ k := by
    have related := h.services k
    rw [← List.getElem?_eq_none_iff, ← List.getElem?_eq_none_iff]
    generalize w.services[k]? = found, v.services[k]? = found' at related
    cases related <;> simp
  exact Nat.le_antisymm ((absent _).mpr (Nat.le_refl _)) ((absent _).mp (Nat.le_refl _))

/-- A service is made in both. -/
theorem created (h : Tallies told R w v) {s : Service} (hR : R w.services.length s s) :
    Tallies told R { w with services := w.services ++ [s] }
      { v with services := v.services ++ [s] } := by
  refine ⟨by rw [h.beside], fun k => ?_, h.told⟩
  have related := h.services k
  have counted := h.counted
  dsimp only
  rw [List.getElem?_append, List.getElem?_append, ← counted]
  split
  · exact related
  · rename_i later
    cases rest : k - w.services.length with
    | zero =>
      obtain rfl : k = w.services.length := by omega
      exact .some hR
    | succ n => exact .none

theorem subscribed (h : Tallies told R w v) {i : Nat} (listener : Listener) (hR : ∀ s s', R i s s' →
      R i { s with listeners := s.listeners ++ [listener] }
        { s' with listeners := s'.listeners ++ [listener] }) :
    Tallies told R (w.subscribed i listener) (v.subscribed i listener) := by
  have changed := h.changed (f := fun s => { s with listeners := s.listeners ++ [listener] }) hR
  refine ⟨?_, changed.services, changed.told⟩
  unfold World.subscribed World.change
  rw [h.beside]

end World.Tallies

/-! ### One service -/

/-- The service is related to what it is in the other world, and all others are the same. -/
def Service.SingledOut (i : Nat) (R : Service → Service → Prop) (k : Nat) (s s' : Service) : Prop :=
  (k = i → R s s') ∧ (k ≠ i → s = s')

namespace Service.SingledOut

variable {R R' : Service → Service → Prop} {i k : Nat} {s s' : Service} {f : Service → Service}

theorem mono (h : SingledOut i R k s s') (own : ∀ {s s'}, R s s' → R' (f s) (f s')) :
    SingledOut i R' k (f s) (f s') :=
  ⟨fun hk => own (h.1 hk), fun hk => congrArg f (h.2 hk)⟩

theorem other (h : SingledOut i R k s s') (hk : k ≠ i) (f : Service → Service) :
    SingledOut i R' k (f s) (f s') :=
  ⟨fun same => absurd same hk, fun _ => congrArg f (h.2 hk)⟩

end Service.SingledOut

namespace World.Tallies

variable {told : Entry → Bool} {R : Service → Service → Prop} {i k : Nat} {w v : World}

theorem own (h : Tallies told (Service.SingledOut i R) w v) :
    (w.services[i]? = none ∧ v.services[i]? = none) ∨
    ∃ s s', w.services[i]? = some s ∧ v.services[i]? = some s' ∧ R s s' := by
  have related := h.services i
  generalize w.services[i]? = found, v.services[i]? = found' at related
  cases related with
  | none => exact .inl ⟨rfl, rfl⟩
  | some related => exact .inr ⟨_, _, rfl, rfl, related.1 rfl⟩

theorem others (h : Tallies told (Service.SingledOut i R) w v) (hk : k ≠ i) :
    w.services[k]? = v.services[k]? := by
  have related := h.services k
  generalize w.services[k]? = found, v.services[k]? = found' at related
  cases related with
  | none => rfl
  | some related => exact congrArg some (related.2 hk)

end World.Tallies

/-- Worlds whose services are the same and whose journals tell the same are tied. -/
def Bond.tallying (told : Entry → Bool) : Bond :=
  ⟨World.Tallies told fun _ => Eq, fun _ => False, id⟩

theorem Bond.tallying_open (told : Entry → Bool) : (Bond.tallying told).Open where
  beside := World.Tallies.side
  moved := fun u h => h.moved u
  same := World.Tallies.same
  heard := World.Tallies.heard
  noted := fun e h => h.noted e
  changed := fun _ h => h.also _ _
  subscribed := fun _ listener h => h.subscribed listener fun _ _ same => same ▸ rfl
  created := fun _ _ h => h.created rfl

end FlatMachine
