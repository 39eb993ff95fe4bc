import FlatMachine.Proofs.Service.Stages

/-! # What is committed when

What a service does with an item comes in stages, each of which commits a part of the state when
it is done.  A failure does not take back what was committed by then.

* **`World.Becomes`**: more was told since, and the service became another one, as a relation
  says.
* **`World.Achieves`**: so it is if nobody disturbed the service; and if it was free from
  invocations, something less is so whatever anybody did.
* **`Run.Commits`**: a stage, which follows a trace and makes the service another one, or leaves
  behind what a relation says if it is halted.  Stages are composed as computations are
  (**`Run.Commits.bind`**, **`Run.Commits.concludes`**). -/

namespace FlatMachine

/-! ### What is known of a service that is changed -/

theorem Service.Spared.stroke {s s' : Service} {f : Service → Service} (h : s.Spared s')
    (hf : Stroke f) : (f s).Spared (f s') := by
  obtain ⟨⟨machine, stateName, context, snapshot, draining, slot, status⟩, hooks⟩ := h
  cases hf with
  | stateName => exact ⟨⟨machine, rfl, context, snapshot, draining, slot, status⟩, hooks⟩
  | context => exact ⟨⟨machine, stateName, rfl, snapshot, draining, slot, status⟩, hooks⟩
  | slot => exact ⟨⟨machine, stateName, context, snapshot, draining, .inl rfl, status⟩, hooks⟩
  | snapshot => exact ⟨⟨machine, stateName, context, rfl, draining, slot, status⟩, hooks⟩
  | supply => exact ⟨⟨machine, stateName, context, snapshot, draining, slot, status⟩, hooks⟩

namespace World

variable {book : Book} {i : Nat} {w v : World} {free p q p' : Prop} {s : Service}
  {es es' : List Entry}

namespace Attests

/-- The service itself assigns a value to a part of it that is not its snapshot. -/
theorem stroke (h : Attests book i w free s p es v) {f : Service → Service} (hf : Service.Stroke f)
    (same : ∀ s, (f s).snapshot = s.snapshot) (vacant : free → (f s).slot = .empty) :
    Attests book i w free (f s) p es (v.change i f) := by
  refine h.changed (h.busy.alike (hf.status s) (by rw [hf.queue])) vacant
    (fun s' hs' spared => ⟨spared.stroke hf, fun alike => ?_⟩)
    fun s' => ⟨hf.status s', hf.listeners s', same s'⟩
  cases hf <;> first | exact alike | rfl

/-- If the service did not stay calm, what it is known to have done may be given up. -/
theorem lost (h : Attests book i w free s p es v) (disturbed : ¬ (w.Calm i v ∨ free)) :
    Attests book i w free s q es' v :=
  { h with deeds := fun held => absurd held disturbed }

/-- What is known of a service free from invocations is known of it as any service. -/
theorem bound (h : Attests book i w free s p es v) : Attests book i w False s p es v where
  busy := h.busy
  vacant := False.elim
  suffix := h.suffix
  service := by
    obtain ⟨s', hs', spared, slot⟩ := h.service
    exact ⟨s', hs', spared, fun held => slot (.inl (held.resolve_right id))⟩
  kept := h.kept
  deeds := fun held => h.deeds (.inl (held.resolve_right id))
  unrevoked := h.unrevoked

end Attests

/-- After some entries, more were told, and the service became another one. -/
def Becomes (book : Book) (i : Nat) (w : World) (free p : Prop) (es : List Entry)
    (R : List Entry → Service → Prop) (v : World) :
    Prop :=
  ∃ es' s', Attests book i w free s' (p ∧ R es' s') (es ++ es') v

variable {R R' : List Entry → Service → Prop}

/-- Nothing is said of what happened, as the service did not stay calm. -/
def Adrift (book : Book) (i : Nat) (w v : World) : Prop :=
  ∃ s es, Attests book i w False s False es v

theorem Adrift.becomes (h : Adrift book i w v) : Becomes book i w False p es R v := by
  obtain ⟨s, es', hv⟩ := h
  exact ⟨[], s, hv.lost fun held => (hv.deeds held).2⟩

theorem Becomes.map (h : Becomes book i w free p es R v) (hR : ∀ es' s', R es' s' → R' es' s') :
    Becomes book i w free p es R' v := by
  obtain ⟨es', s', hv⟩ := h
  exact ⟨es', s', hv.mono (And.imp_right (hR es' s'))⟩

/-- What is told then is told after all that was told before. -/
theorem Becomes.trans (h : Becomes book i w free (p ∧ p') (es ++ es') R v)
    (hR : ∀ es'' s', p' → R es'' s' → R' (es' ++ es'') s') :
    Becomes book i w free p es R' v := by
  obtain ⟨es'', s', hv⟩ := h
  exact ⟨es' ++ es'', s', List.append_assoc es es' es'' ▸ hv.mono fun hp =>
    ⟨hp.1.1, hR es'' s' hp.1.2 hp.2⟩⟩

/-- What is said is known of the service if it stayed calm, and something less if it was free
from invocations at first. -/
structure Achieves (book : Book) (i : Nat) (w : World) (free p : Prop) (es : List Entry)
    (R R' : List Entry → Service → Prop) (v : World) : Prop where
  becomes : Becomes book i w False p es R v
  anyway : free → p ∧ ∃ es' s', R' es' s' ∧ w.deeds i v = es ++ es'

namespace Achieves

variable {Q Q' : List Entry → Service → Prop}

theorem trans (h : Achieves book i w free (p ∧ p') (es ++ es') R R' v)
    (hR : ∀ es'' s', p' → R es'' s' → Q (es' ++ es'') s')
    (hR' : ∀ es'' s', p' → R' es'' s' → Q' (es' ++ es'') s') :
    Achieves book i w free p es Q Q' v := by
  refine ⟨h.becomes.trans hR, fun vacant => ?_⟩
  obtain ⟨⟨hp, hp'⟩, es'', s', told, deeds⟩ := h.anyway vacant
  exact ⟨hp, es' ++ es'', s', hR' es'' s' hp' told, deeds.trans (List.append_assoc es es' es'')⟩

end Achieves

end World

namespace Run

section Rules

variable {book : Book} {i : Nat} {w v : World} {free p : Prop} {s : Service} {es : List Entry}
  {α β γ δ : Type} {x : Run α} {T : Trace β} {f : β → α}
  {made : β → Service} {R R' : Halt → List Entry → Service → Prop}

/-- From a service on, what the computation returns is as said, or it is halted and leaves a
service behind that is as said. -/
def Stage (book : Book) (i : Nat) (w : World) (free : Prop) (s : Service) (x : Run α)
    (Q : α → Prop → List Entry → World → Prop) (R : Halt → List Entry → Service → Prop) : Prop :=
  ∀ p es, Ends ((World.ledger book i w free s).holds p es) x (fun a => Q a p es)
    fun halt => World.Becomes book i w False p es (R halt)

/-- The computation follows the trace and makes the service another one, or is halted.  What it
returns, and the service, depend on what the trace gives. -/
def Commits (book : Book) (i : Nat) (w : World) (free : Prop) (s : Service) (x : Run α)
    (T : Trace β) (f : β → α) (made : β → Service) :
    (Halt → List Entry → Service → Prop) → Prop :=
  Stage book i w free s x fun a p es v =>
    ∃ b, a = f b ∧ Recounts (World.ledger book i w free (made b)) p es T (.ok b) v

/-- The computation takes the service as far as one assertion says if it stays calm, or as another
says in any case, or is halted. -/
def Concludes (book : Book) (i : Nat) (w : World) (free : Prop) (s : Service) (x : Run Unit)
    (S S' : List Entry → Service → Prop) :
    (Halt → List Entry → Service → Prop) → Prop :=
  Stage book i w free s x fun _ p es => World.Achieves book i w free p es S S'

namespace Stage

variable {Q : α → Prop → List Entry → World → Prop}

/-- Looking at the service commits nothing, and finds one that was spared. -/
theorem read {k : Service → Run α} (hk : ∀ s', s.Spared s' → Stage book i w free s (k s') Q R) :
    Stage book i w free s (service i >>= k) Q R := by
  intro p es v hv
  obtain ⟨s', hs', spared, -⟩ := hv.service
  rw [run_bind, run_service hs']
  exact hk s' spared p es v hv

theorem throw {halt : Halt} (halted : R halt [] s) : Stage book i w free s (throw halt) Q R :=
  fun _ es => .throw fun _ hv =>
    ⟨[], s, (List.append_nil es).symm ▸ hv.bound.mono fun hp => ⟨hp, halted⟩⟩

/-- Looking up what may be missing commits nothing, and halts the stage if it is missing. -/
theorem ofExcept {e : Except Failure γ} {k : γ → Run α}
    (hk : ∀ c, e = .ok c → Stage book i w free s (k c) Q R)
    (halted : ∀ failure, e = .error failure → R (.raised failure) [] s) :
    Stage book i w free s (Run.ofExcept e >>= k) Q R := by
  cases e with
  | ok c => exact hk c rfl
  | error failure => exact throw (halted failure rfl)

/-- Nothing is told by a log record, or by a fault. -/
theorem untold {e : Entry} {k : Unit → Run α} (hk : Stage book i w free s (k ()) Q R)
    (counts : e.counts i = false) (other : ∀ t, e ≠ .revoked i t) :
    Stage book i w free s (note e >>= k) Q R :=
  fun p es => .bind (Q := fun _ => (World.ledger book i w free s).holds p es)
    (.note fun _ hv => hv.untold counts other) fun _ => hk p es

/-- The service itself assigns a value to a part of it that is not its snapshot. -/
theorem stroke {f : Service → Service} {k : Unit → Run α} (hf : Service.Stroke f)
    (same : ∀ s, (f s).snapshot = s.snapshot) (vacant : s.slot = .empty → (f s).slot = .empty)
    (hk : Stage book i w free (f s) (k ()) Q R) :
    Stage book i w free s (update i f >>= k) Q R :=
  fun p es => .bind (Q := fun _ => (World.ledger book i w free (f s)).holds p es)
    (.update fun _ hv => hv.stroke hf same fun held => vacant (hv.vacant held)) fun _ => hk p es

theorem lookUp {e : Except Failure γ} {k : γ → Run α}
    (hk : ∀ c, e = .ok c → Stage book i w free s (k c) Q R)
    (halted : ∀ failure, e = .error failure → R (.raised failure) [] s) :
    Stage book i w free s (Run.lookUp i e >>= k) Q R := by
  cases e with
  | ok c => exact hk c rfl
  | error failure =>
    unfold Run.lookUp
    rw [bind_assoc]
    exact untold (throw (halted failure rfl)) rfl nofun

/-- The node of the live state is looked up. -/
theorem node {k : Value → Run α}
    (hk : ∀ n, s.machine.node s.stateName = .ok n → Stage book i w free s (k n) Q R)
    (halted : ∀ failure, s.machine.node s.stateName = .error failure → R (.raised failure) [] s) :
    Stage book i w free s (Run.node i >>= k) Q R := by
  unfold Run.node
  rw [bind_assoc]
  refine read fun s' spared => ?_
  rw [spared.holds.machine, spared.holds.stateName]
  exact lookUp hk halted

theorem weaken (h : Stage book i w free s x Q R')
    (hR : ∀ halt es s', R' halt es s' → R halt es s') : Stage book i w free s x Q R :=
  fun p es => (h p es).weaken fun halt _ left => left.map (hR halt)

/-- A computation whose first stage commits something goes on from the service that the stage made.
-/
theorem bind {P : γ → β → Prop → List Entry → World → Prop}
    {Q : γ → Prop → List Entry → World → Prop} {k : α → Run γ}
    (hx : Commits book i w free s x T f made R)
    (hk : ∀ b, Stage book i w free (made b) (k (f b)) (fun c => P c b) fun halt es' s' => ∀ es,
      T es (.ok b) → R halt (es ++ es') s')
    (done : ∀ b c p es es' v, P c b (p ∧ T es' (.ok b)) (es ++ es') v → Q c p es v) :
    Stage book i w free s (x >>= k) Q R := by
  intro p es
  refine .bind (hx p es) fun a => .ofExists fun b => .given (fun v told => told.1) ?_
  rintro rfl
  refine .pre (.ofExists fun es' => ?_) fun v told => told.2
  refine (hk b _ _).conseq (fun _ => id) (fun c v => done b c p es es' v) fun halt v left =>
    left.trans fun es'' s' told later => later es' told

end Stage

theorem Recounts.becomes {r : Except Halt β} {R : List Entry → Service → Prop}
    (h : Recounts (World.ledger book i w free s) p es T r v) (hR : ∀ es', T es' r → R es' s) :
    World.Becomes book i w False p es R v := by
  obtain ⟨es', told⟩ := h
  exact ⟨es', s, told.bound.mono (And.imp_right (hR es'))⟩

theorem Tells.commits {T : Trace α} (h : Tells (World.ledger book i w free s) x T)
    (halted : ∀ halt es, T es (.error halt) → R halt es s) :
    Commits book i w free s x T id (fun _ => s) R :=
  fun p es => (h p es).conseq (fun _ => id) (fun a _ told => ⟨a, rfl, told⟩) fun halt _ told =>
    told.becomes (halted halt)

/-- Once the service did not stay calm, a computation that follows a trace leaves it so. -/
theorem Respects.adrift {T : Service → Trace α}
    (h : ∀ s, Tells (World.ledger book i w False s) x (T s)) :
    Respects (World.Adrift book i w) x := by
  have lost {s : Service} {es : List Entry} {r : Except Halt α} {v : World}
      (told : Recounts (World.ledger book i w False s) False es (T s) r v) :
      World.Adrift book i w v := by
    obtain ⟨es', hv⟩ := told
    exact ⟨s, es ++ es', hv.mono And.left⟩
  exact Ends.ofExists fun s => .ofExists fun es =>
    (h s False es).conseq (fun _ => id) (fun _ _ => lost) fun _ _ => lost

namespace Commits

/-- Two stages, one after the other, commit what both commit. -/
theorem bind {k : α → Run γ} {U : β → Trace δ} {f' : δ → γ} {made' : δ → Service}
    (hx : Commits book i w free s x T f made R)
    (hk : ∀ b, Commits book i w free (made b) (k (f b)) (U b) f' made' fun halt es' s' => ∀ es,
      T es (.ok b) → R halt (es ++ es') s') :
    Commits book i w free s (x >>= k) (T >>= U) f' made' R :=
  Stage.bind hx hk fun _ _ _ _ _ _ ⟨d, same, told⟩ => ⟨d, same, told.trans fun _ => .ok⟩

/-- A stage with a conclusion after it concludes what the two tell together. -/
theorem concludes {k : α → Run Unit} {S S' : List Entry → Service → Prop}
    (hx : Commits book i w free s x T f made R)
    (hk : ∀ b, Concludes book i w free (made b) (k (f b))
      (fun es' s' => ∀ es, T es (.ok b) → S (es ++ es') s')
        (fun es' s' => ∀ es, T es (.ok b) → S' (es ++ es') s') fun halt es' s' =>
          ∀ es, T es (.ok b) → R halt (es ++ es') s') :
    Concludes book i w free s (x >>= k) S S' R :=
  Stage.bind hx hk fun _ _ _ _ es' _ yields =>
    yields.trans (fun _ _ told later => later es' told) fun _ _ told later => later es' told

/-- A stage that nothing comes after concludes the computation. -/
theorem final {x : Run Unit} {f : β → Unit} {S S' : List Entry → Service → Prop}
    (h : Commits book i w free s x T f made R) (done : ∀ b es, T es (.ok b) → S es (made b))
    (reached : ∀ b es, T es (.ok b) → S' es (made b)) :
    Concludes book i w free s x S S' R := by
  refine fun p es => (h p es).post fun _ v ⟨b, _, es', told⟩ =>
    ⟨⟨es', made b, told.bound.mono (And.imp_right (done b es'))⟩, fun held => ?_⟩
  obtain ⟨deeds, hp, run⟩ := told.deeds (.inr held)
  exact ⟨hp, es', made b, reached b es' run, deeds⟩

/-- A stage commits the same if its trace gives its result in another form. -/
theorem giving {made' : δ → Service} {f' : δ → α} (h : Commits book i w free s x T f made R)
    (k : β → δ) (same : ∀ b, f' (k b) = f b) (alike : ∀ b, made' (k b) = made b) :
    Commits book i w free s x (do return k (← T)) f' made' R := by
  intro p es
  refine (h p es).post fun a v ⟨b, given, es', told⟩ => ⟨k b, given.trans (same b).symm, es', ?_⟩
  rw [alike]
  exact told.mono (And.imp_right fun told => List.append_nil es' ▸ .ok told ⟨rfl, rfl⟩)

theorem note {e : Entry} (counts : e.counts i = true) (other : ∀ t, e ≠ .revoked i t) :
    Commits book i w free s (Run.note e) (.tell e) id (fun _ => s) R :=
  fun _ _ => .note fun _ hv => ⟨(), rfl, [e], (hv.told counts other).mono fun hp => ⟨hp, rfl, rfl⟩⟩

end Commits

namespace Concludes

variable {x : Run Unit} {S S' S₂ S₂' : List Entry → Service → Prop}

/-- The computation that does nothing concludes what is so already. -/
theorem pure (done : S [] s) (reached : S' [] s) :
    Concludes book i w free s (Pure.pure ()) S S' R := by
  refine fun p es => .pure fun v hv => ⟨⟨[], s, ?_⟩, fun held => ?_⟩
  · exact (List.append_nil es).symm ▸ hv.bound.mono fun hp => ⟨hp, done⟩
  · obtain ⟨deeds, hp⟩ := hv.deeds (.inr held)
    exact ⟨hp, [], s, reached, deeds.trans (List.append_nil es).symm⟩

theorem conseq (h : Concludes book i w free s x S₂ S₂' R') (done : ∀ es s', S₂ es s' → S es s')
    (reached : ∀ es s', S₂' es s' → S' es s')
    (halted : ∀ halt es s', R' halt es s' → R halt es s') : Concludes book i w free s x S S' R := by
  refine fun p es => (h p es).conseq (fun _ => id)
      (fun _ v yields => ⟨yields.becomes.map done, fun held => ?_⟩) fun halt v left =>
        left.map (halted halt)
  obtain ⟨hp, es', s', told, deeds⟩ := yields.anyway held
  exact ⟨hp, es', s', reached es' s' told, deeds⟩

end Concludes

end Rules

end Run

end FlatMachine
