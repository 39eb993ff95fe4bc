import FlatMachine.Proofs.World.Tick

/-! # After a stop

Nothing follows a stop: a stopped service accepts and takes nothing more.  Where no drain of it
is in progress, nothing else is done on its behalf either, and its slot, which the stop emptied,
stays empty (**`Service.Aftermath`**).

A drain that a stop interrupts goes on with the transition that it is in the middle of.  If that
enters a state with an invocation, the invocation is started for the stopped service
(**`Point.Belated`**), and this is the only way in which a stopped service can have one. -/

namespace FlatMachine

/-- What becomes of a service after a point at which it was stopped. -/
structure Service.Aftermath (i : Nat) (before : Service) (earlier : List Entry) (s : Service)
    (journal : List Entry) :
    Prop where
  stopped : s.status = .stopped
  idle : before.queue.draining = false → s.queue.draining = false
  slot : before.queue.draining = false → s.slot = before.slot ∨ s.slot = .empty
  journal : ∃ later, journal = later ++ earlier ∧
    ∀ e ∈ later, (e.course? = some i → ∃ halt, e = .ended i halt) ∧
    (before.queue.draining = false → e.worker? ≠ some i)

/-- An invocation was started here by a drain of a service that was stopped. -/
structure Point.Belated (p : Point) (i : Nat) (t : Token) : Prop where
  activated : ∃ invocation before, p.journal.head? = some (.activated i t invocation before)
  service : ∃ s, p.services[i]? = some s ∧ s.status = .stopped ∧ s.queue.draining = true

namespace Service.Aftermath

variable {i : Nat} {before s s' : Service} {earlier journal : List Entry}

theorem refl (stopped : s.status = .stopped) : Aftermath i s journal s journal where
  stopped := stopped
  idle := id
  slot := fun _ => Or.inl rfl
  journal := ⟨[], rfl, List.forall_mem_nil _⟩

/-- Something else is written, and the slot is emptied at most. -/
theorem next {e : Option Entry} (h : Aftermath i before earlier s journal)
    (status : s'.status = s.status) (idle : s.queue.draining = false → s'.queue.draining = false)
    (slot : before.queue.draining = false → s'.slot = s.slot ∨ s'.slot = .empty)
    (written : ∀ x ∈ e, (x.course? = some i → ∃ halt, x = .ended i halt) ∧
      (before.queue.draining = false → x.worker? ≠ some i)) :
    Aftermath i before earlier s' (e.toList ++ journal) where
  stopped := status.trans h.stopped
  idle := fun unbegun => idle (h.idle unbegun)
  slot := by
    intro unbegun
    rcases slot unbegun with same | empty
    · rw [same]
      exact h.slot unbegun
    · exact Or.inr empty
  journal := by
    obtain ⟨later, rfl, others⟩ := h.journal
    refine ⟨e.toList ++ later, by
      rw [List.append_assoc], List.forall_mem_append.mpr ⟨fun x hx => ?_, others⟩⟩
    exact written x (Option.mem_toList.mp hx)

theorem beat {e : Option Entry} (b : Beat i s s' e) (h : Aftermath i before earlier s journal) :
    Aftermath i before earlier s' (e.toList ++ journal) := by
  have never {P : Prop} (running : s.status = .running) : P := by
    rw [h.stopped] at running
    cases running
  -- Work is done, and a drain is left, only if one was in progress already.
  have begun {P : Prop} (busy : s.Busy) (unbegun : before.queue.draining = false) : P := by
    have idle := h.idle unbegun
    rw [busy.draining] at idle
    cases idle
  cases b with
  | pass queue status slot passing =>
    refine h.next status (by rw [queue]; exact id) (fun _ => slot) fun x hx => ?_
    exact ⟨fun course => absurd course (passing x hx).course, fun _ => (passing x hx).worker⟩
  | work busy queue status _ course =>
    refine h.next status (by rw [queue]; exact id) (begun busy) fun x hx => ?_
    exact ⟨fun hi => absurd hi (course x hx), begun busy⟩
  | start notStarted =>
    rw [h.stopped] at notStarted
    cases notStarted
  | stop running | accept _ running | enter running | take _ running => exact never running
  | drop => exact h.next rfl id (fun _ => Or.inl rfl) (fun _ hx => nomatch hx)
  | leave halt busy =>
    refine h.next rfl (fun _ => Queue.draining_leave _ _) (begun busy) fun x hx => ?_
    cases hx
    exact ⟨fun _ => ⟨halt, rfl⟩, begun busy⟩

end Service.Aftermath

namespace Ticks

variable {w w' : World} {i : Nat} {s : Service}

theorem aftermath (h : Ticks w w') (hs : w.services[i]? = some s) (stopped : s.status = .stopped) :
    ∃ s', w'.services[i]? = some s' ∧ s.Aftermath i w.journal s' w'.journal :=
  h.keeps (K := fun s' journal => s.Aftermath i w.journal s' journal) (fun _ _ _ _ => .beat) hs
    (.refl stopped)

/-- The slot of a service is empty when it is stopped, so what it holds later was put there
later. -/
theorem belated (h : Ticks w w') (none : w.services = []) :
    ∀ s, w'.services[i]? = some s → s.status = .stopped →
    ∀ t, s.slot.isActive t = true → ∃ q ∈ w'.points, q.Belated i t := by
  induction h with
  | refl =>
    intro s hs
    rw [none] at hs
    cases hs
  | @tail u w' _ tick ih =>
    intro s hs stopped t active
    obtain ⟨e, journal, points, beats, births⟩ := tick.entry
    have earlier {s₀ : Service} (hs₀ : u.services[i]? = some s₀) (stopped : s₀.status = .stopped)
        (active : s₀.slot.isActive t = true) : ∃ q ∈ w'.points, q.Belated i t := by
      obtain ⟨q, hq, belated⟩ := ih s₀ hs₀ stopped t active
      exact ⟨q, points ▸ List.mem_append_right _ hq, belated⟩
    cases hs₀ : u.services[i]? with
    | none =>
      rw [((births i hs₀).2 s hs).status] at stopped
      cases stopped
    | some s₀ =>
      obtain ⟨s₁, hs₁, beat⟩ := beats i s₀ hs₀
      cases hs.symm.trans hs₁
      cases beat with
      | pass _ status slot =>
        rcases slot with same | empty
        · exact earlier hs₀ (status ▸ stopped) (same ▸ active)
        · rw [empty] at active
          cases active
      | work busy queue status slot =>
        rcases slot t active with before | ⟨invocation, before, rfl⟩
        · exact earlier hs₀ (status ▸ stopped) before
        · refine ⟨w'.now, points ▸ List.mem_append_left _ List.mem_cons_self,
            ⟨invocation, before, ?_⟩, s, hs, stopped, ?_⟩
          · show w'.journal.head? = _
            rw [journal]
            rfl
          · rw [queue]
            exact busy.draining
      | start _ running =>
        rw [running] at stopped
        cases stopped
      | stop _ _ _ slot =>
        rw [slot] at active
        cases active
      | accept _ running | enter running | take _ running =>
        rw [show s₀.status = .stopped from stopped] at running
        cases running
      | drop | leave => exact earlier hs₀ stopped active

end Ticks

namespace Engine

open Run

variable {g : Engine} {i : Nat} {w : World} {s : Service}

/-- However a stop ends, it leaves the slot empty. -/
theorem stop_empties (hg : g.Tame) (hw : w.Sane) (hs : w.services[i]? = some s)
    (running : s.status = .running) :
    ∃ s', ((g.stop i).run w).2.services[i]? = some s' ∧ s'.status = .stopped ∧ s'.slot = .empty ∧
      s'.queue.draining = s.queue.draining := by
  have step : Step .stop w (w.stopped i s.slot) := .turn hs (.stop running)
  have self := World.stopped_self hs s.slot
  have rest : (g.finishCancelling i s.slot >>= fun _ => finishStop i).Goes .outside
      (World.Over i) fun _ =>
        World.Over i := by
    refine .bind (.frame .ofOver (tame_finishCancelling hg s.slot)) fun _ => ?_
    refine .bind (.turned .ofOver fun v s' hv hs' => ?_) fun _ => .peek fun _ => .record .ofOver
    obtain ⟨s₁, hs₁, stopped⟩ := hv.service
    cases hs'.symm.trans hs₁
    exact .drop stopped
  have path := (rest _ ⟨step.sane hw, _, self, rfl⟩).1.path
  rw [← run_stop_turned hs running] at path
  by_cases busy : (w.stopped i s.slot).Busy i
  · obtain ⟨s', hs', holds⟩ := (path.kept (fun _ hl => False.elim hl) busy).service _ self
    refine ⟨s', hs', ?_, holds.vacant rfl, holds.draining⟩
    rcases holds.status with same | ⟨running, -⟩
    · exact same
    · cases running
  · have idle : s.queue.draining = false := by
      cases draining : s.queue.draining with
      | false => rfl
      | true => exact absurd ⟨_, self, draining, nofun⟩ busy
    obtain ⟨s', hs', after⟩ := path.ticks.aftermath self rfl
    refine ⟨s', hs', after.stopped, ?_, (after.idle idle).trans idle.symm⟩
    rcases after.slot idle with same | empty
    · exact same
    · exact empty

end Engine

namespace World

variable {book : Book} {fuel : Nat} {looping : Bool} {history : List Command} {p q : Point}
  {i : Nat} {s : Service}

/-- What becomes of a stopped service, at every later point. -/
theorem aftermath_of_passed
    (hp : p ∈ ((World.start looping).after (.ofBook book fuel) history).passed)
    (hs : p.services[i]? = some s) (stopped : s.status = .stopped)
    (hq : q ∈ ((World.start looping).after (.ofBook book fuel) history).passed)
    (later : q = ((World.start looping).after (.ofBook book fuel) history).now ∨
      p.journal.length < q.journal.length) :
    ∃ s', q.services[i]? = some s' ∧ s.Aftermath i p.journal s' q.journal := by
  obtain ⟨v, before, after, rfl⟩ := ticks_of_passed hp
  rcases later with rfl | later
  · exact after.aftermath hs stopped
  · rcases after.passed hq with hq | ⟨u, between, -, rfl⟩
    · rcases before.passed (List.mem_cons_of_mem _ hq) with hq | ⟨u, -, between, rfl⟩
      · cases hq
      · exact absurd later (Nat.not_lt.mpr between.journal.length_le)
    · exact between.aftermath hs stopped

/-- What a stopped service has in its slot was put there by a drain that went on after the stop. -/
theorem belated_of_passed
    (hp : p ∈ ((World.start looping).after (.ofBook book fuel) history).passed)
    (hs : p.services[i]? = some s) (stopped : s.status = .stopped) {t : Token}
    (active : s.slot.isActive t = true) :
    ∃ q ∈ ((World.start looping).after (.ofBook book fuel) history).points, q.Belated i t := by
  obtain ⟨v, before, after, rfl⟩ := ticks_of_passed hp
  obtain ⟨q, hq, belated⟩ := before.belated rfl s hs stopped t active
  exact ⟨q, after.points.subset hq, belated⟩

/-- Nothing is accepted or taken after a stop.  If no drain was in progress, nothing is done for
the service any more, and its slot stays empty; an invocation that it has nevertheless was
started by the drain that the stop interrupted. -/
theorem stopped_for_good (book : Book) (fuel : Nat) (looping : Bool)
    (history : List Command) (i : Nat) :
    let w := (World.start looping).after (.ofBook book fuel) history
    (∀ p ∈ w.passed, ∀ s, p.services[i]? = some s → s.status = .stopped →
      (∀ q ∈ w.passed, q = w.now ∨ p.journal.length < q.journal.length →
        ∃ s', q.services[i]? = some s' ∧ s.Aftermath i p.journal s' q.journal) ∧
      ∀ t, s.slot.isActive t = true → ∃ q ∈ w.points, q.Belated i t) ∧
    ∀ (v : World) s, v.Sane → v.services[i]? = some s → s.status = .running →
      ∃ s', (((Engine.ofBook book fuel).stop i).run v).2.services[i]? = some s' ∧
      s'.status = .stopped ∧
        s'.slot = .empty ∧ s'.queue.draining = s.queue.draining := by
  intro w
  refine ⟨fun p hp s hs stopped => ⟨fun q hq later => ?_, fun t active => ?_⟩,
    fun v s hv hs running => ?_⟩
  · exact aftermath_of_passed hp hs stopped hq later
  · exact belated_of_passed hp hs stopped active
  · exact Engine.stop_empties (Engine.tame_ofBook book fuel) hv hs running

end World

/-! ### A trap

A machine to look at: it stops itself on its way into a state with an invocation. -/

namespace Trap

def go : Transition := ⟨.str "caught", [Swing.function 0], .null⟩

def wide : Node := ⟨[(.str "GO", .tuple [go.toValue])], [], [], .null, []⟩

def caught : Node := ⟨[], [], [], Invocation.toValue ⟨Swing.function 1, [], [], .bool true⟩, []⟩

def machine : Machine where
  id := .str "trap"
  initial := .str "open"
  context := .null
  states := [(.str "open", wide.toValue), (.str "caught", caught.toValue)]

def book : Book := Book.ofCodes fun
  | .host 0, _, _ => .ask (.stop 0) fun _ => .done (.fresh .null)
  | .host 1, _, _ => .ask .future fun a => .done (.fresh a.toValue)
  | _, _, _ => .done (.fresh .null)

def life : List Command :=
  [.create machine.toValue .standard [] true, .start 0 .null, .send 0 (.str "GO")]

def world : World := (World.start true).after (.ofBook book 9) life

/-- The invocation was started when the trap was stopped already, and it is still the active one. -/
theorem started_late :
    ∃ s t, world.services[0]? = some s ∧ s.status = .stopped ∧ s.slot.isActive t = true ∧
    ∃ q ∈ world.points, q.Belated 0 t := by
  have belated (s : Service) (t : Token) (hs : world.now.services[0]? = some s)
      (stopped : s.status = .stopped)
      (active : s.slot.isActive t = true) : ∃ q ∈ world.points, q.Belated 0 t :=
    ((World.stopped_for_good book 9 true life 0).1 world.now List.mem_cons_self s hs stopped).2 t
      active
  have caught :
      world.services[0]?.any (fun s => s.status == .stopped && s.slot.token.isSome) = true := by
    decide +kernel
  generalize world = w at *
  obtain ⟨s, hs, caught⟩ := (Option.any_eq_true _ _).mp caught
  simp only [Bool.and_eq_true, beq_iff_eq] at caught
  obtain ⟨stopped, present⟩ := caught
  obtain ⟨t, ht⟩ := Option.isSome_iff_exists.mp present
  have active := Slot.isActive_iff.mpr ht
  exact ⟨s, t, hs, stopped, active, belated s t hs stopped active⟩

end Trap

end FlatMachine
