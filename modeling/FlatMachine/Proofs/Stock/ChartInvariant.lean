import FlatMachine.Proofs.History
import FlatMachine.Proofs.World.Lasting
import FlatMachine.Proofs.Stock.ChartStep

/-! # What charts keep

An invariant of a chart holds of the spot at which a service starts, and whatever the chart
allows keeps it (**`Chart.Keeps`**).  Then it holds of such a service in every history, whatever
callbacks do: at every point passed (**`Chart.seen_of_passed`**), and when nobody drains the
service, with its slot empty or holding the invocation begun last (**`Chart.held_of_passed`**).

A hook, or want of fuel, may halt a drain anywhere.  An invariant that is **lax** need not
outlast that; then nothing is said of a service after it was disturbed so, and of one that is
drained only that it is at some spot. -/

namespace FlatMachine

open Run Engine

/-- A drain begins, after something else was written. -/
theorem World.Stays.entered {w : World} {i : Nat} {φ : Nat → Service → List Entry → Prop}
    {S : Point → Prop} {s : Service} {f : Service → Service} {e : Entry}
    (hs : w.services[i]? = some s) (started : (f s).status ≠ .notStarted)
    (points : ∀ p ∈ w.points, S p)
    (now : ∀ p : Point, p.journal = e :: w.journal → p.services[i]? = some (f s) → S p)
    (begun : φ w.clock { f s with queue := (f s).queue.enter } (.began i :: e :: w.journal))
    (seen : ∀ p : Point, p.journal = .began i :: e :: w.journal →
      p.services[i]? = some { f s with queue := (f s).queue.enter } → S p) :
    World.Stays i φ S (w.entered i f e) := by
  have busy : (w.entered i f e).services[i]? = some { f s with queue := (f s).queue.enter } :=
    World.entered_self hs
  refine ⟨⟨_, busy, ⟨rfl, started⟩, begun⟩,
    List.forall_mem_cons.mpr ⟨seen _ rfl busy, List.forall_mem_cons.mpr ⟨?_, points⟩⟩⟩
  exact now ⟨(w.change i f).services, e :: w.journal⟩ rfl (World.change_self f hs)

/-- Without an override, a context is started with as it is. -/
theorem Value.eq_of_copied {v base merged : Value} (copied : v.copy = .ok base)
    (overridden : base.override .null = .ok merged) :
    merged = v := by
  unfold copy at copied
  split at copied
  · exact (Except.ok.inj overridden).symm.trans (Except.ok.inj copied).symm
  · cases copied

namespace Chart

variable {ρ Act Guard : Type} (c : Chart ρ Act Guard) (i : Nat) (lax : Prop) (Inv : Spot ρ → Prop)

/-- The spot at which a service starts. -/
def origin : Spot ρ := ⟨c.start, c.context, 0, []⟩

/-- The invariant is kept by whatever the chart allows, if it is not lax, where it is disturbed
too. -/
structure Keeps : Prop where
  starts : Inv c.origin
  takes : ∀ {x : Spot ρ} {item : Item} {x' : Spot ρ}, Inv x → c.Takes x item x' → Inv x'
  stops : ∀ {x : Spot ρ} {item : Item} {x' : Spot ρ} {hitch : Hitch}, Inv x →
    c.Stops x item x' hitch →
    Inv x' ∨ lax ∧ hitch = .disturbed

/-- The item may leave the service where it was, or halt it there, without it being disturbed. -/
inductive Remains (x : Spot ρ) : Item → Prop
  | ignored {e : Event} {place : Place Act Guard} (there : c.place x.name = some place)
      (none : c.choice x.record (place.offers e.type) = none) : Remains x (.event e)
  | guarding {e : Event} {place : Place Act Guard} {edge : Edge Act Guard}
      (there : c.place x.name = some place)
      (offered : edge ∈ place.offers e.type) (guarded : edge.guard.isSome = true) :
      Remains x (.event e)
  | outcome (o : Outcome) : Remains x (.outcome o)
  | failed {item : Item} {edge : Edge Act Guard} {e seen : Event} {f : Failure}
      (chooses : c.Chooses x item edge e seen)
      (fails : c.Fails seen edge.actions x.state f) : Remains x item
  | leaving {item : Item} {edge : Edge Act Guard} {e seen : Event}
      (chooses : c.Chooses x item edge e seen)
      (leaves : edge.stays x.name = false) (tasked : c.Tasked x.name) : Remains x item

/-- The invariant is kept step by step; there is more to be said of a service as it arrives in a
place, and as it has entered it. -/
structure Stepwise (Arrived Entered : Spot ρ → Prop) : Prop where
  starts : Inv c.origin
  told : ∀ {x : Spot ρ} (item : Item), Inv x → Inv (x.told (.taken item)) ∨ lax
  remains : ∀ {x : Spot ρ} {item : Item}, Inv x → c.Remains x item → Inv (x.told (.taken item))
  inside : ∀ {x : Spot ρ} {item : Item} {edge : Edge Act Guard} {e seen : Event} {y : ρ × Nat},
    Inv x →
    c.Chooses x item edge e seen → edge.stays x.name = true → c.Runs seen edge.actions x.state y →
      Inv ((x.told (.taken item)).acted y)
  arrives : ∀ {x x' : Spot ρ} {item : Item} {edge : Edge Act Guard} {e seen : Event}, Inv x →
    c.Chooses x item edge e seen →
    c.Arrives edge seen (x.told (.taken item)) x' → Arrived x'
  arrived : ∀ {x : Spot ρ}, Arrived x → Inv x ∨ lax
  enters : ∀ {x x' : Spot ρ} {e : Event}, Arrived x → c.Enters e x x' → Entered x'
  entered : ∀ {x : Spot ρ}, Entered x → Inv x
  calls : ∀ {x x' : Spot ρ}, Entered x → c.Calls x x' → Inv x'

/-- The invariant is not claimed of the service: the chart does not draw its machine, or a drain of
it was spoiled and the chart is lax. -/
def Exempt (s : Service) (journal : List Entry) : Prop :=
  s.machine ≠ c.machine ∨ lax ∧ Spoiled i journal

/-- The service is at a spot where the invariant holds, and its slot is empty or fits. -/
def Held (time : Nat) (s : Service) (journal : List Entry) : Prop := c.Exempt i lax s journal ∨
  ∃ x, Inv x ∧ x.time ≤ time ∧ c.Shown i x s journal ∧ (s.slot = .empty ∨ c.Fits x s.slot)

/-- The point shows the service at a spot where the invariant holds, unless it is lax; as an item
is taken, its slot is empty or fits. -/
def Seen (p : Point) : Prop :=
  ∀ s, p.services[i]? = some s → (∀ e ∈ p.journal, e.deed? ≠ some i) ∨ c.Exempt i lax s p.journal ∨
  ∃ x, (lax ∨ Inv x) ∧ c.Shown i x s p.journal ∧
    ∀ item, p.journal.head? = some (.taken i item) → s.slot = .empty ∨ c.Fits x s.slot

/-- The invariant holds of the service, and of all points passed. -/
def Account : FlatMachine.Account := fun time s journal points =>
  c.Held i lax Inv time s journal ∧ ∀ p ∈ points, c.Seen i lax Inv p

/-- The service is drained, and the invariant is not claimed of it. -/
def Strayed : World → Prop := World.Stays i (fun _ => c.Exempt i lax) (c.Seen i lax Inv)

/-- The invariant holds of the service that is drained. -/
def Kept : World → Prop := World.Stays i (c.Held i lax Inv) (c.Seen i lax Inv)

/-- The invariant holds of the service whose drain was halted, or it is lax and was disturbed. -/
def Halted (halt : Halt) (w : World) : Prop := c.Kept i lax Inv w ∨
  ∃ x, c.At i (c.Seen i lax Inv) (c.Fits x) x w ∧ lax ∧ Spoils i halt w.journal

variable {c i lax Inv} {x : Spot ρ} {s s' : Service} {p : Point} {e : Entry} {journal : List Entry}
  {time time' : Nat} {w : World} {g : Engine}

theorem Stepwise.keeps {Arrived Entered : Spot ρ → Prop} (h : c.Stepwise lax Inv Arrived Entered) :
    c.Keeps lax Inv where
  starts := h.starts
  takes := by
    intro x item x' inv takes
    cases takes with
    | ignored there none => exact h.remains inv (.ignored there none)
    | dropped o => exact h.remains inv (.outcome o)
    | led chooses leads =>
      cases leads with
      | inside stays ran => exact h.inside inv chooses stays ran
      | across arrives enters => exact h.entered (h.enters (h.arrives inv chooses arrives) enters)
      | calling arrives enters calls =>
        exact h.calls (h.enters (h.arrives inv chooses arrives) enters) calls
  stops := by
    intro x item x' hitch inv stops
    cases stops with
    | taken => exact (h.told item inv).imp_right fun isLax => ⟨isLax, rfl⟩
    | guarding there offered guarded =>
      exact Or.inl (h.remains inv (.guarding there offered guarded))
    | settling o => exact Or.inl (h.remains inv (.outcome o))
    | broken chooses breaks =>
      cases breaks with
      | disturbed => exact (h.told item inv).imp_right fun isLax => ⟨isLax, rfl⟩
      | failed fails => exact Or.inl (h.remains inv (.failed chooses fails))
      | cancelling leaves tasked => exact Or.inl (h.remains inv (.leaving chooses leaves tasked))
      | arrived arrives => exact (h.arrived (h.arrives inv chooses arrives)).imp_right fun isLax =>
        ⟨isLax, rfl⟩
      | entered arrives enters =>
        exact Or.inl (h.entered (h.enters (h.arrives inv chooses arrives) enters))
      | called arrives enters calls =>
        exact Or.inl (h.calls (h.enters (h.arrives inv chooses arrives) enters) calls)

/-! ### Services and points -/

namespace Exempt

theorem append (h : c.Exempt i lax s journal) (machine : s'.machine = s.machine)
    (later : List Entry) :
    c.Exempt i lax s' (later ++ journal) :=
  h.imp (machine ▸ ·) (And.imp_right fun spoiled => spoiled.mono (List.suffix_append ..))

theorem cons (h : c.Exempt i lax s journal) (e : Entry) : c.Exempt i lax s (e :: journal) :=
  h.append rfl [e]

theorem seen (h : c.Exempt i lax s p.journal) (hs : p.services[i]? = some s) : c.Seen i lax Inv p :=
  fun s' hs' => by
  cases hs.symm.trans hs'
  exact Or.inr (Or.inl h)

end Exempt

theorem admits_seen (h : lax ∨ Inv x) : c.Admits i (c.Seen i lax Inv) x :=
  fun p s hs shown slot s' hs' => by
  cases hs.symm.trans hs'
  exact Or.inr (Or.inr ⟨x, h, shown, slot⟩)

namespace Held

theorem seen (h : c.Held i lax Inv time s p.journal) (hs : p.services[i]? = some s) :
    c.Seen i lax Inv p := by
  rcases h with exempt | ⟨x, inv, -, shown, slot⟩
  · exact exempt.seen hs
  · exact admits_seen (Or.inr inv) p s hs shown fun _ _ => slot

theorem alike (h : c.Held i lax Inv time s journal) (machine : s'.machine = s.machine)
    (name : s'.stateName = s.stateName) (context : s'.context = s.context)
    (slot : s'.slot = s.slot ∨ s'.slot = .empty) (after : time ≤ time') :
    c.Held i lax Inv time' s' journal := by
  rcases h with exempt | ⟨x, inv, before, shown, held⟩
  · exact Or.inl (exempt.append machine [])
  · refine Or.inr ⟨x, inv, Nat.le_trans before after,
      shown.alike machine name (congrArg Context.value context) rfl, ?_⟩
    rcases slot with same | empty
    · rw [same]
      exact held
    · exact Or.inl empty

theorem noted (h : c.Held i lax Inv time s journal) (plain : e.Plain i) :
    c.Held i lax Inv time s (e :: journal) := by
  rcases h with exempt | ⟨x, inv, before, shown, slot⟩
  · exact Or.inl (exempt.cons e)
  · exact Or.inr ⟨x, inv, before, shown.alike rfl rfl rfl (story_plain plain), slot⟩

theorem append (h : c.Held i lax Inv time s journal) {later : List Entry}
    (others : ∀ e ∈ later, e.deed? ≠ some i) :
    c.Held i lax Inv time s (later ++ journal) := by
  induction later with
  | nil => exact h
  | cons e rest ih =>
    obtain ⟨other, others⟩ := List.forall_mem_cons.mp others
    exact (ih others).noted (Entry.plain_of_deed other)

end Held

theorem enduring_account (c : Chart ρ Act Guard) (i : Nat) (lax : Prop) (Inv : Spot ρ → Prop) :
    Enduring i (c.Account i lax Inv) where
  noted := by
    rintro time s e p journal points deed head hs ⟨held, seen⟩
    have held := held.noted (Entry.plain_of_deed deed)
    exact ⟨held, List.forall_mem_cons.mpr ⟨Held.seen (head ▸ held) hs, seen⟩⟩
  same := fun same ⟨held, seen⟩ =>
    ⟨held.alike same.machine same.stateName same.context same.slot (Nat.le_refl _), seen⟩
  later := fun after ⟨held, seen⟩ => ⟨held.alike rfl rfl rfl (Or.inl rfl) after, seen⟩

/-! ### Drains -/

namespace Strayed

theorem noted (h : c.Strayed i lax Inv w) (e : Entry) : c.Strayed i lax Inv (w.noted e) := by
  obtain ⟨⟨s, hs, busy, exempt⟩, points⟩ := h
  have exempt : c.Exempt i lax s (e :: w.journal) := exempt.cons e
  exact ⟨⟨s, hs, busy, exempt⟩, List.forall_mem_cons.mpr ⟨Exempt.seen exempt hs, points⟩⟩

theorem changed (h : c.Strayed i lax Inv w) {f : Service → Service}
    (hf : ∀ s : Service, (f s).status = s.status ∧
    (f s).queue.draining = s.queue.draining ∧ (f s).machine = s.machine) :
    c.Strayed i lax Inv (w.change i f) := by
  obtain ⟨⟨s, hs, busy, exempt⟩, points⟩ := h
  obtain ⟨status, draining, machine⟩ := hf s
  exact ⟨⟨f s, World.change_self f hs, busy.alike status draining, exempt.append machine []⟩,
    points⟩

theorem steady : World.Steady i (c.Strayed i lax Inv) :=
  World.Stays.steady (fun _ spared _ exempt => exempt.append spared.holds.machine _)
    fun _ _ hs exempt => exempt.seen hs

theorem working (hg : g.Sparing) : g.Working i (c.Strayed i lax Inv) where
  aside := (steady.free hg).aside
  noted := fun _ h => h.noted _
  changed := fun hf h => h.changed fun s => by
    obtain ⟨_, _, _, _, eq⟩ := hf s
    rw [eq]
    exact ⟨rfl, rfl, rfl⟩
  calls := steady.sustained hg

theorem kept (h : c.Strayed i lax Inv w) : c.Kept i lax Inv w := by
  obtain ⟨⟨s, hs, busy, exempt⟩, points⟩ := h
  exact ⟨⟨s, hs, busy, Or.inl exempt⟩, points⟩

end Strayed

namespace Kept

theorem ofAt (inv : Inv x) (h : c.At i (c.Seen i lax Inv) (c.Fits x) x w) : c.Kept i lax Inv w := by
  obtain ⟨⟨s, hs, busy, shown, slot⟩, time, points⟩ := h
  exact ⟨⟨s, hs, busy, Or.inr ⟨x, inv, time, shown, slot⟩⟩, points⟩

theorem either (h : c.Kept i lax Inv w) :
    c.Strayed i lax Inv w ∨ ∃ x, Inv x ∧ c.At i (c.Seen i lax Inv) (c.Fits x) x w := by
  obtain ⟨⟨s, hs, busy, exempt | ⟨x, inv, time, shown, slot⟩⟩, points⟩ := h
  · exact Or.inl ⟨⟨s, hs, busy, exempt⟩, points⟩
  · exact Or.inr ⟨x, inv, ⟨s, hs, busy, shown, slot⟩, time, points⟩

theorem steady : World.Steady i (c.Kept i lax Inv) :=
  World.Stays.steady (fun after spared others held =>
    (held.append others).alike spared.holds.machine spared.holds.stateName
    spared.holds.context spared.holds.slot after) fun _ _ hs held => held.seen hs

theorem publish (hg : g.Sparing) : Respects (c.Kept i lax Inv) (g.publish i) := by
  refine (steady.free hg).publish (fun {w e} announced h => ?_) fun {w} sn h => ?_
  · obtain ⟨⟨s, hs, busy, held⟩, points⟩ := h
    have held : c.Held i lax Inv w.clock s (e :: w.journal) :=
      held.noted (by cases announced <;> trivial)
    exact ⟨⟨s, hs, busy, held⟩, List.forall_mem_cons.mpr ⟨Held.seen held hs, points⟩⟩
  · obtain ⟨⟨s, hs, busy, held⟩, points⟩ := h
    exact ⟨⟨_, World.change_self _ hs, busy.alike rfl rfl,
      held.alike rfl rfl rfl (Or.inl rfl) (Nat.le_refl _)⟩, points⟩

/-- A drain begins, after something else was written. -/
theorem entered {f : Service → Service} (hs : w.services[i]? = some s)
    (started : (f s).status ≠ .notStarted) (plain : e.Plain i)
    (held : c.Held i lax Inv w.clock (f s) w.journal)
    (points : ∀ p ∈ w.points, c.Seen i lax Inv p) :
    c.Kept i lax Inv (w.entered i f e) := by
  have told : c.Held i lax Inv w.clock (f s) (e :: w.journal) := held.noted plain
  have began : c.Held i lax Inv w.clock { f s with queue := (f s).queue.enter }
      (.began i :: e :: w.journal) :=
    Held.noted (e := .began i) (told.alike rfl rfl rfl (Or.inl rfl) (Nat.le_refl _)) trivial
  exact World.Stays.entered hs started points (fun p head hp => Held.seen (head ▸ told) hp) began
      fun p head hp => Held.seen (head ▸ began) hp

/-- What was kept while the service was drained is its account when the drain is over. -/
theorem left {halt : Option Halt} {s' : Service} (h : c.Kept i lax Inv w)
    (hs : w.services[i]? = some s) (head : p.journal = .ended i halt :: w.journal)
    (hp : p.services[i]? = some s') (same : s.Resembles s') :
    c.Account i lax Inv w.clock s p.journal (p :: w.points) := by
  obtain ⟨⟨s₀, hs₀, -, held⟩, points⟩ := h
  cases hs.symm.trans hs₀
  have told : c.Held i lax Inv w.clock s p.journal := by
    rw [head]
    exact Held.noted (e := .ended i halt) held trivial
  have held := told.alike same.machine same.stateName same.context same.slot (Nat.le_refl _)
  exact ⟨told, List.forall_mem_cons.mpr ⟨held.seen hp, points⟩⟩

end Kept

variable (keeps : c.Keeps lax Inv)

include keeps

theorem rounds_kept (hg : c.Performs g) :
    g.Rounds i (c.Kept i lax Inv) (fun _ _ => c.Kept i lax Inv) (c.Halted i lax Inv) where
  halted := fun _ => Or.inl
  lost := fun _ h _ => Or.inl h
  skipped := fun h _ _ => h
  published :=
    fun h _ _ _ => ((Kept.publish hg.sparing).ends fun _ _ => Or.inl).pre fun v hv => hv ▸ h
  processed := by
    intro w s item h hs _ _
    -- Of a service that strayed nothing is said; any other one is at a spot, and the chart says
    -- where the item leads.
    rcases h.either with strayed | ⟨x, inv, here⟩
    · refine (((Strayed.working hg.sparing).process item).ends fun _ _ h => Or.inl h.kept).conseq
        (fun v hv => ?_) (fun _ _ => Strayed.kept) fun _ _ => id
      subst hv
      have dequeued :=
        strayed.changed (f := fun s => { s with queue := s.queue.dequeue.2 }) fun s =>
        ⟨rfl, Queue.draining_dequeue _, rfl⟩
      exact dequeued.noted _
    · have admits {x' : Spot ρ} {hitch : Hitch} (stops : c.Stops x item x' hitch) :
          c.Admits i (c.Seen i lax Inv) x' :=
        admits_seen ((keeps.stops inv stops).symm.imp_left And.left)
      refine (ends_process hg item fun _ _ stops => admits stops).conseq (fun v hv => ?_)
        (fun _ v ⟨x', takes, there⟩ => ?_)
        fun halt v ⟨x', hitch, stops, there, explains⟩ => ?_
      · subst hv
        obtain ⟨⟨s', hs', busy, shown, slot⟩, time, points⟩ := here
        cases hs.symm.trans hs'
        have self := World.taken_self item hs
        have shown : c.Shown i (x.told (.taken item)) { s with queue := s.queue.dequeue.2 }
            (.taken i item :: w.journal) :=
          ⟨shown.machine, shown.name, shown.placed, shown.record,
            (story_told (Entry.chapter?_taken i item)).trans
              (congrArg (Chapter.taken item :: ·) shown.story)⟩
        refine ⟨⟨_, self, busy.alike rfl (Queue.draining_dequeue _), shown, slot⟩, time,
          List.forall_mem_cons.mpr ⟨?_, points⟩⟩
        exact admits (.taken item) _ _ self shown fun _ _ => slot
      · exact Kept.ofAt (keeps.takes inv takes) there
      · rcases keeps.stops inv stops with inv | ⟨lax, rfl⟩
        · exact Or.inl (Kept.ofAt inv there)
        · exact Or.inr ⟨x', there, lax, explains⟩

/-- Entering the first place does nothing. -/
theorem ends_startBody (hg : c.Performs g) :
    Ends (fun w => c.Strayed i lax Inv w ∨ c.At i (c.Seen i lax Inv) (fun _ => False) c.origin w)
      (g.startBody i) (fun _ => c.Kept i lax Inv) (c.Halted i lax Inv) := by
  have rest : Ends (c.Kept i lax Inv) (g.publish i >>= fun _ => g.processPending i g.bound)
    (fun _ => c.Kept i lax Inv)
      (c.Halted i lax Inv) :=
    .bind ((Kept.publish hg.sparing).ends fun _ _ => Or.inl) fun _ =>
      (rounds_kept keeps hg).ends_processPending _
  obtain ⟨place, there, idle, taskless⟩ := c.opening
  have still {x' : Spot ρ} (enters : c.Enters .init c.origin x') : x' = c.origin := by
    cases enters with
    | mk here ran =>
      cases there.symm.trans here
      rw [idle] at ran
      cases ran
      rfl
  have untasked : ¬ c.Tasked c.origin.name := by
    rintro ⟨place', here, tasked⟩
    cases there.symm.trans here
    rw [taskless] at tasked
    cases tasked
  have uncalled {x' : Spot ρ} : ¬ c.Calls c.origin x' := by
    rintro ⟨t, here, awaits, -⟩
    exact untasked ⟨_, here, by rw [awaits]; rfl⟩
  have admits : c.Admits i (c.Seen i lax Inv) c.origin := admits_seen (Or.inr keeps.starts)
  have entered :=
    ends_enter (S := c.Seen i lax Inv) hg admits .init (fun x' enters => still enters ▸ admits)
    fun x' x'' enters calls => absurd (still enters ▸ calls) uncalled
  rintro w (strayed | here)
  · refine Ends.bind (Q := fun _ => c.Kept i lax Inv) ?_ (fun _ => rest) w strayed
    exact (((Strayed.working hg.sparing).enter .init).ends fun _ _ h => Or.inl h.kept).post
      fun _ _ => Strayed.kept
  · refine Ends.bind (Q := fun _ => c.Kept i lax Inv)
      (entered.conseq (fun _ => id) (fun _ v h => ?_) fun halt v h => ?_) (fun _ => rest) w here
    · obtain ⟨x', enters, ⟨-, here⟩ | ⟨x'', calls, -⟩⟩ := h
      · rw [still enters] at here
        exact Kept.ofAt keeps.starts here.vacant
      · exact absurd (still enters ▸ calls) uncalled
    · obtain ⟨here, -⟩ | ⟨x', enters, here | ⟨x'', calls, -⟩⟩ := h
      · exact Or.inl (Kept.ofAt keeps.starts here.vacant)
      · rw [still enters] at here
        exact Or.inl (Kept.ofAt keeps.starts here.vacant)
      · exact absurd (still enters ▸ calls) uncalled

/-! ### Histories -/

theorem regards_account (hg : c.Performs g) :
    g.Regards i (· = .null) (World.Upholds i (c.Account i lax Inv)) := by
  refine World.regards_upholds hg.sparing (enduring_account c i lax Inv) ?_ ?_
    (ends_startBody keeps hg) ((rounds_kept keeps hg).ends_processPending _) ?_ ?_
  · rintro w s item hs running - ⟨held, seen⟩
    refine Kept.entered hs ?_ trivial (held.alike rfl rfl rfl (Or.inl rfl) (Nat.le_refl _)) seen
    show s.status ≠ .notStarted
    rw [running]
    exact nofun
  · rintro w s base override context text rfl hs - - asleep copy merged
    -- The service has done nothing so far, so the points that were passed say nothing of it.
    have supplied := World.change_self (fun s => { s with supply := s.supply + 1 }) hs
    have seen (p : Point) (hp : p ∈ w.points) : c.Seen i lax Inv p :=
      fun _ _ => Or.inl (asleep.silent.points p hp)
    have told (p : Point) (head : p.journal = .record .debug text :: w.journal) :
        c.Seen i lax Inv p := fun _ _ =>
      Or.inl (head ▸ List.forall_mem_cons.mpr ⟨nofun, asleep.silent.journal⟩)
    by_cases same : s.machine = c.machine
    · have copy : (c.shows c.context).copy = .ok base := by
        rw [same] at copy
        exact copy
      have quiet : story i w.journal = [] := story_silent asleep.silent.journal
      refine Or.inr
        (At.iff_stays.mpr
          (.entered supplied nofun seen (fun p head _ => told p head) ?_ fun p head hp => ?_))
      all_goals
        have shown :
            c.Shown i c.origin
              { started context { s with supply := s.supply + 1 } with queue := s.queue.enter }
              (.began i :: .record .debug text :: w.journal) := {
          machine := same
          name := congrArg Machine.initial same
          placed := c.opening.imp fun _ h => h.1
          record := Value.eq_of_copied copy merged
          story := quiet }
      · exact ⟨Nat.zero_le _, shown, Or.inl asleep.vacant⟩
      · exact admits_seen (Or.inr keeps.starts) p _ hp (head ▸ shown) fun _ _ =>
          Or.inl asleep.vacant
    · have exempt (journal : List Entry) :
          c.Exempt i lax { started context { s with supply := s.supply + 1 } with
          queue := s.queue.enter } journal := Or.inl same
      exact Or.inl (.entered supplied nofun seen (fun p head _ => told p head) (exempt _)
        fun p _ hp => (exempt _).seen hp)
  · intro v s p kept hs head hp
    exact kept.left hs head hp ⟨rfl, rfl, rfl, rfl, rfl, Or.inl rfl⟩
  · rintro v s p halt (kept | ⟨x, ⟨⟨s', hs', -, shown, -⟩, -, points⟩, isLax, spoils⟩) hs head hp
    · exact kept.left hs head hp ⟨rfl, rfl, rfl, rfl, rfl, Or.inl rfl⟩
    · have exempt (s : Service) : c.Exempt i lax s p.journal :=
        Or.inr ⟨isLax, halt, v.journal, head ▸ List.suffix_refl _, spoils⟩
      exact ⟨Or.inl (exempt s), List.forall_mem_cons.mpr ⟨(exempt _).seen hp, points⟩⟩

variable {book : Book} (performs : ∀ n, c.Performs (.ofBook book n)) (fuel : Nat) (looping : Bool)
  (history : List Command) (plain : ∀ override, .start i override ∈ history → override = .null)

include performs plain

theorem upholds_account :
    ((World.start looping).after (.ofBook book fuel) history).Upholds i (c.Account i lax Inv) :=
  World.upholds_after (fun n => regards_account keeps (performs n)) rfl fuel looping history plain

/-- Every point of a history shows the service at a spot where the invariant holds. -/
theorem seen_of_passed (hp : p ∈ ((World.start looping).after (.ofBook book fuel) history).passed) :
    c.Seen i lax Inv p := by
  have upholds := upholds_account keeps performs fuel looping history plain
  intro s hs
  rcases List.mem_cons.mp hp with rfl | hp
  · rcases (upholds.now s hs).either with silent | ⟨held, -⟩
    · exact Or.inl silent.journal
    · exact held.seen hs s hs
  · cases there : ((World.start looping).after (.ofBook book fuel) history).services[i]? with
    | none => exact Or.inl ((upholds.unborn there).points p hp)
    | some s' =>
      rcases (upholds.now s' there).either with silent | ⟨-, seen⟩
      · exact Or.inl (silent.points p hp)
      · exact seen p hp s hs

/-- When nobody drains the service, the invariant holds, and its slot is empty or fits. -/
theorem held_of_passed (hp : p ∈ ((World.start looping).after (.ofBook book fuel) history).passed)
    (hs : p.services[i]? = some s) (idle : s.queue.draining = false) :
    (∀ e ∈ p.journal, e.deed? ≠ some i) ∨
      c.Held i lax Inv ((World.start looping).after (.ofBook book fuel) history).clock s
        p.journal := by
  have upholds := upholds_account keeps performs fuel looping history plain
  rcases List.mem_cons.mp hp with rfl | hp
  · exact (upholds.now s hs).either.imp Silent.journal And.left
  · obtain ⟨later, earlier, split⟩ := List.append_of_mem hp
    exact (upholds.past p earlier ⟨later, split.symm⟩ s hs idle).imp Silent.journal And.left

omit keeps in
/-- Whenever the service takes an item, it is at a spot, and its slot is empty or fits. -/
theorem spot_of_taken (hp : p ∈ ((World.start looping).after (.ofBook book fuel) history).passed)
    (hs : p.services[i]? = some s) (machine : s.machine = c.machine) {item : Item}
    (head : p.journal.head? = some (.taken i item)) :
    ∃ x, c.Shown i x s p.journal ∧ (s.slot = .empty ∨ c.Fits x s.slot) := by
  have keeps : c.Keeps False fun _ => True :=
    ⟨trivial, fun _ _ => trivial, fun _ _ => Or.inl trivial⟩
  rcases seen_of_passed keeps performs fuel looping history plain hp s
    hs with silent | (other | ⟨isLax, -⟩) | ⟨x, -, shown, slot⟩
  · exact absurd rfl (silent _ (List.mem_of_mem_head? head))
  · exact absurd machine other
  · exact isLax.elim
  · exact ⟨x, shown, slot item head⟩

end Chart

/-- A service that has done nothing yet is in the initial state. -/
theorem World.initial_of_silent {book : Book} {fuel : Nat} {looping : Bool} {history : List Command}
    {p : Point} {i : Nat} {s : Service}
    (hp : p ∈ ((World.start looping).after (.ofBook book fuel) history).passed)
    (hs : p.services[i]? = some s) (silent : ∀ e ∈ p.journal, e.deed? ≠ some i) :
    s.stateName = s.machine.initial := by
  have lasting : Lasting fun i s journal => (∀ e ∈ journal, e.deed? ≠ some i) →
    s.stateName = s.machine.initial := {
    fresh := fun fresh _ _ => fresh.name
    same := fun h machine name _ _ silent => by rw [name, machine, h silent]
    aside := fun h _ silent => h fun e he => silent e (List.mem_append_right _ he)
    called := fun h _ _ silent => h fun e he => silent e (List.mem_cons_of_mem _ he)
    faulted := fun h _ silent => h fun e he => silent e (List.mem_cons_of_mem _ he)
    started := fun _ _ _ => rfl
    cancelled := fun h silent => h fun e he => silent e (List.mem_append_right _ he)
    moved := fun _ _ _ silent => absurd rfl (silent _ List.mem_cons_self)
    activated := fun h _ _ _ _ silent => h fun e he => silent e (List.mem_cons_of_mem _ he)
    attached := fun h _ _ silent => h fun e he => silent e (List.mem_append_right _ he)
    retired := fun h _ silent => h fun e he => silent e (List.mem_cons_of_mem _ he) }
  rcases World.has_of_passed lasting hp hs with initial | ⟨t, f, -, initial⟩
  · exact initial silent
  · exact initial (List.forall_mem_cons.mpr ⟨Entry.deed?_of_other rfl, silent⟩)

/-- A service whose state is not the first one of its chart has done something. -/
theorem Chart.begun_of_state {ρ Act Guard : Type} {c : Chart ρ Act Guard} {book : Book} {fuel : Nat}
    {looping : Bool} {history : List Command} {p : Point} {i : Nat} {s : Service} {name : String}
    (hp : p ∈ ((World.start looping).after (.ofBook book fuel) history).passed)
    (hs : p.services[i]? = some s) (machine : s.machine = c.machine)
    (named : s.stateName = .str name) (other : name ≠ c.start) :
    ¬ ∀ e ∈ p.journal, e.deed? ≠ some i := fun silent => by
  have initial := World.initial_of_silent hp hs silent
  rw [named, machine] at initial
  exact other (Value.str.inj initial)

end FlatMachine
