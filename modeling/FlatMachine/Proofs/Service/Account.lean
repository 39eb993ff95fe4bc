import FlatMachine.Proofs.Service.Calls

/-! # What is so whenever nobody drains a service

An **`Account`** says what a service is, given the time and all that happened so far.  It is
**`Enduring`** if only the drains of the service have a say in it.  A world **upholds** the
account of a service (**`World.Upholds`**) if it is right whenever nobody drains the service, now
and at every point passed, from the end of the first drain on; before that, nothing was done by
the service.

So there is left to show that a drain that begins where the account is right ends where it is
right again (**`World.regards_upholds`**). -/

namespace FlatMachine

namespace Service

/-- Nothing is another but the status, what waits, the listeners and the numbers handed out, and
the slot may have been emptied. -/
structure Resembles (s s' : Service) : Prop where
  machine : s'.machine = s.machine
  hooks : s'.hooks = s.hooks
  stateName : s'.stateName = s.stateName
  context : s'.context = s.context
  snapshot : s'.snapshot = s.snapshot
  slot : s'.slot = s.slot ∨ s'.slot = .empty

variable {ever : Prop} {s s' : Service}

namespace Outer

theorem draining (h : s.Outer ever s') : s'.queue.draining = s.queue.draining := by
  cases h with
  | free free => cases free <;> rfl
  | _ => rfl

theorem notStarted_iff (h : s.Outer ever s') :
    s'.status = .notStarted ↔ s.status = .notStarted := by
  cases h with
  | free free => cases free <;> exact Iff.rfl
  | stop running =>
    rw [running]
    exact ⟨nofun, nofun⟩
  | _ => exact Iff.rfl

theorem vacant (h : s.Outer ever s') (vacant : s.slot = .empty) : s'.slot = .empty := by
  cases h with
  | free free => cases free <;> first | exact vacant | rfl
  | _ => exact vacant

theorem resembles (h : s.Outer ever s') (started : s.status ≠ .notStarted) : s.Resembles s' := by
  cases h with
  | free free =>
    cases free <;> first | exact ⟨rfl, rfl, rfl, rfl, rfl, Or.inl rfl⟩ | exact ⟨rfl, rfl, rfl, rfl,
      rfl, Or.inr rfl⟩
  | prepare _ _ notStarted => exact absurd notStarted started
  | _ => exact ⟨rfl, rfl, rfl, rfl, rfl, Or.inl rfl⟩

end Outer

end Service

/-- What a service is, given the time, the journal and the points passed. -/
abbrev Account := Nat → Service → List Entry → List Point → Prop

/-- Only the drains of the service have a say in the account. -/
structure Enduring (i : Nat) (G : Account) : Prop where
  noted : ∀ {time : Nat} {s : Service} {e : Entry} {p : Point} {journal : List Entry}
    {points : List Point},
    e.deed? ≠ some i → p.journal = e :: journal → p.services[i]? = some s →
    G time s journal points →
    G time s (e :: journal) (p :: points)
  same : ∀ {time : Nat} {s s' : Service} {journal : List Entry} {points : List Point},
    s.Resembles s' →
    G time s journal points → G time s' journal points
  later : ∀ {time time' : Nat} {s : Service} {journal : List Entry} {points : List Point},
    time ≤ time' →
    G time s journal points → G time' s journal points

/-- No deed of the service was done yet. -/
structure Silent (i : Nat) (journal : List Entry) (points : List Point) : Prop where
  journal : ∀ e ∈ journal, e.deed? ≠ some i
  points : ∀ p ∈ points, ∀ e ∈ p.journal, e.deed? ≠ some i

theorem Silent.noted {i : Nat} {e : Entry} {p : Point} {journal : List Entry} {points : List Point}
    (h : Silent i journal points) (deed : e.deed? ≠ some i) (head : p.journal = e :: journal) :
    Silent i (e :: journal) (p :: points) where
  journal := List.forall_mem_cons.mpr ⟨deed, h.journal⟩
  points := by
    refine List.forall_mem_cons.mpr ⟨?_, h.points⟩
    rw [head]
    exact List.forall_mem_cons.mpr ⟨deed, h.journal⟩

theorem Silent.greeted {i : Nat} {w : World} (h : Silent i w.journal w.points) (context : Context)
    (text : String) :
    Silent i (Engine.greeted w i context text).journal (Engine.greeted w i context text).points :=
  h.noted nofun rfl

/-- The service was not started yet: it did nothing, and has no invocation. -/
structure Service.Asleep (i : Nat) (s : Service) (journal : List Entry) (points : List Point) :
    Prop where
  silent : Silent i journal points
  vacant : s.slot = .empty

/-- The account is right of a service that was started. -/
def Service.Rested (i : Nat) (G : Account) (time : Nat) (s : Service) (journal : List Entry)
    (points : List Point) : Prop :=
  (s.status = .notStarted → s.Asleep i journal points) ∧
    (s.status ≠ .notStarted → G time s journal points)

namespace Service.Rested

variable {i : Nat} {G : Account} {time time' : Nat} {s s' : Service} {journal : List Entry}
  {points : List Point}

theorem noted (h : s.Rested i G time journal points) (hG : Enduring i G) {e : Entry} {p : Point}
    (deed : e.deed? ≠ some i) (head : p.journal = e :: journal) (hs : p.services[i]? = some s) :
    s.Rested i G time (e :: journal) (p :: points) := by
  refine ⟨fun notStarted => ?_, fun started => hG.noted deed head hs (h.2 started)⟩
  obtain ⟨silent, vacant⟩ := h.1 notStarted
  exact ⟨silent.noted deed head, vacant⟩

theorem either (h : s.Rested i G time journal points) :
    Silent i journal points ∨ G time s journal points := by
  by_cases notStarted : s.status = .notStarted
  · exact Or.inl (h.1 notStarted).silent
  · exact Or.inr (h.2 notStarted)

theorem outer (h : s.Rested i G time journal points) (hG : Enduring i G) (outer : s.Outer ever s') :
    s'.Rested i G time journal points := by
  refine ⟨fun notStarted => ?_, fun started => ?_⟩
  · obtain ⟨silent, vacant⟩ := h.1 (outer.notStarted_iff.mp notStarted)
    exact ⟨silent, outer.vacant vacant⟩
  · have started := mt outer.notStarted_iff.mpr started
    exact hG.same (outer.resembles started) (h.2 started)

theorem later (h : s.Rested i G time journal points) (hG : Enduring i G) (after : time ≤ time') :
    s.Rested i G time' journal points :=
  ⟨h.1, fun started => hG.later after (h.2 started)⟩

end Service.Rested

namespace World

/-- The account was right at every point at which nobody drained the service, since it had done
anything; it still is, as time goes by. -/
def Past (i : Nat) (G : Account) (w : World) : Prop :=
  ∀ p earlier, p :: earlier <:+ w.points → ∀ s, p.services[i]? = some s → s.queue.draining = false →
    Silent i p.journal (p :: earlier) ∨ G w.clock s p.journal (p :: earlier)

/-- Nobody drains the service, and whenever that is so, the account of it is right. -/
structure Upholds (i : Nat) (G : Account) (w : World) : Prop where
  unborn : w.services[i]? = none → Silent i w.journal w.points
  idle : ∀ s, w.services[i]? = some s → s.queue.draining = false
  now : ∀ s, w.services[i]? = some s → s.Rested i G w.clock w.journal w.points
  past : w.Past i G

variable {i : Nat} {G : Account} {w w' : World}

namespace Past

theorem noted {e : Entry} (h : w.Past i G)
    (now : ∀ s, w.services[i]? = some s → s.queue.draining = false →
    Silent i (e :: w.journal) (⟨w.services, e :: w.journal⟩ :: w.points) ∨
      G w.clock s (e :: w.journal) (⟨w.services, e :: w.journal⟩ :: w.points)) :
    (w.noted e).Past i G := by
  intro p earlier hp s hs idle
  rcases List.suffix_cons_iff.mp hp with hp | hp
  · obtain ⟨rfl, rfl⟩ := List.cons.inj hp
    exact now s hs idle
  · exact h p earlier hp s hs idle

theorem alike (h : w.Past i G) (hG : Enduring i G) (points : w'.points = w.points)
    (clock : w.clock ≤ w'.clock) :
    w'.Past i G := by
  unfold Past
  rw [points]
  exact fun p earlier hp s hs idle => (h p earlier hp s hs idle).imp_right (hG.later clock)

/-- Nothing is claimed of the points at which the service is drained. -/
theorem extend (h : w.Past i G) (hG : Enduring i G) {later : List Point}
    (points : w'.points = later ++ w.points) (clock : w.clock ≤ w'.clock)
    (busy : ∀ p ∈ later, ∀ s, p.services[i]? = some s → s.queue.draining = true) :
    w'.Past i G := by
  unfold Past
  rw [points]
  clear points
  induction later with
  | nil => exact fun p earlier hp s hs idle => (h p earlier hp s hs idle).imp_right (hG.later clock)
  | cons q rest ih =>
    obtain ⟨busyNow, busy⟩ := List.forall_mem_cons.mp busy
    intro p earlier hp s hs idle
    rcases List.suffix_cons_iff.mp hp with hp | hp
    · obtain ⟨rfl, rfl⟩ := List.cons.inj hp
      rw [busyNow s hs] at idle
      cases idle
    · exact ih busy p earlier hp s hs idle

end Past

namespace Upholds

theorem alike (h : w.Upholds i G) (hG : Enduring i G) (services : w'.services[i]? = w.services[i]?)
    (journal : w'.journal = w.journal) (points : w'.points = w.points)
    (clock : w.clock ≤ w'.clock) : w'.Upholds i G where
  unborn := by rw [services, journal, points]; exact h.unborn
  idle := by rw [services]; exact h.idle
  now := by rw [services, journal, points]; exact fun s hs => (h.now s hs).later hG clock
  past := h.past.alike hG points clock

theorem noted (h : w.Upholds i G) (hG : Enduring i G) {e : Entry} (deed : e.deed? ≠ some i) :
    (w.noted e).Upholds i G where
  unborn := fun hn => (h.unborn hn).noted deed rfl
  idle := h.idle
  now := fun s hs => (h.now s hs).noted hG deed rfl hs
  past := h.past.noted fun s hs _ => ((h.now s hs).noted hG deed rfl hs).either

theorem changed (h : w.Upholds i G) (hG : Enduring i G) {ever : Prop} {s : Service}
    {f : Service → Service} (hs : w.services[i]? = some s) (outer : s.Outer ever (f s)) :
    (w.change i f).Upholds i G where
  unborn := fun hn => by rw [change_self f hs] at hn; cases hn
  idle := by
    intro s' hs'
    cases (change_self f hs).symm.trans hs'
    rw [outer.draining]
    exact h.idle s hs
  now := by
    intro s' hs'
    cases (change_self f hs).symm.trans hs'
    exact (h.now s hs).outer hG outer
  past := h.past.alike hG rfl (Nat.le_refl _)

theorem created (h : w.Upholds i G) (hG : Enduring i G) {s : Service} (fresh : s.Fresh) :
    Upholds i G { w with services := w.services ++ [s] } := by
  cases hn : w.services[i]? with
  | some s' =>
    exact h.alike hG (List.getElem?_append_left (List.getElem?_eq_some_iff.mp hn).1) rfl rfl
      (Nat.le_refl _)
  | none =>
    have only (s' : Service) (hs' : (w.services ++ [s])[i]? = some s') : s' = s := by
      rw [List.getElem?_append_right (List.getElem?_eq_none_iff.mp hn)] at hs'
      exact List.mem_singleton.mp (List.mem_of_getElem? hs')
    refine ⟨fun _ => h.unborn hn, fun s' hs' => ?_, fun s' hs' => ?_,
      h.past.alike hG rfl (Nat.le_refl _)⟩
    · rw [only s' hs', fresh.queue]
      rfl
    · rw [only s' hs']
      exact ⟨fun _ => ⟨h.unborn hn, fresh.slot⟩, fun started => absurd fresh.status started⟩

end Upholds

/-- While the service is drained, the account was right whenever it was not. -/
def Holding (i : Nat) (G : Account) (w : World) : Prop := w.Busy i ∧ w.Past i G

namespace Holding

theorem noted (h : w.Holding i G) (e : Entry) : (w.noted e).Holding i G := by
  refine ⟨h.1, h.2.noted fun s hs idle => ?_⟩
  obtain ⟨s', hs', busy⟩ := h.1
  cases hs.symm.trans hs'
  rw [busy.draining] at idle
  cases idle

theorem changed (h : w.Holding i G) (hG : Enduring i G) {f : Service → Service}
    (hf : ∀ s : Service, (f s).status = s.status ∧ (f s).queue.draining = s.queue.draining) :
    (w.change i f).Holding i G := by
  obtain ⟨⟨s, hs, busy⟩, past⟩ := h
  obtain ⟨status, draining⟩ := hf s
  exact ⟨⟨f s, change_self f hs, busy.alike status draining⟩, past.alike hG rfl (Nat.le_refl _)⟩

theorem steady (hG : Enduring i G) : Steady i (Holding i G) where
  busy := fun h => h.1
  spared := by
    rintro w w' spares ⟨busy, past⟩
    obtain ⟨later, points, spared⟩ := spares.points
    refine ⟨spares.busy busy, past.extend hG points spares.clock fun p hp s hs => ?_⟩
    obtain ⟨s₀, hs₀, busy⟩ := busy
    obtain ⟨s', hs', holds, -⟩ := (spared p hp).2 s₀ hs₀
    cases hs.symm.trans hs'
    exact holds.draining.trans busy.draining

open Run Engine

variable {g : Engine}

theorem working (hG : Enduring i G) (hg : g.Sparing) : g.Working i (Holding i G) where
  aside := ((steady hG).free hg).aside
  noted := fun _ h => h.noted _
  changed := fun hf h => h.changed hG fun s => by
    obtain ⟨_, _, _, _, eq⟩ := hf s
    rw [eq]
    exact ⟨rfl, rfl⟩
  calls := (steady hG).sustained hg

theorem respects_publish (hG : Enduring i G) (hg : g.Sparing) :
    Respects (Holding i G) (g.publish i) :=
  (working hG hg).quiet.free.publish (fun _ h => h.noted _) fun _ h =>
    h.changed hG fun _ => ⟨rfl, rfl⟩

theorem respects_processPending (hG : Enduring i G) (hg : g.Sparing) (fuel : Nat) :
    Respects (Holding i G) (g.processPending i fuel) := by
  have rounds : g.Rounds i (Holding i G) (fun _ _ => Holding i G) (fun _ => Holding i G) := {
    halted := fun _ => id
    processed := fun {w s} item h _ _ _ => by
      refine ((working hG hg).process item).meets.pre fun v hv =>
        hv ▸ Holding.noted (Holding.changed h hG fun s => ?_) _
      exact ⟨rfl, Queue.draining_dequeue _⟩
    skipped := fun h _ _ => h
    published := fun h _ _ _ => (respects_publish hG hg).meets.pre fun v hv => hv ▸ h
    lost := fun _ h _ => h }
  exact rounds.ends_processPending fuel

theorem respects_startBody (hG : Enduring i G) (hg : g.Sparing) :
    Respects (Holding i G) (g.startBody i) :=
  .bind ((working hG hg).enter .init) fun _ => .bind (respects_publish hG hg) fun _ =>
    respects_processPending hG hg _

/-- A drain begins, after something else was written. -/
theorem entered {s : Service} {f : Service → Service} {e : Entry} (h : w.Past i G)
    (hG : Enduring i G) (hs : w.services[i]? = some s) (started : (f s).status ≠ .notStarted)
    (now : ∀ p : Point, p.journal = e :: w.journal →
      p.services[i]? = some (f s) → Silent i p.journal (p :: w.points) ∨
      G w.clock (f s) p.journal (p :: w.points)) :
    (w.entered i f e).Holding i G := by
  have self : (w.change i f).services[i]? = some (f s) := change_self f hs
  have changed : (w.change i f).Past i G := h.alike hG rfl (Nat.le_refl _)
  have told : ((w.change i f).noted e).Past i G := changed.noted fun s' hs' _ => by
    cases self.symm.trans hs'
    exact now ⟨(w.change i f).services, e :: w.journal⟩ rfl self
  have busy : (w.entered i f e).services[i]? = some { f s with queue := (f s).queue.enter } :=
    entered_self hs
  refine ⟨⟨_, busy, rfl, started⟩, Past.noted (Past.alike told hG rfl (Nat.le_refl _))
    fun s' hs' idle => ?_⟩
  cases busy.symm.trans hs'
  cases idle

end Holding

open Run Engine

variable {g : Engine} {permitted : Value → Prop} {Opened Between : World → Prop}
  {E : Halt → World → Prop}

/-- A drain is over, and the account is right again. -/
theorem Holding.left (h : w.Holding i G) (hG : Enduring i G) {halt : Option Halt}
    (right : ∀ s p, w.services[i]? = some s → p.journal = .ended i halt :: w.journal →
      p.services[i]? = some { s with queue := s.queue.leave halt.isSome } →
      G w.clock s p.journal (p :: w.points)) :
    (w.left i halt).Upholds i G := by
  obtain ⟨⟨s, hs, busy⟩, past⟩ := h
  have self : (w.left i halt).services[i]? = some { s with queue := s.queue.leave halt.isSome } :=
    left_self hs halt
  have now : ∀ s', (w.left i halt).services[i]? = some s' → s'.status ≠ .notStarted ∧
      G w.clock s' (w.left i halt).journal (w.left i halt).points := by
    intro s' hs'
    cases self.symm.trans hs'
    exact ⟨busy.started, hG.same (s := s) ⟨rfl, rfl, rfl, rfl, rfl, Or.inl rfl⟩
      (right s (w.left i halt).now hs rfl self)⟩
  refine ⟨fun hn => ?_, fun s' hs' => ?_, fun s' hs' => ?_,
    Past.noted (Past.alike past hG rfl (Nat.le_refl _)) fun s' hs' _ => ?_⟩
  · rw [self] at hn
    cases hn
  · cases self.symm.trans hs'
    exact Queue.draining_leave _ _
  · exact ⟨fun notStarted => absurd notStarted (now s' hs').1, fun _ => (now s' hs').2⟩
  · exact Or.inr (now s' hs').2

/-- The account is upheld if every drain that begins where it is right ends where it is. -/
theorem regards_upholds (hg : g.Sparing) (hG : Enduring i G)
    (accepted : ∀ {w : World} {s : Service} (item : Item), w.services[i]? = some s →
      s.status = .running →
      s.queue.draining = false → G w.clock s w.journal w.points →
      Between (w.prompted i item))
    (opened : ∀ {w : World} {s : Service} {base override : Value} (context : Context)
      (text : String),
      permitted override → w.services[i]? = some s → s.status = .notStarted →
      s.queue.draining = false →
      s.Asleep i w.journal w.points → s.machine.context.copy = .ok base →
      base.override override = .ok context.value → Opened (opened w i context text))
    (first : Ends Opened (g.startBody i) (fun _ => Between) E)
    (items : Ends Between (g.processPending i g.bound) (fun _ => Between) E)
    (finished : ∀ {v : World} {s : Service} {p : Point}, Between v → v.services[i]? = some s →
      p.journal = .ended i none :: v.journal →
      p.services[i]? = some { s with queue := s.queue.leave false } →
      G v.clock s p.journal (p :: v.points))
    (halted : ∀ {v : World} {s : Service} {p : Point} {halt : Halt}, E halt v →
      v.services[i]? = some s →
      p.journal = .ended i (some halt) :: v.journal →
      p.services[i]? = some { s with queue := s.queue.leave true } →
      G v.clock s p.journal (p :: v.points)) : g.Regards i permitted (Upholds i G) := by
  have accept {w : World} {s : Service} (item : Item) (hs : w.services[i]? = some s)
      (running : s.status = .running)
      (h : w.Upholds i G) : ((g.accept i item).run w).2.Upholds i G := by
    have started : s.status ≠ .notStarted := by rw [running]; exact nofun
    have right := (h.now s hs).2 started
    have holding : (w.prompted i item).Holding i G := by
      refine .entered h.past hG hs started fun p head hp => Or.inr ?_
      rw [head]
      exact hG.noted nofun head hp (hG.same (s := s) ⟨rfl, rfl, rfl, rfl, rfl, Or.inl rfl⟩ right)
    refine meets_accept (P := fun v => Between v ∧ v.Holding i G) hs (h.idle s hs)
      ⟨accepted item hs running (h.idle s hs) right, holding⟩
        (items.and (Holding.respects_processPending hG hg _)) ?_ ?_
    · exact fun v hv => hv.2.left hG fun s p hs head hp => finished hv.1 hs head hp
    · exact fun v halt hv => hv.2.left hG fun s p hs head hp => halted hv.1 hs head hp
  exact {
    aside := fun advances h =>
      h.alike hG (congrArg (·[i]?) advances.services) advances.journal advances.points
        advances.clock
    noted := fun deed _ h => h.noted hG deed
    others := fun f hij h => h.alike hG (change_ne _ f hij) rfl rfl (Nat.le_refl _)
    created := fun fresh h => h.created hG fresh
    own := fun hs outer h => h.changed hG hs outer
    sent := fun e hs running h => accept (.event e) hs running h
    arrived := fun _ _ h => h.noted hG nofun
    settled := fun o hs running h => accept (.outcome o) hs running h
    start := by
      intro w s override allowed hs notStarted h
      have asleep := (h.now s hs).1 notStarted
      have idle := h.idle s hs
      refine meets_start (P := fun v => Opened v ∧ v.Holding i G) hs notStarted h
        (fun base context text copied merged =>
          ⟨opened context text allowed hs notStarted idle asleep copied merged, ?_⟩)
        (first.and (Holding.respects_startBody hG hg)) ?_ ?_
      · have supplied := World.change_self (fun s => { s with supply := s.supply + 1 }) hs
        refine .entered (Past.alike h.past hG rfl (Nat.le_refl _)) hG supplied nofun fun p head
          hp => Or.inl ?_
        rw [head]
        exact asleep.silent.noted nofun head
      · exact fun v hv => hv.2.left hG fun s p hs head hp => finished hv.1 hs head hp
      · exact fun v halt hv => hv.2.left hG fun s p hs head hp => halted hv.1 hs head hp }

/-- If its drains keep the account right, it is upheld in every history, from an empty world on,
in which the service is started with permitted overrides only. -/
theorem upholds_after {book : Book}
    (h : ∀ n, (Engine.ofBook book n).Regards i permitted (Upholds i G)) (plain : permitted .null)
    (fuel : Nat) (looping : Bool) (history : List Command)
    (allowed : ∀ override, .start i override ∈ history → permitted override) :
    ((World.start looping).after (.ofBook book fuel) history).Upholds i G := by
  refine respects_after h plain fuel allowed ⟨fun _ => ?_, nofun, nofun, fun p earlier hp => ?_⟩
  · exact ⟨List.forall_mem_nil _, List.forall_mem_nil _⟩
  · exact nomatch List.suffix_nil.mp hp

end World

end FlatMachine
