import FlatMachine.Proofs.Service.Pace
import FlatMachine.Proofs.Service.IdleItems

/-! # Publication is exact

Unless a drain of the service was halted, its marks are paced (**`World.publication_exact`**):
each item that changed the state or the context and left the service running is followed by one
publication, before the next item is taken, and so is its start; nothing else is published.  What
is published is the service as it was at the end of the item. -/

namespace FlatMachine

/-- What is published of a service. -/
structure Snapshot.Of (s : Service) (sn : Snapshot) : Prop where
  stateName : sn.stateName = s.stateName
  context : sn.context = s.context
  changed : sn.changed = true
  tags : s.machine.tags s.stateName = .ok sn.tags

namespace World

/-- A drain is between two items: whoever is to be notified was, and nothing is due to be
published. -/
def Paused (i : Nat) (w : World) : Prop :=
  ∃ p s, w.services[i]? = some s ∧ s.Busy ∧
    (Unhalted i w.journal → Pace i p (p.notices i) s w.journal w.points ∧
    p.due i s = false ∧ (lastPublished i w.journal).isSome = true)

/-- An item was taken by the service as it was before, and has been processed. -/
def Processed (i : Nat) (before : Service) (w : World) : Prop :=
  ∃ p, w.Pacing i p [] ∧ p.notices i = [] ∧
    (Unhalted i p.journal → (lastPublished i p.journal).isSome = true) ∧
    ∀ after, p.due i after = (after.status == .running && before.changes after)

/-- The first drain of the service has begun. -/
def Starting (i : Nat) (w : World) : Prop :=
  ∃ p, w.Pacing i p [] ∧ p.notices i = [] ∧ ∀ after, p.due i after = true

end World

/-- While nobody drains the service, it has kept pace, and was told the last publication. -/
def Service.Pacing (i : Nat) : Account := fun _ s journal points => Unhalted i journal →
  ∃ p, Pace i p [] s journal points ∧ p.journal.head? = some (.ended i none) ∧
  (lastPublished i journal).isSome = true

theorem Service.enduring_pacing (i : Nat) : Enduring i (Service.Pacing i) where
  noted := by
    intro time s e p journal points deed head hs pacing unhalted
    obtain ⟨q, pace, ended, published⟩ := pacing unhalted.tail
    have plain : e.paces i = false :=
      Bool.eq_false_iff.mpr fun paces => deed (Entry.deed?_of_paces paces)
    have untold : e.tells i = false :=
      Bool.eq_false_iff.mpr fun tells => deed (Entry.deed?_of_tells tells)
    refine ⟨q, pace.silent plain untold head hs, ended, ?_⟩
    rw [lastPublished_cons (Entry.published?_of_paces plain)]
    exact published
  same := by
    intro time s s' journal points same pacing unhalted
    obtain ⟨q, pace, ended, published⟩ := pacing unhalted
    exact ⟨q, pace.alike same.snapshot, ended, published⟩
  later := fun _ => id

theorem Point.notices_of_other {i : Nat} {p : Point} {e : Entry} (head : p.journal.head? = some e)
    (unpublished : e.published? i = none) (paces : e.paces i = true) : p.notices i = [] := by
  unfold notices
  rw [head]
  cases e with
  | published j sn =>
    rw [beq_iff_eq.mp paces, Entry.published?_self] at unpublished
    cases unpublished
  | _ => rfl

namespace Engine

open Run World

variable {g : Engine} {i : Nat} {p q : Point} {told : List Entry} {w : World} {s : Service}

/-! ### Publishing -/

/-- A listener is notified, and what holds then is sustained whatever the listener does. -/
theorem meets_noticed {P Q : World → Prop} {sn : Snapshot} {listener : Listener}
    (sustained : g.Sustains Q) (noticed : ∀ w : World, P w → Q (w.noted (listener.notice i sn))) :
    Meets P (g.notify i sn listener) (fun _ => Q) Q := by
  unfold notify
  split
  · rename_i f callback
    have notice : listener.notice i sn = .called (.service i) .listener f [.fresh sn.toValue] := by
      unfold Listener.notice
      rw [callback]
    rw [notice] at noticed
    refine .discard (.bind (Q := fun _ => Q) (.note noticed) fun _ => ?_)
    exact .bind (sustained _ _ _ _).meets fun _ => .pure fun _ => id
  · rename_i callback
    have notice : listener.notice i sn = .notified i listener.name sn := by
      unfold Listener.notice
      rw [callback]
    rw [notice] at noticed
    exact .note noticed

theorem meets_notify (hg : g.Sparing) (sn : Snapshot) (listener : Listener) :
    Meets (Pacing i p told) (g.notify i sn listener)
      (fun _ => Pacing i p (listener.notice i sn :: told))
      fun _ => True := by
  refine (meets_noticed ((Pacing.steady i p _).sustained hg) ?_).loosen
  rintro w ⟨s, hs, busy, pace⟩
  refine ⟨s, hs, busy, fun unhalted => ?_⟩
  have noted := (pace unhalted.tail).noted (listener.paces_notice i sn)
    (q := (w.noted (listener.notice i sn)).now) rfl hs
  rwa [List.filter_cons_of_pos (listener.tells_notice i sn)] at noted

theorem meets_notifications (hg : g.Sparing) (sn : Snapshot) (listeners : List Listener) :
    Meets (Pacing i p told) (listeners.forM (g.notify i sn))
      (fun _ => Pacing i p (listeners.reverse.map (Listener.notice i sn) ++ told)) fun _ =>
        True := by
  induction listeners generalizing told with
  | nil => exact .pure fun _ => id
  | cons listener rest ih =>
    refine .bind (meets_notify hg sn listener) fun _ => ih.post fun _ w hw => ?_
    rw [List.reverse_cons, List.map_append, List.append_assoc]
    exact hw

theorem pacing_published {sn : Snapshot} (h : w.Pacing i p []) (quiet : p.notices i = [])
    (hs : w.services[i]? = some s) (due : p.due i s = true) (of : sn.Of s) :
    ((w.change i fun s => { s with snapshot := sn }).noted (.published i sn)).Pacing i
      ((w.change i fun s => { s with snapshot := sn }).noted (.published i sn)).now [] := by
  obtain ⟨s', hs', busy, pace⟩ := h
  cases hs.symm.trans hs'
  have self := change_self (fun s => { s with snapshot := sn }) hs
  refine ⟨_, self, busy.alike rfl rfl, fun unhalted => ?_⟩
  have pace := pace unhalted.tail
  rw [← quiet] at pace
  exact pace.publish rfl self rfl of.stateName of.context of.changed of.tags due

theorem paused_notified {sn : Snapshot}
    (h : w.Pacing i q (s.listeners.reverse.map (Listener.notice i sn) ++ []))
    (hq : q.services[i]? = some s) (head : q.journal.head? = some (.published i sn)) :
    w.Paused i := by
  obtain ⟨s', hs', busy, pace⟩ := h
  have notices : q.notices i = s.listeners.reverse.map (Listener.notice i sn) ++ [] := by
    unfold Point.notices
    rw [head, hq, List.append_nil]
    rfl
  obtain ⟨earlier, written⟩ : ∃ earlier, q.journal = .published i sn :: earlier := by
    cases journal : q.journal with
    | nil => rw [journal] at head; cases head
    | cons e earlier => rw [journal] at head; cases head; exact ⟨earlier, rfl⟩
  refine ⟨q, s', hs', busy, fun unhalted => ⟨notices ▸ pace unhalted, ?_, ?_⟩⟩
  · unfold Point.due
    rw [written]
  · rw [(pace unhalted).since.lastPublished, written, lastPublished_published]
    rfl

/-- What is due is published, and the listeners registered are notified. -/
theorem meets_publish (hg : g.Sparing) (quiet : p.notices i = []) :
    Meets (fun w => w.Pacing i p [] ∧ ∃ s, w.services[i]? = some s ∧ p.due i s = true) (g.publish i)
      (fun _ => Paused i) fun _ => True := by
  have snapshot : Meets (fun w => w.Pacing i p [] ∧ ∃ s, w.services[i]? = some s ∧ p.due i s = true)
      (currentSnapshot i true)
        (fun sn w => w.Pacing i p [] ∧ ∃ s, w.services[i]? = some s ∧ p.due i s = true ∧ sn.Of s)
      fun _ => True := by
    refine (Meets.ofGoes (goes_currentSnapshot true ?_ : Run.Goes .outside _ _ _)).post ?_
    · rintro w s ⟨pacing, s', hs', due⟩ hs
      cases hs.symm.trans hs'
      exact ⟨pacing.changed fun s => ⟨rfl, rfl, rfl⟩, _, change_self _ hs, due⟩
    · rintro sn w ⟨⟨pacing, s, hs, due⟩, s', hs', name, context, changed, tags⟩
      cases hs.symm.trans hs'
      exact ⟨pacing, s, hs, due, name, context, changed, tags⟩
  unfold publish
  refine .bind snapshot fun sn =>
    .bind (Q := fun _ v => (v.noted (.published i sn)).Pacing i (v.noted (.published i sn)).now [])
    (.update fun w ⟨pacing, s, hs, due, of⟩ => pacing_published pacing quiet hs due of) fun _ => ?_
  refine .bind (Q := fun _ v => v.Pacing i v.now [] ∧ v.journal.head? = some (.published i sn))
    (.note fun _ hw => ⟨hw, rfl⟩) fun _ => ?_
  refine .bind (Q := fun s v => ∃ q, v.Pacing i q [] ∧ q.services[i]? = some s ∧
    q.journal.head? = some (.published i sn))
    (.service (fun v s hv hs => ⟨v.now, hv.1, hs, hv.2⟩) fun _ _ => trivial) fun s => ?_
  refine .ofExists fun q => .given (fun _ hw => hw.2) fun ⟨hq, head⟩ => ?_
  exact ((meets_notifications hg sn s.listeners).pre fun _ hw => hw.1).post fun _ _ hw =>
    paused_notified hw hq head

/-! ### Item after item -/

/-- An item is taken by a service that was told everything. -/
theorem processed_taken (item : Item) (h : w.Paused i) (hs : w.services[i]? = some s) :
    ∃ q, (w.taken i item).Pacing i q [] ∧ q.notices i = [] ∧
      (Unhalted i q.journal → (lastPublished i q.journal).isSome = true) ∧
      ∀ after, q.due i after = (after.status == .running && s.changes after) := by
  obtain ⟨p, s', hs', busy, pace⟩ := h
  cases hs.symm.trans hs'
  have self := taken_self item hs
  have paces : (Entry.taken i item).paces i = true := beq_self_eq_true i
  refine ⟨(w.taken i item).now,
    ⟨_, self, busy.alike rfl (Queue.draining_dequeue _), fun unhalted => ?_⟩,
    Point.notices_of_other rfl rfl paces, fun unhalted => ?_, fun after => ?_⟩
  · obtain ⟨pace, due, -⟩ := pace unhalted.tail
    have taken : p.due i { s with queue := s.queue.dequeue.2 } = false :=
      (Point.due_congr rfl rfl rfl).trans due
    exact (pace.alike (t := { s with queue := s.queue.dequeue.2 }) rfl).mark paces rfl rfl
      (q := (w.taken i item).now) rfl self taken
  · obtain ⟨-, -, published⟩ := pace unhalted.tail
    show (lastPublished i (.taken i item :: w.journal)).isSome = true
    rw [lastPublished_cons rfl]
    exact published
  · show (after.status == .running && (w.taken i item).services[i]?.any (·.changes after)) = _
    rw [self]
    rfl

/-- By what was taken, the service is told what changed, or nothing is to be told. -/
theorem rounds_paused (hg : g.Sparing) :
    g.Rounds i (Paused i) (fun s _ => Processed i s) fun _ _ => True where
  halted := fun _ _ => trivial
  lost := fun _ _ _ => trivial
  processed := by
    intro w s item paused hs _ _
    obtain ⟨q, pacing, quiet, published, due⟩ := processed_taken item paused hs
    have working : g.Working i (Pacing i q []) := Pacing.working hg
    have worked := (working.process item).meets
    refine worked.conseq (fun v hv => hv ▸ pacing) (fun _ v hv => ?_) fun _ _ => trivial
    exact ⟨q, hv, quiet, published, due⟩
  skipped := by
    rintro w s s' item ⟨q, ⟨s₁, hs₁, busy, pace⟩, quiet, published, due⟩ hs' unchanged
    cases hs₁.symm.trans hs'
    refine ⟨q, s', hs', busy, fun unhalted => ⟨quiet.symm ▸ pace unhalted, ?_, ?_⟩⟩
    · rw [due, Bool.and_eq_false_imp]
      intro running
      obtain ⟨same, stamp⟩ := unchanged (beq_iff_eq.mp running)
      unfold Service.changes
      rw [same, stamp]
      simp
    · obtain ⟨later, written, -, -⟩ := (pace unhalted).since.later
      rw [(pace unhalted).since.lastPublished]
      exact published (.of_append (written ▸ unhalted))
  published := by
    rintro w s s' item ⟨q, pacing, quiet, published, due⟩ hs' running changed
    refine (meets_publish hg quiet).pre fun v hv => ?_
    subst hv
    refine ⟨pacing, s', hs', ?_⟩
    rw [due, running]
    unfold Service.changes
    by_cases same : s'.stateName.same s.stateName = true
    · have stamp := changed same
      simp [stamp]
    · simp [same]

/-- The first drain publishes the initial state before it takes an item. -/
theorem meets_startBody (hg : g.Sparing) :
    Meets (Starting i) (g.startBody i) (fun _ => Paused i) fun _ => True := by
  refine .ofExists fun p => .given (fun _ hw => hw.2) fun ⟨quiet, due⟩ => ?_
  have working : g.Working i (Pacing i p []) := Pacing.working hg
  have worked := (working.enter .init).meets
  refine .bind (worked.conseq (fun _ hw => hw.1) (fun _ _ hw => hw) fun _ _ => trivial) fun _ => ?_
  refine .bind ((meets_publish hg quiet).pre fun w hw => ?_) fun _ =>
    (rounds_paused hg).ends_processPending _
  obtain ⟨s, hs, -⟩ := id hw
  exact ⟨hw, s, hs, due s⟩

/-! ### Drains -/

/-- A drain begins at the pace at which the last one ended. -/
theorem paused_entered {item : Item} (hs : w.services[i]? = some s) (running : s.status = .running)
    (pacing : s.Pacing i w.clock w.journal w.points) : (w.prompted i item).Paused i := by
  have accepted := change_self (fun s => { s with queue := s.queue.enqueue item }) hs
  have self := prompted_self item hs
  have paces : (Entry.began i).paces i = true := beq_self_eq_true i
  refine ⟨(w.prompted i item).now, _, self, ⟨rfl, ?_⟩, fun unhalted => ?_⟩
  · show s.status ≠ .notStarted
    rw [running]
    exact nofun
  · obtain ⟨p, pace, ended, published⟩ := pacing unhalted.tail.tail
    have quiet : p.notices i = [] := Point.notices_of_other ended rfl (beq_self_eq_true i)
    have due (after : Service) : p.due i after = false := by
      unfold Point.due
      cases journal : p.journal with
      | nil => rfl
      | cons e earlier => rw [journal] at ended; cases ended; rfl
    have told := (pace.alike (t := { s with queue := s.queue.enqueue item }) rfl).silent
      (e := .accepted i item) rfl rfl (q := ⟨_, .accepted i item :: w.journal⟩) rfl accepted
    rw [← quiet] at told
    have begun :=
      (told.alike (t := { s with queue := (s.queue.enqueue item).enter }) rfl).mark paces rfl rfl
      (q := (w.prompted i item).now) rfl self (due _)
    have published :
        (lastPublished i (.began i :: .accepted i item :: w.journal)).isSome = true := by
      rw [lastPublished_cons rfl, lastPublished_cons rfl]
      exact published
    refine ⟨?_, ?_, published⟩
    · rw [Point.notices_of_other rfl rfl paces]
      exact begun
    · show (lastPublished i (.accepted i item :: w.journal)).isNone = false
      rw [lastPublished_cons rfl] at published
      rw [← Option.not_isSome, published]
      rfl

theorem starting_opened {context : Context} {text : String} (hs : w.services[i]? = some s)
    (silent : Silent i w.journal w.points) : (opened w i context text).Starting i := by
  have self := opened_self hs context text
  have paces : (Entry.began i).paces i = true := beq_self_eq_true i
  have recorded := silent.greeted context text
  have unpublished : lastPublished i (.began i :: .record .debug text :: w.journal) = none := by
    rw [lastPublished_cons rfl]
    exact recorded.lastPublished
  refine ⟨(opened w i context text).now, ⟨_, self, ⟨rfl, nofun⟩, fun _ => ?_⟩,
    Point.notices_of_other rfl rfl paces,
    fun after => ?_⟩
  · have none := recorded.marks
    have faithful (s : Service) : s.Faithful i (.began i :: .record .debug text :: w.journal) :=
      fun sn published => by
      rw [unpublished] at published
      cases published
    refine ⟨.mark rfl paces,
      recorded.exact.mark rfl paces (fun _ => rfl) (by rw [none]; exact nofun) ?_ ?_, faithful _⟩
    · exact fun sn published => nomatch published
    · exact .point (p := (opened w i context text).now) (faithful _) self
  · show (lastPublished i (.record .debug text :: w.journal)).isNone = true
    rw [lastPublished_cons rfl] at unpublished
    rw [unpublished]
    rfl

theorem regards_pacing (hg : g.Sparing) :
    g.Regards i (fun _ => True) (Upholds i (Service.Pacing i)) := by
  refine regards_upholds hg (Service.enduring_pacing i) ?_ ?_ (meets_startBody hg)
    ((rounds_paused hg).ends_processPending _) ?_ ?_
  · exact fun item hs running _ pacing => paused_entered hs running pacing
  · exact fun context text _ hs _ _ asleep _ _ => starting_opened hs asleep.silent
  · rintro v s p ⟨q, s', hs', busy, pace⟩ hs head hp unhalted
    cases hs.symm.trans hs'
    rw [head] at unhalted ⊢
    obtain ⟨pace, due, published⟩ := pace unhalted.tail
    have paces : (Entry.ended i none).paces i = true := beq_self_eq_true i
    have ended :=
      (pace.alike (t := { s with queue := s.queue.leave false }) rfl).mark paces rfl rfl head hp due
    refine ⟨p, ended.alike rfl, by rw [head]; rfl, ?_⟩
    rw [lastPublished_cons rfl]
    exact published
  · intro v s p halt _ _ head _ unhalted
    rw [head] at unhalted
    exact absurd List.mem_cons_self (unhalted halt)

end Engine

/-! ### Histories -/

/-- The service at the end of each item that was to be published, and of its start, latest first. -/
def changedEnds (i : Nat) : List Point → List Service
  | q :: p :: earlier => (q.services[i]?.filter (p.due i)).toList ++ changedEnds i (p :: earlier)
  | _ => []

/-- The snapshot that was published at the point. -/
def Point.published? (i : Nat) (p : Point) : Option Snapshot :=
  p.journal.head?.bind (Entry.published? i)

theorem Point.published?_eq_some {i : Nat} {p : Point} {sn : Snapshot} :
    p.published? i = some sn ↔ p.journal.head? = some (.published i sn) := by
  unfold published?
  rw [Option.bind_eq_some_iff]
  constructor
  · rintro ⟨e, he, published⟩
    rw [he, Entry.eq_of_published? published]
  · exact fun head => ⟨_, head, Entry.published?_self sn⟩

/-- Every publication is a mark. -/
theorem filterMap_marks (i : Nat) (points : List Point) :
    (marks i points).filterMap (Point.published? i) = points.filterMap (Point.published? i) := by
  unfold marks
  rw [List.filterMap_filter]
  refine List.filterMap_congr fun p _ => ?_
  cases hp : p.published? i with
  | none => rw [ite_self]
  | some sn =>
    rw [Point.published?_eq_some.mp hp]
    exact if_pos (beq_self_eq_true i)

/-- By induction on the marks: what was due at the one before is published, and nothing else. -/
theorem Exact.published {i : Nat} {points : List Point} (h : Exact i points) :
    List.Forall₂ Snapshot.Of (changedEnds i (marks i points))
      (points.filterMap (Point.published? i)) := by
  rw [← filterMap_marks]
  obtain ⟨first, paced, shows, -⟩ := h
  generalize marks i points = ms at first paced shows
  induction ms with
  | nil => exact .nil
  | cons q rest ih =>
    cases rest with
    | nil =>
      have began := first q rfl
      have unpublished : q.published? i = none := by
        unfold Point.published?
        rw [began]
        rfl
      rw [List.filterMap_cons_none unpublished]
      exact .nil
    | cons p earlier =>
      obtain ⟨paced, chain⟩ := List.isChain_cons_cons.mp paced
      obtain ⟨exact, others⟩ := List.forall_mem_cons.mp shows
      have rest := ih (by rwa [List.getLast?_cons_cons] at first) chain others
      obtain ⟨s, hs, due⟩ := paced.published
      unfold changedEnds
      rw [hs]
      cases hd : p.due i s with
      | true =>
        obtain ⟨sn, head⟩ := due.mpr hd
        obtain ⟨s', hs', -, name, context, changed, tags⟩ := exact sn head
        cases hs.symm.trans hs'
        rw [List.filterMap_cons_some (Point.published?_eq_some.mpr head)]
        simp only [Option.filter, hd]
        exact .cons ⟨name, context, changed, tags⟩ rest
      | false =>
        have unpublished : q.published? i = none := by
          refine Option.eq_none_iff_forall_ne_some.mpr fun sn published => ?_
          rw [due.mp ⟨sn, Point.published?_eq_some.mp published⟩] at hd
          cases hd
        rw [List.filterMap_cons_none unpublished]
        simp only [Option.filter, hd]
        exact rest

/-- A string names one state only, so what changes a service has another state or another
context. -/
theorem Service.changes_iff {s : Service} {name : String} (hs : s.stateName = .str name)
    (s' : Service) :
    s.changes s' = true ↔ s'.stateName ≠ s.stateName ∨ s'.context.stamp ≠ s.context.stamp := by
  have same : s'.stateName.same s.stateName = true ↔ s'.stateName = s.stateName := by
    constructor
    · intro same
      rw [hs] at same ⊢
      exact Value.eq_of_same_str same
    · rintro eq
      rw [eq]
      exact Value.same_self _
  unfold changes
  rw [Bool.or_eq_true, bne_iff_ne, Bool.not_eq_true', ← Bool.not_eq_true, same]

/-- Each point tells by its journal what was written there. -/
theorem Ticks.heads {w w' : World} (h : Ticks w w') (start : w.points = [] ∧ w.journal = []) :
    w'.points.map (·.journal.head?) = w'.journal.map some := by
  induction h with
  | refl =>
    rw [start.1, start.2]
    rfl
  | @tail u v _ tick ih =>
    obtain ⟨e, journal, points, -⟩ := tick.entry
    rw [points, List.map_append, ih, journal, List.map_append]
    cases e with
    | none => rfl
    | some e =>
      show [v.journal.head?] ++ _ = _
      rw [journal]
      rfl

namespace World

/-- The snapshots that were published are those of the points. -/
theorem published_points (book : Book) (fuel : Nat) (looping : Bool)
    (history : List Command) (i : Nat) :
    let w := (World.start looping).after (.ofBook book fuel) history
    w.points.filterMap (Point.published? i) = w.journal.filterMap (Entry.published? i) := by
  intro w
  have ticks :=
    (walk_after (Engine.tame_ofBook book fuel) (atRest_start looping) history).path.ticks
  have heads : w.points.map (·.journal.head?) = w.journal.map some := ticks.heads ⟨rfl, rfl⟩
  have told := congrArg (List.filterMap fun e => e.bind (Entry.published? i)) heads
  rwa [List.filterMap_map, List.filterMap_map] at told

theorem exact_after (book : Book) (fuel : Nat) (looping : Bool) (history : List Command) (i : Nat) :
    let w := (World.start looping).after (.ofBook book fuel) history
    Unhalted i w.journal → Exact i w.points ∧
      (∀ p ∈ (marks i w.points).head?, p.journal.head? = some (.ended i none)) ∧
      w.now.Faithful i := by
  intro w unhalted
  have upholds : w.Upholds i (Service.Pacing i) :=
    upholds_after (fun n => Engine.regards_pacing (Engine.sparing_ofBook book n)) trivial fuel
      looping history
      fun _ _ => trivial
  have silent (h : Silent i w.journal w.points) : Exact i w.points ∧
      (∀ p ∈ (marks i w.points).head?, p.journal.head? = some (.ended i none)) ∧
      w.now.Faithful i := by
    refine ⟨h.exact, by rw [h.marks]; exact nofun, fun s _ sn published => ?_⟩
    rw [show w.now.journal = w.journal from rfl, h.lastPublished] at published
    cases published
  cases hs : w.services[i]? with
  | none => exact silent (upholds.unborn hs)
  | some s =>
    rcases (upholds.now s hs).either with h | pacing
    · exact silent h
    · obtain ⟨p, pace, ended, -⟩ := pacing unhalted
      refine ⟨pace.exact, fun q hq => ?_, .point (p := w.now) pace.faithful hs⟩
      obtain ⟨rest, marked⟩ := pace.since.marked
      rw [marked] at hq
      cases hq
      exact ended

/-- While no drain of a service is halted, its publications are exact.  Any two marks in a row
are paced, and each drain that began has ended; each publication shows the service as it is, and
replaced the snapshot of the one before it.  So the snapshots published are those of the service
at the end of its start and of the items that changed it and did not stop it.  For states that go
by strings, that is a change of the name or another context.  And an item on which nothing can be
taken but internal transitions whose actions keep the context publishes nothing. -/
theorem publication_exact (book : Book) (fuel : Nat) (looping : Bool)
    (history : List Command) (i : Nat) :
    let w := (World.start looping).after (.ofBook book fuel) history
    (Unhalted i w.journal →
      (marks i w.points).IsChain (fun q p => Paced i p q) ∧
      (∀ p ∈ (marks i w.points).head?, p.journal.head? = some (.ended i none)) ∧
      (∀ p ∈ marks i w.points, p.Shows i) ∧ (∀ p ∈ w.passed, p.Faithful i) ∧
      List.Forall₂ Snapshot.Of (changedEnds i (marks i w.points))
        (w.journal.filterMap (Entry.published? i))) ∧
    (∀ (s s' : Service) name, s.stateName = .str name →
      (s.changes s' = true ↔ s'.stateName ≠ s.stateName ∨ s'.context.stamp ≠ s.context.stamp)) ∧
    ∀ n (v v' : World) s item more, v.services[i]? = some s → s.queue.draining = true →
    s.status = .running →
      s.Unmoved book item → ((Engine.ofBook book n).processNext i s item).run v = (.ok more, v') →
      ∃ later, v'.journal = later ++ v.journal ∧ ∀ sn, .published i sn ∉ later := by
  intro w
  refine ⟨fun unhalted => ?_, fun s s' name hs => Service.changes_iff hs s',
    fun n v v' s item more hs draining running unmoved run => ?_⟩
  · obtain ⟨exact, ended, now⟩ := exact_after book fuel looping history i unhalted
    refine ⟨exact.paced, ended, exact.shows, List.forall_mem_cons.mpr ⟨now, exact.faithful⟩, ?_⟩
    have published := exact.published
    rwa [show w.points.filterMap _ =
      _ from published_points book fuel looping history i] at published
  · obtain ⟨candidates, offered, unmoved⟩ := unmoved
    have started : s.status ≠ .notStarted := by rw [running]; exact nofun
    have abides : (v.taken i item).Abides i s v.journal :=
      ⟨⟨_, taken_self item hs, ⟨(Queue.draining_dequeue _).trans draining, started⟩, rfl, rfl, rfl⟩,
        [.taken i item], rfl,
        fun sn published => by cases List.mem_singleton.mp published⟩
    rw [Engine.run_processNext] at run
    have sparing := Engine.sparing_ofBook book n
    exact ((Engine.respects_processTaken sparing offered fun t ht => by
      obtain ⟨t, rfl, internal, keeps⟩ := unmoved t ht
      exact ⟨t, rfl, internal, fun f hf => Engine.keeps_ofBook (keeps f hf) n⟩).ok abides
        run).journal

end World

namespace Relay

/-- The relay publishes as it starts, and when it has gone over to its second state, but not when
it takes the other two events. -/
theorem moves_published :
    List.Forall₂ Snapshot.Of (changedEnds 0 (marks 0 world.points))
      (world.journal.filterMap (Entry.published? 0)) ∧
    ((changedEnds 0 (marks 0 world.points)).map fun s => s.stateName.text) =
      ["second", "first"] := by
  have unhalted : Unhalted 0 world.journal := unhalted_of_all (by decide +kernel)
  obtain ⟨-, -, -, -, exact⟩ := (World.publication_exact book 9 true life 0).1 unhalted
  exact ⟨exact, by decide +kernel⟩

end Relay

end FlatMachine
