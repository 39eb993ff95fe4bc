import Mathlib.Data.List.Chain
import FlatMachine.Proofs.Service.Order
import FlatMachine.Proofs.Service.Account

/-! # The pace of a service

The drains of a service leave **marks**: they begin, take items, publish snapshots and end.  Two
marks in a row belong to each other (**`Paced`**): the second one is a publication just if the
first one is the beginning of the first drain, or the taking of an item that left the service
running with another state or context; and between the two, the listeners registered at a
publication are notified of it, in order, and no others.

**`World.Pacing`** says that the marks left so far are paced, how far the notifications have come
since the last mark, and that each snapshot published replaced the one before it.  It outlasts
the work on an item, and whatever spares a service that is drained. -/

namespace FlatMachine

/-! ### Marks and notices -/

namespace Entry

/-- The entry tells how far the drains of the service have come. -/
def paces (i : Nat) : Entry → Bool
  | taken j _ | published j _ | began j | ended j _ => j == i
  | _ => false

/-- The entry tells of a listener of the service that is notified. -/
def tells (i : Nat) : Entry → Bool
  | notified j .. | called (.service j) .listener .. => j == i
  | _ => false

/-- The snapshot that the service published. -/
def published? (i : Nat) : Entry → Option Snapshot
  | published j sn => if j = i then some sn else none
  | _ => none

variable {i : Nat} {e : Entry}

theorem deed?_of_paces (h : e.paces i = true) : e.deed? = some i := by
  cases e <;> first | cases h | exact congrArg some (beq_iff_eq.mp h)

theorem deed?_of_tells (h : e.tells i = true) : e.deed? = some i := by
  cases e with
  | called owner role =>
    cases owner with
    | bench => cases h
    | service j => cases role <;> first | cases h | exact congrArg some (beq_iff_eq.mp h)
  | notified => exact congrArg some (beq_iff_eq.mp h)
  | _ => cases h

theorem published?_self (sn : Snapshot) : (published i sn).published? i = some sn := if_pos rfl

theorem eq_of_published? {sn : Snapshot} (h : e.published? i = some sn) : e = published i sn := by
  cases e with
  | published j sn' =>
    obtain ⟨rfl, rfl⟩ : j = i ∧ sn' = sn := by simpa [published?] using h
    rfl
  | _ => cases h

theorem published?_of_paces (h : e.paces i = false) : e.published? i = none := by
  cases e <;> first | rfl | exact if_neg (beq_eq_false_iff_ne.mp h)

/-- What is written in processing an item is no mark, and no listener's business. -/
theorem Working.plain (h : e.Working i) : e.paces i = false ∧ e.tells i = false := by
  cases h with
  | acting acting =>
    cases acting with
    | quiet quiet =>
      cases quiet with
      | free free => cases free <;> exact ⟨rfl, rfl⟩
      | _ => exact ⟨rfl, rfl⟩
    | action => exact ⟨rfl, rfl⟩
  | _ => exact ⟨rfl, rfl⟩

end Entry

/-- The snapshot published last. -/
def lastPublished (i : Nat) (journal : List Entry) : Option Snapshot :=
  journal.findSome? (Entry.published? i)

/-- The points at which the drains of the service left marks, latest first. -/
def marks (i : Nat) (points : List Point) : List Point :=
  points.filter (·.journal.head?.any (Entry.paces i))

/-- The state or the context is another. -/
def Service.changes (before after : Service) : Bool :=
  !after.stateName.same before.stateName || after.context.stamp != before.context.stamp

/-- The snapshot is the one published last. -/
def Service.Faithful (i : Nat) (s : Service) (journal : List Entry) : Prop :=
  ∀ sn, lastPublished i journal = some sn → s.snapshot = sn

/-- The notification of a listener. -/
def Listener.notice (i : Nat) (sn : Snapshot) (listener : Listener) : Entry :=
  match listener.callback with
  | some f => .called (.service i) .listener f [.fresh sn.toValue]
  | none => .notified i listener.name sn

theorem Listener.tells_notice (i : Nat) (sn : Snapshot) (listener : Listener) :
    (listener.notice i sn).tells i = true := by
  unfold notice
  split <;> exact beq_self_eq_true i

theorem Listener.paces_notice (i : Nat) (sn : Snapshot) (listener : Listener) :
    (listener.notice i sn).paces i = false := by
  unfold notice
  split <;> rfl

namespace Point

/-- What was begun at the point is to be published, once it has made the service `after`: the
service was started, or an item was taken that changed it and did not stop it. -/
def due (i : Nat) (p : Point) (after : Service) : Bool :=
  match p.journal with
  | .began _ :: earlier => (lastPublished i earlier).isNone
  | .taken .. :: _ => after.status == .running && p.services[i]?.any (·.changes after)
  | _ => false

/-- The notifications that follow from the point, latest first. -/
def notices (i : Nat) (p : Point) : List Entry :=
  match p.journal.head? with
  | some (.published _ sn) =>
    (p.services[i]?.elim [] Service.listeners).reverse.map (Listener.notice i sn)
  | _ => []

/-- What is published is the service as it is. -/
def Shows (i : Nat) (p : Point) : Prop := ∀ sn, p.journal.head? = some (.published i sn) →
  ∃ s, p.services[i]? = some s ∧ s.snapshot = sn ∧ sn.stateName = s.stateName ∧
  sn.context = s.context ∧
    sn.changed = true ∧ s.machine.tags s.stateName = .ok sn.tags

/-- The snapshot of the service is the one published last. -/
def Faithful (i : Nat) (p : Point) : Prop := ∀ s, p.services[i]? = some s → s.Faithful i p.journal

theorem due_congr {i : Nat} {p : Point} {s s' : Service} (status : s'.status = s.status)
    (name : s'.stateName = s.stateName) (context : s'.context = s.context) :
    p.due i s' = p.due i s := by
  unfold due Service.changes
  rw [status, name, context]

end Point

/-- One mark is followed by another. -/
structure Paced (i : Nat) (p q : Point) : Prop where
  published : ∃ s, q.services[i]? = some s ∧
    ((∃ sn, q.journal.head? = some (.published i sn)) ↔ p.due i s = true)
  told : ∃ later, q.journal = later ++ p.journal ∧ later.filter (Entry.tells i) = p.notices i

section Marks

variable {i : Nat} {e : Entry} {p : Point} {journal later : List Entry} {points : List Point}

theorem lastPublished_cons (h : e.published? i = none) :
    lastPublished i (e :: journal) = lastPublished i journal := by
  unfold lastPublished
  rw [List.findSome?_cons, h]

theorem lastPublished_published (sn : Snapshot) :
    lastPublished i (.published i sn :: journal) = some sn := by
  unfold lastPublished
  rw [List.findSome?_cons, Entry.published?_self]

theorem lastPublished_append (h : ∀ e ∈ later, e.paces i = false) :
    lastPublished i (later ++ journal) = lastPublished i journal := by
  induction later with
  | nil => rfl
  | cons e rest ih =>
    obtain ⟨plain, rest⟩ := List.forall_mem_cons.mp h
    rw [List.cons_append, lastPublished_cons (Entry.published?_of_paces plain), ih rest]

theorem marks_cons (head : p.journal = e :: journal) : marks i (p :: points) =
    if e.paces i then p :: marks i points else marks i points := by
  unfold marks
  rw [List.filter_cons, head]
  rfl

/-- What was not done by the service left no mark. -/
theorem Silent.marks (h : Silent i journal points) : marks i points = [] := by
  unfold FlatMachine.marks
  rw [List.filter_eq_nil_iff]
  intro p hp marked
  obtain ⟨e, he, paces⟩ := (Option.any_eq_true _ _).mp marked
  exact h.points p hp e (List.mem_of_mem_head? he) (Entry.deed?_of_paces paces)

theorem Silent.lastPublished (h : Silent i journal points) : lastPublished i journal = none := by
  unfold FlatMachine.lastPublished
  rw [List.findSome?_eq_none_iff]
  intro e he
  refine Entry.published?_of_paces (Bool.eq_false_iff.mpr fun paces => ?_)
  exact h.journal e he (Entry.deed?_of_paces paces)

theorem Silent.faithful (h : Silent i journal points) : ∀ p ∈ points, p.Faithful i := by
  intro p hp s _ sn published
  have silent : Silent i p.journal [] := ⟨h.points p hp, List.forall_mem_nil _⟩
  rw [silent.lastPublished] at published
  cases published

end Marks

/-! ### Keeping pace -/

/-- The marks left so far are paced, and each publication is exact and replaced the snapshot
before it. -/
structure Exact (i : Nat) (points : List Point) : Prop where
  first : ∀ p ∈ (marks i points).getLast?, p.journal.head? = some (.began i)
  paced : (marks i points).IsChain fun q p => Paced i p q
  shows : ∀ p ∈ marks i points, p.Shows i
  faithful : ∀ p ∈ points, p.Faithful i

/-- A service that did nothing yet left no mark. -/
theorem Silent.exact {i : Nat} {journal : List Entry} {points : List Point}
    (h : Silent i journal points) :
    Exact i points := by
  refine ⟨?_, ?_, ?_, h.faithful⟩ <;> rw [h.marks]
  · exact nofun
  · exact .nil
  · exact nofun

/-- The last mark was left at the point, and these are the notifications since. -/
structure Since (i : Nat) (p : Point) (told journal : List Entry) (points : List Point) : Prop where
  marked : ∃ rest, marks i points = p :: rest
  later : ∃ later, journal = later ++ p.journal ∧ (∀ e ∈ later, e.paces i = false) ∧
    later.filter (Entry.tells i) = told

/-- A service has kept pace. -/
structure Pace (i : Nat) (p : Point) (told : List Entry) (s : Service) (journal : List Entry)
    (points : List Point) :
    Prop where
  since : Since i p told journal points
  exact : Exact i points
  faithful : s.Faithful i journal

section Noting

variable {i : Nat} {p q : Point} {e : Entry} {told journal : List Entry} {points : List Point}
  {s s' : Service}

namespace Since

theorem lastPublished (h : Since i p told journal points) :
    lastPublished i journal = lastPublished i p.journal := by
  obtain ⟨later, rfl, plain, -⟩ := h.later
  exact lastPublished_append plain

theorem first {P : Prop} (h : Since i p told journal points) (none : marks i points = []) : P := by
  obtain ⟨rest, marked⟩ := h.marked
  rw [none] at marked
  cases marked

theorem noted (h : Since i p told journal points) (plain : e.paces i = false)
    (head : q.journal = e :: journal) :
    Since i p ([e].filter (Entry.tells i) ++ told) (e :: journal) (q :: points) where
  marked := by
    rw [marks_cons head, plain]
    exact h.marked
  later := by
    obtain ⟨later, rfl, others, rfl⟩ := h.later
    refine ⟨e :: later, rfl, List.forall_mem_cons.mpr ⟨plain, others⟩, ?_⟩
    rw [← List.filter_append]
    rfl

/-- What others do is no mark, and none of its listeners is told of it. -/
theorem spared {w w' : World} (h : Since i p told w.journal w.points) (spares : w.Spares i w') :
    Since i p told w'.journal w'.points := by
  have same : marks i w'.points = marks i w.points :=
    spares.filter_points fun _ => Entry.deed?_of_paces
  obtain ⟨entries, journal, others⟩ := spares.journal
  obtain ⟨later, written, quiet, told⟩ := h.later
  refine ⟨same ▸ h.marked, entries ++ later, by rw [journal, written, List.append_assoc], ?_, ?_⟩
  · refine List.forall_mem_append.mpr ⟨fun e he => Bool.eq_false_iff.mpr fun paces => ?_, quiet⟩
    exact others e he (Entry.deed?_of_paces paces)
  · have untold : entries.filter (Entry.tells i) = [] :=
      List.filter_eq_nil_iff.mpr fun e he tells =>
        others e he (Entry.deed?_of_tells tells)
    rw [List.filter_append, untold, told]
    rfl

theorem mark (head : q.journal = e :: journal) (paces : e.paces i = true) :
    Since i q [] (e :: journal) (q :: points) where
  marked := by
    rw [marks_cons head, if_pos paces]
    exact ⟨_, rfl⟩
  later := ⟨[], head.symm, List.forall_mem_nil _, rfl⟩

/-- The next mark is paced if it is a publication just if one is due. -/
theorem paced (h : Since i p (p.notices i) journal points) (head : q.journal = e :: journal)
    (untold : e.tells i = false) (hs : q.services[i]? = some s)
    (due : (∃ sn, e = .published i sn) ↔ p.due i s = true) : Paced i p q where
  published := by
    refine ⟨s, hs, ?_⟩
    rw [head]
    refine Iff.trans ⟨?_, ?_⟩ due
    · rintro ⟨sn, published⟩
      exact ⟨sn, Option.some.inj published⟩
    · rintro ⟨sn, rfl⟩
      exact ⟨sn, rfl⟩
  told := by
    obtain ⟨later, rfl, -, told⟩ := h.later
    refine ⟨e :: later, head, ?_⟩
    rw [List.filter_cons_of_neg (by rw [untold]; exact nofun), told]

end Since

namespace Exact

theorem noted (h : Exact i points) (plain : e.paces i = false) (head : q.journal = e :: journal)
    (faithful : q.Faithful i) : Exact i (q :: points) := by
  have unmarked : marks i (q :: points) = marks i points := by
    rw [marks_cons head, plain]
    rfl
  exact ⟨unmarked ▸ h.first, unmarked ▸ h.paced, unmarked ▸ h.shows,
    List.forall_mem_cons.mpr ⟨faithful, h.faithful⟩⟩

theorem mark (h : Exact i points) (head : q.journal = e :: journal) (paces : e.paces i = true)
    (first : marks i points = [] → e = .began i) (paced : ∀ p ∈ (marks i points).head?, Paced i p q)
    (shows : q.Shows i) (faithful : q.Faithful i) : Exact i (q :: points) := by
  have marked : marks i (q :: points) = q :: marks i points := by
    rw [marks_cons head, if_pos paces]
  refine ⟨?_, ?_, ?_, List.forall_mem_cons.mpr ⟨faithful, h.faithful⟩⟩
  · rw [marked]
    cases hm : marks i points with
    | nil =>
      intro p hp
      cases hp
      show q.journal.head? = _
      rw [head, first hm]
      rfl
    | cons p rest =>
      rw [List.getLast?_cons_cons, ← hm]
      exact h.first
  · rw [marked]
    exact List.isChain_cons.mpr ⟨paced, h.paced⟩
  · rw [marked]
    exact List.forall_mem_cons.mpr ⟨shows, h.shows⟩

end Exact

namespace Service.Faithful

theorem noted (h : s.Faithful i journal) (unpublished : e.published? i = none) :
    s.Faithful i (e :: journal) := by
  unfold Faithful
  rw [lastPublished_cons unpublished]
  exact h

theorem alike (h : s.Faithful i journal) (snapshot : s'.snapshot = s.snapshot) :
    s'.Faithful i journal :=
  fun sn published => snapshot.trans (h sn published)

theorem point (h : s.Faithful i p.journal) (hs : p.services[i]? = some s) : p.Faithful i := by
  intro s' hs'
  cases hs.symm.trans hs'
  exact h

end Service.Faithful

namespace Pace

theorem alike {t : Service} (h : Pace i p told s journal points)
    (snapshot : t.snapshot = s.snapshot) :
    Pace i p told t journal points :=
  ⟨h.since, h.exact, h.faithful.alike snapshot⟩

theorem noted (h : Pace i p told s journal points) (plain : e.paces i = false)
    (head : q.journal = e :: journal) (hs : q.services[i]? = some s) :
    Pace i p ([e].filter (Entry.tells i) ++ told) s (e :: journal) (q :: points) := by
  have faithful := h.faithful.noted (Entry.published?_of_paces plain)
  exact ⟨h.since.noted plain head, h.exact.noted plain head (.point (head ▸ faithful) hs), faithful⟩

theorem silent (h : Pace i p told s journal points) (plain : e.paces i = false)
    (untold : e.tells i = false) (head : q.journal = e :: journal) (hs : q.services[i]? = some s) :
    Pace i p told s (e :: journal) (q :: points) := by
  have noted := h.noted plain head hs
  rwa [List.filter_cons_of_neg (by rw [untold]; exact nofun)] at noted

/-- All were notified, and the next mark is left, where nothing is due to be published. -/
theorem mark (h : Pace i p (p.notices i) s journal points) (paces : e.paces i = true)
    (untold : e.tells i = false) (unpublished : e.published? i = none)
    (head : q.journal = e :: journal) (hs : q.services[i]? = some s) (due : p.due i s = false) :
    Pace i q [] s (e :: journal) (q :: points) := by
  have other (sn : Snapshot) : e ≠ .published i sn := by
    rintro rfl
    rw [Entry.published?_self] at unpublished
    cases unpublished
  have faithful := h.faithful.noted unpublished
  refine ⟨.mark head paces,
    h.exact.mark head paces h.since.first ?_ ?_ (.point (head ▸ faithful) hs), faithful⟩
  · intro p' hp'
    obtain ⟨rest, marked⟩ := h.since.marked
    rw [marked] at hp'
    cases hp'
    refine h.since.paced head untold hs
      ⟨fun ⟨sn, published⟩ => absurd published (other sn), fun yes => ?_⟩
    rw [due] at yes
    cases yes
  · intro sn published
    rw [head] at published
    exact absurd (Option.some.inj published) (other sn)

/-- The next mark is a publication that is due. -/
theorem publish (h : Pace i p (p.notices i) s journal points) {sn : Snapshot}
    (head : q.journal = .published i sn :: journal) (hs : q.services[i]? = some s')
    (snapshot : s'.snapshot = sn) (name : sn.stateName = s'.stateName)
    (context : sn.context = s'.context) (changed : sn.changed = true)
    (tags : s'.machine.tags s'.stateName = .ok sn.tags) (due : p.due i s' = true) :
    Pace i q [] s' (.published i sn :: journal) (q :: points) := by
  have paces : (Entry.published i sn).paces i = true := beq_self_eq_true i
  have faithful : s'.Faithful i (.published i sn :: journal) := by
    intro sn' published
    rw [lastPublished_published] at published
    cases published
    exact snapshot
  refine ⟨.mark head paces,
    h.exact.mark head paces h.since.first ?_ ?_ (.point (head ▸ faithful) hs), faithful⟩
  · intro p' hp'
    obtain ⟨rest, marked⟩ := h.since.marked
    rw [marked] at hp'
    cases hp'
    exact h.since.paced head rfl hs ⟨fun _ => due, fun _ => ⟨sn, rfl⟩⟩
  · intro sn' published
    rw [head] at published
    cases published
    exact ⟨s', hs, snapshot, name, context, changed, tags⟩

end Pace

end Noting

/-! ### While a drain goes on -/

namespace World

/-- The service is drained, and has kept pace unless a drain of it was halted. -/
def Pacing (i : Nat) (p : Point) (told : List Entry) (w : World) : Prop :=
  ∃ s, w.services[i]? = some s ∧ s.Busy ∧
    (Unhalted i w.journal → Pace i p told s w.journal w.points)

namespace Pacing

variable {i : Nat} {p : Point} {told : List Entry} {w w' : World}

theorem changed {f : Service → Service} (h : w.Pacing i p told)
    (hf : ∀ s : Service, (f s).snapshot = s.snapshot ∧
    (f s).status = s.status ∧ (f s).queue.draining = s.queue.draining) :
    (w.change i f).Pacing i p told := by
  obtain ⟨s, hs, busy, pace⟩ := h
  obtain ⟨snapshot, status, draining⟩ := hf s
  refine ⟨f s, change_self f hs, busy.alike status draining, fun unhalted => ?_⟩
  exact (pace unhalted).alike snapshot

theorem silent {e : Entry} (h : w.Pacing i p told) (plain : e.paces i = false)
    (untold : e.tells i = false) :
    (w.noted e).Pacing i p told := by
  obtain ⟨s, hs, busy, pace⟩ := h
  exact ⟨s, hs, busy, fun unhalted => (pace unhalted.tail).silent plain untold rfl hs⟩

theorem spared (h : w.Pacing i p told) (spares : w.Spares i w') : w'.Pacing i p told := by
  obtain ⟨s, hs, busy, pace⟩ := h
  obtain ⟨s', hs', spared⟩ := spares.service s hs
  refine ⟨s', hs', spared.holds.busy busy, fun unhalted => ?_⟩
  obtain ⟨entries, journal, others⟩ := spares.journal
  have pace := pace (.of_append (journal ▸ unhalted))
  have plain (e : Entry) (other : e.deed? ≠ some i) : e.paces i = false :=
    Bool.eq_false_iff.mpr fun paces => other (Entry.deed?_of_paces paces)
  have same : marks i w'.points = marks i w.points :=
    spares.filter_points fun _ => Entry.deed?_of_paces
  have faithful (entries : List Entry) (others : ∀ e ∈ entries, e.deed? ≠ some i) :
      s.Faithful i (entries ++ w.journal) := by
    intro sn published
    rw [lastPublished_append fun e he => plain e (others e he)] at published
    exact pace.faithful sn published
  refine ⟨pace.since.spared spares, ⟨?_, ?_, ?_, ?_⟩, ?_⟩
  · rw [same]
    exact pace.exact.first
  · rw [same]
    exact pace.exact.paced
  · rw [same]
    exact pace.exact.shows
  · obtain ⟨later, points, later_spared⟩ := spares.points
    rw [points]
    refine List.forall_mem_append.mpr ⟨fun q hq => ?_, pace.exact.faithful⟩
    obtain ⟨⟨e, entries, written, others⟩, service⟩ := later_spared q hq
    obtain ⟨s₁, hs₁, spared⟩ := service s hs
    refine .point (s := s₁) ?_ hs₁
    rw [written]
    exact (faithful _ others).alike spared.holds.snapshot
  · rw [journal]
    exact (faithful entries others).alike spared.holds.snapshot

theorem steady (i : Nat) (p : Point) (told : List Entry) : Steady i (Pacing i p told) where
  busy := fun ⟨s, hs, busy, _⟩ => ⟨s, hs, busy⟩
  spared := fun spares h => h.spared spares

theorem working {g : Engine} (hg : g.Sparing) : g.Working i (Pacing i p told) where
  aside := ((steady i p told).free hg).aside
  noted := fun he h => h.silent he.plain.1 he.plain.2
  changed := fun hf h => h.changed fun s => by
    obtain ⟨_, _, _, _, eq⟩ := hf s
    rw [eq]
    exact ⟨rfl, rfl, rfl⟩
  calls := (steady i p told).sustained hg

end Pacing

end World

end FlatMachine
