import FlatMachine.Proofs.Service.Account
import FlatMachine.Proofs.World.Tick

/-! # What is taken is carried out

Whenever a service takes an item, the history goes on with processing it, once, and then with
publishing what changed, once.  Only then does the drain move on, to the next item or to its end.

* **`World.Uninterrupted`**: from one world to the other, no drain of the service begins or ends,
  and none takes an item.
* **`Run.Continues`**: a history goes on with a computation, and then as is said, unless the
  computation is halted, which ends the drain.
* **`World.CarriedOut`**: a history goes on with what is to be done with an item.
* **`World.carriesOut_after`**: all items that are taken in a history are carried out.  This is
  an account in which only the drains of the service have a say, and which is right whenever a
  drain moves on. -/

namespace FlatMachine

/-! ### Between two items -/

/-- What the entry tells of the queue of the service, if anything, is that an item comes in. -/
def Entry.Incoming (i : Nat) (e : Entry) : Prop := e.course? = some i → ∃ item, e = .accepted i item

/-- The service takes an item, or its drain is over. -/
inductive Entry.Turning (i : Nat) : Entry → Prop where
  | taken (item : Item) : Turning i (.taken i item)
  | ended (halt : Option Halt) : Turning i (.ended i halt)

namespace Entry

variable {e : Entry} {i : Nat}

theorem incoming_of_deed (h : e.deed? ≠ some i) : e.Incoming i := by
  intro course
  cases e with
  | accepted j item =>
    cases course
    exact ⟨item, rfl⟩
  | taken | began | ended => exact absurd course h
  | _ => cases course

theorem Working.incoming (h : e.Working i) : e.Incoming i := by
  cases h with
  | acting acting =>
    cases acting with
    | quiet quiet =>
      cases quiet with
      | free free => cases free <;> exact nofun
      | _ => exact nofun
    | action => exact nofun
  | _ => exact nofun

theorem Announcing.incoming (h : e.Announcing i) : e.Incoming i := by
  cases h <;> exact nofun

theorem Incoming.not_taken (h : e.Incoming i) (item : Item) : e ≠ .taken i item := by
  rintro rfl
  obtain ⟨item, accepted⟩ := h rfl
  cases accepted

end Entry

namespace World

/-- From one world to the other, items come in, but none is taken, and no drain of the service
begins or ends. -/
structure Uninterrupted (i : Nat) (u v : World) : Prop where
  journal : ∃ later, v.journal = later ++ u.journal ∧ ∀ e ∈ later, e.Incoming i
  points : ∃ between, v.points = between ++ u.points ∧ ∀ p ∈ between, ∀ e ∈ p.journal.head?,
    e.Incoming i

namespace Uninterrupted

variable {i : Nat} {u v v' : World}

theorem refl (u : World) : u.Uninterrupted i u :=
  ⟨⟨[], rfl, List.forall_mem_nil _⟩, [], rfl, List.forall_mem_nil _⟩

theorem suffix (h : u.Uninterrupted i v) : u.points <:+ v.points := by
  obtain ⟨between, passed, -⟩ := h.points
  exact passed ▸ List.suffix_append between _

theorem trans (h : u.Uninterrupted i v) (h' : v.Uninterrupted i v') : u.Uninterrupted i v' := by
  obtain ⟨⟨later, journal, incoming⟩, between, points, heads⟩ := h
  obtain ⟨⟨later', journal', incoming'⟩, between', points', heads'⟩ := h'
  refine ⟨⟨later' ++ later, ?_, List.forall_mem_append.mpr ⟨incoming', incoming⟩⟩,
    between' ++ between, ?_,
    List.forall_mem_append.mpr ⟨heads', heads⟩⟩
  · rw [journal', journal, List.append_assoc]
  · rw [points', points, List.append_assoc]

theorem noted {e : Entry} (h : u.Uninterrupted i v) (incoming : e.Incoming i) :
    u.Uninterrupted i (v.noted e) := by
  refine h.trans
    ⟨⟨[e], rfl, List.forall_mem_singleton.mpr incoming⟩, [⟨v.services, e :: v.journal⟩], rfl, ?_⟩
  rintro p hp x hx
  obtain rfl := List.mem_singleton.mp hp
  cases hx
  exact incoming

theorem ofSpares (h : u.Spares i v) : u.Uninterrupted i v := by
  obtain ⟨later, journal, others⟩ := h.journal
  obtain ⟨between, points, spared⟩ := h.points
  refine ⟨⟨later, journal, fun e he => Entry.incoming_of_deed (others e he)⟩, between, points,
    fun p hp e he => ?_⟩
  obtain ⟨e', entries, written, none⟩ := (spared p hp).1
  rw [written] at he
  cases he
  exact Entry.incoming_of_deed (none _ List.mem_cons_self)

/-- What is so of points at which nothing is taken and of all earlier ones is so of all that were
taken. -/
theorem taken (h : u.Uninterrupted i v) {p : Point} {earlier : List Point} {item : Item}
    (hp : p :: earlier <:+ v.points) (head : p.journal.head? = some (.taken i item)) :
    p :: earlier <:+ u.points := by
  obtain ⟨between, points, heads⟩ := h.points
  rw [points] at hp
  clear points
  induction between with
  | nil => exact hp
  | cons q rest ih =>
    obtain ⟨now, heads⟩ := List.forall_mem_cons.mp heads
    rcases List.suffix_cons_iff.mp hp with hp | hp
    · obtain ⟨rfl, -⟩ := List.cons.inj hp
      exact absurd rfl ((now _ head).not_taken item)
    · exact ih hp heads

end Uninterrupted

/-- The service is drained, and nothing has interrupted that since. -/
def Undisturbed (i : Nat) (u v : World) : Prop := v.Busy i ∧ u.Uninterrupted i v

namespace Undisturbed

open Run Engine

variable {i : Nat} {u : World} {g : Engine}

theorem steady : Steady i (Undisturbed i u) where
  busy := And.left
  spared := fun spares h => ⟨spares.busy h.1, h.2.trans (.ofSpares spares)⟩

theorem changed {v : World} {f : Service → Service} (h : u.Undisturbed i v)
    (hf : ∀ s : Service, (f s).status = s.status ∧ (f s).queue.draining = s.queue.draining) :
    u.Undisturbed i (v.change i f) := by
  obtain ⟨⟨s, hs, busy⟩, uninterrupted⟩ := h
  obtain ⟨status, draining⟩ := hf s
  refine ⟨⟨f s, change_self f hs, busy.alike status draining⟩, uninterrupted.trans ?_⟩
  exact ⟨⟨[], rfl, List.forall_mem_nil _⟩, [], rfl, List.forall_mem_nil _⟩

theorem working (hg : g.Sparing) : g.Working i (Undisturbed i u) where
  aside := (steady.free hg).aside
  noted := fun he h => ⟨h.1, h.2.noted he.incoming⟩
  changed := fun hf h => h.changed fun s => by
    obtain ⟨_, _, _, _, same⟩ := hf s
    rw [same]
    exact ⟨rfl, rfl⟩
  calls := steady.sustained hg

theorem respects_publish (hg : g.Sparing) : Respects (Undisturbed i u) (g.publish i) :=
  (working hg).quiet.free.publish (fun he h => ⟨h.1, h.2.noted he.incoming⟩) fun _ h =>
    h.changed fun _ => ⟨rfl, rfl⟩

end Undisturbed
end World

/-! ### What a history goes on with -/

/-- From the world on, the history of which the points are given goes on with the computation,
and is then as is said; if the computation is halted, the drain of the service ends with that. -/
def Run.Continues (i : Nat) (points : List Point) (x : Run Unit) (u : World) (next : World → Prop) :
    Prop :=
  match x.run u with
  | (.ok (), v) => v.points <:+ points ∧ next v
  | (.error halt, v) => ∃ q : Point, q.journal = .ended i (some halt) :: v.journal ∧
    q :: v.points <:+ points

theorem Run.Continues.mono {i : Nat} {points points' : List Point} {x : Run Unit} {u : World}
    {next next' : World → Prop} (h : Continues i points x u next) (grown : points <:+ points')
    (hn : ∀ v, next v → next' v) :
    Continues i points' x u next' := by
  unfold Continues at h ⊢
  generalize x.run u = out at h ⊢
  obtain ⟨halt | a, v⟩ := out
  · obtain ⟨q, ended, passed⟩ := h
    exact ⟨q, ended, passed.trans grown⟩
  · exact ⟨h.1.trans grown, hn v h.2⟩

namespace World

/-- The live state or the context is another. -/
def Differs (s s' : Service) : Prop :=
  s'.stateName.same s.stateName = false ∨ s'.context.stamp ≠ s.context.stamp

/-- The next thing that the history tells is that the service takes an item, or that its drain is
over. -/
def MovesOn (i : Nat) (points : List Point) (v : World) : Prop :=
  ∃ (q : Point) (e : Entry), q.journal = e :: v.journal ∧ q :: v.points <:+ points ∧ e.Turning i

/-- The item that was taken in the world is processed by one run, with which the history goes on.
If the service runs on in another state or with another context, that is published by another
run.  Then the drain moves on, and until then nothing else is taken. -/
def CarriedOut (book : Book) (i : Nat) (points : List Point) (s : Service) (item : Item)
    (u : World) : Prop :=
  ∃ n, Run.Continues i points ((Engine.ofBook book n).process i item) (u.taken i item) fun v =>
    (u.taken i item).Uninterrupted i v ∧ ∃ s', v.services[i]? = some s' ∧
      (s'.status = .running ∧ Differs s s' →
        Run.Continues i points ((Engine.ofBook book n).publish i) v fun v' =>
          (u.taken i item).Uninterrupted i v' ∧ MovesOn i points v') ∧
      (¬ (s'.status = .running ∧ Differs s s') → MovesOn i points v)

/-- Whatever the service took up to the last of the points is carried out in the history. -/
def CarriesOut (book : Book) (i : Nat) (points past : List Point) : Prop :=
  ∀ p earlier item, p :: earlier <:+ past → p.journal.head? = some (.taken i item) →
    ∃ u s, p = (World.taken u i item).now ∧ earlier = u.points ∧ u.services[i]? = some s ∧
      s.status = .running ∧ s.queue.dequeue.1 = some item ∧ CarriedOut book i points s item u

variable {book : Book} {i : Nat} {points points' past : List Point}

theorem MovesOn.mono {v : World} (h : MovesOn i points v) (grown : points <:+ points') :
    MovesOn i points' v := by
  obtain ⟨q, e, written, passed, turning⟩ := h
  exact ⟨q, e, written, passed.trans grown, turning⟩

theorem CarriedOut.mono {s : Service} {item : Item} {u : World}
    (h : CarriedOut book i points s item u) (grown : points <:+ points') :
    CarriedOut book i points' s item u := by
  obtain ⟨n, processed⟩ := h
  refine ⟨n, processed.mono grown fun v ⟨uninterrupted, s', hs', published, skipped⟩ =>
    ⟨uninterrupted, s', hs', fun differs => ?_, fun same => (skipped same).mono grown⟩⟩
  exact (published differs).mono grown fun _ ⟨uninterrupted, moves⟩ =>
    ⟨uninterrupted, moves.mono grown⟩

namespace CarriesOut

/-- What was carried out still is when the history goes on. -/
theorem mono (h : CarriesOut book i points past) (grown : points <:+ points') :
    CarriesOut book i points' past := by
  intro p earlier item hp head
  obtain ⟨u, s, now, before, hs, running, next, carried⟩ := h p earlier item hp head
  exact ⟨u, s, now, before, hs, running, next, carried.mono grown⟩

/-- Where nothing is taken, nothing more is to be carried out. -/
theorem cons (h : CarriesOut book i points past) {p : Point}
    (other : ∀ item, p.journal.head? ≠ some (.taken i item)) :
    CarriesOut book i points (p :: past) := by
  intro q earlier item hq head
  rcases List.suffix_cons_iff.mp hq with hq | hq
  · obtain ⟨rfl, -⟩ := List.cons.inj hq
    exact absurd head (other _)
  · exact h q earlier item hq head

theorem noted {w : World} {e : Entry} (h : CarriesOut book i w.points w.points)
    (other : ∀ item, e ≠ .taken i item) : CarriesOut book i (w.noted e).points (w.noted e).points :=
  (h.mono (List.suffix_cons _ _)).cons fun item head => other item (Option.some.inj head)

/-- A drain begins with nothing left to carry out. -/
theorem entered {w : World} {f : Service → Service} {e : Entry}
    (h : CarriesOut book i w.points w.points) (other : ∀ item, e ≠ .taken i item) :
    CarriesOut book i (w.entered i f e).points (w.entered i f e).points :=
  noted (noted (w := w.change i f) h other) fun _ => nofun

theorem ofSilent {journal : List Entry} (silent : Silent i journal past) :
    CarriesOut book i points past := by
  intro p earlier item hp head
  exact absurd rfl (silent.points p (hp.subset List.mem_cons_self) _ (List.mem_of_mem_head? head))

/-- Where nothing interrupted it since an item was taken, that item and what was taken before it
are all there is to carry out. -/
theorem taken {u v : World} {s : Service} {item : Item} {q : Point}
    (h : CarriesOut book i (u.taken i item).points u.points)
    (hs : u.services[i]? = some s) (running : s.status = .running)
    (next : s.queue.dequeue.1 = some item) (uninterrupted : (u.taken i item).Uninterrupted i v)
    (carried : CarriedOut book i (q :: v.points) s item u) :
    CarriesOut book i (q :: v.points) v.points := by
  have earlier : CarriesOut book i (q :: v.points) u.points :=
    h.mono (uninterrupted.suffix.trans (List.suffix_cons q _))
  intro p before other hp head
  rcases List.suffix_cons_iff.mp (uninterrupted.taken hp head) with same | older
  · obtain ⟨rfl, rfl⟩ := List.cons.inj same
    cases head
    exact ⟨u, s, rfl, rfl, hs, running, next, carried⟩
  · exact earlier p before other older head

end CarriesOut

end World

namespace Engine

open Run World

variable {book : Book} {n i : Nat}

/-- The service is drained, and whatever it took is carried out. -/
def Cleared (book : Book) (i : Nat) (w : World) : Prop :=
  w.Busy i ∧ CarriesOut book i w.points w.points

/-- The service is drained, and whatever it took is carried out if the drain moves on now. -/
def Turns (book : Book) (i : Nat) (w : World) : Prop :=
  w.Busy i ∧ ∀ q : Point, (∃ e : Entry, q.journal = e :: w.journal ∧ e.Turning i) →
    CarriesOut book i (q :: w.points) w.points

/-- Whatever the service took is carried out if the drain ends with the halt now. -/
def TurnsHalted (book : Book) (i : Nat) (halt : Halt) (w : World) : Prop :=
  ∀ q : Point, q.journal = .ended i (some halt) :: w.journal →
    CarriesOut book i (q :: w.points) w.points

theorem Cleared.turns {w : World} (h : Cleared book i w) : Turns book i w :=
  ⟨h.1, fun q _ => h.2.mono (List.suffix_cons q _)⟩

theorem Turns.halted {w : World} (h : Turns book i w) (halt : Halt) : TurnsHalted book i halt w :=
  fun q ended => h.2 q ⟨_, ended, .ended (some halt)⟩

/-- Where nothing is taken, all that was taken is still carried out. -/
theorem Cleared.undisturbed {w v : World} (h : Cleared book i w) (hv : w.Undisturbed i v) :
    Cleared book i v := by
  refine ⟨hv.1, fun p earlier item hp head => ?_⟩
  exact (h.2.mono hv.2.suffix) p earlier item (hv.2.taken hp head) head

/-- An item was taken and processed to its end, and nothing is published yet. -/
structure RanThrough (book : Book) (n i : Nat) (u : World) (s : Service) (item : Item)
    (v : World) : Prop where
  earlier : CarriesOut book i (u.taken i item).points u.points
  service : u.services[i]? = some s
  running : s.status = .running
  next : s.queue.dequeue.1 = some item
  processed : ((ofBook book n).process i item).run (u.taken i item) = (.ok (), v)
  undisturbed : (u.taken i item).Undisturbed i v

namespace RanThrough

variable {u v : World} {s s' : Service} {item : Item} {points : List Point}

/-- Where nothing is to be published, the item is carried out when the drain moves on. -/
theorem skipped (h : RanThrough book n i u s item v) (hs' : v.services[i]? = some s')
    (same : ¬ (s'.status = .running ∧ Differs s s')) : Turns book i v := by
  refine ⟨h.undisturbed.1, fun q moves => ?_⟩
  obtain ⟨e, written, turning⟩ := moves
  refine h.earlier.taken h.service h.running h.next h.undisturbed.2 ⟨n, ?_⟩
  unfold Continues
  rw [h.processed]
  refine ⟨List.suffix_cons q _, h.undisturbed.2, s', hs', fun differs => absurd differs same,
    fun _ => ?_⟩
  exact ⟨q, e, written, List.suffix_rfl, turning⟩

/-- Where something is to be published, it is published, and the item is carried out when the drain
moves on. -/
theorem published (h : RanThrough book n i u s item v) (hs' : v.services[i]? = some s')
    (differs : s'.status = .running ∧ Differs s s') :
    Ends (· = v) ((ofBook book n).publish i) (fun _ => Turns book i) (TurnsHalted book i) := by
  rintro v rfl
  have publishing {u' : World} (h : u'.Undisturbed i v) :=
    (Undisturbed.respects_publish (sparing_ofBook book n)).run h
  have undisturbed := publishing h.undisturbed
  have grown := (publishing ⟨h.undisturbed.1, .refl v⟩).2.suffix
  -- However publishing ends, the item is carried out if the history goes on with it.
  have carried {points : List Point} (grown : v.points <:+ points)
      (published : Continues i points ((ofBook book n).publish i) v fun v' =>
        (u.taken i item).Uninterrupted i v' ∧ MovesOn i points v') :
      CarriedOut book i points s item u := by
    refine ⟨n, ?_⟩
    unfold Continues
    rw [h.processed]
    exact ⟨grown, h.undisturbed.2, s', hs', fun _ => published, fun same => absurd differs same⟩
  unfold Continues at carried
  generalize ((ofBook book n).publish i).run v = out at undisturbed grown carried ⊢
  obtain ⟨halt | _, v'⟩ := out
  · intro q ended
    refine h.earlier.taken h.service h.running h.next undisturbed.2 ?_
    exact carried (grown.trans (List.suffix_cons q _)) ⟨q, ended, List.suffix_rfl⟩
  · refine ⟨undisturbed.1, fun q ⟨e, written, turning⟩ => ?_⟩
    refine h.earlier.taken h.service h.running h.next undisturbed.2 ?_
    exact carried (grown.trans (List.suffix_cons q _))
      ⟨List.suffix_cons q _, undisturbed.2, q, e, written, List.suffix_rfl, turning⟩

end RanThrough

/-- Item after item, whatever is taken is carried out. -/
theorem rounds_carryingOut (book : Book) (n i : Nat) : (ofBook book n).Rounds i (Turns book i)
    (fun s item v => ∃ u, RanThrough book n i u s item v) (TurnsHalted book i) where
  halted := fun halt h => h.halted halt
  processed := by
    rintro u s item hu hs running first w rfl
    have next : s.queue.dequeue.1 = some item := by
      unfold Queue.dequeue
      cases items : s.queue.items with
      | nil => rw [items] at first; cases first
      | cons head rest => rw [items] at first; cases first; rfl
    obtain ⟨s', hs', busy⟩ := hu.1
    cases hs.symm.trans hs'
    have earlier : CarriesOut book i (u.taken i item).points u.points :=
      hu.2 (u.taken i item).now ⟨_, rfl, .taken item⟩
    have taken : (u.taken i item).Undisturbed i (u.taken i item) :=
      ⟨⟨_, taken_self item hs, (Queue.draining_dequeue _).trans busy.draining, busy.started⟩,
        .refl _⟩
    have undisturbed := ((Undisturbed.working (sparing_ofBook book n)).process item).run taken
    generalize run : ((ofBook book n).process i item).run (u.taken i item) = out at undisturbed ⊢
    obtain ⟨halt | _, v⟩ := out
    · intro q ended
      refine earlier.taken hs running next undisturbed.2 ⟨n, ?_⟩
      unfold Continues
      rw [run]
      exact ⟨q, ended, List.suffix_rfl⟩
    · exact ⟨u, earlier, hs, running, next, run, undisturbed⟩
  skipped := by
    rintro v s s' item ⟨u, h⟩ hs' same
    refine h.skipped hs' fun ⟨running, differs⟩ => ?_
    obtain ⟨state, stamp⟩ := same running
    rcases differs with other | other
    · rw [state] at other
      cases other
    · exact other stamp
  published := by
    rintro v s s' item ⟨u, h⟩ hs' running changed
    refine h.published hs' ⟨running, ?_⟩
    by_cases state : s'.stateName.same s.stateName = true
    · exact Or.inr (changed state)
    · exact Or.inl (Bool.eq_false_iff.mpr state)
  lost := by
    rintro v s item halt ⟨u, h⟩ lost
    obtain ⟨s', hs', -⟩ := h.undisturbed.1
    rw [lost] at hs'
    cases hs'

/-- The first drain enters the initial state and publishes that before it takes anything. -/
theorem ends_startBody_carryingOut (book : Book) (n i : Nat) :
    Ends (Cleared book i) ((ofBook book n).startBody i) (fun _ => Turns book i)
      (TurnsHalted book i) := by
  have hg := sparing_ofBook book n
  have aside {x : Run Unit} (hx : ∀ u, Respects (Undisturbed i u) x) :
      Ends (Cleared book i) x (fun _ => Cleared book i) (TurnsHalted book i) := by
    intro w hw
    have after := (hx w).run ⟨hw.1, .refl w⟩
    generalize x.run w = out at after ⊢
    obtain ⟨halt | _, v⟩ := out
    · exact (hw.undisturbed after).turns.halted halt
    · exact hw.undisturbed after
  refine .bind (aside fun u => (Undisturbed.working hg).enter .init) fun _ => ?_
  refine .bind (aside fun u => Undisturbed.respects_publish hg) fun _ => ?_
  exact ((rounds_carryingOut book n i).ends_processPending _).pre fun _ => Cleared.turns

end Engine

namespace World

open Engine

/-- Only the drains of the service take items. -/
theorem enduring_carriesOut (book : Book) (i : Nat) :
    Enduring i fun _ _ _ points => CarriesOut book i points points where
  noted := fun {_ _ _ p _ _} deed written _ h => by
    refine (h.mono (List.suffix_cons p _)).cons fun item head => ?_
    rw [written] at head
    cases head
    exact deed rfl
  same := fun _ h => h
  later := fun _ h => h

/-- The drains of the service carry out what they take. -/
theorem regards_carriesOut (book : Book) (n i : Nat) : (ofBook book n).Regards i (fun _ => True)
    (Upholds i fun _ _ _ points => CarriesOut book i points points) := by
  refine regards_upholds (sparing_ofBook book n) (enduring_carriesOut book i) ?_ ?_
    (ends_startBody_carryingOut book n i) ((rounds_carryingOut book n i).ends_processPending _)
    ?_ ?_
  · intro w s item hs running _ h
    have started : s.status ≠ .notStarted := by rw [running]; exact nofun
    exact Cleared.turns
      ⟨⟨_, prompted_self item hs, rfl, started⟩, h.entered fun _ => Entry.noConfusion⟩
  · intro w s base override context text _ hs _ _ asleep _ _
    have begun :
        CarriesOut book i (opened w i context text).points (opened w i context text).points :=
      CarriesOut.entered (w := w.change i _) (.ofSilent asleep.silent) fun _ => Entry.noConfusion
    exact ⟨⟨_, opened_self hs context text, rfl, nofun⟩, begun⟩
  · intro v s p h _ ended _
    refine (h.2 p ⟨_, ended, .ended none⟩).cons fun item head => ?_
    rw [ended] at head
    cases head
  · intro v s p halt h _ ended _
    refine (h p ended).cons fun item head => ?_
    rw [ended] at head
    cases head

/-- In every history, whatever a service took is carried out. -/
theorem carriesOut_after (book : Book) (fuel : Nat) (looping : Bool)
    (history : List Command) (i : Nat) :
    let w := (World.start looping).after (.ofBook book fuel) history
    CarriesOut book i w.points w.points := by
  intro w
  have upholds : w.Upholds i fun _ _ _ points => CarriesOut book i points points :=
    upholds_after (fun n => regards_carriesOut book n i) trivial fuel looping history fun _ _ =>
      trivial
  cases hs : w.services[i]? with
  | none => exact .ofSilent (upholds.unborn hs)
  | some s => exact (upholds.now s hs).either.elim .ofSilent id

end World

end FlatMachine
