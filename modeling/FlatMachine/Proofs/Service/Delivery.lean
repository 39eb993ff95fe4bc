import FlatMachine.Proofs.Service.Concerns
import FlatMachine.Proofs.World.Tick

/-! # Where outcomes come from

An outcome comes in when a waiter is told how the awaitable ended that it waits for
(**`World.Owed`**).  This is so in every history (**`World.outcome_awaited`**): who is about to
be told waits for an awaitable that is settled, and callbacks let no outcome come in.  Whatever a
service takes has come in (**`World.accepted_of_taken`**). -/

namespace FlatMachine

namespace World

/-- The invocation of the service that the outcome is for waits for an awaitable, and the outcome
says how that ended. -/
def Owed (w : World) (i : Nat) (o : Outcome) : Prop :=
  ∃ e a settlement, w.Awaited ⟨i, o.token, e⟩ a settlement ∧
    o = .ofSettlement o.token e a settlement

section Owed

variable {w : World} {i : Nat} {o : Outcome}

/-- What is owed without an error is a value. -/
theorem Owed.value (h : w.Owed i o) (valid : o.cancelled = false) (done : o.failed = false) :
    ∃ e a, w.Awaited ⟨i, o.token, e⟩ a (.value o.data) := by
  obtain ⟨e, a, settlement, awaited, eq⟩ := h
  rw [eq] at valid done ⊢
  cases settlement with
  | value v => exact ⟨e, a, awaited⟩
  | failed f => cases done
  | cancelled => cases valid

/-- What is owed with an error is the failure of the awaitable. -/
theorem Owed.failure (h : w.Owed i o) (failed : o.failed = true) :
    ∃ e a f, w.Awaited ⟨i, o.token, e⟩ a (.failed f) ∧ o.error = .failure a f := by
  obtain ⟨e, a, settlement, awaited, eq⟩ := h
  rw [eq] at failed ⊢
  cases settlement with
  | failed f => exact ⟨e, a, f, awaited, rfl⟩
  | _ => cases failed

end Owed

/-- Who is about to be told waits for what is settled, and so did who was told before. -/
structure Posted (w : World) : Prop where
  ready : ∀ waiter a, .complete waiter a ∈ w.ready → ∃ settlement, w.Awaited waiter a settlement
  accepted : ∀ i o, .accepted i (.outcome o) ∈ w.journal → w.Owed i o

namespace Posted

open Run

variable {w w' : World} {g : Engine}

theorem advanced (h : w.Posted) (advances : w.Advances w') : w'.Posted where
  ready := by
    intro waiter a told
    rcases advances.ready told with told | awaited
    · obtain ⟨settlement, awaited⟩ := h.ready waiter a told
      exact ⟨settlement, advances.settled awaited⟩
    · exact awaited
  accepted := by
    rw [advances.journal]
    intro i o arrived
    obtain ⟨e, a, settlement, awaited, eq⟩ := h.accepted i o arrived
    exact ⟨e, a, settlement, advances.settled awaited, eq⟩

theorem noted (h : w.Posted) {e : Entry} (owed : ∀ i o, e = .accepted i (.outcome o) → w.Owed i o) :
    (w.noted e).Posted where
  ready := h.ready
  accepted := by
    intro i o arrived
    rcases List.mem_cons.mp arrived with rfl | arrived
    · exact owed i o rfl
    · exact h.accepted i o arrived

theorem bystands (i : Nat) : g.Bystands i Posted where
  aside := fun advances h => h.advanced advances
  noted := fun _ news h => h.noted fun i o arrived => by
    subst arrived
    cases news
  others := fun _ _ h => ⟨h.ready, h.accepted⟩
  created := fun _ h => ⟨h.ready, h.accepted⟩

theorem heeds (hc : g.Sustains Posted) (i : Nat) : g.Heeds i (fun _ => True) Posted :=
  Engine.Bystands.heeds bystands hc i

/-- A waiter that is told how what it waits for ended. -/
theorem meets_deliver (hc : g.Sustains Posted) (waiter : Waiter) (a : AwaitableId)
    (settlement : Settlement) :
    Meets (fun w => w.Posted ∧ w.Awaited waiter a settlement) (g.deliver waiter a settlement)
      (fun _ => Posted) Posted := by
  have free := bystands (g := g) (waiter.service + 1)
  refine .bind (Q := fun _ w => w.Posted ∧ w.Awaited waiter a settlement)
    (.service (fun _ _ hw _ => hw) fun _ hw => hw.1) fun s =>
      .ite (fun _ => ?_) fun _ => .pure fun _ hw => hw.1
  refine .bind (Q := fun _ w => w.Posted ∧ w.Awaited waiter a settlement)
    (.update fun w hw => ⟨⟨hw.1.ready, hw.1.accepted⟩, hw.2⟩) fun _ => ?_
  refine .bind (Q := fun _ => Posted) (.note fun w hw => hw.1.noted fun i o arrived => ?_) fun _ =>
    (free.runQueue hc (Nat.ne_of_lt (Nat.lt_succ_self _))).meets
  cases arrived
  have token :
      (Outcome.ofSettlement waiter.token waiter.event a settlement).token = waiter.token := by
    cases settlement <;> rfl
  exact ⟨waiter.event, a, settlement, by rw [token]; exact hw.2, by rw [token]⟩

theorem respects_takeTurn (hc : g.Sustains Posted) : Respects Posted g.takeTurn := by
  have taken :
      Meets Posted takeReady (fun r w => w.Posted ∧ ∀ waiter a, r = some (.complete waiter a) →
        ∃ settlement, w.Awaited waiter a settlement) Posted := by
    refine fun w hw => Meets.bind (P := (· = w)) (Q := fun v u => v = w ∧ u = w)
      (.get fun _ hv => ⟨hv, hv⟩) (fun v => ?_) w rfl
    refine .given (fun _ hu => hu.1) fun hv => ?_
    subst hv
    split
    · exact .pure fun _ hu => ⟨hu.2 ▸ hw, nofun⟩
    · rename_i r rest ready
      refine .bind (Q := fun _ u => u = { v with ready := rest }) (.modify fun _ _ => rfl) fun _ =>
        .pure fun u hu => ?_
      have advances : v.Advances u := hu ▸ .dequeued ready
      refine ⟨hw.advanced advances, fun waiter a told => ?_⟩
      obtain ⟨settlement, awaited⟩ :=
        hw.ready waiter a (by rw [ready, Option.some.inj told]; exact List.mem_cons_self)
      exact ⟨settlement, advances.settled awaited⟩
  refine Meets.bind taken fun r => ?_
  cases r with
  | none => exact .pure fun _ hw => hw.1
  | some r =>
    refine Meets.bind (Q := fun _ => Posted) ?_ fun _ => .pure fun _ => id
    cases r with
    | step a pauses body args =>
      exact ((heeds hc 0).stepTurn hc a pauses body args).meets.pre fun _ hw => hw.1
    | complete waiter a =>
      rintro w ⟨hw, awaited⟩
      obtain ⟨settlement, awaited⟩ := awaited waiter a rfl
      have told : Meets (· = w) (g.complete waiter a) (fun _ => Posted) Posted := by
        refine .bind (Q := fun v u => v = w ∧ u = w) (.get fun _ hv => ⟨hv, hv⟩) fun v =>
          .given (fun _ hu => hu.1) fun hv => ?_
        obtain ⟨waiters, found, -⟩ := id awaited
        rw [hv, found]
        refine .tryCatch ((meets_deliver hc waiter a settlement).pre fun u hu => ?_) fun halt => ?_
        · rw [hu.2]
          exact ⟨hw, awaited⟩
        · cases halt with
          | raised f => exact .note fun v hv => hv.noted nofun
          | exhausted => exact .throw fun _ => id
      exact told w rfl

end Posted

/-- Whatever the outcome of an invocation that comes in, it is that of an awaitable for which the
invocation waits. -/
theorem outcome_awaited (book : Book) (fuel : Nat) (looping : Bool) (history : List Command)
    (i : Nat) (o : Outcome) (arrived : .accepted i (.outcome o) ∈
      ((World.start looping).after (.ofBook book fuel) history).journal) :
    ((World.start looping).after (.ofBook book fuel) history).Owed i o := by
  have posted : ((World.start looping).after (.ofBook book fuel) history).Posted :=
    heeds_after (fun n hc => Posted.heeds hc 0)
      (fun n hc => Posted.respects_takeTurn hc) trivial fuel
      (fun _ _ => trivial) ⟨fun _ _ => nofun, fun _ _ => nofun⟩
  exact posted.accepted i o arrived

end World

/-- Whatever the service took, or has in its queue, had come in. -/
structure Service.Supplied (i : Nat) (s : Service) (journal : List Entry) : Prop where
  taken : ∀ item earlier, .taken i item :: earlier <:+ journal → .accepted i item ∈ earlier
  queued : ∀ item ∈ s.queue.items, .accepted i item ∈ journal

namespace Service.Supplied

variable {i : Nat} {s s' : Service} {journal : List Entry}

theorem fresh (fresh : s.Fresh) (silent : ∀ e ∈ journal, e.service? ≠ some i) :
    s.Supplied i journal where
  taken := fun _ _ taken => absurd rfl (silent _ (taken.subset List.mem_cons_self))
  queued := by
    rw [fresh.queue]
    exact List.forall_mem_nil _

/-- What is written does not tell that something was taken. -/
theorem told (h : s.Supplied i journal) {e : Option Entry}
    (queue : ∀ item ∈ s'.queue.items, item ∈ s.queue.items) (course : ∀ item, .taken i item ∉ e) :
    s'.Supplied i (e.toList ++ journal) where
  taken := fun item earlier taken => by
    cases e with
    | none => exact h.taken item earlier taken
    | some x =>
      rcases List.suffix_cons_iff.mp taken with taken | taken
      · obtain ⟨rfl, -⟩ := List.cons.inj taken
        exact absurd rfl (course item)
      · exact h.taken item earlier taken
  queued := fun item mem => List.mem_append_right _ (h.queued item (queue item mem))

theorem beat {e : Option Entry} (b : Beat i s s' e) (h : s.Supplied i journal) :
    s'.Supplied i (e.toList ++ journal) := by
  have aside {e : Option Entry} (course : ∀ x ∈ e, x.course? ≠ some i) (item : Item) :
      .taken i item ∉ e := fun taken =>
    course _ taken rfl
  cases b with
  | pass queue _ _ passing =>
    exact h.told (queue ▸ fun _ => id) (aside fun x hx => (passing x hx).course)
  | work _ queue _ _ course => exact h.told (queue ▸ fun _ => id) (aside course)
  | start _ _ queue _ passing =>
    exact h.told (queue ▸ fun _ => id) (aside fun x hx => (passing x hx).course)
  | stop _ _ queue _ passing =>
    exact h.told (queue ▸ fun _ => id) (aside fun x hx => (passing x hx).course)
  | drop => exact h.told (fun _ => nofun) fun _ => nofun
  | enter => exact h.told (fun _ => id) fun _ => nofun
  | leave halt =>
    refine h.told (fun item mem => ?_) fun _ => nofun
    cases halt with
    | none => exact mem
    | some halt => cases mem
  | accept item =>
    refine ⟨fun other earlier taken => ?_, fun other mem => ?_⟩
    · rcases List.suffix_cons_iff.mp taken with taken | taken
      · cases taken
      · exact h.taken other earlier taken
    · rcases List.mem_append.mp mem with mem | mem
      · exact List.mem_cons_of_mem _ (h.queued other mem)
      · cases List.mem_singleton.mp mem
        exact List.mem_cons_self
  | @take item rest _ _ items =>
    have left : s.queue.dequeue.2.items = rest := by
      unfold Queue.dequeue
      rw [items]
    have queued : ∀ other ∈ item :: rest, .accepted i other ∈ journal := items ▸ h.queued
    refine ⟨fun other earlier taken => ?_, fun other mem => ?_⟩
    · rcases List.suffix_cons_iff.mp taken with taken | taken
      · cases taken
        exact queued _ List.mem_cons_self
      · exact h.taken other earlier taken
    · exact List.mem_cons_of_mem _ (queued other (List.mem_cons_of_mem _ (left ▸ mem)))

end Service.Supplied

/-- Whatever a service takes had come in. -/
theorem World.supplied_of_passed {book : Book} {fuel : Nat} {looping : Bool}
    {history : List Command} {p : Point} {i : Nat} {s : Service}
    (hp : p ∈ ((World.start looping).after (.ofBook book fuel) history).passed)
    (hs : p.services[i]? = some s) :
    s.Supplied i p.journal :=
  holds_of_passed (J := fun i s journal => s.Supplied i journal)
    (fun _ _ _ => Service.Supplied.fresh) (fun _ _ _ _ _ => Service.Supplied.beat) hp hs

theorem World.accepted_of_taken {book : Book} {fuel : Nat} {looping : Bool} {history : List Command}
    {p : Point} {i : Nat} {s : Service}
    (hp : p ∈ ((World.start looping).after (.ofBook book fuel) history).passed)
    (hs : p.services[i]? = some s) {item : Item} (taken : .taken i item ∈ p.journal) :
    .accepted i item ∈ p.journal := by
  obtain ⟨later, earlier, split⟩ := List.append_of_mem taken
  have suffix : .taken i item :: earlier <:+ p.journal := ⟨later, split.symm⟩
  exact suffix.subset
    (List.mem_cons_of_mem _ ((supplied_of_passed hp hs).taken item earlier suffix))

end FlatMachine
