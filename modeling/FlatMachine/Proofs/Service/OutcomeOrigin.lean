import FlatMachine.Proofs.Service.Delivery
import FlatMachine.Proofs.Service.WatchedServices

/-! # On whose account outcomes come in

Whoever waits for an awaitable does so because the source of its invocation returned it, and
keeps the event that the source was called with (**`World.Rooted`**).  So an outcome comes in
with that event, and not before the source was called (**`World.Vouched`**).  Both are so in
every history (**`World.rooted_after`**, **`World.vouched_after`**). -/

namespace FlatMachine

namespace World

open Run

/-- Whoever waits for an awaitable, its source was called with the event that is kept for it, and
returned the awaitable. -/
def Rooted (book : Book) (w : World) : Prop :=
  ∀ waiter a, w.Waits waiter a →
    ∃ n, (Engine.ofBook book n).Launched waiter.service waiter.token waiter.event a w

/-- Whatever outcome came in, the source of its invocation had been called with its event. -/
def Vouched (w : World) : Prop :=
  ∀ i o earlier, .accepted i (.outcome o) :: earlier <:+ w.journal →
    Sourced i o.token o.event earlier

variable {w w' : World}

theorem Awaited.waits {waiter : Waiter} {a : AwaitableId} {settlement : Settlement}
    (h : w.Awaited waiter a settlement) :
    w.Waits waiter a := by
  obtain ⟨waiters, found, mem⟩ := h
  exact ⟨_, waiters, found, mem⟩

/-- By waiting for an awaitable, no other waiter begins to wait, and none for another awaitable. -/
theorem waits_whenSettled {a b : AwaitableId} {waiter other : Waiter}
    (h : ((whenSettled a waiter).run w).2.Waits other b) :
    w.Waits other b ∨ (other = waiter ∧ b = a) := by
  have added {settled : Option Settlement} {waiters : List Waiter} {ready : List Ready}
      (found : w.awaitables.lookup a = some (.future settled waiters))
      (h : Waits { w.setAwaitable a (.future settled (waiters ++ [waiter])) with ready } other b) :
      w.Waits other b ∨ (other = waiter ∧ b = a) := by
    obtain ⟨settled', waiters', found', mem⟩ := h
    change (w.setAwaitable a _).awaitables.lookup b = _ at found'
    rw [lookup_setAwaitable] at found'
    split at found'
    · rename_i same
      subst same
      rw [found] at found'
      cases found'
      exact (List.mem_append.mp mem).imp (fun mem => ⟨settled, waiters, found, mem⟩) fun mem =>
        ⟨List.mem_singleton.mp mem, rfl⟩
    · exact .inl ⟨settled', waiters', found', mem⟩
  unfold whenSettled at h
  rw [run_bind, run_get] at h
  dsimp only at h
  split at h
  · rename_i found
    exact added found h
  · rename_i found
    exact added found h
  · exact .inl h

namespace Rooted

variable {book : Book}

theorem mono (h : w.Rooted book) (waits : ∀ {waiter a}, w'.Waits waiter a → w.Waits waiter a)
    (before : w.Precedes w') :
    w'.Rooted book := by
  intro waiter a waiting
  obtain ⟨n, launched⟩ := h waiter a (waits waiting)
  exact ⟨n, launched.mono before⟩

/-- Waiters stay rooted in a world with the same awaitables and a history that goes on. -/
theorem same (h : w.Rooted book) (awaitables : w'.awaitables = w.awaitables)
    (before : w.Precedes w') : w'.Rooted book :=
  h.mono (fun waits => by unfold Waits at waits ⊢; rwa [awaitables] at waits) before

theorem sideways (h : w.Rooted book) (aside : w.Sideways w') : w'.Rooted book :=
  h.mono aside.waits (.same aside.journal aside.points aside.settings)

/-- Whoever waits, its source was called with the event that is kept for it. -/
theorem sourced (h : w.Rooted book) {waiter : Waiter} {a : AwaitableId} (waits : w.Waits waiter a) :
    Sourced waiter.service waiter.token waiter.event w.journal := by
  obtain ⟨n, launched⟩ := h waiter a waits
  exact launched.sourced (Engine.grows_call book n)

theorem watches (book : Book) (n : Nat) :
    (Engine.ofBook book n).Watches (fun _ => False) (fun _ => True) (Rooted book) where
  aside := fun aside h => h.sideways aside
  waits := by
    intro w i t e a launched h waiter b waits
    have before : w.Precedes ((whenSettled a ⟨i, t, e⟩).run w).2 :=
      (aside_whenSettled a ⟨i, t, e⟩).grows w
    rcases waits_whenSettled waits with ⟨waits⟩ | ⟨rfl, rfl⟩
    · obtain ⟨n, launched⟩ := h waiter b waits
      exact ⟨n, launched.mono before⟩
    · exact ⟨n, launched.mono before⟩
  noted := fun _ h => h.mono id (.noted _ _)
  others := fun _ h => h.same rfl (.same rfl rfl rfl)
  supplied := fun _ => False.elim
  asked := fun _ _ => False.elim

variable {n : Nat}

/-- One world is tied to itself as long as whoever waits there was sourced. -/
def bond (book : Book) : Bond := Bond.alone (Rooted book) (fun _ => False) id

theorem calls (book : Book) (n : Nat) (owner : Owner) (f : Value) (args : List Object)
    (c : Option Context) :
    Mirrors (bond book) ((Engine.ofBook book n).call owner f args c) :=
  Engine.watches_ofBook (fun n _ => watches book n)
    (fun _ strays => absurd (Prog.asks_any _) strays) n owner f args c (Prog.asks_any _)

theorem called (book : Book) (n : Nat) :
    Engine.Watches.Called book n (fun _ => False) (bond book) := fun owner role f args c _ =>
  .bind (Twins.note fun _ _ tied => ⟨by rw [tied.1], tied.2.mono id (.noted _ _)⟩) fun _ =>
    calls book n owner f args c

theorem wholly (book : Book) (n i : Nat) :
    (Engine.ofBook book n).Wholly (bond book) i fun _ => True :=
  (watches book n).wholly (called book n) id

theorem respects {α : Type} {x : Run α} (h : Mirrors (bond book) x) : Respects (Rooted book) x :=
  .ofRun fun _ hw => (h.keeps hw).resolve_left id

theorem respects_create (book : Book) (n : Nat) (config : Value) (validator : Validator)
    (hooks : List Hook) (ownLoop : Bool) :
    Respects (Rooted book) (create config validator hooks ownLoop) := by
  have watches := watches book n
  refine .bind .ofExcept fun machine => .bind .ofExcept fun context => .look fun v => ?_
  refine .bind (fun w hw => Rooted.same hw rfl (.same rfl rfl rfl)) fun _ =>
    .bind (.bind (watches.mint _) fun _ => .pure) fun c => ?_
  refine .bind (fun w hw => Rooted.same hw rfl (.same rfl rfl rfl)) fun _ =>
    .bind (watches.currentSnapshot _ false) fun sn => ?_
  exact .bind (fun w hw => Rooted.same hw rfl (.same rfl rfl rfl)) fun _ => .pure

theorem respects_turn (book : Book) (n : Nat) (r : Ready) :
    Respects (Rooted book) ((Engine.ofBook book n).turn r) := by
  cases r with
  | step a pauses body args =>
    cases pauses with
    | succ pauses => exact fun w hw => Rooted.same hw rfl (.same rfl rfl rfl)
    | zero =>
      have invoked :
          Respects (Rooted book) ((Engine.ofBook book n).invoke a.1 .body body args) := by
        rw [Engine.invoke_eq]
        exact .bind (respects (called book n a.1 .body body args none fun _ => False.elim))
          fun _ => .pure
      refine .bind (.tryCatch (.bind invoked fun _ => .pure) fun halt => ?_) fun settlement =>
        .discard ((watches book n).sideways fun w => .settleAwaitable w a settlement)
      cases halt with
      | raised f => exact .pure
      | exhausted => exact .throw
  | complete waiter a =>
    refine .look fun v => ?_
    split
    · refine .tryCatch (respects ((wholly book n waiter.service).deliver _ _ a _)) fun halt => ?_
      cases halt with
      | raised f => exact fun w hw => Rooted.mono hw id (.noted _ _)
      | exhausted => exact .throw
    · exact .pure

theorem respects_takeTurn (book : Book) (n : Nat) :
    Respects (Rooted book) (Engine.ofBook book n).takeTurn := by
  have taken : Respects (Rooted book) takeReady := by
    refine .lookNow fun v hv => ?_
    split
    · exact .pure fun _ hw => hw ▸ hv
    · exact .bind (Q := fun _ => Rooted book) (.modify fun _ _ => hv.same rfl (.same rfl rfl rfl))
        fun _ => .pure fun _ => id
  refine .bind taken fun r => ?_
  cases r with
  | none => exact .pure
  | some r => exact .bind (respects_turn book n r) fun _ => .pure

theorem respects_obey_outside (book : Book) (n : Nat) {c : Command} (turn : c ≠ .turn)
    (flush : c ≠ .flush) :
    Respects (Rooted book) ((Engine.ofBook book n).obey c) := by
  have whole := wholly book n
  cases c with
  | create config validator hooks ownLoop =>
    exact respects_create book n config validator hooks ownLoop
  | start j override => exact respects ((whole j).start override)
  | stop j => exact respects (whole j).stop
  | send j event => exact respects ((whole j).send event)
  | subscribe j name callback =>
    refine .bind ((watches book n).sideways fun w => .listenerNamed w name callback) fun listener =>
      .bind (.discard .service) fun _ => ?_
    exact .look fun v => .bind (fun _ hw => Rooted.same hw rfl (.same rfl rfl rfl)) fun _ =>
      .bind (fun _ hw => Rooted.same hw rfl (.same rfl rfl rfl)) fun _ => .pure
  | unsubscribe m =>
    refine .look fun v => ?_
    split
    · exact fun w hw => Rooted.same hw rfl (.same rfl rfl rfl)
    · exact .fail
  | cancelInvocation j t => exact respects ((whole j).reflects.revoke t)
  | settle m settlement =>
    refine .look fun v => ?_
    split
    · exact (watches book n).sideways fun w => .settleAwaitable w _ settlement
    · exact .pure
  | turn => exact absurd rfl turn
  | flush => exact absurd rfl flush

end Rooted

/-! ### What comes in -/

namespace Vouched

variable {g : Engine}

theorem noted (h : w.Vouched) {e : Entry}
    (sourced : ∀ i o, e = .accepted i (.outcome o) → Sourced i o.token o.event w.journal) :
    (w.noted e).Vouched := by
  intro i o earlier told
  rcases List.suffix_cons_iff.mp told with told | told
  · obtain ⟨same, rfl⟩ := List.cons.inj told
    exact sourced i o same.symm
  · exact h i o earlier told

theorem still (h : w.Vouched) (journal : w'.journal = w.journal) : w'.Vouched := by
  unfold Vouched
  rwa [journal]

theorem bystands (i : Nat) : g.Bystands i Vouched where
  aside := fun advances h => h.still advances.journal
  noted := fun _ news h => h.noted fun i o arrived => by
    subst arrived
    cases news
  others := fun _ _ h => h.still rfl
  created := fun _ h => h.still rfl

theorem sustains (book : Book) (n : Nat) : (Engine.ofBook book n).Sustains Vouched :=
  Engine.sustains_ofBook (fun _ hc => Engine.Bystands.heeds bystands hc 0) trivial n

theorem heeds (book : Book) (n : Nat) : (Engine.ofBook book n).Heeds 0 (fun _ => True) Vouched :=
  Engine.Bystands.heeds bystands (sustains book n) 0

/-- Who is told waits, so its source was called. -/
theorem meets_deliver (book : Book) (n : Nat) (waiter : Waiter) (a : AwaitableId)
    (settlement : Settlement) :
    Meets (fun w => w.Vouched ∧ Sourced waiter.service waiter.token waiter.event w.journal)
      ((Engine.ofBook book n).deliver waiter a settlement) (fun _ => Vouched) Vouched := by
  refine .bind
    (Q := fun _ w => w.Vouched ∧ Sourced waiter.service waiter.token waiter.event w.journal)
    (.service (fun _ _ hw _ => hw) fun _ => And.left) fun s =>
      .ite (fun _ => ?_) fun _ => .pure fun _ => And.left
  refine .bind
    (Q := fun _ w => w.Vouched ∧ Sourced waiter.service waiter.token waiter.event w.journal)
    (.update fun _ hw => ⟨hw.1.still rfl, hw.2⟩) fun _ => ?_
  refine .bind (Q := fun _ => Vouched) (.note fun w hw => hw.1.noted fun i o arrived => ?_) fun _ =>
    ((bystands (waiter.service + 1)).runQueue (sustains book n)
      (Nat.ne_of_lt (Nat.lt_succ_self _))).meets
  cases arrived
  cases settlement <;> exact hw.2

end Vouched

/-- Outcomes come in from those who wait, and those who wait were sourced. -/
structure Grounded (book : Book) (w : World) : Prop where
  posted : w.Posted
  rooted : w.Rooted book
  vouched : w.Vouched

namespace Grounded

variable {book : Book} {n : Nat}

theorem respects_takeTurn (book : Book) (n : Nat) :
    Respects (Grounded book) (Engine.ofBook book n).takeTurn := by
  have sustained : (Engine.ofBook book n).Sustains Posted :=
    Engine.sustains_ofBook (fun _ hc => Posted.heeds hc 0) trivial n
  refine .ofRun fun w hw =>
    ⟨(Posted.respects_takeTurn sustained).run hw.posted,
      (Rooted.respects_takeTurn book n).run hw.rooted, ?_⟩
  have taken :
      Meets (Grounded book) takeReady
        (fun r w => w.Vouched ∧ ∀ waiter a, r = some (.complete waiter a) →
        Sourced waiter.service waiter.token waiter.event w.journal) Vouched := by
    refine fun w hw => Meets.bind (P := (· = w)) (Q := fun v u => v = w ∧ u = w)
      (.get fun _ hv => ⟨hv, hv⟩) (fun v => ?_) w rfl
    refine .given (fun _ hu => hu.1) fun hv => ?_
    subst hv
    split
    · exact .pure fun _ hu => ⟨hu.2 ▸ hw.vouched, nofun⟩
    · rename_i ready
      refine .bind (Q := fun _ u => u = { v with ready := _ }) (.modify fun _ _ => rfl) fun _ =>
        .pure fun u hu => ?_
      refine ⟨hw.vouched.still (by rw [hu]), fun waiter a told => ?_⟩
      obtain ⟨settlement, awaited⟩ :=
        hw.posted.ready waiter a (by rw [ready, Option.some.inj told]; exact List.mem_cons_self)
      rw [hu]
      exact hw.rooted.sourced awaited.waits
  have turned :
      Meets (Grounded book) (Engine.ofBook book n).takeTurn (fun _ => Vouched) Vouched := by
    refine .bind taken fun r => ?_
    cases r with
    | none => exact .pure fun _ => And.left
    | some r =>
      refine .bind (Q := fun _ => Vouched) ?_ fun _ => .pure fun _ => id
      cases r with
      | step a pauses body args =>
        exact ((Vouched.heeds book n).stepTurn
          (Vouched.sustains book n) a pauses body args).meets.pre fun _ => And.left
      | complete waiter a =>
        refine .bind
          (Q := fun _ w => w.Vouched ∧ Sourced waiter.service waiter.token waiter.event w.journal)
          (.get fun _ hw => ⟨hw.1, hw.2 waiter a rfl⟩) fun v => ?_
        split
        · refine .tryCatch (Vouched.meets_deliver book n waiter a _) fun halt => ?_
          cases halt with
          | raised f => exact .note fun _ hw => hw.noted nofun
          | exhausted => exact .throw fun _ => id
        · exact .pure fun _ => And.left
  exact Meets.after turned hw

theorem respects_obey (book : Book) (n : Nat) (c : Command) :
    Respects (Grounded book) ((Engine.ofBook book n).obey c) := by
  have sustained : (Engine.ofBook book n).Sustains Posted :=
    Engine.sustains_ofBook (fun _ hc => Posted.heeds hc 0) trivial n
  have posted : Respects Posted ((Engine.ofBook book n).obey c) :=
    (Posted.heeds sustained 0).obey sustained (Posted.respects_takeTurn sustained) c fun _ _ =>
      trivial
  have looped {α : Type} {body : Run α} (hb : Respects (Grounded book) body) :
      Respects (Grounded book) (onLoop body) := by
    have switched (v : World) (looping : Bool) (hv : v.Grounded book) :
        Grounded book { v with looping } :=
      ⟨⟨hv.posted.ready, hv.posted.accepted⟩, hv.rooted.same rfl (.same rfl rfl rfl),
        hv.vouched.still rfl⟩
    exact .look fun _ => .bind (fun v hv => switched v _ hv) fun _ =>
      .bind hb fun _ => .bind (fun v hv => switched v _ hv) fun _ => .pure
  have outside (turn : c ≠ .turn) (flush : c ≠ .flush) :
      Respects (Grounded book) ((Engine.ofBook book n).obey c) :=
    have rooted := Rooted.respects_obey_outside book n turn flush
    have vouched :=
      (Vouched.heeds book n).obey_outside (Vouched.sustains book n) turn flush fun _ _ => trivial
    .ofRun fun _ hw =>
      ⟨posted.run hw.posted, rooted.run hw.rooted, vouched.run hw.vouched⟩
  cases c with
  | turn => exact looped (respects_takeTurn book n)
  | flush => exact looped (Engine.respects_runLoop (respects_takeTurn book n) _)
  | _ => exact outside nofun nofun

theorem after (book : Book) (fuel : Nat) (looping : Bool) (history : List Command) :
    ((World.start looping).after (.ofBook book fuel) history).Grounded book := by
  have grounded {w : World} (hw : w.Grounded book) :
      (w.after (.ofBook book fuel) history).Grounded book := by
    induction history generalizing w with
    | nil => exact hw
    | cons c rest ih => exact ih ((respects_obey book fuel c).run hw)
  refine grounded
    ⟨⟨fun _ _ => nofun, fun _ _ => nofun⟩, fun waiter a waits => ?_, fun i o earlier told => ?_⟩
  · obtain ⟨settled, waiters, found, -⟩ := waits
    cases found
  · exact nomatch List.suffix_nil.mp told

end Grounded

/-- Whoever waits for an awaitable, its source was called with the event that is kept for it, and
returned the awaitable. -/
theorem rooted_after (book : Book) (fuel : Nat) (looping : Bool) (history : List Command) :
    ((World.start looping).after (.ofBook book fuel) history).Rooted book :=
  (Grounded.after book fuel looping history).rooted

/-- Whatever outcome came in, the source of its invocation had been called with its event. -/
theorem vouched_after (book : Book) (fuel : Nat) (looping : Bool) (history : List Command) :
    ((World.start looping).after (.ofBook book fuel) history).Vouched :=
  (Grounded.after book fuel looping history).vouched

end World

end FlatMachine
