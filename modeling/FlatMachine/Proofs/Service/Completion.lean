import FlatMachine.Proofs.Service.TriggeringEvent
import FlatMachine.Proofs.Service.CandidateTaking
import FlatMachine.Proofs.Service.IdleItems
import FlatMachine.Proofs.Invocation.Occupancy

/-! # What completions lead to, and on account of which event

An outcome that is wanted empties the slot before anything else.  Its candidates see the event on
whose account the invocation was started with the outcome in the payload
(**`Outcome.supplement`**); all else is called with the event itself, and nobody calls the cancel
callback (**`World.Completes`**).  The outcome stays behind: along any chain of states that are
linked by completions, there is one event on whose account all is done, and that is the one that
was sent at first (**`World.completions_threaded`**). -/

namespace FlatMachine

/-- The event that the candidates of an outcome see. -/
def Outcome.supplement (o : Outcome) : Event where
  type := o.event.type
  payload := o.event.payload.set (if o.failed then "error" else "data")
    (if o.failed then o.error else o.data)

theorem Outcome.supplement_of_withPayload {o : Outcome} {seen : Event}
    (h : o.event.withPayload [if o.failed then ("error", o.error) else ("data", o.data)] =
      .ok seen) : seen = o.supplement := by
  rw [Event.eq_of_withPayload h]
  unfold supplement
  cases o.failed <;> rfl

namespace Engine.Leaving

open Run World Trace

variable {g : Engine} {book : Book} {i : Nat} {w : World} {free : Prop} {s : Service}

/-- What comes of an outcome: the candidate that was found is taken, or there is none, and the
error hooks are told of an error. -/
def Settles (g : Engine) (book : Book) (i : Nat) (w : World) (free : Prop) (s : Service)
    (o : Outcome) :
    Option (Nat × Value) → Prop → List Entry → World → Prop
  | some (_, c), p, es, v =>
    World.Achieves book i w free p es (Crosses g i (Enters g i) s c o.event o.supplement)
      (Crosses g i (Reaches g i) s c o.event o.supplement) v
  | none, p, es, v => ∃ told, World.Attests book i w free s (p ∧
      if o.failed then Trace.hooks g i .error [.fresh o.error] s.hooks told (.ok ()) else told = [])
        (es ++ told) v

/-- Candidates are tried with the supplement.  The first that may be taken is. -/
theorem stage_settleWanted (hg : g.Leaving book) (o : Outcome) :
    Stage book i w free s (g.settleWanted i o)
      (fun _ p es v => ∃ candidates asked found, s.machine.offers s.stateName (.outcome o) =
      .ok candidates ∧
      Settles g book i w free s o found
        (p ∧ Trace.first g i s.context o.supplement 0 candidates asked (.ok found)) (es ++ asked) v)
    fun _ _ _ => True := by
  refine Stage.node (fun n hn => ?_) fun _ _ => trivial
  refine Stage.ofExcept (fun invocation hi => ?_) fun _ _ => trivial
  refine Stage.ofExcept (fun listed hc => ?_) fun _ _ => trivial
  refine Stage.ofExcept (fun seen supplemented => ?_) fun _ _ => trivial
  refine Stage.ofExcept (fun candidates hl => Stage.read fun s' spared => ?_) fun _ _ => trivial
  have offered : s.machine.offers s.stateName (.outcome o) = .ok candidates :=
    (Machine.offers_of_outcome hn hi hc).trans hl
  cases Outcome.supplement_of_withPayload supplemented
  rw [spared.holds.context]
  refine Stage.bind (P := fun _ => Settles g book i w free s o)
    ((hg.tells_first s.context o.supplement 0 candidates).commits fun _ _ _ => trivial)
      (fun found => ?_) fun found _ p es asked v done =>
        ⟨candidates, asked, found, offered, done⟩
  unfold Settles
  obtain _ | ⟨k, c⟩ := found
  · cases o.failed with
    | true =>
      refine Stage.read fun s' spared => Stage.untold (fun p es => ?_) rfl nofun
      exact ((hg.tells_observeService .error [.fresh o.error]) p es).conseq (fun _ => id)
        (fun _ v told => told)
        fun halt v told => told.becomes fun _ _ _ _ => trivial
    | false => exact fun p es => .pure fun v hv =>
      ⟨[], (List.append_nil es).symm ▸ hv.mono fun hp => ⟨hp, rfl⟩⟩
  · exact (hg.concludes_apply c o.event o.supplement).weaken fun _ _ _ _ _ _ => trivial

end Engine.Leaving

/-! ### In every history -/

namespace World

open Run

/-- Between two worlds, a service did with an outcome that is wanted what it has to do.  The slot
was emptied, and that was all if the work was cancelled.  Otherwise the candidates for the value
or the error were tried in order, with the supplement.  The first that may be taken was: its own
actions saw the supplement, and all else saw the event itself; if nobody disturbed the service,
that was done to the end.  If there was none, the service stayed as it was, and the error hooks
were told of an error. -/
def Completes (g : Engine) (i : Nat) (s : Service) (o : Outcome) (w w' : World) : Prop :=
  let emptied := (w.change i fun s => { s with slot := .empty }).noted (.retired i o.token)
  if o.cancelled then w' = emptied
  else emptied.journal <:+ w'.journal ∧
    ∃ candidates asked found, s.machine.offers s.stateName (.outcome o) = .ok candidates ∧
    Trace.first g i s.context o.supplement 0 candidates asked (.ok found) ∧
    match found with
    | some (_, v) =>
      (∃ told s₁, emptied.deeds i w' = asked ++ told ∧
        Trace.Crosses g i (Trace.Reaches g i)
          { s with slot := .empty } v o.event o.supplement told s₁) ∧
      (emptied.Calm i w' → ∃ told s₁ s', emptied.deeds i w' = asked ++ told ∧
        Trace.Crosses g i (Trace.Enters g i)
          { s with slot := .empty } v o.event o.supplement told s₁ ∧
        w'.services[i]? = some s' ∧ s'.stateName = s₁.stateName ∧ s'.context = s₁.context ∧
        s'.slot = s₁.slot)
    | none => ∃ told s', emptied.deeds i w' = asked ++ told ∧
      (if o.failed then Trace.hooks g i .error [.fresh o.error] s.hooks told
        (.ok ()) else told = []) ∧
      w'.services[i]? = some s' ∧ s'.stateName = s.stateName ∧ s'.context = s.context ∧
      s'.slot = .empty

variable {book : Book} {n i : Nat} {w w' : World} {s : Service} {o : Outcome}

theorem completes (hs : w.services[i]? = some s) (busy : s.Busy)
    (wanted : s.slot.isActive o.token = true)
    (run : ((Engine.ofBook book n).settle i o).run w = (.ok (), w')) :
    Completes (.ofBook book n) i s o w w' := by
  rw [Engine.run_settle_wanted hs wanted] at run
  unfold Completes
  cases cancelled : o.cancelled with
  | true =>
    rw [cancelled] at run
    cases run
    rfl
  | false =>
    rw [cancelled] at run
    have emptied :
        ((w.change i fun s => { s with slot := .empty }).noted (.retired i o.token)).services[i]? =
          some { s with slot := .empty } := change_self _ hs
    generalize (w.change i fun s => { s with slot := .empty }).noted (.retired i o.token) = u at *
    have settled : Run.Stage book i u True { s with slot := .empty }
        ((Engine.ofBook book n).settleWanted i o) _ _ :=
      (Engine.leaving_ofBook book n).stage_settleWanted o
    have ends :=
      settled True [] u (.begins emptied ⟨busy.draining, busy.started⟩ (fun _ => rfl) trivial)
    have run : ((Engine.ofBook book n).settleWanted i o).run u = (.ok (), w') := run
    rw [run] at ends
    obtain ⟨candidates, asked, found, offered, ends⟩ := ends
    have grown : u.journal <:+ w'.journal := by
      cases found with
      | none => exact ends.choose_spec.suffix
      | some p => exact ends.becomes.choose_spec.choose_spec.suffix
    refine ⟨grown, candidates, asked, found, offered, ?_⟩
    cases found with
    | none =>
      obtain ⟨told, hv⟩ := ends
      obtain ⟨s', hs', spared, slot⟩ := hv.service
      obtain ⟨deeds, ⟨-, tried⟩, observed⟩ := hv.deeds (.inr trivial)
      exact ⟨tried, told, s', deeds, observed, hs', spared.holds.stateName, spared.holds.context,
        slot (.inr trivial)⟩
    | some p =>
      obtain ⟨⟨-, tried⟩, told, s₁, reached, deeds⟩ := ends.anyway trivial
      refine ⟨tried, ⟨told, s₁, deeds, reached⟩, fun calm => ?_⟩
      obtain ⟨told, s₁, hv⟩ := ends.becomes
      obtain ⟨s', hs', spared, slot⟩ := hv.service
      obtain ⟨deeds, -, entered⟩ := hv.deeds (.inl calm)
      exact ⟨told, s₁, s', deeds, entered, hs', spared.holds.stateName, spared.holds.context,
        slot (.inl calm)⟩

/-- Whatever outcome was taken, the source of its invocation had been called with its event. -/
theorem sourced_of_taken {book : Book} {fuel : Nat} {looping : Bool} {history : List Command}
    {earlier : List Entry} (taken : .taken i (.outcome o) :: earlier <:+
      ((World.start looping).after (.ofBook book fuel) history).journal) :
    Sourced i o.token o.event earlier := by
  have lasts := lasts_after Service.lasting_lived book fuel looping history
  cases hs : ((World.start looping).after (.ofBook book fuel) history).services[i]? with
  | none => exact absurd rfl (lasts.unborn i hs _ (taken.subset List.mem_cons_self))
  | some s =>
    have supplied :
        s.Supplied i ((World.start looping).after (.ofBook book fuel) history).journal :=
      supplied_of_passed (p := World.now _) List.mem_cons_self hs
    obtain ⟨later, first, rfl⟩ := List.append_of_mem (supplied.taken _ _ taken)
    have accepted : .accepted i (.outcome o) :: first <:+
        ((World.start looping).after (.ofBook book fuel) history).journal :=
      ((List.suffix_append later _).trans (List.suffix_cons _ _)).trans taken
    refine (vouched_after book fuel looping history i o first accepted).mono ?_
    exact (List.suffix_cons _ _).trans (List.suffix_append later _)

/-- The supplement is the event with the value or the error in its payload.  A service does what
it has to do with every outcome that is wanted, if it processes it to the end; the invocation
whose outcome it is was started in the state where the service still is, and its source was
called with the event of the outcome.  The cancel callback of an invocation that came to an
outcome is never called.  At any time, there is one event that what a service does springs from,
and nothing else gets to sources, transition hooks and entry actions, or comes with the next
outcome: it was sent, or is the one that services start with, however many invocations completed
since. -/
theorem completions_threaded (book : Book) (fuel : Nat) (looping : Bool) (history : List Command) :
    let w := (World.start looping).after (.ofBook book fuel) history
    (∀ o : Outcome, o.supplement.type = o.event.type ∧ ∀ name, o.supplement.payload.get? name =
      if (if o.failed then "error" else "data") =
        name then some (if o.failed then o.error else o.data)
      else o.event.payload.get? name) ∧
    (∀ p ∈ w.points, ∀ i o, p.journal.head? = some (.taken i (.outcome o)) →
      ∃ s, p.services[i]? = some s ∧
      (s.slot.isActive o.token = true → Sourced i o.token o.event p.journal ∧
        ∃ invocation, s.Occupies i o.token invocation p.journal ∧ ∀ n v v', v.now = p →
          ((Engine.ofBook book n).settle i o).run v = (.ok (), v') →
          Completes (.ofBook book n) i s o v v')) ∧
    (∀ i t, .retired i t ∈ w.journal →
      ∀ f args, .called (.service i) (.cancel (some t)) f args ∉ w.journal) ∧
    ∀ i journal, journal <:+ w.journal → ∃ e, Springs i journal e ∧
    (∀ e', Springs i journal e' → e' = e) ∧
      (∀ o earlier, journal = .taken i (.outcome o) :: earlier → o.event = e) ∧
      ∀ role f args, .called (.service i) role f args :: journal <:+ w.journal →
        (∀ t, role = .source t →
          ∃ c, args = [.held c, .fresh e.toValue, .fresh (.sourceAccess i t)]) ∧
        (role = .hook .transition →
          ∃ source target, args = [.fresh source, .fresh target, .fresh e.toValue]) ∧
        (role = .action → arriving i journal = true →
          ∃ c, args = [.held c, .fresh e.toValue, .fresh (.actionAccess (.service i))]) := by
  refine ⟨fun o => ⟨rfl, fun name => Fields.get?_set _ name _ _⟩, fun p hp i o head => ?_,
    fun i t retired f args => ?_,
    fun i journal suffix => ?_⟩
  · obtain ⟨before, earlier, split⟩ := List.append_of_mem hp
    obtain ⟨u, s, next, rfl, -⟩ := next_of_taken ⟨before, split.symm⟩ head
    have hs := taken_self (.outcome o) next.service
    have occupied := has_of_taken Service.lasting_occupied hp head hs
    refine ⟨_, hs, fun wanted => ?_⟩
    obtain ⟨invocation, occupies⟩ := occupied o.token wanted
    have sourced : Sourced i o.token o.event u.journal :=
      sourced_of_taken (journal_of_passed (List.mem_cons_of_mem _ hp))
    refine ⟨sourced.mono (List.suffix_cons _ _), invocation, occupies, fun n v v' now run => ?_⟩
    refine completes (congrArg (fun p : Point => p.services[i]?) now |>.trans hs) ?_ wanted run
    exact next.busy.alike rfl (Queue.draining_dequeue _)
  · obtain ⟨held, life⟩ := life_after book fuel looping history i t
    intro called
    refine life.uncalled_of_retired ((Entry.mem_filter_about ?_).mpr retired) f args
      ((Entry.mem_filter_about ?_).mpr called)
    · simp [Entry.about]
    · simp [Entry.about]
  · have threaded := threaded_after book fuel looping history i
    have once (t : Token) : ((World.start looping).after (.ofBook book fuel) history).journal.countP
        (Entry.activates i t) ≤ 1 := by
      obtain ⟨held, life⟩ := life_after book fuel looping history i t
      rw [← Entry.countP_about fun _ => Entry.about_of_activates]
      exact life.activates_le
    have springs : Springs i journal (impulse i journal) :=
      (threaded.suffix suffix).springs fun o earlier taken => sourced_of_taken (taken.trans suffix)
    refine ⟨impulse i journal, springs, fun e' => springs.unique fun t => ?_, ?_,
      fun role f args called => ?_⟩
    · exact Nat.le_trans suffix.sublist.countP_le (once t)
    · rintro o earlier rfl
      exact (impulse_taken (.outcome o)).symm
    · obtain ⟨heeds, -⟩ := threaded.suffix called
      refine ⟨?_, ?_, ?_⟩
      · rintro t rfl
        exact (heeds rfl).1
      · rintro rfl
        exact heeds rfl
      · rintro rfl
        exact heeds rfl

end World

/-! ### A swing that rocks by itself -/

namespace Swing

/-- A swing that starts an invocation here as well as there, whose completion leads to the other
side, with an action on the way. -/
def rocking : Machine := { machine with
  states := [
    (.str "here", Node.toValue { here with
      on := [(.str "GO", .tuple [candidate "there"])]
      invoke := Invocation.toValue
        ⟨function 0, [Transition.toValue ⟨.str "there", [function 5], .null⟩], [], .bool true⟩ }),
    (.str "there", Node.toValue { there with
      entry := [function 9]
      invoke := Invocation.toValue
        ⟨function 0, [Transition.toValue ⟨.str "here", [function 5], .null⟩], [], .bool true⟩ })] }

/-- An event with a payload under the name that completions use. -/
def push : Event := ⟨"GO", [("data", .str "mine")]⟩

/-- The swing is pushed once, and two invocations complete. -/
def rocked : World := (World.start true).after (.ofBook book 5)
    [.create rocking.toValue .standard [] true, .start 0 .null,
  .send 0 push.toValue, .settle 1 (.value (.str "first")), .turn,
  .settle 2 (.value (.str "second")), .turn]

/-- What an event has in its payload under that name. -/
def datum (e : Event) : String := (e.payload.get? "data").elim "" (·.text)

/-- What was called, by number, with the datum of the event. -/
def seen? : Entry → Option (Nat × String)
  | .called _ _ (.function _ _ (.host k) _) [_, e, _] => (Event.ofValue? e.value).map fun e =>
    (k, datum e)
  | _ => none

/-- At a point at which the wanted outcome of a pushed swing is taken, and can be processed. -/
def isSecond (w : World) (p : Point) : Bool :=
  match p.journal.head? with
  | some (.taken 0 (.outcome o)) => datum o.event == "mine" && datum o.supplement == "second" &&
    p.services[0]?.any (·.slot.isActive o.token) &&
    match (((Engine.ofBook book 5).settle 0 o).run
      { w with services := p.services, journal := p.journal }).1 with
    | .ok () => true
    | .error _ => false
  | _ => false

/-- At the second completion, the swing is still at what it was pushed to do.  Sources and entry
actions see what it was pushed with, and only the actions on the way see what the invocations
came to. -/
theorem second_completion_threaded :
    ∃ p ∈ rocked.points, ∃ o s v v', p.services[0]? = some s ∧ s.slot.isActive o.token = true ∧
    World.Completes (.ofBook book 5) 0 s o v v' ∧ Springs 0 p.journal o.event ∧
    datum o.event = "mine" ∧ datum o.supplement = "second" ∧
    rocked.journal.reverse.filterMap seen? =
      [(0, ""), (9, "mine"), (0, "mine"), (5, "first"), (0, "mine"), (5, "second"),
      (9, "mine"), (0, "mine")] := by
  have taken : ∃ p ∈ rocked.points, isSecond rocked p = true :=
    List.any_eq_true.mp (by decide +kernel)
  have seen : rocked.journal.reverse.filterMap seen? =
    [(0, ""), (9, "mine"), (0, "mine"), (5, "first"), (0, "mine"), (5, "second"),
      (9, "mine"), (0, "mine")] := by decide +kernel
  obtain ⟨p, hp, second⟩ := taken
  obtain ⟨-, wanted, -, threaded⟩ : _ ∧ _ ∧ _ ∧ _ := World.completions_threaded book 5 true _
  have suffix : p.journal <:+ rocked.journal := World.journal_of_passed (List.mem_cons_of_mem _ hp)
  unfold isSecond at second
  split at second
  · rename_i o head
    simp only [Bool.and_eq_true, beq_iff_eq] at second
    obtain ⟨⟨⟨mine, supplied⟩, active⟩, done⟩ := second
    obtain ⟨s, hs, completes⟩ := wanted p hp 0 o head
    rw [hs, Option.any_some] at active
    obtain ⟨-, invocation, -, completes⟩ := completes active
    split at done
    · rename_i same
      obtain ⟨e, springs, -, outcome, -⟩ := threaded 0 p.journal suffix
      obtain ⟨earlier, journal⟩ : ∃ earlier, p.journal = .taken 0 (.outcome o) :: earlier :=
        List.head?_eq_some_iff.mp head
      cases outcome o earlier journal
      have ran := completes 5 { rocked with services := p.services, journal := p.journal } _ rfl
        (congrArg (·, _) same)
      exact ⟨p, hp, o, s, _, _, hs, active, ran, springs, mine, supplied, seen⟩
    · cases done
  · cases second

end Swing

end FlatMachine
