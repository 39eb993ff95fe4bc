import FlatMachine.Proofs.Service.CandidateTaking
import FlatMachine.Proofs.Service.Unmatched
import FlatMachine.Proofs.Service.Course
import FlatMachine.Proofs.Service.Batch

/-! # What comes of an event

* **`World.transition_ordered`**: an event that is processed to the end finds a candidate by the
  guards, in order, and the effects of taking it have one order, with one context threaded
  through them.
* **`World.failure_leaves`**: an event that is not leaves behind what the stages before the
  failure committed. -/

namespace FlatMachine

/-- The service as it is while the only item in its queue is processed. -/
def Service.taking (s : Service) : Service := { s with queue := ⟨[], true⟩ }

namespace World

open Run

variable {book : Book} {n i : Nat} {w w' : World} {s : Service} {e : Event}

/-- Between two worlds, a service did with an event what it has to do, in that order.  It asked
for candidates until it found the first that may be taken, asked whether it is internal, and then
either ran its actions and did nothing else, or crossed to its target and started the invocation
of the target, if it has one that starts by itself. -/
def Transits (g : Engine) (i : Nat) (s : Service) (e : Event) (w w' : World) : Prop :=
  ∃ asked found s', Trace.choice g i s e asked (.ok found) ∧ w'.services[i]? = some s' ∧
    match found with
    | none => w.deeds i w' = asked ∧ s'.stateName = s.stateName ∧ s'.context = s.context ∧
      s'.slot = s.slot
    | some (_, v) =>
      ∃ inquiry internal, Trace.internality g i v s.stateName inquiry (.ok internal) ∧
      if internal.truth then ∃ told c, Trace.ownActions g i v e s.context told (.ok c) ∧
        w.deeds i w' = asked ++ (inquiry ++ told) ∧ s'.stateName = s.stateName ∧ s'.context = c ∧
        s'.slot = s.slot
      else ∃ target told c starting, v.member "target" = .ok target ∧
        s.machine.demand target = .ok () ∧
        Trace.crossing g i s v e e target told (.ok c) ∧
        w.deeds i w' = asked ++ (inquiry ++ (told ++ starting)) ∧
        s'.stateName = target ∧ s'.context = c ∧
        ((s.machine.automatic? target = .ok none ∧ starting = [] ∧ s'.slot = .empty) ∨
          ∃ invocation, s.machine.automatic? target = .ok (some invocation) ∧
            Trace.Starts g i invocation e c starting (.ok ()) s'.slot)

/-- A service that processes an event to the end does what it has to do, in that order, if nobody
stops it meanwhile or uses the interface of an invocation of it. -/
theorem transition_ordered (hs : w.services[i]? = some s) (busy : s.Busy)
    (run : ((Engine.ofBook book n).processEvent i e).run w = (.ok (), w')) (calm : w.Calm i w') :
    Transits (.ofBook book n) i s e w w' := by
  let g := Engine.ofBook book n
  have processed : Concludes book i w False s (g.processEvent i e) (Trace.Processes g i s e)
      (fun _ _ => True) (Trace.Fails g i s e) :=
    (Engine.leaving_ofBook book n).concludes_processEvent e
  have ends := processed True [] w (.begins hs busy False.elim trivial)
  rw [run] at ends
  obtain ⟨es, s₁, hv⟩ := ends.becomes
  obtain ⟨deeds, -, told⟩ := hv.deeds (.inl calm)
  obtain ⟨s', hs', spared, slot⟩ := hv.service
  have slot := slot (.inl calm)
  have context := spared.holds.context
  have stateName := spared.holds.stateName
  rw [List.nil_append] at deeds
  cases told with
  | unmatched found => exact ⟨_, none, s', found, hs', deeds, stateName, context, slot⟩
  | taken found crosses =>
    refine ⟨_, some (_, _), s', found, hs', ?_⟩
    cases crosses with
    | internal asked holds told =>
      refine ⟨_, _, asked, ?_⟩
      rw [if_pos holds]
      exact ⟨_, _, told, deeds, stateName, context, slot⟩
    | external aims passed entered =>
      obtain ⟨⟨internal, asked, fails⟩, target, defined⟩ := aims
      refine ⟨_, internal, asked, ?_⟩
      rw [if_neg (Bool.eq_false_iff.mp fails)]
      cases entered with
      | rests entering none =>
        refine ⟨_, _, _, [], target, defined, Trace.crossing_of_passing g i passed entering, ?_,
          stateName, context, .inl ⟨none, rfl, slot⟩⟩
        rwa [List.append_nil]
      | starts entering some started =>
        refine ⟨_, _, _, _, target, defined, Trace.crossing_of_passing g i passed entering, ?_,
          stateName, context,
          .inr ⟨_, some, by rw [slot]; exact started⟩⟩
        rwa [List.append_assoc]

theorem offered_self (hs : w.services[i]? = some s) (quiet : s.queue = .empty) (e : Event) :
    (w.offered i e).services[i]? = some s.taking := by
  have offered := taken_self (.event e) (prompted_self (.event e) hs)
  rw [quiet] at offered
  exact offered

/-- An event that a service is sent while nobody drains its queue is the first to be taken; if
processing it is halted by a failure, so is whoever sent it. -/
theorem run_send_failed {event : Value} {X : Failure} (hs : w.services[i]? = some s)
    (running : s.status = .running) (quiet : s.queue = .empty) (he : Event.coerce event = .ok e)
    (run : ((Engine.ofBook book (n + 1)).processEvent i e).run (w.offered i e) =
      (.error (.raised X), w')) :
    ((Engine.ofBook book (n + 1)).send i event).run w =
      (.error (.raised X), w'.left i (some (.raised X))) := by
  have idle : s.queue.draining = false := by rw [quiet]; rfl
  have prompted := prompted_self (.event e) hs
  have items : ((s.queue.enqueue (.event e)).enter).items = [.event e] := by rw [quiet]; rfl
  have processed (before : Service) :
      ((Engine.ofBook book (n + 1)).processTaken i before (.event e)).run
        ((w.prompted i (.event e)).taken i (.event e)) =
        (.error (.raised X), w') := by
    unfold Engine.processTaken
    show ExceptT.run ((Engine.ofBook book (n + 1)).processEvent i e >>= _) (w.offered i e) = _
    rw [run_bind, run]
  have taken :
      ((Engine.ofBook book (n + 1)).processPending i (n + 1)).run (w.prompted i (.event e)) =
        (.error (.raised X), w') := by
    rw [Engine.run_processPending_items prompted running items, run_bind, processed]
  have bound : (Engine.ofBook book (n + 1)).bound = n + 1 := rfl
  rw [Engine.run_send_begins hs running idle he, run_drained, bound, taken]

/-- Whoever sends an event that is not processed to the end is told of the failure, and the
snapshot is still the last one that was published.  If nobody stopped the service meanwhile or
used the interface of an invocation of it, it is left behind as the stages before the failure
made it.  If no callback that was called may ask for that, or for listeners to come or go, the
listeners are the same as well. -/
theorem failure_leaves {event : Value} {X : Failure} (hs : w.services[i]? = some s)
    (running : s.status = .running) (quiet : s.queue = .empty) (he : Event.coerce event = .ok e)
    (run : ((Engine.ofBook book (n + 1)).processEvent i e).run (w.offered i e) =
      (.error (.raised X), w')) :
    ∃ v s', ((Engine.ofBook book (n + 1)).send i event).run w = (.error (.raised X), v) ∧
    v.services[i]? = some s' ∧
      s'.snapshot = s.snapshot ∧ s'.queue = .empty ∧
      ((w.offered i e).Calm i w' → s'.status = s.status ∧ ∃ s₁,
        Trace.Fails (.ofBook book (n + 1)) i s.taking e (.raised X)
          ((w.offered i e).deeds i w') s₁ ∧
        s'.stateName = s₁.stateName ∧ s'.context = s₁.context ∧ s'.slot = s₁.slot) ∧
      ((w.offered i e).Refrains book i w' → (w.offered i e).Calm i w' ∧
        s'.listeners = s.listeners) := by
  have processed :
    Concludes book i (w.offered i e) False s.taking ((Engine.ofBook book (n + 1)).processEvent i e)
      (Trace.Processes (.ofBook book (n + 1)) i s.taking e) (fun _ _ => True)
        (Trace.Fails (.ofBook book (n + 1)) i s.taking e) :=
    (Engine.leaving_ofBook book (n + 1)).concludes_processEvent e
  have begins : Attests book i (w.offered i e) False s.taking True [] (w.offered i e) :=
    .begins (offered_self hs quiet e) ⟨rfl, fun other => nomatch running.symm.trans other⟩
      False.elim trivial
  have ends := processed True [] (w.offered i e) begins
  rw [run] at ends
  obtain ⟨es, s₁, hv⟩ := ends
  obtain ⟨s', hs', spared, slot⟩ := hv.service
  obtain ⟨snapshot, same⟩ := hv.kept s.taking s' (offered_self hs quiet e) hs'
  refine ⟨_, { s' with queue := s'.queue.leave true }, run_send_failed hs running quiet he run, ?_,
    snapshot, rfl, fun calm => ?_,
    fun refrains => ?_⟩
  · exact left_self hs' _
  · obtain ⟨⟨s'', hs'', still⟩, -⟩ := id calm
    cases hs'.symm.trans hs''
    obtain ⟨deeds, -, fails⟩ := hv.deeds (.inl calm)
    rw [List.nil_append] at deeds
    exact ⟨still.trans running.symm, s₁, deeds ▸ fails, spared.holds.stateName,
      spared.holds.context, slot (.inl calm)⟩
  · obtain ⟨status, listeners⟩ := same refrains
    exact ⟨⟨⟨s', hs', status.trans running⟩, hv.unrevoked refrains⟩, listeners⟩

end World

/-! ### Swings that go and that fall -/

namespace Swing

/-- Actions are run on leaving here, on the way, and on coming there. -/
def padded : Machine := { machine with
  states := [
    (.str "here", Node.toValue { here with
      on := [(.str "GO", .tuple [Transition.toValue ⟨.str "there", [function 4], function 3⟩,
        Transition.toValue ⟨.str "there", [function 5, function 6], .null⟩])]
      exit := [function 7, function 8] }),
    (.str "there", Node.toValue { there with entry := [function 9] })] }

/-- The padded swing is about to take an event, with an invocation pending. -/
def poised : World :=
  ((World.start true).after (.ofBook book 5)
    [.create padded.toValue .standard [observer] true, .start 0 .null]).offered 0 go

/-- What was called, by number. -/
def called? : Entry → Option (Role × Nat)
  | .called _ role (.function _ _ (.host k) _) _ => some (role, k)
  | _ => none

def isRevoked : Entry → Bool
  | .revoked .. => true
  | _ => false

/-- The first candidate is refused.  Leaving here cancels the invocation. -/
theorem crossing_in_order : ∃ s w', poised.services[0]? = some s ∧ s.Busy ∧
    ((Engine.ofBook book 5).processEvent 0 go).run poised = (.ok (), w') ∧ poised.Calm 0 w' ∧
    World.Transits (.ofBook book 5) 0 s go poised w' ∧
    (poised.deeds 0 w').filterMap called? =
      [(.guard, 3), (.action, 7), (.action, 8), (.hook .exit, 6), (.cancel (some 6), 2),
      (.action, 5), (.action, 6), (.hook .transition, 7), (.action, 9), (.hook .enter, 5)] := by
  have ordered (s : Service) (w' : World) (hs : poised.services[0]? = some s) (busy : s.Busy)
      (run : ((Engine.ofBook book 5).processEvent 0 go).run poised = (.ok (), w'))
      (calm : poised.Calm 0 w') :
      World.Transits (.ofBook book 5) 0 s go poised w' := World.transition_ordered hs busy run calm
  have busy : poised.services[0]?.any (fun s => s.queue.draining && s.status == .running) =
    true := by decide +kernel
  have done : (((Engine.ofBook book 5).processEvent 0 go).run poised).1.toBool = true := by
    decide +kernel
  have running :
      ((((Engine.ofBook book 5).processEvent 0 go).run poised).2.services[0]?.any fun s =>
        s.status == .running) = true := by
    decide +kernel
  have unrevoked :
      ((((Engine.ofBook book 5).processEvent 0 go).run poised).2.since poised).any isRevoked =
        false := by decide +kernel
  have calls :
      (poised.deeds 0 (((Engine.ofBook book 5).processEvent 0 go).run poised).2).filterMap called? =
        [(.guard, 3), (.action, 7), (.action, 8), (.hook .exit, 6), (.cancel (some 6), 2),
          (.action, 5), (.action, 6),
          (.hook .transition, 7), (.action, 9), (.hook .enter, 5)] := by decide +kernel
  generalize ((Engine.ofBook book 5).processEvent 0 go).run poised = out at *
  generalize poised = w at *
  obtain ⟨halt | ⟨⟩, w'⟩ := out
  · cases done
  obtain ⟨s, hs, busy⟩ := (Option.any_eq_true _ _).mp busy
  obtain ⟨s', hs', running⟩ := (Option.any_eq_true _ _).mp running
  simp only [Bool.and_eq_true, beq_iff_eq] at busy running
  have busy : s.Busy := ⟨busy.1, by rw [busy.2]; exact nofun⟩
  have calm : w.Calm 0 w' :=
    ⟨⟨s', hs', running⟩, fun t mem => List.any_eq_false.mp unrevoked _ mem rfl⟩
  exact ⟨s, w', hs, busy, rfl, calm, ordered s w' hs busy rfl calm, calls⟩

/-- The swing waits here, with an invocation pending. -/
def hanging : World := (World.start true).after (.ofBook book 5)
    [.create machine.toValue .standard [] true, .start 0 .null]

def fall : Event := ⟨"FALL", []⟩

/-- What is called in falling neither stops the swing nor anything of the sort. -/
def isHarmless : Value → Bool
  | .function .own none (.host 1) [] | .function .own none (.host 2) [] => true
  | _ => false

theorem refrains_of_harmless {f : Value} {args : List Object} (h : isHarmless f = true) :
    (book f args).Refrains 0 := by
  unfold isHarmless at h
  split at h
  · trivial
  · trivial
  · cases h

/-- The run failed for want of an event loop. -/
def isNoLoop : Except Halt Unit → Bool
  | .error (.raised .noLoop) => true
  | _ => false

/-- The entry action fails down there, and there the swing is left, with nothing pending. -/
theorem failed_fall_leaves_rest :
    ∃ s v s', hanging.services[0]? = some s ∧ s.status = .running ∧ s.queue = .empty ∧
    ((Engine.ofBook book 5).send 0 (.str "FALL")).run hanging = (.error (.raised .noLoop), v) ∧
    v.services[0]? = some s' ∧
    s'.status = s.status ∧ s'.listeners = s.listeners ∧ s'.snapshot = s.snapshot ∧
    ∃ told s₁, Trace.Fails (.ofBook book 5) 0 s.taking fall (.raised .noLoop) told s₁ ∧
    s'.stateName = s₁.stateName ∧
      s'.context = s₁.context ∧ s'.slot = s₁.slot ∧ s'.stateName.same (.str "down") = true ∧
      s'.slot.token = none := by
  have left {s : Service} {w' : World} (hs : hanging.services[0]? = some s)
      (running : s.status = .running) (quiet : s.queue = .empty)
      (run : ((Engine.ofBook book 5).processEvent 0 fall).run (hanging.offered 0 fall) =
        (.error (.raised .noLoop), w')) :=
    have coerced : Event.coerce (.str "FALL") = .ok fall := rfl
    World.failure_leaves hs running quiet coerced run
  have rest : hanging.AtRest := World.atRest_after book 5 true _
  have started : hanging.services[0]?.any (fun s => s.status == .running) = true := by
    decide +kernel
  have failed :
      isNoLoop (((Engine.ofBook book 5).processEvent 0 fall).run (hanging.offered 0 fall)).1 =
        true := by decide +kernel
  have calls :
      ((((Engine.ofBook book 5).processEvent 0 fall).run (hanging.offered 0 fall)).2.since
        (hanging.offered 0 fall)).all
        (Entry.callsOnly fun _ => isHarmless) = true := by decide +kernel
  have fallen :
      (((Engine.ofBook book 5).send 0 (.str "FALL")).run hanging).2.services[0]?.any (fun s =>
        s.stateName.same (.str "down") && s.slot.token.isNone) = true := by decide +kernel
  generalize ((Engine.ofBook book 5).processEvent 0 fall).run (hanging.offered 0 fall) = out at *
  generalize ((Engine.ofBook book 5).send 0 (.str "FALL")).run hanging = sent at *
  generalize hanging = w at *
  obtain ⟨r, w'⟩ := out
  obtain ⟨s, hs, running⟩ := (Option.any_eq_true _ _).mp started
  have running : s.status = .running := by simpa using running
  have quiet : s.queue = .empty := rest.empty hs running
  unfold isNoLoop at failed
  split at failed
  · rename_i same
    obtain ⟨v, s', send, hs', snapshot, -, residue, composed⟩ :=
      left hs running quiet (congrArg (·, w') same)
    obtain ⟨calm, listeners⟩ := composed fun owner role f args mem =>
      refrains_of_harmless (List.all_eq_true.mp calls _ mem)
    obtain ⟨status, s₁, fails, stateName, context, slot⟩ := residue calm
    subst send
    rw [hs', Option.any_some, Bool.and_eq_true, Option.isNone_iff_eq_none] at fallen
    exact ⟨s, v, s', hs, by
      simpa using running, quiet, rfl, hs', status, listeners, snapshot, _, s₁, fails, stateName,
        context, slot,
      fallen.1, fallen.2⟩
  · cases failed

end Swing

end FlatMachine
