import FlatMachine.Proofs.World.Tick
import FlatMachine.Proofs.Invocation.Cancel

/-! # Why invocations end

An active invocation stays the active one until the live state is exited, its interface is used,
its outcome is taken, or the service is stopped (**`Service.Released`**); nothing else takes it
from the slot.  Of these, all but the third cancel it (**`Point.Caused`**).

The state is exited before the actions of a transition are run, and another one is entered after
that.  So where an action fails, the service is left where it was, but without its invocation
(**`Snag`**). -/

namespace FlatMachine

/-- Why an invocation is not the active one any more. -/
inductive Service.Released (s : Service) (i : Nat) (t : Token) (since : List Entry) : Prop where
  | exited {name : Value} (exited : .exited i name ∈ since)
  | revoked (revoked : .revoked i t ∈ since)
  | settled {o : Outcome} (token : o.token = t) (taken : .taken i (.outcome o) ∈ since)
  | stopped (stopped : s.status = .stopped)

/-- The invocation is still the active one.  Its source has returned, and a drain that is in
progress began since. -/
structure Service.Retains (s : Service) (i : Nat) (t : Token) (since journal : List Entry) :
    Prop where
  active : s.slot.isActive t = true
  returned : ¬ Opened i t journal
  begun : s.queue.draining = true → since ≠ []

/-- An invocation was cancelled here, since the live state was exited, or the interface of the
invocation was used, or the service was stopped. -/
inductive Point.Caused (p : Point) (i : Nat) (t : Token) : Prop where
  | exited {name : Value} {earlier : List Entry}
      (journal : p.journal = .cancelled i t :: .exited i name :: earlier)
  | revoked {earlier : List Entry} (journal : p.journal = .cancelled i t :: .revoked i t :: earlier)
  | stopped {s : Service} (service : p.services[i]? = some s) (stopped : s.status = .stopped)

/-! ### While a source has not returned -/

section Opened

variable {i : Nat} {t : Token} {e : Entry} {entries journal : List Entry}

theorem Opened.cons (h : Opened i t (e :: journal)) :
    (∃ invocation before, e = .activated i t invocation before) ∨ e.driver ≠ some i ∧
    Opened i t journal := by
  obtain ⟨later, earlier, invocation, before, hj, others⟩ := h
  cases later with
  | nil =>
    cases hj
    exact Or.inl ⟨invocation, before, rfl⟩
  | cons x later =>
    obtain ⟨rfl, rfl⟩ := List.cons.inj hj
    obtain ⟨mine, others⟩ := List.forall_mem_cons.mp others
    exact Or.inr ⟨mine, later, earlier, invocation, before, rfl, others⟩

theorem Opened.of_append (h : Opened i t (entries ++ journal))
    (others : ∀ e ∈ entries, ∀ invocation before, e ≠ .activated i t invocation before) :
    Opened i t journal := by
  induction entries with
  | nil => exact h
  | cons e rest ih =>
    obtain ⟨mine, others⟩ := List.forall_mem_cons.mp others
    rcases h.cons with ⟨invocation, before, rfl⟩ | ⟨-, h⟩
    · exact absurd rfl (mine invocation before)
    · exact ih h others

/-- The drain that started the invocation is still in progress. -/
theorem Beat.opened {s s' : Service} {e : Option Entry} (b : Beat i s s' e)
    (h : Opened i t journal → s.queue.draining = true) :
    Opened i t (e.toList ++ journal) → s'.queue.draining = true := by
  have aside (passing : ∀ x ∈ e, x.Passing i) (queue : s'.queue = s.queue) :
      Opened i t (e.toList ++ journal) → s'.queue.draining = true := by
    intro opened
    rw [queue]
    refine h (opened.of_append fun x hx invocation before => ?_)
    rintro rfl
    exact (passing _ (Option.mem_toList.mp hx)).worker rfl
  have after {x : Entry} (opened : Opened i t (x :: journal))
      (other : ∀ invocation before, x ≠ .activated i t invocation before) :
      x.driver ≠ some i ∧ s.queue.draining = true := by
    rcases opened.cons with ⟨invocation, before, rfl⟩ | ⟨mine, opened⟩
    · exact absurd rfl (other invocation before)
    · exact ⟨mine, h opened⟩
  cases b with
  | pass queue _ _ passing => exact aside passing queue
  | start _ _ queue _ passing => exact aside passing queue
  | stop _ _ queue _ passing => exact aside passing queue
  | work busy queue =>
    intro _
    rw [queue]
    exact busy.draining
  | accept => exact fun opened => (after opened fun _ _ => nofun).2
  | drop => exact h
  | enter => exact fun _ => rfl
  | leave => exact fun opened => absurd rfl (after opened fun _ _ => nofun).1
  | take busy =>
    intro _
    rw [← busy.draining]
    exact Queue.draining_dequeue _

end Opened

/-! ### What a step does to an active invocation -/

namespace Service

variable {s s' : Service} {i : Nat} {t : Token} {entries since journal : List Entry}

theorem Released.mono (h : s.Released i t since)
    (stopped : s.status = .stopped → s'.status = .stopped) :
    s'.Released i t (entries ++ since) := by
  cases h with
  | exited exited => exact .exited (List.mem_append_right _ exited)
  | revoked revoked => exact .revoked (List.mem_append_right _ revoked)
  | settled token taken => exact .settled token (List.mem_append_right _ taken)
  | stopped already => exact .stopped (stopped already)

theorem Retains.next (h : s.Retains i t since journal) (active : s'.slot.isActive t = true)
    (others : ∀ e ∈ entries, ∀ invocation before, e ≠ .activated i t invocation before)
    (begun : s'.queue.draining = true → s.queue.draining = true ∨ entries ≠ []) :
    s'.Retains i t (entries ++ since) (entries ++ journal) where
  active := active
  returned := fun opened => h.returned (opened.of_append others)
  begun := by
    intro draining nothing
    obtain ⟨none, unbegun⟩ := List.append_eq_nil_iff.mp nothing
    rcases begun draining with draining | some
    · exact h.begun draining unbegun
    · exact some none

end Service

theorem Slot.eq_of_isActive {slot : Slot} {t u : Token} (ht : slot.isActive t = true)
    (hu : slot.isActive u = true) :
    u = t := by
  rw [isActive_iff] at ht hu
  exact Option.some.inj (hu.symm.trans ht)

/-- Whatever happens, an active invocation stays so unless there is a reason. -/
theorem Fate.retains {i : Nat} {w : World} {l : Label} {s s' : Service} {t : Token}
    {entries since earlier : List Entry} (h : Fate i w s l s' entries)
    (journal : w.journal = since ++ earlier) (hs : s.Retains i t since w.journal) :
    s'.Retains i t (entries ++ since) (entries ++ w.journal) ∨
    s'.Released i t (entries ++ since) := by
  have active := hs.active
  have occupied {P : Prop} (vacant : s.slot = .empty) : P := by
    rw [vacant] at active
    cases active
  cases h with
  | spared others =>
    refine Or.inl (hs.next active (fun e he invocation before => ?_) Or.inl)
    rintro rfl
    exact others _ he rfl
  | called => exact Or.inl (hs.next active (by simp) Or.inl)
  | entered opening =>
    refine Or.inl (hs.next ?_ (fun e he => ?_) fun _ => Or.inr (List.cons_ne_nil _ _))
    · cases opening <;> exact active
    · rcases List.mem_cons.mp he with rfl | he
      · exact fun _ _ => nofun
      · cases List.mem_singleton.mp he
        cases opening <;> exact fun _ _ => nofun
  | @emptied _ e cause =>
    have told : e ∈ s.slot.farewell i ++ [e] ++ since :=
      List.mem_append_left _ (List.mem_append_right _ List.mem_cons_self)
    cases cause with
    | exit => exact Or.inr (.exited told)
    | revoke other =>
      cases Slot.eq_of_isActive active other
      exact Or.inr (.revoked told)
  | turned turn =>
    cases turn with
    | stop => exact Or.inr (.stopped rfl)
    | move _ vacant | activate _ vacant => exact occupied vacant
    | @attach u f busy present =>
      refine Or.inl (hs.next ?_ (fun e he => ?_) fun _ => Or.inl busy.draining)
      · cases ht : s.slot.isActive u with
        | true => rw [Slot.attach_of_active present ht]; exact active
        | false => rw [Slot.attach_of_inactive present ht]; exact active
      · rcases Slot.mem_welcome present he with rfl | rfl <;> exact fun _ _ => nofun
    | retire busy other dismissed =>
      cases Slot.eq_of_isActive active other
      rcases dismissed with opened | ⟨o, token, head⟩
      · exact absurd opened hs.returned
      · obtain ⟨x, rest, rfl⟩ := List.exists_cons_of_ne_nil (hs.begun busy.draining)
        rw [journal] at head
        cases head
        exact Or.inr (.settled token (List.mem_append_right _ List.mem_cons_self))
    | leave => exact Or.inl (hs.next active (by simp) fun _ => Or.inr (List.cons_ne_nil _ _))
    | take busy => exact Or.inl (hs.next active (by simp) fun _ => Or.inl busy.draining)
    | supply | listeners | drop | prepare | commit =>
      exact Or.inl (hs.next active (List.forall_mem_nil _) Or.inl)
    | fault | accept | publish => exact Or.inl (hs.next active (by simp) Or.inl)

/-- Along a path that nobody was draining at first. -/
theorem Path.retains {sc : Scope} {i : Nat} {w w' : World} {s : Service} {t : Token}
    (h : Path sc w w') (hs : w.services[i]? = some s) (active : s.slot.isActive t = true)
    (idle : s.queue.draining = false) (returned : ¬ Opened i t w.journal) :
    ∃ s' since, w'.services[i]? = some s' ∧ w'.journal = since ++ w.journal ∧
      (s'.Retains i t since w'.journal ∨ s'.Released i t since) := by
  induction h with
  | refl =>
    refine ⟨s, [], hs, rfl, Or.inl ⟨active, returned, fun draining => ?_⟩⟩
    rw [idle] at draining
    cases draining
  | tail _ hstep ih =>
    obtain ⟨l, -, hstep⟩ := hstep
    obtain ⟨s₁, since, hs₁, journal, kept⟩ := ih
    obtain ⟨s₂, entries, hs₂, written, hf⟩ := hstep.fate hs₁
    refine ⟨s₂, entries ++ since, hs₂, by rw [written, journal, List.append_assoc], ?_⟩
    rcases kept with retains | released
    · rw [written]
      exact hf.retains journal retains
    · exact Or.inr (released.mono hf.stopped)

/-! ### Why an invocation is cancelled -/

theorem Slot.of_farewell {slot : Slot} {i j : Nat} {t : Token} {later earlier : List Entry}
    (h : slot.farewell i = later ++ .cancelled j t :: earlier) :
    i = j ∧ slot.isActive t = true ∧ earlier = [] := by
  obtain ⟨token, cancel⟩ := slot
  cases token with
  | none =>
    cases cancel <;> rcases later with _ | ⟨x, _ | ⟨y, rest⟩⟩ <;> cases h
  | some u =>
    cases cancel with
    | none =>
      rcases later with _ | ⟨x, rest⟩
      · cases h
        exact ⟨rfl, by simp [isActive], rfl⟩
      · cases rest <;> cases h
    | some f =>
      rcases later with _ | ⟨x, _ | ⟨y, rest⟩⟩
      · cases h
      · cases h
        exact ⟨rfl, by simp [isActive], rfl⟩
      · cases rest <;> cases h

/-- Only the slot's end is written as a cancellation. -/
theorem Turn.of_cancelled {i j : Nat} {w : World} {s s' : Service} {l : Label} {t : Token}
    {entries : List Entry} (h : Turn j w s l s' entries) (he : .cancelled i t ∈ entries) :
    i = j ∧ s'.status = .stopped := by
  cases h with
  | stop =>
    rcases Slot.mem_farewell he with ⟨u, -, h⟩ | ⟨f, -, h⟩
    · cases h
      exact ⟨rfl, rfl⟩
    · cases h
  | attach _ present => rcases Slot.mem_welcome present he with h | h <;> cases h
  | _ => first | cases List.mem_singleton.mp he | cases he

theorem Step.caused {l : Label} {w w' : World} (h : Step l w w') {p : Point} (hp : p ∈ w'.points)
    {i : Nat} {t : Token} (head : p.journal.head? = some (.cancelled i t)) :
    p ∈ w.points ∨ p.Caused i t := by
  cases h with
  | aside _ _ points => exact Or.inl (points ▸ hp)
  | create => exact Or.inl hp
  | report report =>
    rcases List.mem_cons.mp hp with rfl | hp
    · cases head
      cases report
    · exact Or.inl hp
  | call =>
    rcases List.mem_cons.mp hp with rfl | hp
    · cases head
    · exact Or.inl hp
  | @enter _ j s f e service opening =>
    rcases List.mem_cons.mp hp with rfl | hp
    · cases head
    · rcases List.mem_cons.mp hp with rfl | hp
      · cases head
        generalize f s = s₁ at opening
        cases opening
      · exact Or.inl hp
  | cancel _ cause =>
    rcases World.mem_turned_points _ _ _ _ hp with hp | ⟨-, later, e, earlier, told, journal⟩
    · rcases List.mem_cons.mp hp with rfl | hp
      · cases head
        cases cause
      · exact Or.inl hp
    · rw [journal] at head
      cases head
      obtain ⟨rfl, active, rfl⟩ := Slot.of_farewell told
      cases cause with
      | exit => exact Or.inr (.exited journal)
      | revoke other =>
        cases Slot.eq_of_isActive active other
        exact Or.inr (.revoked journal)
  | @turn _ j s _ f entries service turn =>
    rcases World.mem_turned_points _ _ _ _ hp with hp | ⟨services, later, e, earlier, told, journal⟩
    · exact Or.inl hp
    · rw [journal] at head
      cases head
      obtain ⟨rfl, stopped⟩ :=
        turn.of_cancelled (told ▸ List.mem_append_right later List.mem_cons_self)
      exact Or.inr (.stopped (services ▸ World.change_self f service) stopped)

/-! ### Histories -/

theorem Service.Lived.uncalled {i : Nat} {s : Service} {t : Token} {journal : List Entry}
    (h : s.Lived i journal) (active : s.slot.isActive t = true) (f : Value) (args : List Object) :
    .called (.service i) (.cancel (some t)) f args ∉ journal := by
  intro called
  have life := h.life t
  rw [Slot.held?_of_active active] at life
  have called := (Entry.mem_filter_about (i := i) (t := t) (by simp [Entry.about])).mpr called
  generalize journal.filter (Entry.about i t) = past at life called
  generalize s.slot.cancel = c at life
  cases life <;> simp at called

namespace World

variable {book : Book} {fuel : Nat} {looping : Bool} {history : List Command}

/-- After a command the sources of all invocations have returned. -/
theorem returned_after {i : Nat} {s : Service}
    (hs : ((World.start looping).after (.ofBook book fuel) history).services[i]? = some s)
    (t : Token) :
    ¬ Opened i t ((World.start looping).after (.ofBook book fuel) history).journal := by
  have draining :
      ∀ t, Opened i t ((World.start looping).after (.ofBook book fuel) history).now.journal →
        s.queue.draining = true := by
    refine holds_of_passed
      (J := fun i s journal => ∀ t, Opened i t journal → s.queue.draining = true) ?_ ?_
      List.mem_cons_self hs
    · rintro i s journal - silent t ⟨later, earlier, invocation, before, rfl, -⟩
      exact absurd rfl
        (silent (.activated i t invocation before) (List.mem_append_right _ List.mem_cons_self))
    · exact fun i s s' e journal beat h t => beat.opened (h t)
  have idle := ((atRest_after book fuel looping history).quiet hs).1
  intro opened
  rw [draining t opened] at idle
  cases idle

/-- An invocation that is active after some commands is active after some more, and its cancel
callback was not called, unless the live state was exited meanwhile, the interface of the
invocation was used, its outcome was taken or the service was stopped; whatever is cancelled is
cancelled for the first, the second or the last of these reasons. -/
theorem invocation_lasts (book : Book) (fuel : Nat) (looping : Bool)
    (before after : List Command) (i : Nat) (t : Token) :
    let w := (World.start looping).after (.ofBook book fuel) before
    let w' := w.after (.ofBook book fuel) after
    (∀ s s', w.services[i]? = some s → s.slot.isActive t = true → w'.services[i]? = some s' →
      s'.status = .running →
      (∀ name, .exited i name ∉ w'.since w) → .revoked i t ∉ w'.since w →
      (∀ o : Outcome, .taken i (.outcome o) ∈ w'.since w → o.token ≠ t) →
      s'.slot.isActive t = true ∧
      ∀ f args, .called (.service i) (.cancel (some t)) f args ∉ w'.journal) ∧
    ∀ p ∈ w'.points, p.journal.head? = some (.cancelled i t) → p.Caused i t := by
  intro w w'
  have grown : w' = (World.start looping).after (.ofBook book fuel) (before ++ after) :=
    (after_append _ _ _ _).symm
  refine ⟨fun s s' hs active hs' running unexited unrevoked unsettled => ?_, ?_⟩
  · have rest : w.AtRest := atRest_after book fuel looping before
    have path := (walk_after (Engine.tame_ofBook book fuel) rest after).path
    have idle := (rest.quiet hs).1
    obtain ⟨s₁, since, hs₁, journal, kept⟩ := path.retains hs active idle (returned_after hs t)
    cases hs'.symm.trans hs₁
    rw [since_append journal] at unexited unrevoked unsettled
    rcases kept with retains | released
    · have lived := (lasts_after Service.lasting_lived book fuel looping (before ++ after)).now i s'
        (grown ▸ hs')
      exact ⟨retains.active, fun f args => grown ▸ lived.uncalled retains.active f args⟩
    · cases released with
      | exited exited => exact absurd exited (unexited _)
      | revoked revoked => exact absurd revoked unrevoked
      | settled token taken => exact absurd token (unsettled _ taken)
      | stopped stopped =>
        rw [running] at stopped
        cases stopped
  · rw [grown]
    refine after_induction
      (I := fun w => ∀ p ∈ w.points, p.journal.head? = some (.cancelled i t) → p.Caused i t)
      (before ++ after) (List.forall_mem_nil _) fun l v v' step _ ih p hp head => ?_
    rcases step.caused hp head with hp | caused
    · exact ih p hp head
    · exact caused

end World

/-- The entry gives an invocation up: it leaves the state, uses the interface or takes the
outcome. -/
def Entry.givesUp : Entry → Bool
  | exited .. | revoked .. | taken _ (.outcome _) => true
  | _ => false

/-- An event that changes nothing leaves the swing waiting for its first invocation. -/
theorem Swing.still_waiting : ∃ s, ((World.start true).after (.ofBook Swing.book 4)
    (Swing.life.take 2 ++ [.send 0 (.str "NOPE")])).services[0]? = some s ∧
    s.slot.isActive 6 = true := by
  have lasts :=
    (World.invocation_lasts Swing.book 4 true (Swing.life.take 2) [.send 0 (.str "NOPE")] 0 6).1
  rw [← World.after_append] at lasts
  have waiting :
      ((World.start true).after (.ofBook Swing.book 4) (Swing.life.take 2)).services[0]?.any
        (fun s => s.slot.isActive 6) = true := by decide +kernel
  have running : ((World.start true).after (.ofBook Swing.book 4)
      (Swing.life.take 2 ++ [.send 0 (.str "NOPE")])).services[0]?.any
        (fun s => s.status == .running) = true := by
    decide +kernel
  have quiet :
      (((World.start true).after (.ofBook Swing.book 4)
        (Swing.life.take 2 ++ [.send 0 (.str "NOPE")])).since
        ((World.start true).after (.ofBook Swing.book 4) (Swing.life.take 2))).all
          (fun e => !e.givesUp) = true := by
    decide +kernel
  generalize (World.start true).after (.ofBook Swing.book 4) (Swing.life.take 2) = w at *
  generalize (World.start true).after (.ofBook Swing.book 4)
    (Swing.life.take 2 ++ [.send 0 (.str "NOPE")]) = w' at *
  have quiet := List.all_eq_true.mp quiet
  obtain ⟨s, hs, active⟩ := (Option.any_eq_true _ _).mp waiting
  obtain ⟨s', hs', running⟩ := (Option.any_eq_true _ _).mp running
  refine ⟨s', hs',
    (lasts s s' hs active hs' (by simpa using running) (fun name h => ?_) (fun h => ?_) fun o h =>
      ?_).1⟩
  · cases quiet _ h
  · cases quiet _ h
  · cases quiet _ h

/-! ### A snag

A machine to look at: it is in a state with an invocation, and the action on its way to another
one fails. -/

namespace Snag

def trip : Transition := ⟨.str "away", [Swing.function 1], .null⟩

def home : Node :=
  ⟨[(.str "TRIP", .tuple [trip.toValue])], [], [],
    Invocation.toValue ⟨Swing.function 0, [], [], .bool true⟩, []⟩

def machine : Machine where
  id := .str "snag"
  initial := .str "home"
  context := .null
  states := [(.str "home", home.toValue), (.str "away", Node.toValue ⟨[], [], [], .null, []⟩)]

def life : List Command := [.create machine.toValue .standard [] true, .start 0 .null]

/-- The machine waits for its invocation. -/
def whole : World := (World.start true).after (.ofBook Swing.book 4) life

/-- The machine has failed to leave. -/
def torn : World := whole.after (.ofBook Swing.book 4) [.send 0 (.str "TRIP")]

/-- The entry makes a state the live one, uses an interface or takes an outcome. -/
def turns : Entry → Bool
  | .moved .. | .revoked .. | .taken _ (.outcome _) => true
  | _ => false

/-- The state was not left, no outcome was taken and nobody used the interface of the invocation;
but it was cancelled. -/
theorem cancelled_while_at_home : ∃ s s' t, whole.services[0]? = some s ∧ s.slot.isActive t = true ∧
    torn.services[0]? = some s' ∧ s'.status = .running ∧ s'.stateName = s.stateName ∧
    (∀ source target, .moved 0 source target ∉ torn.since whole) ∧ .revoked 0 t ∉ torn.since whole ∧
    (∀ o : Outcome, .taken 0 (.outcome o) ∈ torn.since whole → o.token ≠ t) ∧
    ¬ (s'.slot.isActive t = true ∧
      ∀ f args, .called (.service 0) (.cancel (some t)) f args ∉ torn.journal) := by
  have waiting :
      whole.services[0]?.any (fun s => s.slot.isActive 6 && s.stateName.same (.str "home")) =
        true := by
    decide +kernel
  have failed : torn.services[0]?.any (fun s => s.status == .running && !s.slot.isActive 6 &&
      s.stateName.same (.str "home")) = true := by decide +kernel
  have quiet : (torn.since whole).all (fun e => !turns e) = true := by decide +kernel
  generalize torn = w' at *
  generalize whole = w at *
  have quiet := List.all_eq_true.mp quiet
  obtain ⟨s, hs, waiting⟩ := (Option.any_eq_true _ _).mp waiting
  obtain ⟨s', hs', failed⟩ := (Option.any_eq_true _ _).mp failed
  simp only [Bool.and_eq_true, beq_iff_eq, Bool.not_eq_eq_eq_not, Bool.not_true] at waiting failed
  obtain ⟨active, here⟩ := waiting
  obtain ⟨⟨running, inactive⟩, there⟩ := failed
  refine ⟨s, s', 6, hs, active, hs', running, ?_, fun source target h => ?_, fun h => ?_,
    fun o h => ?_, ?_⟩
  · rw [Value.eq_of_same_str here, Value.eq_of_same_str there]
  · cases quiet _ h
  · cases quiet _ h
  · cases quiet _ h
  · rintro ⟨active, -⟩
    rw [inactive] at active
    cases active

end Snag

end FlatMachine
