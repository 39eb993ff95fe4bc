import FlatMachine.Proofs.World.Turn

/-! # Steps, seen by one service

* **`Fate`**: what a step is for one service.  It spares it, or is a call on its behalf, the
  beginning of a drain, the end of its invocation, or a turn of it.
* **`Step.fate`**: every step has a fate for every service; those that are not there yet are born
  by it (**`Step.born`**), and nothing is written of them before (**`Step.silent`**).
* **`Fate.sane`**: no step leaves a service that is not as it has to be when somebody has a turn. -/

namespace FlatMachine

/-! ### What a turn does to a world -/

namespace World

variable (w : World) (i : Nat) (f : Service → Service) (entries : List Entry)

theorem turned_services : (w.turned i f entries).services = (w.change i f).services := by
  induction entries with
  | nil => rfl
  | cons e rest ih => exact ih

theorem turned_journal : (w.turned i f entries).journal = entries ++ w.journal := by
  induction entries with
  | nil => rfl
  | cons e rest ih => exact congrArg (e :: ·) ih

theorem turned_points : w.points <:+ (w.turned i f entries).points := by
  induction entries with
  | nil => exact List.suffix_refl _
  | cons e rest ih => exact ih.trans (List.suffix_cons _ _)

/-- Each entry is written at a point of its own, and all of them after the change. -/
theorem turned_points_suffix {p : Point} {earlier : List Point}
    (h : p :: earlier <:+ (w.turned i f entries).points) : p :: earlier <:+ w.points ∨
      p.services = (w.change i f).services ∧ w.points <:+ earlier ∧
        ∃ later e es, entries = later ++ e :: es ∧ p.journal = e :: es ++ w.journal := by
  induction entries with
  | nil => exact Or.inl h
  | cons e rest ih =>
    change p :: earlier <:+ ⟨(w.turned i f rest).services, e :: (w.turned i f rest).journal⟩ ::
      _ at h
    rw [turned_services, turned_journal] at h
    rcases List.suffix_cons_iff.mp h with h | h
    · cases h
      exact Or.inr ⟨rfl, w.turned_points i f rest, [], e, rest, rfl, rfl⟩
    · rcases ih h with h | ⟨hs, hp, later, e', es, rfl, hj⟩
      · exact Or.inl h
      · exact Or.inr ⟨hs, hp, e :: later, e', es, rfl, hj⟩

theorem mem_turned_points {p : Point} (h : p ∈ (w.turned i f entries).points) :
    p ∈ w.points ∨ p.services = (w.change i f).services ∧
      ∃ later e es, entries = later ++ e :: es ∧ p.journal = e :: es ++ w.journal := by
  obtain ⟨before, earlier, hp⟩ := List.append_of_mem h
  rcases turned_points_suffix w i f entries ⟨before, hp.symm⟩ with h | ⟨hs, -, hj⟩
  · exact Or.inl (h.subset List.mem_cons_self)
  · exact Or.inr ⟨hs, hj⟩

end World

/-! ### What a step is for one service -/

/-- What a step is for a service: none of its business, a call on its behalf, the beginning of a
drain, the end of its invocation, or a turn of it. -/
inductive Fate (i : Nat) (w : World) (s : Service) : Label → Service → List Entry → Prop where
  | spared {l : Label} {entries : List Entry} (others : ∀ e ∈ entries, e.service? ≠ some i) :
      Fate i w s l s entries
  | called {role : Role} {f : Value} {args : List Object} (busy : s.Busy)
      (vetted : role.isVetted = true)
      (callable : s.machine.Covers s.stateName → f.isCallable = true) :
      Fate i w s .free s [.called (.service i) role f args]
  | entered {s₁ : Service} {e : Entry} (opening : Opening i s s₁ e)
      (idle : s.queue.draining = false) :
      Fate i w s (.frame i) { s₁ with queue := s₁.queue.enter } [.began i, e]
  | emptied {l : Label} {e : Entry} (cause : Cause i s l e) :
      Fate i w s l { s with slot := .empty } (s.slot.farewell i ++ [e])
  | turned {l : Label} {s' : Service} {entries : List Entry} (turn : Turn i w s l s' entries) :
      Fate i w s l s' entries

theorem Opening.running {i : Nat} {s s₁ : Service} {e : Entry} (h : Opening i s s₁ e) :
    s₁.status = .running := by
  cases h with
  | start => rfl
  | accept _ running => exact running

theorem Opening.driver {i : Nat} {s s₁ : Service} {e : Entry} (h : Opening i s s₁ e) :
    e.driver = none := by
  cases h <;> rfl

theorem Opening.draining {i : Nat} {s s₁ : Service} {e : Entry} (h : Opening i s s₁ e) :
    s₁.queue.draining = s.queue.draining := by
  cases h <;> rfl

theorem Opening.service?_ne {i j : Nat} {s s₁ : Service} {e : Entry} (h : Opening i s s₁ e)
    (hij : i ≠ j) :
    e.service? ≠ some j := by
  cases h with
  | start => exact nofun
  | accept => exact fun hj => hij (Option.some.inj hj)

theorem Cause.service?_ne {i j : Nat} {s : Service} {l : Label} {e : Entry} (h : Cause i s l e)
    (hij : i ≠ j) :
    e.service? ≠ some j := by
  cases h with
  | exit => exact fun hj => hij (Option.some.inj hj)
  | revoke => exact nofun

namespace World

variable {w : World} {i j : Nat} {s : Service} {f : Service → Service} {slot : Slot} {e : Entry}

theorem entered_self (h : w.services[i]? = some s) :
    (w.entered i f e).services[i]? = some { f s with queue := (f s).queue.enter } :=
  change_self _ (change_self _ h)

theorem prompted_self (item : Item) (h : w.services[i]? = some s) :
    (w.prompted i item).services[i]? = some { s with queue := (s.queue.enqueue item).enter } :=
  entered_self h

theorem entered_ne (h : i ≠ j) : (w.entered i f e).services[j]? = w.services[j]? :=
  (change_ne _ _ h).trans (change_ne _ _ h)

theorem left_self (h : w.services[i]? = some s) (halt : Option Halt) :
    (w.left i halt).services[i]? = some { s with queue := s.queue.leave halt.isSome } :=
  change_self _ h

theorem emptied_services :
    (w.emptied i slot e).services = (w.change i fun s => { s with slot := .empty }).services :=
  turned_services _ _ _ _

theorem emptied_journal : (w.emptied i slot e).journal = slot.farewell i ++ e :: w.journal :=
  turned_journal _ _ _ _

theorem emptied_points : (w.noted e).points <:+ (w.emptied i slot e).points := turned_points _ _ _ _

end World

/-- Calls of other roles apart from cancel callbacks are nobody's doing. -/
theorem Entry.vetted_of_service? {owner : Owner} {role : Role} {f : Value}
    {args : List Object} {i : Nat} (other : role.isCancel = false)
    (h : (called owner role f args).service? = some i) :
    owner = .service i ∧ role.isVetted = true := by
  cases owner with
  | bench => cases h
  | service j =>
    change (if (role.isVetted || role.isCancel) = true then some j else none) = some i at h
    rw [other, Bool.or_false] at h
    split at h
    · cases h
      exact ⟨rfl, ‹_›⟩
    · cases h

theorem Step.fate {l : Label} {w w' : World} (h : Step l w w') {i : Nat} {s : Service}
    (hs : w.services[i]? = some s) :
    ∃ s' entries, w'.services[i]? = some s' ∧ w'.journal = entries ++ w.journal ∧
    Fate i w s l s' entries := by
  cases h with
  | aside services journal => exact ⟨s, [], services ▸ hs, journal, .spared (List.forall_mem_nil _)⟩
  | @report _ e report =>
    refine ⟨s, [e], hs, rfl, .spared fun e' he' => ?_⟩
    rw [List.mem_singleton.mp he', Entry.service?_of_isReport report]
    exact nofun
  | @call _ owner role f args other sanctioned =>
    refine ⟨s, [.called owner role f args], hs, rfl, ?_⟩
    by_cases hc : owner = .service i ∧ role.isVetted = true
    · obtain ⟨rfl, vetted⟩ := hc
      obtain ⟨⟨s₁, hs₁, busy⟩, m, name, ⟨s', hs', rfl, rfl⟩, hf⟩ := sanctioned i rfl vetted
      cases hs.symm.trans hs'
      cases hs.symm.trans hs₁
      exact .called busy vetted hf
    · refine .spared fun e he hi => ?_
      rw [List.mem_singleton.mp he] at hi
      exact hc (Entry.vetted_of_service? other hi)
  | create =>
    refine ⟨s, [], ?_, rfl, .spared (List.forall_mem_nil _)⟩
    rw [List.getElem?_append_left (List.getElem?_eq_some_iff.mp hs).1]
    exact hs
  | @enter _ j s₁ f e service opening idle =>
    by_cases hij : j = i
    · subst hij
      cases hs.symm.trans service
      exact ⟨_, _, World.entered_self hs, rfl, .entered opening idle⟩
    · refine ⟨s, [.began j, e], (World.entered_ne hij).trans hs, rfl, .spared fun e' he => ?_⟩
      rcases List.mem_cons.mp he with rfl | he
      · exact fun h => hij (Option.some.inj h)
      · rw [List.mem_singleton.mp he]
        exact opening.service?_ne hij
  | @cancel _ j s₁ _ e service cause =>
    have journal : (w.emptied j s₁.slot e).journal = (s₁.slot.farewell j ++ [e]) ++ w.journal := by
      rw [World.emptied_journal, List.append_assoc]
      rfl
    by_cases hij : j = i
    · subst hij
      cases hs.symm.trans service
      refine ⟨_, _, ?_, journal, .emptied cause⟩
      rw [World.emptied_services, World.change_self _ hs]
    · refine ⟨s, _, ?_, journal, .spared fun e' he => ?_⟩
      · rw [World.emptied_services, World.change_ne w _ hij, hs]
      · rcases List.mem_append.mp he with he | he
        · exact fun h => hij (Option.some.inj ((Slot.service?_of_farewell he).symm.trans h))
        · rw [List.mem_singleton.mp he]
          exact cause.service?_ne hij
  | @turn _ j s₁ _ f entries service turn =>
    by_cases hij : j = i
    · subst hij
      cases hs.symm.trans service
      refine ⟨f s, entries, ?_, w.turned_journal j f entries, .turned turn⟩
      rw [World.turned_services, World.change_self f hs]
    · refine ⟨s, entries, ?_, w.turned_journal j f entries, .spared fun e he h => ?_⟩
      · rw [World.turned_services, World.change_ne w f hij, hs]
      · exact hij (Option.some.inj ((turn.service? e he).symm.trans h))

theorem Step.prompted {w : World} {i : Nat} {s : Service} (item : Item)
    (hs : w.services[i]? = some s) (running : s.status = .running)
    (idle : s.queue.draining = false) : Step (.frame i) w (w.prompted i item) :=
  .enter hs (.accept item running) idle

theorem Step.changed {l : Label} {w : World} {i : Nat} {s : Service} {f : Service → Service}
    (hs : w.services[i]? = some s) (h : Turn i w s l (f s) []) : Step l w (w.change i f) :=
  .turn hs h

theorem Step.wrote {l : Label} {w : World} {i : Nat} {s : Service}
    {f : Service → Service} {e : Entry} (hs : w.services[i]? = some s)
    (h : Turn i w s l (f s) [e]) : Step l w ((w.change i f).noted e) :=
  .turn hs h

/-- A service comes into being as it is made. -/
theorem Step.born {l : Label} {w w' : World} (h : Step l w w') {i : Nat} {s : Service}
    (hn : w.services[i]? = none) (hs : w'.services[i]? = some s) :
    s.Fresh ∧ w'.journal = w.journal ∧ w'.points = w.points := by
  cases h with
  | aside services => rw [services, hn] at hs; cases hs
  | report | call => rw [World.noted_services, hn] at hs; cases hs
  | @create _ s₁ fresh =>
    have hi := List.getElem?_eq_none_iff.mp hn
    rw [List.getElem?_append_right hi] at hs
    cases hk : i - w.services.length with
    | zero =>
      rw [hk] at hs
      cases hs
      exact ⟨fresh, rfl, rfl⟩
    | succ k => rw [hk] at hs; cases hs
  | @enter _ j s₁ f e service =>
    by_cases hij : j = i
    · rw [hij, hn] at service; cases service
    · rw [World.entered_ne hij, hn] at hs; cases hs
  | @cancel _ j s₁ _ e service =>
    by_cases hij : j = i
    · rw [hij, hn] at service; cases service
    · rw [World.emptied_services, World.change_ne w _ hij, hn] at hs; cases hs
  | @turn _ j s₁ _ f entries service =>
    by_cases hij : j = i
    · rw [hij, hn] at service; cases service
    · rw [World.turned_services, World.change_ne w f hij, hn] at hs; cases hs

/-- Nothing is written of a service that is not there. -/
theorem Step.silent {l : Label} {w w' : World} (h : Step l w w') {i : Nat}
    (hn : w.services[i]? = none) :
    ∀ e ∈ w'.journal, e ∈ w.journal ∨ e.service? ≠ some i := by
  intro e he
  cases h with
  | aside _ journal => exact Or.inl (journal ▸ he)
  | create => exact Or.inl he
  | report report =>
    rcases List.mem_cons.mp he with rfl | he
    · rw [Entry.service?_of_isReport report]
      exact Or.inr nofun
    · exact Or.inl he
  | @call _ owner role f args other sanctioned =>
    rcases List.mem_cons.mp he with rfl | he
    · refine Or.inr fun hi => ?_
      obtain ⟨rfl, vetted⟩ := Entry.vetted_of_service? other hi
      obtain ⟨⟨s, hs, -⟩, -⟩ := sanctioned i rfl vetted
      rw [hn] at hs
      cases hs
    · exact Or.inl he
  | @enter _ j s f e service opening =>
    have hij : j ≠ i := fun h => by rw [h, hn] at service; cases service
    rcases List.mem_cons.mp he with rfl | he
    · exact Or.inr fun hi => hij (Option.some.inj hi)
    · rcases List.mem_cons.mp he with rfl | he
      · exact Or.inr (opening.service?_ne hij)
      · exact Or.inl he
  | @cancel _ j s _ e service cause =>
    have hij : j ≠ i := fun h => by rw [h, hn] at service; cases service
    rw [World.emptied_journal] at he
    rcases List.mem_append.mp he with he | he
    · exact Or.inr fun hi => hij (Option.some.inj ((Slot.service?_of_farewell he).symm.trans hi))
    · rcases List.mem_cons.mp he with rfl | he
      · exact Or.inr (cause.service?_ne hij)
      · exact Or.inl he
  | @turn _ j s _ f entries service turn =>
    rw [World.turned_journal] at he
    rcases List.mem_append.mp he with he | he
    · refine Or.inr fun hi => ?_
      rw [turn.service? e he] at hi
      rw [Option.some.inj hi, hn] at service
      cases service
    · exact Or.inl he

theorem Step.points {l : Label} {w w' : World} (h : Step l w w') : w.points <:+ w'.points := by
  cases h with
  | aside _ _ points => exact points ▸ List.suffix_refl _
  | report | call => exact List.suffix_cons _ _
  | create => exact List.suffix_refl _
  | enter => exact (List.suffix_cons _ _).trans (List.suffix_cons _ _)
  | cancel => exact (List.suffix_cons _ _).trans World.emptied_points
  | turn => exact World.turned_points _ _ _ _

/-- The last entry of a step is written at a point with the services as the step leaves them. -/
theorem Step.head {l : Label} {w w' : World} {entries : List Entry} (h : Step l w w')
    (hj : w'.journal = entries ++ w.journal) (hn : entries.head? ≠ none) :
    ∃ p ∈ w'.points, p.services = w'.services ∧ p.journal.head? = entries.head? := by
  cases entries with
  | nil => exact absurd rfl hn
  | cons e rest =>
    have head : w'.journal.head? = some e := by rw [hj]; rfl
    have grown : w.journal ≠ e :: rest ++ w.journal := fun h => by
      have := congrArg List.length h
      rw [List.length_append, List.length_cons] at this
      omega
    cases h with
    | aside _ journal => exact absurd (journal.symm.trans hj) grown
    | report | call => exact ⟨_, List.mem_cons_self, rfl, head⟩
    | create => exact absurd hj grown
    | enter => exact ⟨_, List.mem_cons_self, rfl, head⟩
    | @cancel _ i s _ e service =>
      unfold World.emptied at head ⊢
      cases hf : s.slot.farewell i with
      | nil =>
        have vacant : ({ s with slot := .empty } : Service) = s := by
          rw [← Slot.eq_empty_of_farewell hf]
        have same : (w.noted e).turned i (fun s => { s with slot := .empty }) [] = w.noted e :=
          World.change_id service vacant
        rw [hf, same] at head
        rw [same]
        exact ⟨_, List.mem_cons_self, rfl, head⟩
      | cons e' es =>
        rw [hf] at head
        exact ⟨_, List.mem_cons_self, rfl, head⟩
    | @turn _ i _ _ f es =>
      cases es with
      | nil => exact absurd hj grown
      | cons e' es => exact ⟨_, List.mem_cons_self, rfl, head⟩

namespace Fate

variable {i : Nat} {w : World} {l : Label} {s s' : Service} {entries : List Entry}

theorem machine (h : Fate i w s l s' entries) : s'.machine = s.machine := by
  cases h with
  | entered opening => cases opening <;> rfl
  | turned turn => exact turn.machine
  | _ => rfl

theorem holds (h : Fate i w s l s' entries) (hl : l.service? ≠ some i) : s.Holds s' := by
  cases h with
  | spared | called => exact .refl s
  | entered => exact absurd rfl hl
  | emptied => exact ⟨rfl, rfl, rfl, rfl, rfl, Or.inr rfl, Or.inl rfl⟩
  | turned turn => exact turn.holds hl

theorem driver (h : Fate i w s l s' entries) (hl : l.service? ≠ some i) :
    ∀ e ∈ entries, e.driver ≠ some i := by
  cases h with
  | spared others => exact fun e he hd => others e he (Entry.service?_of_driver hd)
  | called => exact fun e he => by rw [List.mem_singleton.mp he]; exact nofun
  | entered => exact absurd rfl hl
  | emptied cause =>
    intro e he
    rcases List.mem_append.mp he with he | he
    · exact Slot.driver_of_farewell he
    · rw [List.mem_singleton.mp he]
      cases cause with
      | exit => exact absurd rfl hl
      | revoke => exact nofun
  | turned turn => exact turn.driver hl

/-- Only the ends of a drain set the flag. -/
theorem draining (h : Fate i w s l s' entries) (hl : l ≠ .frame i) :
    s'.queue.draining = s.queue.draining := by
  cases h with
  | entered => exact absurd rfl hl
  | turned turn => exact turn.draining hl
  | _ => rfl

theorem busy (h : Fate i w s l s' entries) (hl : l ≠ .frame i) (hb : s.Busy) : s'.Busy := by
  cases h with
  | spared | called => exact hb
  | entered => exact absurd rfl hl
  | emptied => exact ⟨hb.draining, hb.started⟩
  | turned turn => exact turn.busy hl hb

theorem snapshot (h : Fate i w s l s' entries) (hl : l ≠ .view i) : s'.snapshot = s.snapshot := by
  cases h with
  | entered opening => cases opening <;> rfl
  | turned turn => exact turn.snapshot hl
  | _ => rfl

theorem stopped (h : Fate i w s l s' entries) (hs : s.status = .stopped) :
    s'.status = .stopped := by
  cases h with
  | entered opening =>
    cases opening with
    | start _ _ notStarted => rw [hs] at notStarted; cases notStarted
    | accept => exact hs
  | turned turn => cases turn <;> first | rfl | exact hs
  | _ => exact hs

theorem sane {points : List Point} (h : Fate i w s l s' entries) (hs : s.Sane i w.points)
    (hp : w.points ⊆ points) (hb : ∀ halt, entries.head? = some (.ended i (some halt)) →
      ∃ p ∈ points, p.Broke i s' ∧ p.Announces i) :
    s'.Sane i points := by
  have same : s'.SameView s → (s'.slot = s.slot ∨ s'.slot = .empty) → s'.status = s.status →
      s'.queue = s.queue →
      s'.Sane i points := by
    intro hv hslot hstatus hqueue
    refine ⟨fun hn => ?_, ?_, ?_, fun hr hi => ?_⟩
    · rcases hslot with hslot | hslot
      · exact hslot.trans (hs.vacant (hstatus ▸ hn))
      · exact hslot
    · rw [hstatus, hqueue]
      exact hs.unopened
    · rw [hstatus, hqueue]
      exact hs.drained
    · exact (hs.settled (hstatus ▸ hr) (hqueue ▸ hi)).mono hp hv
  have begun : s'.Busy → s'.Sane i points := by
    rintro ⟨draining, started⟩
    refine ⟨fun h => absurd h started, fun h => absurd h started, fun _ => ?_, fun _ => ?_⟩ <;>
      rw [draining] <;>
      exact nofun
  cases h with
  | spared | called => exact same (.refl s) (Or.inl rfl) rfl rfl
  | emptied => exact same ⟨rfl, rfl, .refl _, rfl⟩ (Or.inr rfl) rfl rfl
  | entered opening =>
    refine begun ⟨rfl, ?_⟩
    cases opening with
    | start => exact nofun
    | accept _ running => rw [running]; exact nofun
  | turned turn =>
    by_cases hb' : s.Busy ∧ l ≠ .frame i
    · exact begun (turn.busy hb'.2 hb'.1)
    · cases turn with
      | accept _ running busy => exact absurd ⟨⟨busy, by rw [running]; exact nofun⟩, nofun⟩ hb'
      | stop => exact ⟨nofun, nofun, fun going => absurd rfl going, nofun⟩
      | drop stopped =>
        exact ⟨hs.vacant, hs.unopened, fun _ _ => rfl, fun hr => by rw [stopped] at hr; cases hr⟩
      | prepare _ _ notStarted =>
        exact ⟨hs.vacant, hs.unopened, hs.drained, fun hr => by rw [notStarted] at hr; cases hr⟩
      | leave halt busy drained settled =>
        refine ⟨fun hn => absurd hn busy.started, fun _ => Queue.draining_leave _ _, fun going _ =>
          ?_, fun hr _ => ?_⟩
        · cases halt with
          | none => exact drained rfl (Status.running_of busy.started going)
          | some halt => rfl
        · cases halt with
          | none => exact (settled rfl hr).mono hp ⟨rfl, rfl, .refl _, rfl⟩
          | some halt =>
            obtain ⟨p, hp, broke, announces⟩ := hb halt rfl
            refine ⟨⟨p, hp, announces⟩, ?_⟩
            by_cases hc : Service.Current { s with queue := s.queue.leave true }
            · exact Or.inl hc
            · exact Or.inr ⟨p, hp, _, broke, hc, .refl _⟩
      | take busy | publish busy | commit _ busy | move busy | activate busy | attach busy
      | retire busy => exact absurd ⟨busy, nofun⟩ hb'
      | _ => exact same ⟨rfl, rfl, .refl _, rfl⟩ (Or.inl rfl) rfl rfl

end Fate
end FlatMachine
