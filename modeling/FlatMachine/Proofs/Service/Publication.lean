import FlatMachine.Proofs.History
import FlatMachine.Proofs.Value.Same

/-! # When the published snapshot is out of date

A snapshot is published after each item that changed what it shows, but only if processing the
item was not halted.  So while nobody drains its queue, the snapshot of a running service is
current, unless a drain was halted that left it out of date, and nothing that it shows has
changed since (**`World.snapshot_current_iff`**).

This holds after every history, and at each point of it once the first drain of the service has
begun (**`World.Published`**).  Before that, a service that is being started has its state
already, but no snapshot of it. -/

namespace FlatMachine

/-! ### What is current -/

namespace Value

variable {v w : Value} {name : String}

/-- A string is like nothing else. -/
theorem Alike.str_iff (h : v.Alike w) : v = str name ↔ w = str name := by
  induction h with
  | rel v w h =>
    refine ⟨?_, ?_⟩ <;> rintro rfl
    · exact eq_of_str_same h
    · exact eq_of_same_str h
  | refl => exact Iff.rfl
  | symm _ _ _ ih => exact ih.symm
  | trans _ _ _ _ _ ih ih' => exact ih.trans ih'

end Value

/-- If the live state goes by a string, a current snapshot has that very state, with the tags of
its node. -/
theorem Service.Current.exact {s : Service} (h : s.Current) {name : String}
    (hn : s.stateName = .str name) :
    s.snapshot.stateName = s.stateName ∧ s.machine.tags s.stateName = .ok s.snapshot.tags := by
  have : s.snapshot.stateName = .str name := h.name.str_iff.mp hn
  rw [hn, ← this]
  exact ⟨rfl, h.tags⟩

/-! ### Beginnings -/

namespace World

/-- The service is there, and was started. -/
def Begun (w : World) (i : Nat) : Prop := ∃ s, w.services[i]? = some s ∧ s.status ≠ .notStarted

/-- While nobody drained the queue of a running service, its snapshot was current, or out of date
since a drain was halted before. -/
def Published (w : World) : Prop :=
  ∀ p earlier, p :: earlier <:+ w.points → ∀ (i : Nat) (s : Service), p.services[i]? = some s →
    s.status = .running →
    s.queue.draining = false → .began i ∈ p.journal → s.Settled i (p :: earlier)

end World

theorem Fate.begun {i : Nat} {w : World} {l : Label} {s s' : Service} {entries : List Entry}
    (h : Fate i w s l s' entries) (hn : s.status ≠ .notStarted) : s'.status ≠ .notStarted := by
  cases h with
  | entered opening => rw [opening.running]; exact nofun
  | turned turn => cases turn <;> first | exact hn | exact nofun
  | _ => exact hn

namespace Opening

variable {i : Nat} {s s₁ : Service} {e : Entry}

theorem ne_began {j : Nat} (h : Opening i s s₁ e) : .began j ≠ e := by
  cases h <;> exact nofun

theorem status (h : Opening i s s₁ e) (started : s.status ≠ .notStarted) : s.status = .running := by
  cases h with
  | start _ _ notStarted => exact absurd notStarted started
  | accept _ running => exact running

/-- A drain that is not the first one begins with what it shows already. -/
theorem sameView (h : Opening i s s₁ e) (started : s.status ≠ .notStarted) : s₁.SameView s := by
  cases h with
  | start _ _ notStarted => exact absurd notStarted started
  | accept => exact ⟨rfl, rfl, .refl _, rfl⟩

end Opening

/-- The end of a drain is written alone. -/
theorem Turn.eq_of_ended {i : Nat} {w : World} {l : Label} {s s' : Service} {entries : List Entry}
    {halt : Option Halt} (h : Turn i w s l s' entries) (he : entries.head? = some (.ended i halt)) :
    entries = [.ended i halt] := by
  have mem := List.mem_of_mem_head? he
  cases h with
  | stop => exact absurd rfl (Slot.driver_of_farewell mem)
  | attach _ present => rcases Slot.mem_welcome present mem with h | h <;> cases h
  | leave => rw [List.mem_singleton.mp mem]
  | _ => first | cases List.mem_singleton.mp mem | cases mem

/-- The points of a turn show the service as settled as it is afterwards. -/
theorem Turn.settled {i : Nat} {w : World} {l : Label} {s s' : Service}
    {entries later earlier : List Entry} {e : Entry} {p : Point} {points : List Point}
    (h : Turn i w s l s' entries) (hs : s.Sane i w.points) (hsub : w.points ⊆ p :: points)
    (he : entries = later ++ e :: earlier) (hj : p.journal = e :: earlier ++ w.journal)
    (hp : p.services[i]? = some s') (running : s'.status = .running)
    (idle : s'.queue.draining = false) :
    s'.Settled i (p :: points) := by
  refine ((Fate.turned h).sane hs hsub fun halt head => ?_).settled running idle
  have alone := he.symm.trans (h.eq_of_ended head)
  have halted : p.journal.head? = some (.ended i (some halt)) := by
    cases later with
    | nil => cases alone; rw [hj]; rfl
    | cons x later => cases later <;> cases alone
  exact ⟨p, List.mem_cons_self, ⟨⟨halt, halted⟩, hp⟩, Or.inr ⟨halt, halted⟩⟩

namespace Step

variable {l : Label} {w w' : World} {i : Nat}

theorem begun (h : Step l w w') (hb : w.Begun i) : w'.Begun i := by
  obtain ⟨s, hs, hn⟩ := hb
  obtain ⟨s', entries, hs', -, hf⟩ := h.fate hs
  exact ⟨s', hs', hf.begun hn⟩

/-- A drain begins for a service that was started. -/
theorem begun_of_began (h : Step l w w') (he : .began i ∈ w'.journal) :
    .began i ∈ w.journal ∨ w'.Begun i := by
  cases hs : w.services[i]? with
  | none => exact Or.inl ((h.silent hs _ he).resolve_right (absurd rfl))
  | some s =>
    obtain ⟨s', entries, hs', hj, hf⟩ := h.fate hs
    rw [hj] at he
    rcases List.mem_append.mp he with he | he
    · refine Or.inr ⟨s', hs', ?_⟩
      cases hf with
      | spared others => exact absurd rfl (others _ he)
      | called => cases List.mem_singleton.mp he
      | entered opening => rw [opening.running]; exact nofun
      | emptied cause =>
        rcases List.mem_append.mp he with he | he
        · exact absurd rfl (Slot.driver_of_farewell he)
        · cases cause <;> cases List.mem_singleton.mp he
      | turned turn =>
        cases turn with
        | stop => exact absurd rfl (Slot.driver_of_farewell he)
        | attach _ present => rcases Slot.mem_welcome present he with h | h <;> cases h
        | _ => first | cases List.mem_singleton.mp he | cases he
    · exact Or.inl he

theorem published (h : Step l w w') (hw : w.Sane) (hb : ∀ i, .began i ∈ w.journal → w.Begun i)
    (hp : w.Published) :
    w'.Published := by
  intro p earlier hsuffix i s hs running idle began
  -- A service that the step does not touch is as settled as before.
  have kept (hs : w.services[i]? = some s) (hsub : w.points ⊆ p :: earlier) :
      s.Settled i (p :: earlier) :=
    ((hw i s hs).settled running idle).mono hsub (.refl s)
  cases h with
  | aside _ _ points => exact hp p earlier (points ▸ hsuffix) i s hs running idle began
  | create => exact hp p earlier hsuffix i s hs running idle began
  | report | call =>
    rcases List.suffix_cons_iff.mp hsuffix with hc | hsuffix
    · cases hc
      exact kept hs (List.subset_cons_self _ _)
    · exact hp p earlier hsuffix i s hs running idle began
  | @enter _ j s₀ f e service opening =>
    rcases List.suffix_cons_iff.mp hsuffix with hc | hsuffix
    · cases hc
      by_cases hij : j = i
      · subst hij
        cases hs.symm.trans (World.entered_self service)
        cases idle
      · exact kept ((World.entered_ne hij).symm.trans hs) fun q hq => by simp [hq]
    · rcases List.suffix_cons_iff.mp hsuffix with hc | hsuffix
      · cases hc
        by_cases hij : j = i
        · subst hij
          cases hs.symm.trans (World.change_self _ service)
          have before : .began j ∈ w.journal :=
            (List.mem_cons.mp began).resolve_left opening.ne_began
          obtain ⟨s₁, hs₁, begun⟩ := hb j before
          cases hs₁.symm.trans service
          have view := opening.sameView begun
          have settled := (hw j s₀ service).settled (opening.status begun)
            (by rw [← opening.draining]; exact idle)
          exact settled.mono (List.subset_cons_self _ _) view
        · exact kept ((World.change_ne w _ hij).symm.trans hs) (List.subset_cons_self _ _)
      · exact hp p earlier hsuffix i s hs running idle began
  | @cancel _ j s₀ _ e service cause =>
    rcases World.turned_points_suffix _ _ _ _ hsuffix with hsuffix | ⟨hps, hsub, -⟩
    · rcases List.suffix_cons_iff.mp hsuffix with hc | hsuffix
      · cases hc
        exact kept hs (List.subset_cons_self _ _)
      · exact hp p earlier hsuffix i s hs running idle began
    · have hsub : w.points ⊆ p :: earlier := fun q hq => by
        exact List.mem_cons_of_mem p (hsub.subset (List.mem_cons_of_mem _ hq))
      have hs := hps ▸ hs
      by_cases hij : j = i
      · subst hij
        cases hs.symm.trans (World.change_self (w := w.noted e) _ service)
        exact ((hw j s₀ service).settled running idle).mono hsub ⟨rfl, rfl, .refl _, rfl⟩
      · exact kept ((World.change_ne (w.noted e) _ hij).symm.trans hs) hsub
  | @turn _ j s₀ _ f entries service turn =>
    rcases World.turned_points_suffix _ _ _ _
      hsuffix with hsuffix | ⟨hps, hsub, later, e, es, he, hj⟩
    · exact hp p earlier hsuffix i s hs running idle began
    · have hsub : w.points ⊆ p :: earlier := fun q hq => List.mem_cons_of_mem p (hsub.subset hq)
      by_cases hij : j = i
      · subst hij
        cases hs.symm.trans (hps ▸ World.change_self f service)
        exact turn.settled (hw j s₀ service) hsub he hj hs running idle
      · exact kept ((World.change_ne w f hij).symm.trans (hps ▸ hs)) hsub

end Step

/-! ### Histories -/

namespace Service

variable {s : Service} {i : Nat} {points : List Point}

/-- What was left out of date stays so while the view is the same. -/
theorem Settled.current_iff (h : s.Settled i points) :
    s.Current ↔ ¬ ∃ q ∈ points, ∃ s', q.Broke i s' ∧ ¬ s'.Current ∧ s'.SameView s := by
  constructor
  · rintro hc ⟨q, -, s', -, hn, hv⟩
    exact hn (hv.symm.current hc)
  · exact fun hn => h.view.resolve_right hn

end Service

namespace World

theorem published_after (book : Book) (fuel : Nat) (looping : Bool) (history : List Command) :
    let w := (World.start looping).after (.ofBook book fuel) history
    w.Sane ∧ (∀ i, .began i ∈ w.journal → w.Begun i) ∧ w.Published := by
  refine after_induction
    (I := fun w => w.Sane ∧ (∀ i, .began i ∈ w.journal → w.Begun i) ∧ w.Published) history
    ⟨(atRest_start looping).sane, nofun, fun p earlier h => ?_⟩ ?_
  · cases List.suffix_nil.mp h
  · rintro l w w' h hw ⟨-, hb, hp⟩
    refine ⟨h.sane hw, fun i he => ?_, h.published hw hb hp⟩
    rcases h.begun_of_began he with he | begun
    · exact h.begun (hb i he)
    · exact begun

/-- While nobody drains the queue of a running service, its snapshot is current just if no drain
was halted that left it out of date and the service showing the same as now. -/
theorem snapshot_current_iff (book : Book) (fuel : Nat) (looping : Bool) (history : List Command) :
    let w := (World.start looping).after (.ofBook book fuel) history
    (∀ i s, w.services[i]? = some s → s.status = .running → s.queue.draining = false →
      (s.Current ↔ ¬ ∃ q ∈ w.points, ∃ s', q.Broke i s' ∧ ¬ s'.Current ∧ s'.SameView s)) ∧
    ∀ p earlier, p :: earlier <:+ w.points → ∀ i s, p.services[i]? = some s → s.status = .running →
      s.queue.draining = false → .began i ∈ p.journal →
      (s.Current ↔ ¬ ∃ q ∈ p :: earlier, ∃ s', q.Broke i s' ∧ ¬ s'.Current ∧ s'.SameView s) := by
  obtain ⟨sane, -, published⟩ := published_after book fuel looping history
  refine ⟨fun i s hs running idle => ((sane i s hs).settled running idle).current_iff, ?_⟩
  exact fun p earlier h i s hs running idle began =>
    (published p earlier h i s hs running idle began).current_iff

end World

/-- The fall leaves the swing down, with a snapshot of where it was before. -/
theorem Swing.out_of_date :
    ∃ s, Swing.world.services[0]? = some s ∧ s.status = .running ∧ s.queue.draining = false ∧
    s.stateName = .str "down" ∧ s.snapshot.stateName = .str "here" ∧ ¬ s.Current ∧
    ∃ q ∈ Swing.world.points, ∃ s', q.Broke 0 s' ∧ ¬ s'.Current ∧ s'.SameView s := by
  have fallen : Swing.world.services[0]?.any (fun s => s.status == .running && !s.queue.draining &&
      s.stateName.same (.str "down") && s.snapshot.stateName.same (.str "here")) = true := by
    decide +kernel
  obtain ⟨s, hs, h⟩ := (Option.any_eq_true _ _).mp fallen
  simp only [Bool.and_eq_true, beq_iff_eq, Bool.not_eq_eq_eq_not, Bool.not_true] at h
  obtain ⟨⟨⟨running, idle⟩, live⟩, shown⟩ := h
  have live := Value.eq_of_same_str live
  have shown := Value.eq_of_same_str shown
  have stale : ¬ s.Current := fun hc => by
    have same := (hc.exact live).1
    rw [live, shown] at same
    simp at same
  have broke :=
    mt ((World.snapshot_current_iff Swing.book 4 true Swing.life).1 0 s hs running idle).mpr stale
  exact ⟨s, hs, running, idle, live, shown, stale, Classical.not_not.mp broke⟩

end FlatMachine
