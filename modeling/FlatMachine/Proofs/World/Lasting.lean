import FlatMachine.Proofs.History

/-! # What lasts

An assertion about a service and the journal is **`Lasting`** if it holds of a service as it is
made, and if everything that can happen to the service, or be written of it, keeps it.  What
lasts holds of every service after every history (**`World.lasts_after`**), and at every point
that a history passes (**`World.has_of_passed`**).  Only between the cancellation of an
invocation and the call of its cancel callback, which is due then, it is the journal with that
call to which the assertion applies. -/

namespace FlatMachine

/-- What a drain writes of its own course. -/
def Entry.isRoutine : Entry → Bool
  | accepted .. | taken .. | exited .. | published .. | began _ | ended .. => true
  | _ => false

/-- The entry says nothing of the state or the invocations of a service, nor of what its
definition is good for. -/
def Entry.Aside (i : Nat) (e : Entry) : Prop := e.service? ≠ some i ∨ e.isRoutine = true

/-- An assertion about a service and the journal that nothing can change. -/
structure Lasting (I : Nat → Service → List Entry → Prop) : Prop where
  fresh : ∀ {i s journal}, s.Fresh → (∀ e ∈ journal, e.service? ≠ some i) → I i s journal
  same : ∀ {i s s' journal}, I i s journal → s'.machine = s.machine → s'.stateName = s.stateName →
    s'.slot = s.slot →
    s.supply ≤ s'.supply → I i s' journal
  aside : ∀ {i s entries journal}, I i s journal → (∀ e ∈ entries, e.Aside i) →
    I i s (entries ++ journal)
  called : ∀ {i s role f args journal}, I i s journal → role.isVetted = true →
    (s.machine.Covers s.stateName → f.isCallable = true) →
    I i s (.called (.service i) role f args :: journal)
  faulted : ∀ {i s f journal}, I i s journal → ¬ s.machine.Covers s.stateName →
    I i s (.faulted i f :: journal)
  started : ∀ {i s journal}, I i s journal → s.slot = .empty →
    I i { s with stateName := s.machine.initial } journal
  cancelled : ∀ {i s journal}, I i s journal →
    I i { s with slot := .empty } (s.slot.farewell i ++ journal)
  moved : ∀ {i s target journal}, I i s journal → s.slot = .empty →
    s.machine.defines target = .ok true →
    I i { s with stateName := target } (.moved i s.stateName target :: journal)
  activated : ∀ {i s n invocation journal}, I i s journal → s.slot = .empty →
    s.machine.node s.stateName = .ok n →
    n.member "invoke" = .ok invocation → invocation.isNull = false →
    I i { s with supply := s.supply + 1, slot := s.slot.activate (Int.ofNat s.supply) }
      (.activated i (Int.ofNat s.supply) invocation s.slot :: journal)
  attached : ∀ {i s t f journal}, I i s journal → f.isNull = false → Opened i t journal →
    I i { s with slot := (s.slot.attach t f).1 } (s.slot.welcome i t f ++ journal)
  retired : ∀ {i s t journal}, I i s journal → s.slot.isActive t = true →
    I i { s with slot := .empty } (.retired i t :: journal)

/-- The call of the cancel callback of an invocation is due. -/
def Point.Due (p : Point) (i : Nat) (t : Token) : Prop :=
  p.journal.head? = some (.cancelled i t) ∨ ∃ f, p.journal.head? = some (.attached i t f)

/-- The assertion holds of the service, or will with the call that is due. -/
def Point.Has (I : Nat → Service → List Entry → Prop) (p : Point) (i : Nat) (s : Service) : Prop :=
  I i s p.journal ∨ ∃ t f, p.Due i t ∧
    I i s (.called (.service i) (.cancel (some t)) f [] :: p.journal)

theorem Point.Has.extended {I : Nat → Service → List Entry → Prop} {p : Point} {i : Nat}
    {s : Service} (h : p.Has I i s) : ∃ due, I i s (due ++ p.journal) := by
  rcases h with h | ⟨t, f, -, h⟩
  · exact ⟨[], h⟩
  · exact ⟨[_], h⟩

/-- Of two entries written at once for the service, the later one is the call of a cancel
callback. -/
def Entry.Dues (i : Nat) (entries : List Entry) : Prop :=
  ∀ later e earlier, entries = later ++ e :: earlier → later = [] ∨ ∃ t f,
    later = [.called (.service i) (.cancel (some t)) f []] ∧ earlier = [] ∧
      (e = .cancelled i t ∨ ∃ f', e = .attached i t f')

namespace Entry.Dues

variable {i : Nat}

theorem nil : Dues i [] := fun later _ _ h => by cases later <;> cases h

theorem one (x : Entry) : Dues i [x] := by
  intro later e earlier h
  cases later with
  | nil => exact Or.inl rfl
  | cons y rest => cases rest <;> cases h

theorem two {t : Token} {f : Value} {x : Entry}
    (hx : x = .cancelled i t ∨ ∃ f', x = .attached i t f') :
    Dues i [.called (.service i) (.cancel (some t)) f [], x] := by
  intro later e earlier h
  cases later with
  | nil => exact Or.inl rfl
  | cons y rest =>
    cases rest with
    | nil => cases h; exact Or.inr ⟨t, f, rfl, rfl, hx⟩
    | cons z rest => cases rest <;> cases h

theorem farewell (slot : Slot) : Dues i (slot.farewell i) := by
  obtain ⟨token, cancel⟩ := slot
  cases token with
  | none =>
    cases cancel with
    | none => exact nil
    | some f => exact one _
  | some t =>
    cases cancel with
    | none => exact one _
    | some f => exact two (Or.inl rfl)

theorem welcome {slot : Slot} {t : Token} {f : Value} (present : f.isNull = false) :
    Dues i (slot.welcome i t f) := by
  cases ht : slot.isActive t with
  | true =>
    rw [Slot.welcome_of_active present ht]
    exact one _
  | false =>
    rw [Slot.welcome_of_inactive present ht]
    exact two (Or.inr ⟨f, rfl⟩)

end Entry.Dues

theorem Turn.dues {i : Nat} {w : World} {l : Label} {s s' : Service} {entries : List Entry}
    (h : Turn i w s l s' entries) : Entry.Dues i entries := by
  cases h with
  | stop => exact .farewell _
  | attach _ present => exact .welcome present
  | _ => first | exact .nil | exact .one _

theorem Cause.aside {i j : Nat} {s : Service} {l : Label} {e : Entry} (h : Cause i s l e) :
    e.Aside j := by
  cases h with
  | exit => exact Or.inr rfl
  | revoke => exact Or.inl nofun

namespace Lasting

variable {I J : Nat → Service → List Entry → Prop} {i : Nat} {w : World} {l : Label}
  {s s' : Service} {entries : List Entry}

theorem and (hI : Lasting I) (hJ : Lasting J) :
    Lasting fun i s journal => I i s journal ∧ J i s journal where
  fresh := fun fresh silent => ⟨hI.fresh fresh silent, hJ.fresh fresh silent⟩
  same := fun h hm hn hslot hsupply =>
    ⟨hI.same h.1 hm hn hslot hsupply, hJ.same h.2 hm hn hslot hsupply⟩
  aside := fun h he => ⟨hI.aside h.1 he, hJ.aside h.2 he⟩
  called := fun h vetted hf => ⟨hI.called h.1 vetted hf, hJ.called h.2 vetted hf⟩
  faulted := fun h hc => ⟨hI.faulted h.1 hc, hJ.faulted h.2 hc⟩
  started := fun h vacant => ⟨hI.started h.1 vacant, hJ.started h.2 vacant⟩
  cancelled := fun h => ⟨hI.cancelled h.1, hJ.cancelled h.2⟩
  moved := fun h vacant hd => ⟨hI.moved h.1 vacant hd, hJ.moved h.2 vacant hd⟩
  activated := fun h vacant hn hi present =>
    ⟨hI.activated h.1 vacant hn hi present, hJ.activated h.2 vacant hn hi present⟩
  attached := fun h present opened =>
    ⟨hI.attached h.1 present opened, hJ.attached h.2 present opened⟩
  retired := fun h active => ⟨hI.retired h.1 active, hJ.retired h.2 active⟩

theorem noted (hI : Lasting I) {e : Entry} {journal : List Entry} (h : I i s journal)
    (he : e.Aside i) :
    I i s (e :: journal) :=
  hI.aside h (List.forall_mem_singleton.mpr he)

theorem turn (hI : Lasting I) (h : Turn i w s l s' entries) (hs : I i s w.journal) :
    I i s' (entries ++ w.journal) := by
  cases h with
  | supply => exact hI.same hs rfl rfl rfl (Nat.le_succ _)
  | listeners | drop | prepare | commit => exact hI.same hs rfl rfl rfl (Nat.le_refl _)
  | fault f uncovered => exact hI.faulted hs uncovered
  | stop => exact hI.same (hI.cancelled hs) rfl rfl rfl (Nat.le_refl _)
  | accept | leave | take | publish =>
    exact hI.same (s := s) (hI.noted hs (Or.inr rfl)) rfl rfl rfl (Nat.le_refl _)
  | move _ vacant defined => exact hI.moved hs vacant defined
  | activate _ vacant node invoke present => exact hI.activated hs vacant node invoke present
  | attach _ present opened => exact hI.attached hs present opened
  | retire _ active => exact hI.retired hs active

theorem opening (hI : Lasting I) {s₁ : Service} {e : Entry} (h : Opening i s s₁ e)
    (hw : s.Sane i w.points) (hs : I i s w.journal) : I i s₁ (e :: w.journal) := by
  cases h with
  | start c text notStarted =>
    have started :=
      hI.noted (e := .record .debug text) (hI.started hs (hw.vacant notStarted)) (Or.inl nofun)
    exact hI.same started rfl rfl rfl (Nat.le_refl _)
  | accept item => exact hI.same (hI.noted hs (Or.inr rfl)) rfl rfl rfl (Nat.le_refl _)

theorem fate (hI : Lasting I) (h : Fate i w s l s' entries) (hw : s.Sane i w.points)
    (hs : I i s w.journal) :
    I i s' (entries ++ w.journal) := by
  cases h with
  | spared others => exact hI.aside hs fun e he => Or.inl (others e he)
  | called _ vetted callable => exact hI.called hs vetted callable
  | entered opening =>
    have began := hI.noted (e := .began i) (hI.opening opening hw hs) (Or.inr rfl)
    exact hI.same began rfl rfl rfl (Nat.le_refl _)
  | emptied cause =>
    rw [List.append_assoc]
    exact hI.cancelled (hI.noted hs cause.aside)
  | turned turn => exact hI.turn turn hs

end Lasting

/-! ### Histories -/

namespace World

variable {I : Nat → Service → List Entry → Prop}

/-- What lasts holds of all services, and held of them at all points; of a service that is not
there yet, nothing is written. -/
structure Lasts (I : Nat → Service → List Entry → Prop) (w : World) : Prop where
  now : ∀ (i : Nat) (s : Service), w.services[i]? = some s → I i s w.journal
  unborn : ∀ i : Nat, w.services[i]? = none → ∀ e ∈ w.journal, e.service? ≠ some i
  points : ∀ p ∈ w.points, ∀ (i : Nat) (s : Service), p.services[i]? = some s → p.Has I i s

end World

namespace Step

variable {I : Nat → Service → List Entry → Prop} {l : Label} {w w' : World} {i : Nat} {s : Service}

/-- No service is taken away. -/
theorem absent (h : Step l w w') (hn : w'.services[i]? = none) : w.services[i]? = none := by
  cases hs : w.services[i]? with
  | none => rfl
  | some s =>
    obtain ⟨s', entries, hs', -⟩ := h.fate hs
    rw [hn] at hs'
    cases hs'

theorem lasts_now (h : Step l w w') (hI : Lasting I) (hw : w.Sane) (hl : w.Lasts I)
    (hs' : w'.services[i]? = some s) :
    I i s w'.journal := by
  cases hs : w.services[i]? with
  | none =>
    obtain ⟨fresh, hj, -⟩ := h.born hs hs'
    rw [hj]
    exact hI.fresh fresh (hl.unborn i hs)
  | some s₀ =>
    obtain ⟨s₁, entries, hs₁, hj, hf⟩ := h.fate hs
    cases hs'.symm.trans hs₁
    rw [hj]
    exact hI.fate hf (hw i s₀ hs) (hl.now i s₀ hs)

/-- At a point in the middle of a turn a call is due, if the turn is of the service. -/
theorem has_turned (hI : Lasting I) {u : World} {j : Nat} {f : Service → Service}
    {entries : List Entry}
    (before : ∀ (i : Nat) (s : Service), u.services[i]? = some s → I i s u.journal)
    (own : ∀ e ∈ entries, e.service? = some j) (dues : Entry.Dues j entries)
    (after : ∀ (i : Nat) (s : Service), (u.turned j f entries).services[i]? = some s →
      I i s (u.turned j f entries).journal) {p : Point}
    (hp : p ∈ (u.turned j f entries).points) (hs : p.services[i]? = some s) :
    p ∈ u.points ∨ p.Has I i s := by
  rw [World.turned_services, World.turned_journal] at after
  rcases World.mem_turned_points _ _ _ _ hp with hp | ⟨hps, later, e, earlier, he, hpj⟩
  · exact Or.inl hp
  · refine Or.inr ?_
    rcases dues later e earlier he with rfl | ⟨t, g, rfl, rfl, due⟩
    · have now := after i s (hps ▸ hs)
      rw [he] at now
      exact Or.inl (hpj ▸ now)
    · by_cases hij : j = i
      · subst hij
        have now := after j s (hps ▸ hs)
        rw [he] at now
        refine Or.inr ⟨t, g, ?_, hpj ▸ now⟩
        unfold Point.Due
        rw [hpj]
        rcases due with rfl | ⟨f', rfl⟩
        · exact Or.inl rfl
        · exact Or.inr ⟨f', rfl⟩
      · refine Or.inl ?_
        rw [hps, World.change_ne u f hij] at hs
        rw [hpj]
        have mine := own e (by rw [he]; simp)
        exact hI.noted (before i s hs) (Or.inl fun hi => hij (Option.some.inj (mine.symm.trans hi)))

theorem lasts_points (h : Step l w w') (hI : Lasting I) (hw : w.Sane) (hl : w.Lasts I) {p : Point}
    (hp : p ∈ w'.points) (hs : p.services[i]? = some s) : p.Has I i s := by
  have now {j : Nat} {s : Service} : w'.services[j]? = some s → I j s w'.journal :=
    h.lasts_now hI hw hl
  cases h with
  | aside services journal points => exact hl.points p (points ▸ hp) i s hs
  | create => exact hl.points p hp i s hs
  | report | call =>
    rcases List.mem_cons.mp hp with rfl | hp
    · exact Or.inl (now hs)
    · exact hl.points p hp i s hs
  | @enter _ j s₀ f e service opening =>
    rcases List.mem_cons.mp hp with rfl | hp
    · exact Or.inl (now hs)
    · rcases List.mem_cons.mp hp with rfl | hp
      · refine Or.inl ?_
        by_cases hij : j = i
        · subst hij
          cases hs.symm.trans (World.change_self _ service)
          exact hI.opening opening (hw j s₀ service) (hl.now j s₀ service)
        · have spared := hl.now i s ((World.change_ne w _ hij).symm.trans hs)
          exact hI.noted spared (Or.inl (opening.service?_ne hij))
      · exact hl.points p hp i s hs
  | @cancel _ j s₀ _ e service cause =>
    have before (k : Nat) (s : Service) (hs : (w.noted e).services[k]? = some s) :
        I k s (w.noted e).journal :=
      hI.noted (hl.now k s hs) cause.aside
    have own (e' : Entry) (he : e' ∈ s₀.slot.farewell j) := Slot.service?_of_farewell he
    rcases has_turned hI before own (.farewell _) (fun _ _ => now) hp hs with hp | has
    · rcases List.mem_cons.mp hp with rfl | hp
      · exact Or.inl (before i s hs)
      · exact hl.points p hp i s hs
    · exact has
  | @turn _ j s₀ _ f entries service turn =>
    rcases has_turned hI hl.now turn.service? turn.dues (fun _ _ => now) hp hs with hp | has
    · exact hl.points p hp i s hs
    · exact has

/-- What lasts is kept by every step. -/
theorem lasts (h : Step l w w') (hI : Lasting I) (hw : w.Sane) (hl : w.Lasts I) : w'.Lasts I where
  now := fun _ _ => h.lasts_now hI hw hl
  unborn := by
    intro i hn e he
    rcases h.silent (h.absent hn) e he with he | he
    · exact hl.unborn i (h.absent hn) e he
    · exact he
  points := fun _ hp _ _ => h.lasts_points hI hw hl hp

end Step

namespace World

variable {I : Nat → Service → List Entry → Prop}

theorem lasts_after (hI : Lasting I) (book : Book) (fuel : Nat) (looping : Bool)
    (history : List Command) :
    ((World.start looping).after (.ofBook book fuel) history).Lasts I := by
  refine after_induction history ⟨nofun, fun _ _ => List.forall_mem_nil _, List.forall_mem_nil _⟩ ?_
  exact fun l w w' h hw hl => h.lasts hI hw hl

/-- What lasts holds of every service at every point of a history, and after it. -/
theorem has_of_passed (hI : Lasting I) {book : Book} {fuel : Nat} {looping : Bool}
    {history : List Command} {p : Point}
    (hp : p ∈ ((World.start looping).after (.ofBook book fuel) history).passed) {i : Nat}
    {s : Service} (hs : p.services[i]? = some s) : p.Has I i s := by
  have lasts := lasts_after hI book fuel looping history
  rcases List.mem_cons.mp hp with rfl | hp
  · exact Or.inl (lasts.now i s hs)
  · exact lasts.points p hp i s hs

end World

end FlatMachine
