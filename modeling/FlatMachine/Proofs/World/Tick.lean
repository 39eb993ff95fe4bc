import FlatMachine.Proofs.History

/-! # One entry at a time

A step may write more than one entry, and each is written at a point of its own.  Taken apart,
every step is a sequence of **`Tick`**s, each with one entry at most, so that every point is that
of a world on the way (**`World.ticks_of_passed`**).

* **`Beat`**: what a tick is for the queue, the status and the slot of one service.
* **`Ticks.holds`**: what every beat keeps holds of all services, at all points of a history.
* **`Ticks.keeps`**: what every beat keeps lasts from any point on. -/

namespace FlatMachine

/-! ### Sorts of entries -/

namespace Entry

/-- The service whose queue the entry tells of. -/
def course? : Entry → Option Nat
  | accepted i _ | taken i _ | began i | ended i _ => some i
  | _ => none

/-- The service whose drain does what the entry tells of: what it writes, and what its definition
has it call. -/
def worker? : Entry → Option Nat
  | called (.service i) role .. => if role.isVetted then some i else none
  | e => e.driver

variable {e : Entry} {i : Nat}

theorem service?_of_course? (h : e.course? = some i) : e.service? = some i := by
  cases e <;> first | exact h | cases h

theorem service?_of_worker? (h : e.worker? = some i) : e.service? = some i := by
  cases e with
  | called owner role f args =>
    cases owner with
    | bench => cases h
    | service j =>
      change (if role.isVetted = true then some j else none) = some i at h
      split at h
      · rename_i vetted
        change (if (role.isVetted || role.isCancel) = true then some j else none) = some i
        rw [vetted]
        exact h
      · cases h
  | _ => first | exact h | cases h

theorem course?_of_isReport (h : e.isReport = true) : e.course? = none := by
  cases e <;> first | rfl | cases h

theorem worker?_of_isReport (h : e.isReport = true) : e.worker? = none := by
  cases e <;> first | rfl | cases h

/-- The entry tells neither of the queue of the service nor of what its drain does. -/
structure Passing (i : Nat) (e : Entry) : Prop where
  worker : e.worker? ≠ some i
  course : e.course? ≠ some i

theorem Passing.of_service? (h : e.service? ≠ some i) : e.Passing i :=
  ⟨mt service?_of_worker? h, mt service?_of_course? h⟩

theorem Passing.of_isReport (h : e.isReport = true) : e.Passing i := by
  refine ⟨?_, ?_⟩
  · rw [worker?_of_isReport h]
    exact nofun
  · rw [course?_of_isReport h]
    exact nofun

theorem passing_cancelled {t : Token} : (cancelled i t).Passing i := ⟨nofun, nofun⟩

theorem passing_cancel {t : Option Token} {f : Value} :
    (called (.service i) (.cancel t) f []).Passing i :=
  ⟨nofun, nofun⟩

theorem passing_farewell {slot : Slot} (h : e ∈ slot.farewell i) : e.Passing i := by
  rcases Slot.mem_farewell h with ⟨t, -, rfl⟩ | ⟨f, -, rfl⟩
  · exact passing_cancelled
  · exact passing_cancel

end Entry

/-! ### Beats and ticks -/

/-- What a tick is for the queue, the status and the slot of a service, and the entry that is
written. -/
inductive Beat (i : Nat) (s : Service) : Service → Option Entry → Prop where
  /-- what anybody may do -/
  | pass {s' : Service} {e : Option Entry} (queue : s'.queue = s.queue)
      (status : s'.status = s.status)
      (slot : s'.slot = s.slot ∨ s'.slot = .empty) (passing : ∀ x ∈ e, x.Passing i) : Beat i s s' e
  /-- what the drain does between taking one item and the next -/
  | work {s' : Service} {e : Option Entry} (busy : s.Busy) (queue : s'.queue = s.queue)
      (status : s'.status = s.status)
      (slot : ∀ t, s'.slot.isActive t = true → s.slot.isActive t = true ∨
        ∃ v b, e = some (.activated i t v b))
      (course : ∀ x ∈ e, x.course? ≠ some i) : Beat i s s' e
  | start {s' : Service} {e : Option Entry} (notStarted : s.status = .notStarted)
      (running : s'.status = .running)
      (queue : s'.queue = s.queue) (slot : s'.slot = s.slot) (passing : ∀ x ∈ e, x.Passing i) :
      Beat i s s' e
  | stop {s' : Service} {e : Option Entry} (running : s.status = .running)
      (stopped : s'.status = .stopped)
      (queue : s'.queue = s.queue) (slot : s'.slot = .empty) (passing : ∀ x ∈ e, x.Passing i) :
      Beat i s s' e
  | accept (item : Item) (running : s.status = .running) :
      Beat i s { s with queue := s.queue.enqueue item } (some (.accepted i item))
  | drop (stopped : s.status = .stopped) :
      Beat i s { s with queue := s.queue.clear, listeners := [] } none
  | enter (running : s.status = .running) (idle : s.queue.draining = false) :
      Beat i s { s with queue := s.queue.enter } (some (.began i))
  | leave (halt : Option Halt) (busy : s.Busy)
      (drained : halt = none → s.status = .running → s.queue.items = []) :
      Beat i s { s with queue := s.queue.leave halt.isSome } (some (.ended i halt))
  | take {item : Item} {rest : List Item} (busy : s.Busy) (running : s.status = .running)
      (items : s.queue.items = item :: rest) :
      Beat i s { s with queue := s.queue.dequeue.2 } (some (.taken i item))

namespace Beat

variable {i : Nat} {s s' : Service} {x : Entry}

/-- Something that anybody may do, and write. -/
theorem passed (queue : s'.queue = s.queue) (status : s'.status = s.status)
    (slot : s'.slot = s.slot ∨ s'.slot = .empty) (passing : x.Passing i) :
    Beat i s s' (some x) := by
  refine .pass queue status slot fun y hy => ?_
  cases hy
  exact passing

/-- Something that anybody may do, without writing of it. -/
theorem unseen (queue : s'.queue = s.queue) (status : s'.status = s.status)
    (slot : s'.slot = s.slot ∨ s'.slot = .empty) :
    Beat i s s' none :=
  .pass queue status slot (fun _ hx => nomatch hx)

/-- Something that the drain does, and writes. -/
theorem worked (busy : s.Busy) (queue : s'.queue = s.queue) (status : s'.status = s.status)
    (slot : ∀ t, s'.slot.isActive t = true → s.slot.isActive t = true ∨
      ∃ v b, x = .activated i t v b)
    (course : x.course? ≠ some i) : Beat i s s' (some x) := by
  refine .work busy queue status (fun t ht => ?_) fun y hy => ?_
  · rcases slot t ht with active | ⟨v, b, rfl⟩
    · exact Or.inl active
    · exact Or.inr ⟨v, b, rfl⟩
  · cases hy
    exact course

end Beat

/-- A change with one entry at most, which is written after it. -/
structure Tick (w w' : World) : Prop where
  entry : ∃ e : Option Entry,
    w'.journal = e.toList ++ w.journal ∧ w'.points = e.toList.map (fun _ => w'.now) ++ w.points ∧
    (∀ (i : Nat) (s : Service), w.services[i]? = some s → ∃ s', w'.services[i]? = some s' ∧
      Beat i s s' e) ∧
    ∀ i : Nat, w.services[i]? = none → (∀ x ∈ e, x.service? ≠ some i) ∧
    ∀ s', w'.services[i]? = some s' → s'.Fresh

/-- Ticks one after the other. -/
abbrev Ticks : World → World → Prop := Relation.ReflTransGen Tick

namespace Tick

variable {w w' : World} {i : Nat} {s : Service} {f : Service → Service} {e : Entry}

/-- An entry that is no service's doing. -/
theorem reported (h : ∀ j, e.service? ≠ some j) : Tick w (w.noted e) := by
  refine ⟨some e, rfl, rfl, fun j s' hs' =>
    ⟨s', hs', .passed rfl rfl (Or.inl rfl) (.of_service? (h j))⟩, fun j hn => ⟨?_, ?_⟩⟩
  · rintro x ⟨⟩
    exact h j
  · intro s' hs'
    rw [World.noted_services, hn] at hs'
    cases hs'

theorem changed (hs : w.services[i]? = some s) (h : Beat i s (f s) none) :
    Tick w (w.change i f) := by
  refine ⟨none, rfl, rfl, fun j s' hs' => ?_, fun j hn =>
    ⟨(fun _ hx => nomatch hx), fun s' hs' => ?_⟩⟩
  · by_cases hij : i = j
    · subst hij
      cases hs.symm.trans hs'
      exact ⟨f s, World.change_self f hs, h⟩
    · exact ⟨s', (World.change_ne w f hij).trans hs', .unseen rfl rfl (Or.inl rfl)⟩
  · have hij : i ≠ j := fun hij => by rw [hij, hn] at hs; cases hs
    rw [World.change_ne w f hij, hn] at hs'
    cases hs'

theorem wrote (hs : w.services[i]? = some s) (own : ∀ j, j ≠ i → e.service? ≠ some j)
    (h : Beat i s (f s) (some e)) :
    Tick w ((w.change i f).noted e) := by
  refine ⟨some e, rfl, rfl, fun j s' hs' => ?_, fun j hn => ⟨?_, fun s' hs' => ?_⟩⟩
  · by_cases hij : i = j
    · subst hij
      cases hs.symm.trans hs'
      exact ⟨f s, World.change_self f hs, h⟩
    · have others := Entry.Passing.of_service? (own j (Ne.symm hij))
      exact ⟨s', (World.change_ne w f hij).trans hs', .passed rfl rfl (Or.inl rfl) others⟩
  · rintro x ⟨⟩
    refine own j fun hij => ?_
    rw [hij, hs] at hn
    cases hn
  · have hij : i ≠ j := fun hij => by rw [hij, hn] at hs; cases hs
    rw [World.noted_services, World.change_ne w f hij, hn] at hs'
    cases hs'

/-- An entry that is written without a change. -/
theorem noted (hs : w.services[i]? = some s) (own : ∀ j, j ≠ i → e.service? ≠ some j)
    (h : Beat i s s (some e)) :
    Tick w (w.noted e) := by
  have wrote : Tick w ((w.change i id).noted e) := wrote hs own h
  rwa [World.change_id hs rfl] at wrote

end Tick

/-! ### Steps, taken apart -/

namespace Entry

theorem only {e : Entry} {i : Nat} (h : e.service? = some i) : ∀ j, j ≠ i → e.service? ≠ some j :=
  fun _ hij hj => hij (Option.some.inj (hj.symm.trans h))

end Entry

namespace Ticks

variable {w w' : World} {i : Nat} {s : Service} {f : Service → Service} {entries : List Entry}

/-- Entries that are written one after the other, without a change. -/
theorem noted (hs : w.services[i]? = some s)
    (h : ∀ e ∈ entries, (∀ j, j ≠ i → e.service? ≠ some j) ∧ Beat i s s (some e)) :
    Ticks w (entries.foldr (fun e w => w.noted e) w) := by
  have services : (entries.foldr (fun e w => w.noted e) w).services = w.services := by
    clear h
    induction entries with
    | nil => rfl
    | cons e rest ih => exact ih
  induction entries with
  | nil => exact .refl
  | cons e rest ih =>
    have earlier := ih (fun e he => h e (List.mem_cons_of_mem _ he)) services
    obtain ⟨own, beat⟩ := h e List.mem_cons_self
    exact .tail earlier (.noted (services ▸ hs) own beat)

/-- A change, and then the entries that tell of it. -/
theorem turned (hs : w.services[i]? = some s) (change : Beat i s (f s) none)
    (h : ∀ e ∈ entries, e.service? = some i ∧ Beat i (f s) (f s) (some e)) :
    Ticks w (w.turned i f entries) := by
  refine .head (.changed hs change) (noted (World.change_self f hs) fun e he => ?_)
  obtain ⟨own, beat⟩ := h e he
  exact ⟨Entry.only own, beat⟩

theorem farewell (hs : w.services[i]? = some s) (change : Beat i s (f s) none) (slot : Slot) :
    Ticks w (w.turned i f (slot.farewell i)) := by
  refine turned hs change fun e he => ⟨Slot.service?_of_farewell he, ?_⟩
  exact .passed rfl rfl (Or.inl rfl) (Entry.passing_farewell he)

end Ticks

/-- A turn is one beat, or a change with entries that tell of it one by one. -/
theorem Turn.beats {i : Nat} {w : World} {s s' : Service} {l : Label} {entries : List Entry}
    (h : Turn i w s l s' entries) : (∃ e : Option Entry, entries = e.toList ∧ Beat i s s' e) ∨
      Beat i s s' none ∧ ∀ e ∈ entries, Beat i s' s' (some e) := by
  cases h with
  | supply | listeners | prepare => exact Or.inl ⟨none, rfl, .unseen rfl rfl (Or.inl rfl)⟩
  | commit _ busy =>
    exact Or.inl ⟨none, rfl, .work busy rfl rfl (fun _ => Or.inl) (fun _ hx => nomatch hx)⟩
  | drop stopped => exact Or.inl ⟨none, rfl, .drop stopped⟩
  | fault f => exact Or.inl ⟨some _, rfl, .passed rfl rfl (Or.inl rfl) ⟨nofun, nofun⟩⟩
  | accept item running => exact Or.inl ⟨some _, rfl, .accept item running⟩
  | leave halt busy drained => exact Or.inl ⟨some _, rfl, .leave halt busy drained⟩
  | take busy running _ items => exact Or.inl ⟨some _, rfl, .take busy running items⟩
  | publish busy | move busy =>
    exact Or.inl ⟨some _, rfl, .worked busy rfl rfl (fun _ => Or.inl) nofun⟩
  | @activate _ invocation busy =>
    refine Or.inl
      ⟨some _, rfl, .worked busy rfl rfl (fun t ht => Or.inr ⟨invocation, s.slot, ?_⟩) nofun⟩
    have ht : Int.ofNat s.supply = t := by simpa using ht
    rw [ht]
  | retire busy => exact Or.inl ⟨some _, rfl, .worked busy rfl rfl (fun _ => nofun) nofun⟩
  | stop running =>
    refine Or.inr ⟨.stop running rfl rfl rfl (fun _ hx => nomatch hx), fun e he => ?_⟩
    exact .passed rfl rfl (Or.inl rfl) (Entry.passing_farewell he)
  | @attach t g busy present =>
    have busy' : Service.Busy { s with slot := (s.slot.attach t g).1 } :=
      ⟨busy.draining, busy.started⟩
    refine Or.inr
      ⟨.work busy rfl rfl (fun u hu => Or.inl ?_) (fun _ hx => nomatch hx), fun e he => ?_⟩
    · cases ht : s.slot.isActive t with
      | true => rw [Slot.attach_of_active present ht] at hu; exact hu
      | false => rw [Slot.attach_of_inactive present ht] at hu; exact hu
    · rcases Slot.mem_welcome present he with rfl | rfl
      · exact .worked busy' rfl rfl (fun _ => Or.inl) nofun
      · exact .passed rfl rfl (Or.inl rfl) Entry.passing_cancel

theorem Turn.ticks {i : Nat} {w : World} {s : Service} {l : Label} {f : Service → Service}
    {entries : List Entry} (hs : w.services[i]? = some s) (h : Turn i w s l (f s) entries) :
    Ticks w (w.turned i f entries) := by
  have own := h.service?
  rcases h.beats with ⟨e, rfl, beat⟩ | ⟨change, told⟩
  · cases e with
    | none => exact .single (.changed hs beat)
    | some e => exact .single (.wrote hs (Entry.only (own e List.mem_cons_self)) beat)
  · exact .turned hs change fun e he => ⟨own e he, told e he⟩

/-- What a drain begins with is told before it begins. -/
theorem Opening.beat {i : Nat} {s s₁ : Service} {e : Entry} (h : Opening i s s₁ e) :
    Beat i s s₁ (some e) := by
  cases h with
  | start c text notStarted =>
    refine .start notStarted rfl rfl rfl fun x hx => ?_
    cases hx
    exact .of_isReport rfl
  | accept item running => exact .accept item running

theorem Cause.beat {i : Nat} {s : Service} {l : Label} {e : Entry} (h : Cause i s l e) :
    Beat i s s (some e) := by
  cases h with
  | exit busy => exact .worked busy rfl rfl (fun _ => Or.inl) nofun
  | revoke => exact .passed rfl rfl (Or.inl rfl) (.of_isReport rfl)

/-- A call is reported, or it is a part of what a drain does. -/
theorem Tick.called {w : World} {owner : Owner} {role : Role} {f : Value} {args : List Object}
    (other : role.isCancel = false) (h : w.Sanctions owner role f) :
    Tick w (w.noted (.called owner role f args)) := by
  by_cases vetted : ∃ i, (Entry.called owner role f args).service? = some i
  · obtain ⟨i, hi⟩ := vetted
    obtain ⟨rfl, vetted⟩ := Entry.vetted_of_service? other hi
    obtain ⟨⟨s, hs, busy⟩, -⟩ := h i rfl vetted
    exact .noted hs (Entry.only hi) (.worked busy rfl rfl (fun _ => Or.inl) nofun)
  · exact .reported fun j hj => vetted ⟨j, hj⟩

/-- Every step can be taken apart. -/
theorem Step.ticks {l : Label} {w w' : World} (h : Step l w w') : Ticks w w' := by
  cases h with
  | aside services journal points =>
    refine .single ⟨none, journal, points, fun i s hs => ?_, fun i hn =>
      ⟨(fun _ hx => nomatch hx), fun s' hs' => ?_⟩⟩
    · exact ⟨s, services ▸ hs, .unseen rfl rfl (Or.inl rfl)⟩
    · rw [services, hn] at hs'
      cases hs'
  | report report =>
    refine .single (.reported fun j => ?_)
    rw [Entry.service?_of_isReport report]
    exact nofun
  | call other sanctioned => exact .single (.called other sanctioned)
  | create fresh =>
    have born : ∀ i : Nat, w.services[i]? = none → ∀ s', (w.services ++ [_])[i]? = some s' →
        s'.Fresh := fun i hn s' hs' =>
      ((Step.create fresh).born hn hs').1
    refine .single ⟨none, rfl, rfl, fun i s hs => ⟨s, ?_, .unseen rfl rfl (Or.inl rfl)⟩, fun i hn =>
      ⟨(fun _ hx => nomatch hx), born i hn⟩⟩
    rw [List.getElem?_append_left (List.getElem?_eq_some_iff.mp hs).1]
    exact hs
  | @enter _ i s f e service opening idle =>
    have begun : Beat i (f s) { f s with queue := (f s).queue.enter } (some (.began i)) :=
      .enter opening.running (opening.draining.trans idle)
    refine .head (.wrote service (fun j hj => opening.service?_ne (Ne.symm hj)) opening.beat)
      (.single ?_)
    exact .wrote (World.change_self f service) (Entry.only rfl) begun
  | @cancel _ i s _ e service cause =>
    refine .head (.noted service (fun j hj => cause.service?_ne (Ne.symm hj)) cause.beat) ?_
    exact Ticks.farewell (w := w.noted e) service (.unseen rfl rfl (Or.inr rfl)) s.slot
  | turn service turn => exact turn.ticks service

theorem Path.ticks {sc : Scope} {w w' : World} (h : Path sc w w') : Ticks w w' := by
  induction h with
  | refl => exact .refl
  | tail _ hs ih =>
    obtain ⟨l, -, hs⟩ := hs
    exact ih.trans hs.ticks

theorem Tick.journal {w w' : World} (h : Tick w w') : w.journal <:+ w'.journal := by
  obtain ⟨e, journal, -⟩ := h.entry
  rw [journal]
  exact List.suffix_append _ _

theorem Ticks.journal {w w' : World} (h : Ticks w w') : w.journal <:+ w'.journal := by
  induction h with
  | refl => exact List.suffix_refl _
  | tail _ ht ih => exact ih.trans ht.journal

theorem Tick.points {w w' : World} (h : Tick w w') : w.points <:+ w'.points := by
  obtain ⟨e, -, points, -⟩ := h.entry
  rw [points]
  exact List.suffix_append _ _

theorem Ticks.points {w w' : World} (h : Ticks w w') : w.points <:+ w'.points := by
  induction h with
  | refl => exact List.suffix_refl _
  | tail _ ht ih => exact ih.trans ht.points

/-! ### What every beat keeps -/

/-- Every point is that of a world on the way. -/
theorem Ticks.passed {w w' : World} (h : Ticks w w') {p : Point} (hp : p ∈ w'.passed) :
    p ∈ w.points ∨ ∃ v, Ticks w v ∧ Ticks v w' ∧ v.now = p := by
  induction h with
  | refl =>
    rcases List.mem_cons.mp hp with rfl | hp
    · exact Or.inr ⟨w, .refl, .refl, rfl⟩
    · exact Or.inl hp
  | @tail u w' hu hs ih =>
    have before : p ∈ u.passed → p ∈ w.points ∨ ∃ v, Ticks w v ∧ Ticks v w' ∧ v.now = p := by
      intro hp
      rcases ih hp with hp | ⟨v, hv, hvu, now⟩
      · exact Or.inl hp
      · exact Or.inr ⟨v, hv, hvu.tail hs, now⟩
    have now : p = w'.now → ∃ v, Ticks w v ∧ Ticks v w' ∧ v.now = p :=
      fun h => ⟨w', hu.tail hs, .refl, h.symm⟩
    rcases List.mem_cons.mp hp with rfl | hp
    · exact Or.inr (now rfl)
    · obtain ⟨e, -, points, -⟩ := hs.entry
      rw [points] at hp
      rcases List.mem_append.mp hp with hp | hp
      · obtain ⟨-, -, rfl⟩ := List.mem_map.mp hp
        exact Or.inr (now rfl)
      · exact before (List.mem_cons_of_mem _ hp)

/-- From any world on, what every beat keeps lasts. -/
theorem Ticks.keeps {w w' : World} (h : Ticks w w') {i : Nat} {K : Service → List Entry → Prop}
    (beat : ∀ s s' e journal, Beat i s s' e → K s journal → K s' (e.toList ++ journal))
    {s : Service} (hs : w.services[i]? = some s) (hk : K s w.journal) :
    ∃ s', w'.services[i]? = some s' ∧ K s' w'.journal := by
  induction h with
  | refl => exact ⟨s, hs, hk⟩
  | tail _ ht ih =>
    obtain ⟨s₁, hs₁, hk₁⟩ := ih
    obtain ⟨e, journal, -, beats, -⟩ := ht.entry
    obtain ⟨s₂, hs₂, hb⟩ := beats i s₁ hs₁
    exact ⟨s₂, hs₂, journal ▸ beat _ _ _ _ hb hk₁⟩

/-- What holds of every service as it is made, and is kept by every beat, holds of all services. -/
theorem Ticks.holds {w w' : World} (h : Ticks w w') {J : Nat → Service → List Entry → Prop}
    (fresh : ∀ i s journal, s.Fresh → (∀ e ∈ journal, e.service? ≠ some i) → J i s journal)
    (beat : ∀ i s s' e journal, Beat i s s' e → J i s journal → J i s' (e.toList ++ journal))
    (hw : w.services = [] ∧ w.journal = []) {i : Nat} {s : Service}
    (hs : w'.services[i]? = some s) :
    J i s w'.journal := by
  have both : (∀ s, w'.services[i]? = some s → J i s w'.journal) ∧
      (w'.services[i]? = none → ∀ e ∈ w'.journal, e.service? ≠ some i) := by
    clear hs s
    induction h with
    | refl =>
      rw [hw.1, hw.2]
      exact ⟨nofun, fun _ => List.forall_mem_nil _⟩
    | @tail u w' _ ht ih =>
      obtain ⟨now, unborn⟩ := ih
      obtain ⟨e, journal, -, beats, births⟩ := ht.entry
      rw [journal]
      cases hu : u.services[i]? with
      | some s₁ =>
        obtain ⟨s₂, hs₂, hb⟩ := beats i s₁ hu
        rw [hs₂]
        refine ⟨fun s hs => ?_, nofun⟩
        cases hs
        exact beat i _ _ _ _ hb (now s₁ hu)
      | none =>
        obtain ⟨silent, born⟩ := births i hu
        have others : ∀ x ∈ e.toList ++ u.journal, x.service? ≠ some i := by
          intro x hx
          rcases List.mem_append.mp hx with hx | hx
          · exact silent x (Option.mem_toList.mp hx)
          · exact unborn hu x hx
        exact ⟨fun s hs => fresh i s _ (born s hs) others, fun _ => others⟩
  exact both.1 s hs

namespace World

variable {book : Book} {fuel : Nat} {looping : Bool} {history : List Command}

/-- Every point of a history is that of a world on the way. -/
theorem ticks_of_passed {p : Point}
    (hp : p ∈ ((World.start looping).after (.ofBook book fuel) history).passed) :
    ∃ v, Ticks (World.start looping) v ∧
    Ticks v ((World.start looping).after (.ofBook book fuel) history) ∧
      v.now = p := by
  have ticks :=
    (walk_after (Engine.tame_ofBook book fuel) (atRest_start looping) history).path.ticks
  rcases ticks.passed hp with hp | reached
  · cases hp
  · exact reached

/-- What was written before a point was passed stays written. -/
theorem journal_of_passed {p : Point}
    (hp : p ∈ ((World.start looping).after (.ofBook book fuel) history).passed) :
    p.journal <:+ ((World.start looping).after (.ofBook book fuel) history).journal := by
  obtain ⟨v, -, after, rfl⟩ := ticks_of_passed hp
  exact after.journal

/-- What holds of every service as it is made, and is kept by every beat, holds at every point of
a history. -/
theorem holds_of_passed {J : Nat → Service → List Entry → Prop}
    (fresh : ∀ i s journal, s.Fresh → (∀ e ∈ journal, e.service? ≠ some i) → J i s journal)
    (beat : ∀ i s s' e journal, Beat i s s' e → J i s journal → J i s' (e.toList ++ journal))
    {p : Point} (hp : p ∈ ((World.start looping).after (.ofBook book fuel) history).passed)
    {i : Nat} {s : Service} (hs : p.services[i]? = some s) : J i s p.journal := by
  obtain ⟨v, before, -, rfl⟩ := ticks_of_passed hp
  exact before.holds fresh beat ⟨rfl, rfl⟩ hs

end World

end FlatMachine
