import FlatMachine.Proofs.Invocation.Occupancy

/-! # When cancel callbacks are called

An invocation whose source returned a cancel callback is active, or it was cancelled, or it was
retired (**`Stands`**).  The callback is called once if it was cancelled, and never otherwise.
The one place where the journal says less is between the cancellation and the call
(**`Point.Cancelling`**).

An invocation is cancelled by the step that empties the slot; a stop takes it first, and so does
the interface of the active invocation, but not that of any other.  Whoever moves to another
state has taken it as well (**`World.inactive_of_moved`**). -/

namespace FlatMachine

/-- The entry is a call of the cancel callback of the token. -/
def Entry.calls (i : Nat) (t : Token) : Entry → Bool
  | called (.service j) (.cancel (some u)) .. => j == i && u == t
  | _ => false

/-- The entry makes the token the active one. -/
def Entry.activates (i : Nat) (t : Token) : Entry → Bool
  | activated j u .. => j == i && u == t
  | _ => false

/-- The invocation is cancelled, and the call of its cancel callback is due. -/
structure Point.Cancelling (p : Point) (i : Nat) (t : Token) : Prop where
  due : p.Due i t
  cancelled : .cancelled i t ∈ p.journal

/-- How an invocation stands that has a cancel callback. -/
inductive Stands (s : Service) (i : Nat) (t : Token) (f : Value) (journal : List Entry) : Prop where
  | active (slot : s.slot = ⟨some t, some f⟩) (uncancelled : .cancelled i t ∉ journal)
      (unretired : .retired i t ∉ journal) (uncalled : journal.filter (Entry.calls i t) = [])
  | cancelled (inactive : s.slot.isActive t = false) (cancelled : .cancelled i t ∈ journal)
      (unretired : .retired i t ∉ journal)
      (called : journal.filter (Entry.calls i t) = [.called (.service i) (.cancel (some t)) f []])
  | retired (inactive : s.slot.isActive t = false) (retired : .retired i t ∈ journal)
      (uncancelled : .cancelled i t ∉ journal) (uncalled : journal.filter (Entry.calls i t) = [])

/-! ### What a life says -/

namespace Entry

variable {i : Nat} {t : Token} {e : Entry}

theorem about_of_calls (h : e.calls i t = true) : e.about i t = true := by
  unfold calls at h
  split at h
  · exact h
  · cases h

theorem about_of_activates (h : e.activates i t = true) : e.about i t = true := by
  cases e <;> first | exact h | cases h

theorem mem_filter_about {journal : List Entry} (he : e.about i t = true) :
    e ∈ journal.filter (about i t) ↔ e ∈ journal :=
  List.mem_filter.trans (and_iff_left he)

end Entry

namespace Life

variable {i : Nat} {t : Token} {f : Value} {held : Option (Option Value)} {past : List Entry}

theorem activates_le (life : Life i t held past) : past.countP (Entry.activates i t) ≤ 1 := by
  cases life <;> simp [Entry.activates]

/-- The slot is empty when an invocation is started. -/
theorem before_eq {invocation : Value} {before : Slot} (life : Life i t held past)
    (h : .activated i t invocation before ∈ past) : before = .empty := by
  cases life <;> simp_all

/-- A call of the cancel callback is the last entry, after the cancellation. -/
theorem cancelled_of_called
    (life : Life i t held (.called (.service i) (.cancel (some t)) f [] :: past)) :
    .cancelled i t ∈ past := by
  cases life <;> simp

/-- A life with a cancel callback, if the journal tells it and the slot holds what it says. -/
theorem stands {s : Service} {journal : List Entry}
    (life : Life i t (s.slot.held? t) (journal.filter (Entry.about i t)))
    (attached : .attached i t f ∈ journal) :
    Stands s i t f journal := by
  have own : ∀ e :
      Entry, e.about i t = true → (e ∈ journal ↔ e ∈ journal.filter (Entry.about i t)) :=
    fun e he => (Entry.mem_filter_about he).symm
  have calls := Entry.filter_about (fun _ => Entry.about_of_calls (i := i) (t := t)) journal
  have attached := (own _ (by simp [Entry.about])).mp attached
  have cancelled := own (.cancelled i t) (by simp [Entry.about])
  have retired := own (.retired i t) (by simp [Entry.about])
  generalize hh : s.slot.held? t = held at life
  generalize journal.filter (Entry.about i t) = past at life attached cancelled retired calls
  cases life with
  | unborn => cases attached
  | started | forgotten | failed => simp at attached
  | recorded =>
    obtain rfl : f = _ := by simpa using attached
    refine .active (Slot.eq_of_held? hh) (by simp [cancelled]) (by simp [retired]) ?_
    rw [← calls]
    rfl
  | recalled | cancelled =>
    obtain rfl : f = _ := by simpa using attached
    refine .cancelled (Slot.inactive_of_held? hh) (by simp [cancelled]) (by simp [retired]) ?_
    rw [← calls]
    simp [Entry.calls]
  | settled =>
    refine .retired (Slot.inactive_of_held? hh) (by simp [retired]) (by simp [cancelled]) ?_
    rw [← calls]
    rfl

end Life

theorem Service.Lived.activates_le {i : Nat} {s : Service} {journal : List Entry}
    (h : s.Lived i journal) (t : Token) :
    journal.countP (Entry.activates i t) ≤ 1 := by
  rw [← Entry.countP_about fun _ => Entry.about_of_activates]
  exact (h.life t).activates_le

namespace World

variable {book : Book} {fuel : Nat} {looping : Bool} {history : List Command} {p : Point} {i : Nat}
  {s : Service} {t : Token}

/-- Unless the call of its cancel callback is due, the journal tells the life of an invocation at
every point. -/
theorem life_of_passed (hp : p ∈ ((World.start looping).after (.ofBook book fuel) history).passed)
    (hs : p.services[i]? = some s) (h : ¬ p.Cancelling i t) :
    Life i t (s.slot.held? t) (p.journal.filter (Entry.about i t)) := by
  rcases has_of_passed Service.lasting_lived hp hs with lived | ⟨u, f, due, lived⟩
  · exact lived.life t
  · have life := lived.life t
    by_cases hu : u = t
    · subst hu
      rw [List.filter_cons_of_pos (by simp [Entry.about])] at life
      exact absurd ⟨due,
        (Entry.mem_filter_about (by simp [Entry.about])).mp life.cancelled_of_called⟩ h
    · rwa [Entry.filter_cons_of_not_about (by simpa [Entry.about] using hu)] at life

/-- Whoever moved to another state has ended the invocations started before. -/
theorem inactive_of_moved
    (hp : p ∈ ((World.start looping).after (.ofBook book fuel) history).passed)
    (hs : p.services[i]? = some s) {later earlier : List Entry} {source target invocation : Value}
    {before : Slot} (hj : p.journal = later ++ .moved i source target :: earlier)
    (ha : .activated i t invocation before ∈ earlier) :
    s.slot.isActive t = false := by
  obtain ⟨due, lived, occupied⟩ :=
    (has_of_passed (Service.lasting_lived.and Service.lasting_occupied) hp hs).extended
  refine Bool.eq_false_iff.mpr fun active => ?_
  obtain ⟨invocation', occupies⟩ := occupied t active
  obtain ⟨later', earlier', hj', hl⟩ := occupies.started
  have once := lived.activates_le t
  rw [hj'] at once
  rw [hj, ← List.append_assoc] at hj'
  -- The move is after the start, which it would have ended, or between it and an earlier start of
  -- the same token.
  rcases List.append_eq_append_iff.mp hj' with ⟨between, rfl, hb⟩ | ⟨between, -, hb⟩
  · cases between with
    | nil => cases hb
    | cons e between =>
      rw [List.cons_append] at hb
      obtain ⟨rfl, -⟩ := List.cons.inj hb
      exact hl (.moved i source target) (by simp) rfl
  · cases between with
    | nil => cases hb
    | cons e between =>
      rw [List.cons_append] at hb
      obtain ⟨rfl, rfl⟩ := List.cons.inj hb
      have again : 0 < earlier.countP (Entry.activates i t) :=
        List.countP_pos_iff.mpr ⟨_, ha, by simp [Entry.activates]⟩
      rw [List.countP_append, List.countP_cons_of_pos (by simp [Entry.activates]),
        List.countP_append,
        List.countP_cons_of_neg (by simp [Entry.activates])] at once
      omega

end World

/-! ### Ways to cancel -/

namespace World

/-- The cancel callback of an invocation is called once if the invocation was cancelled, and not
if it is active or was retired.  No callback is lost by starting another invocation, and
cancelling is for the active one. -/
theorem cancel_callbacks_called (book : Book) (fuel : Nat) (looping : Bool)
    (history : List Command) :
    let w := (World.start looping).after (.ofBook book fuel) history
    (∀ p ∈ w.passed, ∀ i s t f, p.services[i]? = some s → .attached i t f ∈ p.journal →
      p = w.now ∨ ¬ p.Cancelling i t → Stands s i t f p.journal) ∧
    (∀ i t invocation before, .activated i t invocation before ∈ w.journal → before = .empty) ∧
    (∀ p ∈ w.passed, ∀ i s t later earlier source target invocation before,
      p.services[i]? = some s →
      p.journal = later ++ .moved i source target :: earlier →
      .activated i t invocation before ∈ earlier →
      s.slot.isActive t = false) ∧
    ∀ (g : Engine) v i s t, v.services[i]? = some s →
      (g.cancelInvocation i).run v =
        (g.finishCancelling i s.slot).run (v.turned i (fun s => { s with slot := .empty })
          (s.slot.farewell i)) ∧
      (s.slot.isActive t = true → (g.cancelIfActive i t).run v = (g.cancelInvocation i).run v) ∧
      (s.slot.isActive t = false → (g.cancelIfActive i t).run v = (.ok (), v)) ∧
      (s.status = .running → (g.stop i).run v =
        (g.cancelInvocation i >>= fun _ => Run.finishStop i).run
        (v.change i fun s => { s with status := .stopped })) := by
  have lasts := lasts_after Service.lasting_lived book fuel looping history
  refine ⟨fun p hp i s t f hs attached h => ?_, fun i t invocation before he => ?_, ?_, ?_⟩
  · rcases h with rfl | h
    · exact ((lasts.now i s hs).life t).stands attached
    · exact (life_of_passed hp hs h).stands attached
  · cases hs : ((World.start looping).after (.ofBook book fuel) history).services[i]? with
    | some s =>
      exact ((lasts.now i s hs).life t).before_eq
        ((Entry.mem_filter_about (by simp [Entry.about])).mpr he)
    | none => exact absurd rfl (lasts.unborn i hs _ he)
  · exact fun p hp i s t later earlier source target invocation before hs hj ha =>
      inactive_of_moved hp hs hj ha
  · intro g v i s t hs
    exact ⟨Engine.run_cancelInvocation hs, Engine.run_cancelIfActive_active hs,
      Engine.run_cancelIfActive_inactive hs, Engine.run_stop hs⟩

end World

theorem Swing.attached {t : Token} (ht : t = 6 ∨ t = 10) :
    ∃ f, .attached 0 t f ∈ Swing.world.journal := by
  have attached : Swing.world.journal.any (fun
      | .attached i u _ => i == 0 && u == t
      | _ => false) = true := by
    rcases ht with rfl | rfl <;> decide +kernel
  obtain ⟨e, he, h⟩ := List.any_eq_true.mp attached
  split at h
  · simp only [Bool.and_eq_true, beq_iff_eq] at h
    obtain ⟨rfl, rfl⟩ := h
    exact ⟨_, he⟩
  · cases h

/-- The cancel callback of the swing's first invocation was called once, that of the second
never. -/
theorem Swing.called_once : ∃ s f f', Swing.world.services[0]? = some s ∧
    Stands s 0 6 f Swing.world.journal ∧ Stands s 0 10 f' Swing.world.journal ∧
    Swing.world.journal.countP (Entry.calls 0 6) = 1 ∧
    Swing.world.journal.countP (Entry.calls 0 10) = 0 := by
  have stands : ∀ p ∈ Swing.world.passed, ∀ i s t f, p.services[i]? = some s →
    .attached i t f ∈ p.journal →
      p = Swing.world.now ∨ ¬ p.Cancelling i t → Stands s i t f p.journal :=
    (World.cancel_callbacks_called Swing.book 4 true Swing.life).1
  obtain ⟨s, hs⟩ :=
    Option.isSome_iff_exists.mp (by decide +kernel : Swing.world.services[0]?.isSome = true)
  obtain ⟨f, first⟩ := Swing.attached (Or.inl rfl)
  obtain ⟨f', second⟩ := Swing.attached (Or.inr rfl)
  have once : Swing.world.journal.countP (Entry.calls 0 6) = 1 := by decide +kernel
  have never : Swing.world.journal.countP (Entry.calls 0 10) = 0 := by decide +kernel
  generalize Swing.world = w at *
  have now := stands w.now List.mem_cons_self 0 s
  exact ⟨s, f, f', hs, now 6 f hs first (Or.inl rfl), now 10 f' hs second (Or.inl rfl), once, never⟩

end FlatMachine
