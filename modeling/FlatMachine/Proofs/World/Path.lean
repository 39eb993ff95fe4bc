import FlatMachine.Proofs.World.Fate

/-! # What a drain can rely on

While the drain of a service calls callbacks, these may do whatever they like to other services,
and to this one whatever does not take a drain.

* **`World.Kept`**: what steps that are not the service's own leave of it, and of the journal
  that its drain writes.
* **`World.Sane`**: what holds of every service between the steps, whoever takes them.
* **`Path`**: steps one after the other.  Those are allowed that are granted, and those of
  services that nobody was draining at first.  Paths with the same grants compose, since a drain
  that is in progress stays so. -/

namespace FlatMachine

/-! ### Frames -/

namespace World

/-- What others leave of a service, and of the journal that its drain writes. -/
structure Kept (i : Nat) (w w' : World) : Prop where
  service : ∀ s, w.services[i]? = some s → ∃ s', w'.services[i]? = some s' ∧ s.Holds s'
  journal : ∃ later, w'.journal = later ++ w.journal ∧ ∀ e ∈ later, e.driver ≠ some i

/-- All services are as they have to be when somebody has a turn. -/
def Sane (w : World) :
    Prop := ∀ (i : Nat) (s : Service), w.services[i]? = some s → s.Sane i w.points

namespace Kept

variable {i : Nat} {w w' w'' : World}

theorem refl (w : World) : Kept i w w :=
  ⟨fun s hs => ⟨s, hs, .refl s⟩, [], rfl, List.forall_mem_nil _⟩

theorem trans (h : Kept i w w') (h' : Kept i w' w'') : Kept i w w'' where
  service := fun s hs => by
    obtain ⟨s', hs', hh⟩ := h.service s hs
    obtain ⟨s'', hs'', hh'⟩ := h'.service s' hs'
    exact ⟨s'', hs'', hh.trans hh'⟩
  journal := by
    obtain ⟨later, hj, hd⟩ := h.journal
    obtain ⟨later', hj', hd'⟩ := h'.journal
    exact ⟨later' ++ later, by
      rw [hj', hj, List.append_assoc], List.forall_mem_append.mpr ⟨hd', hd⟩⟩

theorem opened {t : Token} (h : Kept i w w')
    (ho : Opened i t w.journal) : Opened i t w'.journal := by
  obtain ⟨later, earlier, invocation, before, hj, hd⟩ := ho
  obtain ⟨later', hj', hd'⟩ := h.journal
  refine ⟨later' ++ later, earlier, invocation, before, by rw [hj', hj, List.append_assoc], ?_⟩
  exact List.forall_mem_append.mpr ⟨hd', hd⟩

end Kept

end World

namespace Step

variable {l : Label} {w w' : World} {i : Nat}

theorem journal (h : Step l w w') : w.journal <:+ w'.journal := by
  cases h with
  | aside _ journal => exact journal ▸ List.suffix_refl _
  | report | call => exact List.suffix_cons _ _
  | create => exact List.suffix_refl _
  | enter => exact (List.suffix_cons _ _).trans (List.suffix_cons _ _)
  | cancel =>
    rw [World.emptied_journal]
    exact (List.suffix_cons _ _).trans (List.suffix_append _ _)
  | @turn _ _ _ _ _ entries => rw [World.turned_journal]; exact List.suffix_append _ _

theorem busy (h : Step l w w') (hl : l ≠ .frame i) : w.Busy i → w'.Busy i := by
  rintro ⟨s, hs, hb⟩
  obtain ⟨s', entries, hs', -, hf⟩ := h.fate hs
  exact ⟨s', hs', hf.busy hl hb⟩

/-- A step that is not of the service's own drain. -/
theorem kept {s : Service} (h : Step l w w') (hs : w.services[i]? = some s)
    (hl : l.service? ≠ some i) :
    w.Kept i w' := by
  obtain ⟨s', entries, hs', hj, hf⟩ := h.fate hs
  refine ⟨fun s₁ hs₁ => ?_, entries, hj, hf.driver hl⟩
  cases hs.symm.trans hs₁
  exact ⟨s', hs', hf.holds hl⟩

theorem sane (h : Step l w w') (hw : w.Sane) : w'.Sane := by
  intro i s' hs'
  cases hs : w.services[i]? with
  | none =>
    have fresh := (h.born hs hs').1
    refine ⟨fun _ => fresh.slot, fun _ => ?_, fun _ _ => ?_, fun hr => ?_⟩
    · rw [fresh.queue]; rfl
    · rw [fresh.queue]; rfl
    · rw [fresh.status] at hr
      cases hr
  | some s =>
    obtain ⟨s₁, entries, hs₁, hj, hf⟩ := h.fate hs
    cases hs'.symm.trans hs₁
    refine hf.sane (hw i s hs) h.points.subset fun halt he => ?_
    obtain ⟨p, hp, hps, hpj⟩ := h.head hj (by rw [he]; exact nofun)
    have halted := hpj.trans he
    exact ⟨p, hp, ⟨⟨halt, halted⟩, hps ▸ hs'⟩, Or.inr ⟨halt, halted⟩⟩

end Step

/-! ### Paths -/

/-- Who takes the steps: somebody outside of all drains, the processing of one item by a
service's drain, the same with the publication that follows, or the drain. -/
inductive Scope where
  | outside
  | item (i : Nat)
  | round (i : Nat)
  | drain (i : Nat)

/-- The steps that belong to the scope. -/
def Scope.grants : Scope → Label → Prop
  | .item i, .work j | .round i, .work j | .round i, .view j => i = j
  | .drain i, .work j | .drain i, .view j | .drain i, .take j => i = j
  | _, _ => False

theorem Scope.not_grants_frame (sc : Scope) (i : Nat) : ¬ sc.grants (.frame i) := by
  cases sc <;> exact not_false

/-- The step belongs to the scope, or to no service that somebody drains already. -/
def Scope.allows (sc : Scope) (w : World) (l : Label) : Prop :=
  sc.grants l ∨ ∀ i, l.service? = some i → ¬ w.Busy i

theorem Scope.allows_free (sc : Scope) (w : World) : sc.allows w .free := Or.inr nofun

/-- Steps one after the other, each allowed from the beginning. -/
def Path (sc : Scope) (w : World) : World → Prop :=
  Relation.ReflTransGen (fun v v' => ∃ l, sc.allows w l ∧ Step l v v') w

namespace Path

variable {sc : Scope} {i : Nat} {w w' w'' : World}

theorem refl (sc : Scope) (w : World) : Path sc w w := Relation.ReflTransGen.refl

theorem step {l : Label} (hl : sc.allows w l) (h : Step l w w') : Path sc w w' :=
  Relation.ReflTransGen.single ⟨l, hl, h⟩

theorem sane (h : Path sc w w') (hw : w.Sane) : w'.Sane := by
  induction h with
  | refl => exact hw
  | tail _ hs ih =>
    obtain ⟨l, -, hs⟩ := hs
    exact hs.sane ih

theorem journal (h : Path sc w w') : w.journal <:+ w'.journal := by
  induction h with
  | refl => exact List.suffix_refl _
  | tail _ hs ih =>
    obtain ⟨l, -, hs⟩ := hs
    exact ih.trans hs.journal

theorem points (h : Path sc w w') : w.points <:+ w'.points := by
  induction h with
  | refl => exact List.suffix_refl _
  | tail _ hs ih =>
    obtain ⟨l, -, hs⟩ := hs
    exact ih.trans hs.points

/-- What every step keeps holds at the end. -/
theorem keeps {I : World → Prop} (h : Path sc w w')
    (step : ∀ l v v', Step l v v' → v.Sane → I v → I v') (hw : w.Sane) (hI : I w) : I w' := by
  induction h with
  | refl => exact hI
  | tail hp hs ih =>
    obtain ⟨l, -, hs⟩ := hs
    exact step l _ _ hs (sane hp hw) ih

/-- A drain that is in progress stays so. -/
theorem busy (h : Path sc w w') (hb : w.Busy i) : w'.Busy i := by
  induction h with
  | refl => exact hb
  | tail _ hs ih =>
    obtain ⟨l, hl, hs⟩ := hs
    refine hs.busy ?_ ih
    rintro rfl
    rcases hl with hl | hl
    · exact sc.not_grants_frame i hl
    · exact hl i rfl hb

theorem allows_of_allows {l : Label} (h : Path sc w w') (hl : sc.allows w' l) : sc.allows w l := by
  rcases hl with hl | hl
  · exact Or.inl hl
  · exact Or.inr fun i hi hb => hl i hi (h.busy hb)

theorem trans (h : Path sc w w') (h' : Path sc w' w'') : Path sc w w'' := by
  refine Relation.ReflTransGen.trans h (Relation.ReflTransGen.mono ?_ _ _ h')
  rintro v v' ⟨l, hl, hs⟩
  exact ⟨l, h.allows_of_allows hl, hs⟩

theorem widen {sc' : Scope} (hsc : ∀ l, sc.grants l → sc'.grants l) (h : Path sc w w') :
    Path sc' w w' := by
  refine Relation.ReflTransGen.mono ?_ _ _ h
  rintro v v' ⟨l, hl | hl, hs⟩
  · exact ⟨l, Or.inl (hsc l hl), hs⟩
  · exact ⟨l, Or.inr hl, hs⟩

/-- What needs no drain can be done by anybody. -/
theorem ofOutside (h : Path .outside w w') : Path sc w w' := by
  have nothing : ∀ l, Scope.outside.grants l → sc.grants l := fun _ hl => False.elim hl
  exact h.widen nothing

/-- Processing an item is the first part of a round. -/
theorem ofItem (h : Path (.item i) w w') : Path (.round i) w w' :=
  h.widen fun l hl => by cases l <;> first | exact hl | cases hl

/-- A drain goes in rounds. -/
theorem ofRound (h : Path (.round i) w w') : Path (.drain i) w w' :=
  h.widen fun l hl => by cases l <;> first | exact hl | cases hl

/-- Nothing follows a stop. -/
theorem stopped {s : Service} (h : Path sc w w') (hs : w.services[i]? = some s)
    (hstop : s.status = .stopped) :
    ∃ s', w'.services[i]? = some s' ∧ s'.status = .stopped := by
  induction h with
  | refl => exact ⟨s, hs, hstop⟩
  | tail _ hstep ih =>
    obtain ⟨l, -, hstep⟩ := hstep
    obtain ⟨s₁, hs₁, hstop₁⟩ := ih
    obtain ⟨s₂, entries, hs₂, -, hf⟩ := hstep.fate hs₁
    exact ⟨s₂, hs₂, hf.stopped hstop₁⟩

/-- What is not of a service's own drain leaves to the drain what it relies on. -/
theorem kept (h : Path sc w w') (hsc : ∀ l, sc.grants l → l.service? ≠ some i) (hb : w.Busy i) :
    w.Kept i w' := by
  induction h with
  | refl => exact .refl w
  | tail hp hs ih =>
    obtain ⟨l, hl, hs⟩ := hs
    obtain ⟨s, hv, -⟩ := busy hp hb
    refine ih.trans (hs.kept hv ?_)
    rcases hl with hl | hl
    · exact hsc l hl
    · exact fun h => hl i h hb

/-- Processing an item publishes nothing. -/
theorem snapshot {s : Service} (h : Path (.item i) w w') (hs : w.services[i]? = some s)
    (hb : s.Busy) :
    ∃ s', w'.services[i]? = some s' ∧ s'.machine = s.machine ∧ s'.snapshot = s.snapshot := by
  induction h with
  | refl => exact ⟨s, hs, rfl, rfl⟩
  | tail _ hstep ih =>
    obtain ⟨l, hl, hstep⟩ := hstep
    obtain ⟨s₁, hs₁, hm, hn⟩ := ih
    obtain ⟨s₂, entries, hs₂, -, hf⟩ := hstep.fate hs₁
    have hi : l.service? = some i → l = .work i := by
      intro h
      rcases hl with hl | hl
      · cases l with
        | work j => rw [show i = j from hl]
        | _ => cases hl
      · exact absurd ⟨s, hs, hb⟩ (hl i h)
    refine ⟨s₂, hs₂, hf.machine.trans hm, (hf.snapshot ?_).trans hn⟩
    rintro rfl
    cases hi rfl

/-- A drain, with its two ends. -/
theorem drain {v v' : World} (idle : ¬ w.Busy i) (h : Step (.frame i) w v)
    (hp : Path (.drain i) v v') (h' : Step (.frame i) v' w') : Path sc w w' := by
  have own {l : Label} (hl : l.service? = some i) : sc.allows w l :=
    Or.inr fun j hj => by cases hl.symm.trans hj; exact idle
  refine Relation.ReflTransGen.head ⟨_, own rfl, h⟩ (Relation.ReflTransGen.tail ?_ ⟨_, own rfl, h'⟩)
  refine Relation.ReflTransGen.mono ?_ _ _ hp
  rintro u u' ⟨l, hl, hs⟩
  refine ⟨l, ?_, hs⟩
  rcases hl with hl | hl
  · cases l with
    | work j | view j | take j => exact own (congrArg some (Eq.symm hl))
    | _ => cases hl
  · refine Or.inr fun j hj hb => ?_
    by_cases hij : i = j
    · exact idle (hij ▸ hb)
    · exact hl j hj (h.busy (fun e => hij (Label.frame.inj e)) hb)

end Path

end FlatMachine
