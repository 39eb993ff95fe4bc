import FlatMachine.Proofs.Invocation.Occupancy

/-! # Checked machines do not go wrong

The check of a definition and the service that works by it are apart from each other; that the
one covers what the other relies on is an invariant of all services whose definition is checked
(**`Service.Sound`**, **`Service.lasting_sound`**).  The live state is defined, so its node is
found, with an invocation that can be started while one is active; nothing that was looked up was
missing, and every guard, action and source that was called can be called. -/

namespace FlatMachine

/-- Nothing was missing for the service, and what its definition had called can be called. -/
def Entry.Sound (i : Nat) : Entry → Prop
  | faulted j _ => j ≠ i
  | called (.service j) role f _ => j = i → role.isVetted = true → f.isCallable = true
  | _ => True

/-- The live state is defined, and the journal has nothing else to say. -/
structure Service.Sound (i : Nat) (s : Service) (journal : List Entry) : Prop where
  defined : s.machine.defines s.stateName = .ok true
  entries : ∀ e ∈ journal, e.Sound i

namespace Entry

variable {i : Nat} {e : Entry}

theorem sound_of_service? (h : e.service? ≠ some i) : e.Sound i := by
  cases e with
  | faulted j => exact fun hj => h (congrArg some hj)
  | called owner role f args =>
    cases owner with
    | bench => trivial
    | service j =>
      rintro rfl vetted
      refine absurd ?_ h
      show (if (role.isVetted || role.isCancel) = true then some j else none) = some j
      rw [vetted]
      rfl
  | _ => trivial

theorem sound_of_aside (h : e.Aside i) : e.Sound i := by
  rcases h with h | h
  · exact sound_of_service? h
  · cases e <;> trivial

theorem sound_of_cancel {owner : Owner} {t : Option Token} {f : Value} :
    (called owner (.cancel t) f []).Sound i := by
  cases owner with
  | bench => trivial
  | service j => exact nofun

end Entry

namespace Service

variable {i : Nat} {s s' : Service} {entries journal : List Entry}

theorem Sound.mono (h : s.Sound i journal) (he : ∀ e ∈ entries, e.Sound i)
    (hd : s'.machine.defines s'.stateName = .ok true) : s'.Sound i (entries ++ journal) :=
  ⟨hd, List.forall_mem_append.mpr ⟨he, h.entries⟩⟩

theorem Sound.noted {e : Entry} (h : s.Sound i journal) (he : e.Sound i)
    (hd : s'.machine.defines s'.stateName = .ok true) : s'.Sound i (e :: journal) :=
  h.mono (List.forall_mem_singleton.mpr he) hd

theorem Sound.covers (h : s.Sound i journal) (hc : s.machine.Checked) :
    s.machine.Covers s.stateName := ⟨hc, h.defined⟩

theorem lasting_sound : Lasting fun i s journal => s.machine.Checked → s.Sound i journal where
  fresh := by
    intro i s journal fresh silent hc
    refine ⟨?_, fun e he => Entry.sound_of_service? (silent e he)⟩
    rw [fresh.name]
    exact hc.initial
  same := by
    intro i s s' journal h hm hn _ _ hc
    rw [hm] at hc
    refine ⟨?_, (h hc).entries⟩
    rw [hm, hn]
    exact (h hc).defined
  aside := fun h haside hc =>
    (h hc).mono (fun e he => Entry.sound_of_aside (haside e he)) (h hc).defined
  called := by
    intro i s role f args journal h vetted callable hc
    exact (h hc).noted (fun _ _ => callable ((h hc).covers hc)) (h hc).defined
  faulted := fun h uncovered hc => absurd ((h hc).covers hc) uncovered
  started := fun h _ hc => ⟨hc.initial, (h hc).entries⟩
  cancelled := by
    intro i s journal h hc
    refine (h hc).mono (fun e he => ?_) (h hc).defined
    rcases Slot.mem_farewell he with ⟨t, -, rfl⟩ | ⟨f, -, rfl⟩
    · trivial
    · exact Entry.sound_of_cancel
  moved := fun h _ defined hc => (h hc).noted trivial defined
  activated := fun h _ _ _ _ hc => (h hc).noted trivial (h hc).defined
  attached := by
    intro i s t f journal h present _ hc
    refine (h hc).mono (fun e he => ?_) (h hc).defined
    rcases Slot.mem_welcome present he with rfl | rfl
    · trivial
    · exact Entry.sound_of_cancel
  retired := fun h _ hc => (h hc).noted trivial (h hc).defined

end Service

namespace World

/-- A service with a checked definition is in one of its states, which is found as often as it is
looked up; nothing was missing, what had to be callable was, and a wanted outcome finds the
invocation it is of. -/
theorem checked_services_sound (book : Book) (fuel : Nat) (looping : Bool)
    (history : List Command) {p : Point}
    (hp : p ∈ ((World.start looping).after (.ofBook book fuel) history).passed) {i : Nat}
    {s : Service} (hs : p.services[i]? = some s) (hc : s.machine.Checked) :
    s.machine.defines s.stateName = .ok true ∧
    (∃ n : Node, (∀ v, v.services = p.services → (Run.node i).run v = (.ok n.toValue, v)) ∧
      ∀ t, s.slot.isActive t = true → ∃ invocation : Invocation, n.invoke = invocation.toValue) ∧
    (∀ f, .faulted i f ∉ p.journal) ∧
    ∀ role f args, .called (.service i) role f args ∈ p.journal → role.isVetted = true →
    f.isCallable = true := by
  obtain ⟨due, sound, occupied⟩ :=
    (has_of_passed (Service.lasting_sound.and Service.lasting_occupied) hp hs).extended
  have sound := sound hc
  have entries : ∀ e ∈ p.journal, e.Sound i :=
    fun e he => sound.entries e (List.mem_append_right due he)
  obtain ⟨n, hn, equips⟩ := (sound.covers hc).node
  refine ⟨sound.defined, ⟨n, fun v hv => ?_, fun t ht => ?_⟩, fun f hf => entries _ hf rfl,
    fun role f args hf vetted => entries _ hf rfl vetted⟩
  · rw [Run.run_node (hv ▸ hs), hn]
    rfl
  · obtain ⟨invocation, occupies⟩ := occupied t ht
    obtain ⟨n', hn', hm⟩ := occupies.live
    obtain ⟨ready, rfl, -⟩ := (sound.covers hc).invoke hn' hm occupies.present
    cases hn.symm.trans hn'
    exact ⟨ready, Except.ok.inj hm⟩

end World

theorem Swing.checked : Swing.machine.Checked where
  problems := by rfl
  invocations := by
    intro entry he n hn
    rcases List.mem_cons.mp he with rfl | he
    · cases hn
      exact Or.inr ⟨⟨function 0, [candidate "there"], [], .bool true⟩, rfl⟩
    · rcases List.mem_cons.mp he with rfl | he
      · cases hn
        exact Or.inl rfl
      · rw [List.mem_singleton.mp he] at hn
        cases hn
        exact Or.inl rfl

/-- The swing does not go wrong, not even by its fall. -/
theorem Swing.checked_never_faulted :
    ∃ s, Swing.world.services[0]? = some s ∧ s.machine = Swing.machine ∧
    s.machine.defines s.stateName = .ok true ∧ ∀ f, .faulted 0 f ∉ Swing.world.journal := by
  have sound {s : Service} (hs : Swing.world.now.services[0]? = some s) (hc : s.machine.Checked) :=
    World.checked_services_sound Swing.book 4 true Swing.life
      (p := Swing.world.now) List.mem_cons_self hs hc
  have grown :
      Swing.world = ((World.start true).after (.ofBook Swing.book 4) (Swing.life.take 1)).after
        (.ofBook Swing.book 4) Swing.history :=
      World.after_append _ _ (Swing.life.take 1) Swing.history
  have created :
      ((World.start true).after (.ofBook Swing.book 4) (Swing.life.take 1)).services[0]?.map
        (·.machine) =
        some Swing.machine := by rfl
  have sane := World.atRest_after Swing.book 4 true (Swing.life.take 1)
  obtain ⟨s₀, hs₀, hm₀⟩ := Option.map_eq_some_iff.mp created
  obtain ⟨s, hs, hm⟩ := World.machine_after (Engine.tame_ofBook Swing.book 4) sane Swing.history hs₀
  rw [← grown] at hs
  have hm := hm.trans hm₀
  generalize Swing.world = w at *
  obtain ⟨defined, -, unfaulted, -⟩ := sound hs (hm ▸ Swing.checked)
  exact ⟨s, hs, hm, defined, unfaulted⟩

end FlatMachine
