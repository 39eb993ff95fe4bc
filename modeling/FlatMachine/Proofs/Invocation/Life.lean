import FlatMachine.Proofs.World.Lasting

/-! # The life of an invocation

What the journal says of one invocation, all other entries left out, is one of a few lists
(**`Life`**): the invocation is started in an empty slot, its source returns a cancel callback or
does not, and it ends once, by being retired or by being cancelled.  If it was cancelled, the
cancel callback is called: at once if it was there, else as soon as the source returns it.

**`Service.lasting_lived`** is the invariant behind this: the journal tells a life of every
token, and its end depends on what the slot holds.  So it does after every history
(**`World.life_after`**). -/

namespace FlatMachine

/-- The entry is about the invocation of the token. -/
def Entry.about (i : Nat) (t : Token) : Entry → Bool
  | activated j u .. | attached j u _ | retired j u | cancelled j u => j == i && u == t
  | called (.service j) (.cancel (some u)) .. => j == i && u == t
  | _ => false

/-- The entry retires the token. -/
def Entry.retires (i : Nat) (t : Token) : Entry → Bool
  | retired j u => j == i && u == t
  | _ => false

/-- If the token is the active one: the cancel callback that is recorded for it, if there is one
yet. -/
def Slot.held? (slot : Slot) (t : Token) : Option (Option Value) :=
  if slot.isActive t then some slot.cancel else none

/-- What the journal can say of an invocation, latest first, and what the slot then holds of it. -/
inductive Life (i : Nat) (t : Token) : Option (Option Value) → List Entry → Prop where
  | unborn : Life i t none []
  | started {invocation : Value} : Life i t (some none) [.activated i t invocation .empty]
  | recorded {invocation f : Value} :
      Life i t (some (some f)) [.attached i t f, .activated i t invocation .empty]
  /-- cancelled while its source was executing -/
  | forgotten {invocation : Value} :
      Life i t none [.cancelled i t, .activated i t invocation .empty]
  | recalled {invocation f : Value} :
      Life i t none [.called (.service i) (.cancel (some t)) f [], .attached i t f,
        .cancelled i t, .activated i t invocation .empty]
  | cancelled {invocation f : Value} :
      Life i t none [.called (.service i) (.cancel (some t)) f [], .cancelled i t,
        .attached i t f, .activated i t invocation .empty]
  | failed {invocation : Value} : Life i t none [.retired i t, .activated i t invocation .empty]
  | settled {invocation f : Value} :
      Life i t none [.retired i t, .attached i t f, .activated i t invocation .empty]

/-- The journal tells a life of every invocation of the service, and of tokens still to come
nothing. -/
structure Service.Lived (i : Nat) (s : Service) (journal : List Entry) : Prop where
  life : ∀ t, Life i t (s.slot.held? t) (journal.filter (Entry.about i t))
  unborn : ∀ n, s.supply ≤ n → journal.filter (Entry.about i (Int.ofNat n)) = []
  idle : s.slot.token = none → s.slot.cancel = none

namespace Life

variable {i : Nat} {t : Token}

theorem not_nil {c : Option Value} : ¬ Life i t (some c) [] := nofun

/-- If the drain has written nothing since the start, the source has not returned yet. -/
theorem of_opened {held : Option (Option Value)} {later earlier : List Entry} {invocation : Value}
    {before : Slot} (life : Life i t held (later ++ .activated i t invocation before :: earlier))
    (hl : ∀ e ∈ later, e.driver ≠ some i) :
    (held = some none ∧ later ++ .activated i t invocation before :: earlier =
      [.activated i t invocation .empty]) ∨
      (held = none ∧ later ++ .activated i t invocation before :: earlier =
        [.cancelled i t, .activated i t invocation .empty]) := by
  -- What its drain wrote is not among what came later, so the lists that begin with it are out of
  -- the question.
  have peel {x : Entry} {l rest : List Entry}
      (h : l ++ .activated i t invocation before :: earlier = x :: rest)
      (hx : ∀ v b, x ≠ .activated i t v b) :
      ∃ l', l = x :: l' ∧ l' ++ .activated i t invocation before :: earlier = rest := by
    rcases List.append_eq_cons_iff.mp h with ⟨-, h⟩ | ⟨l', hl', h⟩
    · cases h
      exact absurd rfl (hx _ _)
    · exact ⟨l', hl', h.symm⟩
  generalize hp : later ++ .activated i t invocation before :: earlier = past at life
  cases life with
  | unborn => cases later <;> cases hp
  | started =>
    cases later with
    | nil => cases hp; exact Or.inl ⟨rfl, rfl⟩
    | cons x rest => cases rest <;> cases hp
  | forgotten =>
    obtain ⟨l, rfl, hp⟩ := peel hp nofun
    cases l with
    | nil => cases hp; exact Or.inr ⟨rfl, rfl⟩
    | cons x rest => cases rest <;> cases hp
  | recorded | failed | settled =>
    obtain ⟨l, rfl, -⟩ := peel hp nofun
    exact absurd rfl (hl _ List.mem_cons_self)
  | recalled =>
    obtain ⟨l₁, rfl, hp₁⟩ := peel hp nofun
    obtain ⟨l₂, rfl, -⟩ := peel hp₁ nofun
    exact absurd rfl (hl _ (List.mem_cons_of_mem _ List.mem_cons_self))
  | cancelled =>
    obtain ⟨l₁, rfl, hp₁⟩ := peel hp nofun
    obtain ⟨l₂, rfl, hp₂⟩ := peel hp₁ nofun
    obtain ⟨l₃, rfl, -⟩ := peel hp₂ nofun
    exact absurd rfl (hl _ (List.mem_cons_of_mem _ (List.mem_cons_of_mem _ List.mem_cons_self)))

theorem retires_le {held : Option (Option Value)} {past : List Entry} (life : Life i t held past) :
    past.countP (Entry.retires i t) ≤ 1 := by
  cases life <;> simp [Entry.retires]

/-- The active invocation has not been retired. -/
theorem not_retired {c : Option Value} {past : List Entry} (life : Life i t (some c) past) :
    past.countP (Entry.retires i t) = 0 := by
  generalize hc : some c = held at life
  cases life <;> cases hc <;> rfl

/-- No cancel callback is called for what was retired. -/
theorem uncalled_of_retired {held : Option (Option Value)} {past : List Entry}
    (life : Life i t held past) (retired : .retired i t ∈ past) (f : Value) (args : List Object) :
    .called (.service i) (.cancel (some t)) f args ∉ past := by
  cases life with
  | failed | settled => simp
  | _ => simp at retired

end Life

/-! ### Entries about a token -/

namespace Entry

variable {i : Nat} {t : Token} {e : Entry}

theorem about_of_aside (h : e.Aside i) : e.about i t = false := by
  cases e with
  | called owner role f args =>
    cases owner with
    | bench => rfl
    | service j =>
      cases role with
      | cancel u =>
        cases u with
        | none => rfl
        | some u =>
          rcases h with h | h
          · have : j ≠ i := fun hji => h (congrArg some hji)
            simp [about, this]
          · cases h
      | _ => rfl
  | activated j | attached j | retired j | cancelled j =>
    rcases h with h | h
    · have : j ≠ i := fun hji => h (congrArg some hji)
      simp [about, this]
    · cases h
  | _ => rfl

theorem filter_aside {entries : List Entry} (h : ∀ e ∈ entries, e.Aside i) (journal : List Entry) :
    (entries ++ journal).filter (about i t) = journal.filter (about i t) := by
  rw [List.filter_append, List.filter_eq_nil_iff.mpr fun e he => by
    simp [about_of_aside (h e he)], List.nil_append]

theorem filter_cons_of_not_about (h : e.about i t = false) (journal : List Entry) :
    (e :: journal).filter (about i t) = journal.filter (about i t) :=
  List.filter_cons_of_neg (by simp [h])

theorem about_of_retires (h : e.retires i t = true) : e.about i t = true := by
  cases e <;> first | exact h | cases h

theorem service?_of_retires (h : e.retires i t = true) : e.service? = some i := by
  cases e with
  | retired j =>
    obtain ⟨hj, -⟩ := (Bool.and_eq_true _ _).mp h
    exact congrArg some (eq_of_beq hj)
  | _ => cases h

/-- Entries of a sort that is about the token are found among those about it. -/
theorem filter_about {p : Entry → Bool} (hp : ∀ e, p e = true → e.about i t = true)
    (journal : List Entry) :
    (journal.filter (about i t)).filter p = journal.filter p := by
  rw [List.filter_filter]
  refine List.filter_congr fun e _ => ?_
  cases he : p e with
  | true => rw [hp e he]; rfl
  | false => rfl

theorem countP_about {p : Entry → Bool} (hp : ∀ e, p e = true → e.about i t = true)
    (journal : List Entry) :
    (journal.filter (about i t)).countP p = journal.countP p := by
  rw [List.countP_eq_length_filter, filter_about hp, List.countP_eq_length_filter]

theorem not_about_of_vetted {role : Role} {f : Value} {args : List Object}
    (h : role.isVetted = true) :
    (called (.service i) role f args).about i t = false := by
  cases role <;> first | rfl | cases h

end Entry

namespace Slot

variable {slot : Slot} {t u : Token}

theorem held?_of_active (h : slot.isActive t = true) : slot.held? t = some slot.cancel := if_pos h

theorem held?_of_inactive (h : slot.isActive t = false) : slot.held? t = none :=
  if_neg (by simp [h])

theorem eq_of_held? {f : Value} (h : slot.held? t = some (some f)) : slot = ⟨some t, some f⟩ := by
  unfold held? at h
  split at h
  · rename_i active
    obtain ⟨token, cancel⟩ := slot
    cases isActive_iff.mp active
    cases h
    rfl
  · cases h

theorem active_of_held? {c : Option Value} (h : slot.held? t = some c) :
    slot.isActive t = true := by
  unfold held? at h
  split at h
  · assumption
  · cases h

theorem inactive_of_held? (h : slot.held? t = none) : slot.isActive t = false := by
  unfold held? at h
  split at h
  · cases h
  · rename_i inactive
    simpa using inactive

theorem inactive_of_ne (h : slot.isActive t = true) (hne : u ≠ t) : slot.isActive u = false := by
  rw [isActive_iff] at h
  unfold isActive
  rw [h]
  simpa using Ne.symm hne

end Slot

namespace Service

variable {i : Nat} {s : Service} {journal : List Entry}

theorem Lived.retires_le (h : s.Lived i journal) (t : Token) :
    journal.countP (Entry.retires i t) ≤ 1 := by
  rw [← Entry.countP_about fun _ => Entry.about_of_retires]
  exact (h.life t).retires_le

theorem Lived.not_retired {t : Token} (h : s.Lived i journal) (ht : s.slot.isActive t = true) :
    journal.countP (Entry.retires i t) = 0 := by
  have life := h.life t
  rw [Slot.held?_of_active ht] at life
  rw [← Entry.countP_about fun _ => Entry.about_of_retires]
  exact life.not_retired

/-- An active invocation is retired or cancelled: what is written ends its life, and all others
stay as they are. -/
theorem Lived.ended {t : Token} {entries : List Entry} (h : s.Lived i journal)
    (ht : s.slot.isActive t = true) (others : ∀ u, u ≠ t → entries.filter (Entry.about i u) = [])
    (own : ∀ past, Life i t (some s.slot.cancel) past →
      Life i t none (entries.filter (Entry.about i t) ++ past)) :
    { s with slot := .empty }.Lived i (entries ++ journal) := by
  have filtered {u : Token} (hu : u ≠ t) :
      (entries ++ journal).filter (Entry.about i u) = journal.filter (Entry.about i u) := by
    rw [List.filter_append, others u hu, List.nil_append]
  refine ⟨fun u => ?_, fun n hn => ?_, fun _ => rfl⟩
  · have life := h.life u
    by_cases hu : u = t
    · subst hu
      rw [Slot.held?_of_active ht] at life
      rw [List.filter_append]
      exact own _ life
    · rw [filtered hu]
      rw [Slot.held?_of_inactive (Slot.inactive_of_ne ht hu)] at life
      exact life
  · by_cases hu : Int.ofNat n = t
    · have life := h.life t
      rw [← hu, h.unborn n hn, hu, Slot.held?_of_active ht] at life
      exact absurd life Life.not_nil
    · rw [filtered hu]
      exact h.unborn n hn

theorem Lived.cancelled (h : s.Lived i journal) :
    { s with slot := .empty }.Lived i (s.slot.farewell i ++ journal) := by
  cases ht : s.slot.token with
  | none =>
    have vacant : s.slot = .empty := by
      have := h.idle ht
      cases hs : s.slot
      rw [hs] at ht this
      cases ht
      cases this
      rfl
    have nothing : s.slot.farewell i = [] := by rw [vacant]; rfl
    rw [nothing]
    exact ⟨fun t => vacant ▸ h.life t, h.unborn, fun _ => rfl⟩
  | some t =>
    have active : s.slot.isActive t = true := Slot.isActive_iff.mpr ht
    refine h.ended active (fun u hu => ?_) fun past life => ?_
    · refine List.filter_eq_nil_iff.mpr fun e he => ?_
      rcases Slot.mem_farewell he with ⟨t', ht', rfl⟩ | ⟨f, -, rfl⟩
      · rw [ht] at ht'
        cases ht'
        simp [Entry.about, Ne.symm hu]
      · rw [ht]
        simp [Entry.about, Ne.symm hu]
    · unfold Slot.farewell
      rw [ht]
      cases hc : s.slot.cancel with
      | none =>
        rw [hc] at life
        cases life
        simpa [Entry.about] using Life.forgotten
      | some f =>
        rw [hc] at life
        cases life
        simpa [Entry.about] using Life.cancelled

theorem Lived.retired {t : Token} (h : s.Lived i journal) (ht : s.slot.isActive t = true) :
    { s with slot := .empty }.Lived i (.retired i t :: journal) := by
  have others : ∀ u, u ≠ t → [Entry.retired i t].filter (Entry.about i u) = [] := fun u hu => by
    simp [Entry.about, Ne.symm hu]
  refine h.ended ht others fun past life => ?_
  · generalize s.slot.cancel = c at life
    cases life with
    | started => simpa [Entry.about] using Life.failed
    | recorded => simpa [Entry.about] using Life.settled

theorem Lived.activated {invocation : Value} (h : s.Lived i journal) (vacant : s.slot = .empty) :
    { s with supply := s.supply + 1, slot := s.slot.activate (Int.ofNat s.supply) }.Lived i
      (.activated i (Int.ofNat s.supply) invocation s.slot :: journal) := by
  refine ⟨fun t => ?_, fun n hn => ?_, nofun⟩
  · have life := h.life t
    rw [vacant] at life ⊢
    by_cases ht : t = Int.ofNat s.supply
    · subst ht
      rw [Slot.held?_of_active (by simp), List.filter_cons_of_pos (by simp [Entry.about]),
        h.unborn _ (Nat.le_refl _)]
      exact .started
    · rw [Slot.held?_of_inactive (by simpa using Ne.symm ht),
        Entry.filter_cons_of_not_about (by simpa [Entry.about] using Ne.symm ht)]
      exact life
  · have hn : s.supply + 1 ≤ n := hn
    have hne : Int.ofNat s.supply ≠ Int.ofNat n := fun e => by have := Int.ofNat.inj e; omega
    rw [Entry.filter_cons_of_not_about (by simpa [Entry.about] using hne)]
    exact h.unborn n (by omega)

/-- Since the drain has written nothing since the start, the source has not returned before. -/
theorem Lived.opened {t : Token} (h : s.Lived i journal) (opened : Opened i t journal) :
    ∃ invocation,
    s.slot.isActive t = true ∧ journal.filter (Entry.about i t) =
      [.activated i t invocation .empty] ∨
      s.slot.isActive t = false ∧
        journal.filter (Entry.about i t) = [.cancelled i t, .activated i t invocation .empty] := by
  obtain ⟨later, earlier, invocation, before, hj, hd⟩ := opened
  have past : journal.filter (Entry.about i t) =
      later.filter (Entry.about i t) ++ .activated i t invocation before ::
        earlier.filter (Entry.about i t) := by
    rw [hj, List.filter_append, List.filter_cons_of_pos (by simp [Entry.about])]
  have ended := (past ▸ h.life t).of_opened fun e he => hd e (List.mem_filter.mp he).1
  rw [← past] at ended
  refine ⟨invocation, ?_⟩
  rcases ended with ⟨held, hp⟩ | ⟨held, hp⟩
  · exact Or.inl ⟨Slot.active_of_held? held, hp⟩
  · exact Or.inr ⟨Slot.inactive_of_held? held, hp⟩

/-- The cancel callback belongs to the active invocation, or to one that was cancelled before. -/
theorem Lived.attached {t : Token} {f : Value} (h : s.Lived i journal) (present : f.isNull = false)
    (opened : Opened i t journal) :
    { s with slot := (s.slot.attach t f).1 }.Lived i (s.slot.welcome i t f ++ journal) := by
  obtain ⟨invocation, opened⟩ := h.opened opened
  have others {u : Token} (hu : u ≠ t) :
      (s.slot.welcome i t f ++ journal).filter (Entry.about i u) =
        journal.filter (Entry.about i u) := by
    rw [List.filter_append, List.filter_eq_nil_iff.mpr fun e he => ?_, List.nil_append]
    rcases Slot.mem_welcome present he with rfl | rfl <;> simp [Entry.about, Ne.symm hu]
  have unborn (n : Nat) (hn : s.supply ≤ n) :
      (s.slot.welcome i t f ++ journal).filter (Entry.about i (Int.ofNat n)) = [] := by
    by_cases hu : Int.ofNat n = t
    · have nothing := h.unborn n hn
      rw [hu] at nothing
      rcases opened with ⟨-, past⟩ | ⟨-, past⟩ <;> (rw [nothing] at past; cases past)
    · rw [others hu]
      exact h.unborn n hn
  rcases opened with ⟨ht, past⟩ | ⟨ht, past⟩
  · have active : (⟨s.slot.token, some f⟩ : Slot).isActive t = true := ht
    rw [Slot.attach_of_active present ht]
    refine ⟨fun u => ?_, unborn, fun hn => ?_⟩
    · by_cases hu : u = t
      · subst hu
        rw [Slot.held?_of_active active, Slot.welcome_of_active present ht,
          List.filter_append, past]
        simpa [Entry.about] using Life.recorded
      · have life := h.life u
        rw [Slot.held?_of_inactive (Slot.inactive_of_ne ht hu)] at life
        rw [Slot.held?_of_inactive (Slot.inactive_of_ne active hu), others hu]
        exact life
    · rw [Slot.isActive_iff, show s.slot.token = none from hn] at ht
      cases ht
  · rw [Slot.attach_of_inactive present ht]
    refine ⟨fun u => ?_, unborn, h.idle⟩
    by_cases hu : u = t
    · subst hu
      rw [Slot.held?_of_inactive ht, Slot.welcome_of_inactive present ht, List.filter_append, past]
      simpa [Entry.about] using Life.recalled
    · rw [others hu]
      exact h.life u

/-- Whatever happens, the journal tells the life of every invocation. -/
theorem lasting_lived : Lasting fun i s journal => s.Lived i journal where
  fresh := by
    intro i s journal fresh silent
    have nothing (t : Token) : journal.filter (Entry.about i t) = [] := by
      have := Entry.filter_aside (t := t) (fun e he => Or.inl (silent e he)) []
      rwa [List.append_nil] at this
    refine ⟨fun t => ?_, fun n _ => nothing _, fun _ => by rw [fresh.slot]; rfl⟩
    rw [nothing, fresh.slot]
    exact .unborn
  same := by
    intro i s s' journal h _ _ hslot hsupply
    exact ⟨fun t => hslot ▸ h.life t, fun n hn => h.unborn n (by omega), hslot ▸ h.idle⟩
  aside := by
    intro i s entries journal h haside
    refine ⟨fun t => ?_, fun n hn => ?_, h.idle⟩
    · rw [Entry.filter_aside haside]
      exact h.life t
    · rw [Entry.filter_aside haside]
      exact h.unborn n hn
  called := by
    intro i s role f args journal h vetted _
    refine ⟨fun t => ?_, fun n hn => ?_, h.idle⟩
    · rw [Entry.filter_cons_of_not_about (Entry.not_about_of_vetted vetted)]
      exact h.life t
    · rw [Entry.filter_cons_of_not_about (Entry.not_about_of_vetted vetted)]
      exact h.unborn n hn
  faulted := fun h _ => ⟨h.life, h.unborn, h.idle⟩
  started := fun h _ => ⟨h.life, h.unborn, h.idle⟩
  cancelled := fun h => h.cancelled
  moved := fun h _ _ => ⟨h.life, h.unborn, h.idle⟩
  activated := fun h vacant _ _ _ => h.activated vacant
  attached := fun h present opened => h.attached present opened
  retired := fun h active => h.retired active

end Service

namespace World

/-- After any history, the journal tells a life of every invocation. -/
theorem life_after (book : Book) (fuel : Nat) (looping : Bool) (history : List Command) (i : Nat)
    (t : Token) :
    ∃ held, Life i t held
      (((World.start looping).after (.ofBook book fuel) history).journal.filter
        (Entry.about i t)) := by
  have lasts := lasts_after Service.lasting_lived book fuel looping history
  cases hs : ((World.start looping).after (.ofBook book fuel) history).services[i]? with
  | some s => exact ⟨_, (lasts.now i s hs).life t⟩
  | none =>
    have nothing := List.filter_eq_nil_iff.mpr fun e he =>
      Bool.eq_false_iff.mp (Entry.about_of_aside (t := t) (.inl (lasts.unborn i hs e he)))
    exact ⟨none, nothing ▸ .unborn⟩

end World

end FlatMachine
