import FlatMachine.Proofs.Service.Account

/-! # The story of a service

Of all that a service does, its **`story`** keeps which items it takes, where it goes, and which
sources it calls, latest first. What becomes of its invocations and of what its state means is
read off the story: the latest call of a source (**`latestCall`**), which is that of the
invocation under way unless the service has moved since (**`calling`**).

A drain is **spoiled** (**`Spoiled`**) if it was halted in a hook, or for want of fuel. -/

namespace FlatMachine

/-- The entry says nothing of where the service goes, of an item that it takes, or of a source
that it calls. -/
def Entry.Plain (i : Nat) : Entry → Prop
  | moved j .. | taken j _ => j ≠ i
  | called owner (.source _) .. => owner ≠ .service i
  | _ => True

namespace Entry

variable {e : Entry} {i : Nat}

theorem plain_of_deed (h : e.deed? ≠ some i) : e.Plain i := by
  cases e with
  | moved | taken => exact fun same => h (congrArg some same)
  | called owner role =>
    cases role with
    | source => exact fun owned => h (deed?_called.mpr ⟨owned, rfl⟩)
    | _ => trivial
  | _ => trivial

theorem Acting.plain (h : e.Acting i) : e.Plain i := by
  cases h with
  | action => trivial
  | quiet quiet =>
    cases quiet with
    | free free => cases free <;> trivial
    | _ => trivial

end Entry

/-! ### Chapters -/

/-- What a story tells. -/
inductive Chapter where
  | taken (item : Item)
  | moved (source target : Value)
  | called (t : Token) (f : Value) (args : List Object)

/-- What the entry tells of the service. -/
def Entry.chapter? (i : Nat) : Entry → Option Chapter
  | taken j item => if j = i then some (.taken item) else none
  | moved j source target => if j = i then some (.moved source target) else none
  | called owner (.source t) f args => if owner = .service i then some (.called t f args) else none
  | _ => none

/-- What a service took, where it went and which sources it called, latest first. -/
def story (i : Nat) (journal : List Entry) : List Chapter := journal.filterMap (Entry.chapter? i)

variable {i : Nat} {e : Entry} {journal : List Entry} {ch : Chapter}

theorem Entry.Plain.chapter? (h : e.Plain i) : e.chapter? i = none := by
  cases e with
  | moved | taken => exact if_neg h
  | called owner role =>
    cases role with
    | source => exact if_neg h
    | _ => rfl
  | _ => rfl

theorem Entry.chapter?_taken (i : Nat) (item : Item) :
    (taken i item).chapter? i = some (.taken item) := if_pos rfl

theorem Entry.chapter?_moved (i : Nat) (source target : Value) :
    (moved i source target).chapter? i = some (.moved source target) := if_pos rfl

theorem Entry.chapter?_called (i : Nat) (t : Token) (f : Value) (args : List Object) :
    (called (.service i) (.source t) f args).chapter? i = some (.called t f args) := if_pos rfl

theorem Entry.called_of_chapter? {t : Token} {f : Value} {args : List Object}
    (h : e.chapter? i = some (.called t f args)) : e = .called (.service i) (.source t) f args := by
  unfold Entry.chapter? at h
  split at h <;> first | cases h | (split at h <;> cases h)
  rename_i owned
  exact owned ▸ rfl

theorem story_plain (h : e.Plain i) : story i (e :: journal) = story i journal :=
  List.filterMap_cons_none h.chapter?

theorem story_told (h : e.chapter? i = some ch) : story i (e :: journal) = ch :: story i journal :=
  List.filterMap_cons_some h

theorem story_append {later : List Entry} (others : ∀ e ∈ later, e.deed? ≠ some i) :
    story i (later ++ journal) = story i journal := by
  induction later with
  | nil => rfl
  | cons e rest ih =>
    obtain ⟨other, others⟩ := List.forall_mem_cons.mp others
    exact (story_plain (Entry.plain_of_deed other)).trans (ih others)

theorem story_silent (others : ∀ e ∈ journal, e.deed? ≠ some i) : story i journal = [] := by
  have quiet : story i (journal ++ []) = story i [] := story_append others
  rwa [List.append_nil] at quiet

/-- What the story tells to have been taken, the journal does. -/
theorem mem_of_story {item : Item} (h : .taken item ∈ story i journal) :
    .taken i item ∈ journal := by
  obtain ⟨e, mem, chapter⟩ := List.mem_filterMap.mp h
  unfold Entry.chapter? at chapter
  split at chapter <;> first | cases chapter | split at chapter <;> cases chapter
  rename_i same
  exact same ▸ mem

/-- What the journal told before, the story told before. -/
theorem story_suffix {earlier : List Entry} (h : e.chapter? i = some ch)
    (hp : e :: earlier <:+ journal) :
    ch :: story i earlier <:+ story i journal := by
  rw [← story_told h]
  obtain ⟨later, rfl⟩ := hp
  exact ⟨story i later, (List.filterMap_append ..).symm⟩

/-- What the source of the latest call was called with, and the token of its invocation. -/
def latestCall : List Chapter → Option (Token × Value × List Object)
  | [] => none
  | .called t f args :: _ => some (t, f, args)
  | _ :: earlier => latestCall earlier

/-- The latest call was written. -/
theorem called_of_latestCall {t : Token} {f : Value} {args : List Object}
    (h : latestCall (story i journal) = some (t, f, args)) :
    ∃ earlier, .called (.service i) (.source t) f args :: earlier <:+ journal := by
  induction journal with
  | nil => cases h
  | cons e journal ih =>
    cases chapter : e.chapter? i with
    | none =>
      rw [show story i (e :: journal) = story i journal from List.filterMap_cons_none chapter] at h
      exact (ih h).imp fun _ hp => hp.trans (List.suffix_cons ..)
    | some ch =>
      rw [story_told chapter] at h
      cases ch with
      | called =>
        cases h
        exact ⟨journal, Entry.called_of_chapter? chapter ▸ List.suffix_rfl⟩
      | _ => exact (ih h).imp fun _ hp => hp.trans (List.suffix_cons ..)

/-- The invocation whose source was called last, if the service is still where it was then. -/
def calling : List Chapter → Option Token
  | .called t _ _ :: _ => some t
  | .taken _ :: earlier => calling earlier
  | _ => none

/-- Nothing but items was taken since the latest call, if the service is still where it was then. -/
theorem since_calling {told : List Chapter} {t : Token} (h : calling told = some t) :
    ∃ (items : List Item) (f : Value) (args : List Object) (earlier : List Chapter),
      told = items.map .taken ++ .called t f args :: earlier ∧
      latestCall told = some (t, f, args) := by
  induction told with
  | nil => cases h
  | cons ch earlier ih =>
    cases ch with
    | taken item =>
      obtain ⟨items, f, args, before, rfl, latest⟩ := ih h
      exact ⟨item :: items, f, args, before, rfl, latest⟩
    | moved => cases h
    | called u f args =>
      cases h
      exact ⟨[], f, args, earlier, rfl, rfl⟩

/-! ### Spoiled drains -/

/-- The last deed of the service was to call a hook. -/
def Hooked (i : Nat) (journal : List Entry) : Prop :=
  ∃ later m f args earlier, journal = later ++ .called (.service i) (.hook m) f args :: earlier ∧
    m ≠ .error ∧
    ∀ e ∈ later, e.deed? ≠ some i

/-- A drain is halted in a hook, or for want of fuel. -/
def Spoils (i : Nat) (halt : Halt) (journal : List Entry) : Prop :=
  halt = .exhausted ∨ Hooked i journal

/-- A drain of the service was halted in a hook, or for want of fuel. -/
def Spoiled (i : Nat) (journal : List Entry) : Prop :=
  ∃ halt earlier, .ended i (some halt) :: earlier <:+ journal ∧ Spoils i halt earlier

theorem Hooked.append {later : List Entry} (h : Hooked i journal)
    (others : ∀ e ∈ later, e.deed? ≠ some i) :
    Hooked i (later ++ journal) := by
  obtain ⟨between, m, f, args, earlier, rfl, other, deeds⟩ := h
  exact ⟨later ++ between, m, f, args, earlier, (List.append_assoc ..).symm, other,
    List.forall_mem_append.mpr ⟨others, deeds⟩⟩

theorem Spoiled.mono {journal' : List Entry} (h : Spoiled i journal) (hp : journal <:+ journal') :
    Spoiled i journal' := by
  obtain ⟨halt, earlier, ended, spoils⟩ := h
  exact ⟨halt, earlier, ended.trans hp, spoils⟩

namespace Engine

open Run World

variable {g : Engine} {i : Nat} {K : World → Prop}

/-- Hooks leave a service that is drained as steady as it was; a drain that is halted in them is
spoiled. -/
theorem ends_observeService (hg : g.Sparing) (hK : Steady i K)
    (noted : ∀ {w : World} (m : Moment) (f : Value) (args : List Object), K w →
      K (w.noted (.called (.service i) (.hook m) f args)))
    {m : Moment} (other : m ≠ .error) (args : List Object) :
    Ends K (g.observeService i m args) (fun _ => K) fun halt w =>
      K w ∧ Spoils i halt w.journal := by
  have hooked : Steady i fun w => K w ∧ Hooked i w.journal := {
    busy := fun h => hK.busy h.1
    spared := fun spares h => by
      obtain ⟨later, journal, others⟩ := spares.journal
      exact ⟨hK.spared spares h.1, journal ▸ h.2.append others⟩ }
  refine .bind (Q := fun _ => K) (.service fun w h => ?_) fun s => .forM fun hook _ => ?_
  · obtain ⟨s, hs, -⟩ := hK.busy h
    exact ⟨s, hs, h⟩
  split
  · exact .pure fun _ => id
  · rename_i f _
    refine .discard
      (.bind (Q := fun _ w => K w ∧ Hooked i w.journal) (.note fun w h => ?_) fun _ => ?_)
    · exact ⟨noted m f args h, [], m, f, args, w.journal, rfl, other, List.forall_mem_nil _⟩
    · refine .bind ((hooked.sustained hg _ _ _ _).ends fun halt w h => ?_) fun _ =>
        .pure fun _ h => h.1
      exact ⟨h.1, Or.inr h.2⟩

end Engine
end FlatMachine
