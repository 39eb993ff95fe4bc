import FlatMachine.Proofs.Machine.Defects
import FlatMachine.Proofs.Machine.Spelling

/-! # What a definition is refused for

What has the wrong shape in a configuration is mostly refused as a configuration, and what is
wrong with the definition that it describes is refused by the check.  But a few things are used
without a look at their shape, and these fail with whatever failure the use has: a sequence is
gone through, a tag is made a key, and a name is looked up.

* **`Config.Place.Misfit`**: a sequence that is none or a tag that is no key, at the place or
  anywhere below it.
* **`Config.Malformed`**: there is a misfit, or the definition that is read is not legible for
  the check.
* **`Answers`**: a step gives its result, is refused as a configuration, or is misused, and the
  last is possible only where there is something to misuse.

So a configuration makes a definition, or it is refused as a configuration, or it is malformed
and fails otherwise (**`Machine.create_answers`**). -/

namespace FlatMachine

open Value

/-! ### Misfits -/

/-- What is used without a look at its shape, and does not have the shape. -/
inductive Config.Place.Misfit : Place → Value → Prop where
  /-- what cannot be gone through, and is no shorthand -/
  | sequence {v : Value} (present : v ≠ null) (lone : v.isCallable = false)
      (other : ∀ vs, v.items ≠ .ok vs) :
      Misfit sequence v
  /-- a tag that cannot be a key -/
  | tag {m tag : Value} {entries : Entries} {tags : List Value}
      (written : m.entries? = some entries)
      (read : Config.sequence ((Config.present ["tags"] entries).getD null) = .ok tags)
      (mem : tag ∈ tags)
      (other : tag.isKey = false) : Misfit state m
  /-- under a name -/
  | under {p q : Place} {f : Field} {m : Value} {entries : Entries} (field : f ∈ p.fields)
      (at' : f.under = some q)
      (written : m.entries? = some entries)
      (misfit : Misfit q ((Config.present f.names entries).getD null)) : Misfit p m
  /-- in an entry -/
  | entry {p q : Place} {m k v : Value} {entries : Entries} (each : p.entries? = some q)
      (written : m.entries? = some entries) (mem : (k, v) ∈ entries) (misfit : Misfit q v) :
      Misfit p m
  /-- the one candidate -/
  | single {v : Value} (one : isSingle v = true) (misfit : Misfit candidate v) : Misfit candidates v
  /-- among candidates -/
  | listed {v : Value} {vs : List Value} (mem : v ∈ vs) (misfit : Misfit candidate v) :
      Misfit candidates (list vs)
  | tupled {v : Value} {vs : List Value} (mem : v ∈ vs) (misfit : Misfit candidate v) :
      Misfit candidates (tuple vs)

/-- There is a misfit in the configuration, or something in the definition that it describes
cannot be read or looked up. -/
def Config.Malformed (config : Value) : Prop :=
  Place.machine.Misfit config ∨ ∃ m, Machine.ofValue config = .ok m ∧ ¬ m.Legible

/-! ### Answers -/

/-- There is a result and no misfit, or a refusal as a configuration, or a misfit and the failure
of its use. -/
def Answers {α : Type} (misfit : Prop) (x : Except Failure α) : Prop :=
  (∃ a, x = .ok a ∧ ¬ misfit) ∨
    ∃ f, x = .error f ∧
    (f.kind.isConfiguration = true ∨ (f.kind = .type ∨ f.kind = .member) ∧ misfit)

namespace Answers

variable {α β : Type} {M N : Prop} {x : Except Failure α} {f : Failure}

theorem ok (a : α) (none : ¬ M) : Answers M (.ok a : Except Failure α) := .inl ⟨a, rfl, none⟩

theorem refused (h : f.kind.isConfiguration = true) : Answers M (.error f : Except Failure α) :=
  .inr ⟨f, rfl, .inl h⟩

theorem misused (h : f.kind = .type ∨ f.kind = .member) (misfit : M) :
    Answers M (.error f : Except Failure α) :=
  .inr ⟨f, rfl, .inr ⟨h, misfit⟩⟩

theorem congr (h : Answers M x) (same : M ↔ N) : Answers N x := by
  rwa [Answers, ← same]

/-- A misfit is met in the first step, or, if that has a result, in the second. -/
theorem bind {g : α → Except Failure β} (h : Answers M x) (hg : ∀ a, x = .ok a → Answers N (g a)) :
    Answers (M ∨ N) (x >>= g) := by
  rcases h with ⟨a, rfl, none⟩ | ⟨f, rfl, configuration | ⟨bare, misfit⟩⟩
  · exact (hg a rfl).congr (by simp [none])
  · exact refused configuration
  · exact misused bare (.inl misfit)

theorem map (g : α → β) (h : Answers M x) : Answers M (do return g (← x)) :=
  (h.bind (N := False) fun a _ => .ok (g a) not_false).congr (by simp)

theorem mapM {g : α → Except Failure β} {R : α → Prop} {xs : List α}
    (h : ∀ a ∈ xs, Answers (R a) (g a)) :
    Answers (∃ a ∈ xs, R a) (xs.mapM g) := by
  induction xs with
  | nil => exact .ok _ (by simp)
  | cons a rest ih =>
    rw [List.mapM_cons]
    refine ((h a List.mem_cons_self).bind fun b _ =>
      (ih fun c hc => h c (List.mem_cons_of_mem _ hc)).map fun bs => b :: bs).congr ?_
    simp

end Answers

/-! ### Values -/

theorem Value.answers_items (v : Value) : Answers (∀ vs, v.items ≠ .ok vs) v.items := by
  unfold Value.items
  split
  · exact .ok _ fun none => none _ rfl
  · exact .ok _ fun none => none _ rfl
  · exact .ok _ fun none => none _ rfl
  · split
    · exact .ok _ fun none => none _ rfl
    · exact .misused (.inl rfl) (by simp)

theorem Value.answers_checkKey (v : Value) : Answers (v.isKey = false) v.checkKey := by
  unfold checkKey isKey
  split
  · exact .misused (.inl rfl) (by simp_all)
  · exact .ok _ (by simp_all)

theorem Value.answers_member (v : Value) (name : String) :
    Answers (∀ w, v.member name ≠ .ok w) (v.member name) := by
  cases h : v.member name with
  | ok w => exact .ok _ fun none => none w rfl
  | error f =>
    refine .misused (.inr ?_) (by simp)
    unfold member at h
    split at h <;> cases h
    rfl

theorem Value.answers_distinct (tags : List Value) :
    Answers (∃ tag ∈ tags, tag.isKey = false) (distinct tags) := by
  have each : Answers (∃ tag ∈ tags, tag.isKey = false) (forIn tags PUnit.unit fun tag _ => do
      tag.checkKey
      return ForInStep.yield PUnit.unit) := by
    induction tags with
    | nil => exact .ok _ (by simp)
    | cons tag rest ih =>
      rw [List.forIn_cons, bind_assoc]
      exact ((answers_checkKey tag).bind fun _ _ => ih).congr (by simp)
  exact each.map _

/-! ### Places -/

namespace Config

open Config.Place

section Misfits

variable {m v : Value} {entries : Entries}

theorem Place.misfit_sequence_iff :
    sequence.Misfit v ↔ v ≠ null ∧ v.isCallable = false ∧ ∀ vs, v.items ≠ .ok vs := by
  constructor
  · intro misfit
    cases misfit with
    | sequence present lone other => exact ⟨present, lone, other⟩
    | under field => cases field
    | entry each => cases each
  · rintro ⟨present, lone, other⟩
    exact .sequence present lone other

/-- What is read by names has its misfits under the names. -/
theorem Place.misfit_fields_iff {p : Place} (named : p = machine ∨ p = invocation ∨ p = candidate)
    (written : m.entries? = some entries) :
    p.Misfit m ↔ ∃ f ∈ p.fields, ∃ q, f.under = some q ∧
    q.Misfit ((present f.names entries).getD null) := by
  constructor
  · intro misfit
    cases misfit with
    | under field at' written' misfit =>
      cases written.symm.trans written'
      exact ⟨_, field, _, at', misfit⟩
    | entry each => rcases named with rfl | rfl | rfl <;> cases each
    | _ => simp at named
  · rintro ⟨f, field, q, at', misfit⟩
    exact .under field at' written misfit

/-- A state has its misfits under the names, or among the tags. -/
theorem Place.misfit_state_iff (written : m.entries? = some entries) :
    state.Misfit m ↔
    (∃ f ∈ state.fields, ∃ q, f.under = some q ∧ q.Misfit ((present f.names entries).getD null)) ∨
      ∃ tags, Config.sequence ((present ["tags"] entries).getD null) = .ok tags ∧ ∃ tag ∈ tags,
        tag.isKey = false := by
  constructor
  · intro misfit
    cases misfit with
    | tag written' read mem other =>
      cases written.symm.trans written'
      exact .inr ⟨_, read, _, mem, other⟩
    | under field at' written' misfit =>
      cases written.symm.trans written'
      exact .inl ⟨_, field, _, at', misfit⟩
    | entry each => cases each
  · rintro (⟨f, field, q, at', misfit⟩ | ⟨tags, read, tag, mem, other⟩)
    · exact .under field at' written misfit
    · exact .tag written read mem other

/-- What is read entry by entry has its misfits in the entries. -/
theorem Place.misfit_entries_iff {p q : Place} (each : p.entries? = some q)
    (written : m.entries? = some entries) :
    p.Misfit m ↔ ∃ e ∈ entries, q.Misfit e.2 := by
  constructor
  · intro misfit
    cases misfit with
    | entry each' written' mem misfit =>
      cases written.symm.trans written'
      cases each.symm.trans each'
      exact ⟨_, mem, misfit⟩
    | under field => cases p <;> cases each <;> cases field
    | _ => cases each
  · rintro ⟨e, mem, misfit⟩
    exact .entry each written mem misfit

/-- What is read as a mapping and is none has no misfits. -/
theorem Place.not_misfit {p : Place} (mapped : p ≠ sequence ∧ p ≠ candidates)
    (none : m.entries? = none) : ¬ p.Misfit m := by
  intro misfit
  cases misfit <;> simp_all

theorem Place.misfit_candidates_iff {vs : List Value} (written : v = list vs ∨ v = tuple vs) :
    candidates.Misfit v ↔ ∃ c ∈ vs, candidate.Misfit c := by
  constructor
  · intro misfit
    cases misfit with
    | listed mem misfit | tupled mem misfit =>
      rcases written with h | h <;> cases h
      exact ⟨_, mem, misfit⟩
    | single one => rcases written with rfl | rfl <;> cases one
    | under field => cases field
    | entry each => cases each
  · rintro ⟨c, mem, misfit⟩
    rcases written with rfl | rfl
    · exact .listed mem misfit
    · exact .tupled mem misfit

theorem Place.not_misfit_null : ¬ candidates.Misfit null := by
  intro misfit
  cases misfit with
  | single one => cases one
  | under field => cases field
  | entry each => cases each

theorem Place.misfit_single_iff (one : isSingle v = true) :
    candidates.Misfit v ↔ candidate.Misfit v := by
  constructor
  · intro misfit
    cases misfit with
    | single _ misfit => exact misfit
    | listed | tupled => cases one
    | under field => cases field
    | entry each => cases each
  · exact .single one

end Misfits

theorem Place.answers_sequence (v : Value) : Answers (sequence.Misfit v) (Config.sequence v) := by
  unfold Config.sequence
  split
  · exact .ok _ (by simp [misfit_sequence_iff])
  · exact .ok _ (by simp [misfit_sequence_iff, Value.items])
  · split
    · exact .ok _ (by simp_all [misfit_sequence_iff])
    · refine v.answers_items.congr ?_
      simp_all [misfit_sequence_iff]

theorem Place.answers_candidate (place : String) (v : Value) :
    Answers (candidate.Misfit v) (Config.candidate place v) := by
  cases h : v.entries? with
  | none =>
    have none := not_misfit (p := candidate) (by decide) h
    unfold Config.candidate
    split
    · exact .ok _ none
    · exact .ok _ none
    · rw [h]
      exact .refused rfl
  | some entries =>
    rw [candidate_eq h]
    exact (((answers_sequence _).map _).congr (by simp [misfit_fields_iff _ h, fields]))

theorem Place.answers_candidates (place : String) (v : Value) :
    Answers (candidates.Misfit v) (Config.candidates place v) := by
  unfold Config.candidates
  split
  · exact .ok _ (not_misfit_null)
  · exact (Answers.mapM fun c _ => answers_candidate place c).congr
      (misfit_candidates_iff (.inl rfl)).symm
  · exact (Answers.mapM fun c _ => answers_candidate place c).congr
      (misfit_candidates_iff (.inr rfl)).symm
  · exact ((answers_candidate place _).map _).congr
      (misfit_single_iff (by simp_all [isSingle])).symm

/-- What counts as false has no entries to go through. -/
theorem Place.answers_on (name v : Value) :
    Answers (on.Misfit v) (Config.onEntries name v >>= (·.mapM (Config.eventEntry name))) := by
  unfold onEntries
  cases h : v.entries? with
  | none =>
    have none := not_misfit (p := on) (by decide) h
    split
    · exact .refused rfl
    · exact .ok _ none
  | some entries =>
    have each := misfit_entries_iff (p := on) rfl h
    split
    · exact (Answers.mapM fun e _ => (answers_candidates _ e.2).map _).congr each.symm
    · have empty : entries = [] := by
        rcases entries_kinds h with rfl | ⟨type, payload, rfl⟩
        · simp_all [Value.truth]
        · simp_all [Value.truth]
      exact .ok _ (by simp [each, empty])

theorem Place.answers_invocation (name v : Value) :
    Answers (Place.invocation.Misfit v) (Config.invocation? name v) := by
  cases h : v.entries? with
  | none =>
    have none := not_misfit (p := .invocation) (by decide) h
    unfold Config.invocation? Config.invocation
    split
    · exact .ok _ none
    · split
      · exact .ok _ none
      · rw [h]
        exact .refused rfl
  | some entries =>
    rw [invocation_eq h]
    split
    · exact .refused rfl
    · refine ((answers_candidates _ _).bind fun _ _ => (answers_candidates _ _).map _).congr ?_
      simp [misfit_fields_iff _ h, fields]

theorem Place.answers_node (name v : Value) : Answers (state.Misfit v) (Config.node name v) := by
  cases h : v.entries? with
  | none =>
    have none := not_misfit (p := state) (by decide) h
    unfold Config.node
    split
    · exact .ok _ none
    · exact .ok _ none
    · rw [h]
      exact .refused rfl
  | some entries =>
    rw [node_eq h]
    have tagged (v : Value) (g : List Value → Value) : Answers (sequence.Misfit v ∨
        ∃ tags, Config.sequence v = .ok tags ∧ ∃ tag ∈ tags, tag.isKey = false)
        (do return g (← distinct (← Config.sequence v))) := by
      refine (answers_sequence v).bind fun tags read => ((answers_distinct tags).map _).congr ?_
      simp [read]
    refine ((answers_on _ _).bind fun _ _ => (answers_sequence _).bind fun _ _ =>
      (answers_sequence _).bind fun _ _ =>
        (answers_invocation _ _).bind fun _ _ => tagged _ _).congr ?_
    simp [misfit_state_iff h, fields, or_assoc]

theorem Place.answers_states {v : Value} {entries : Entries} (written : v.entries? = some entries) :
    Answers (states.Misfit v) (entries.mapM Config.stateEntry) :=
  (Answers.mapM fun e _ => (answers_node e.1 e.2).map _).congr (misfit_entries_iff rfl written).symm

theorem Place.answers_machine (config : Value) :
    Answers (Place.machine.Misfit config) (Machine.ofValue config) := by
  cases h : config.entries? with
  | none =>
    have none := not_misfit (p := .machine) (by decide) h
    unfold Machine.ofValue
    split
    · exact .ok _ none
    · rw [h]
      exact .refused rfl
  | some entries =>
    rw [machine_eq h]
    split
    · exact .refused rfl
    · cases written : ((present ["states"] entries).getD null).entries? with
      | none => exact .refused rfl
      | some found =>
        refine ((answers_states written).map _).congr ?_
        simp [misfit_fields_iff _ h, fields]

end Config

/-! ### The check -/

namespace Machine

section Check

variable (m : Machine) (place : String)

theorem answers_defines (name : Value) : Answers (name.isKey = false) (m.defines name) :=
  name.answers_checkKey.map _

theorem answers_targetProblems (target : Value) :
    Answers (target.isKey = false) (m.targetProblems place target) := by
  unfold targetProblems
  split
  · refine .ok _ ?_
    rw [Value.isNull_iff.mp ‹target.isNull = true›]
    exact Bool.noConfusion
  · exact (m.answers_defines target).map _

theorem answers_candidateProblems (v : Value) :
    Answers (¬ v.Aimed) (m.candidateProblems place v) := by
  unfold candidateProblems Value.Aimed
  cases this : Transition.ofValue? v with
  | none => exact .ok _ (by simp)
  | some t => exact ((m.answers_targetProblems place t.target).map _).congr (by simp)

theorem answers_candidatesProblems (cs : List Value) :
    Answers (∃ c ∈ cs, ¬ c.Aimed) (m.candidatesProblems place cs) :=
  (Answers.mapM fun c _ => m.answers_candidateProblems place c).map _

/-- What is offered has to be gone through, and then each candidate to be aimed. -/
theorem answers_offers (v : Value) :
    Answers (¬ v.Offers) (v.items >>= m.candidatesProblems place) := by
  refine (v.answers_items.bind (N := ∃ cs, v.items = .ok cs ∧ ∃ c ∈ cs, ¬ c.Aimed) fun cs items =>
    ?_).congr ?_
  · exact (m.answers_candidatesProblems place cs).congr (by simp [items])
  · unfold Value.Offers
    cases v.items <;> simp

/-- The member that offers has to be there besides. -/
theorem answers_offering {α : Type} {N : Prop} {g : List Problem → Except Failure α} (v : Value)
    (name : String) (h : ∀ found, Answers N (g found)) :
    Answers ((¬ ∃ w, v.member name = .ok w ∧ w.Offers) ∨ N)
      (do g (← m.candidatesProblems place (← (← v.member name).items))) := by
  refine ((v.answers_member name).bind
    (N := (∃ w, v.member name = .ok w ∧ ¬ w.Offers) ∨ N) fun w there => ?_).congr ?_
  · rw [← bind_assoc]
    exact ((m.answers_offers place w).bind fun found _ => h found).congr (by simp [there])
  · cases v.member name <;> simp

theorem answers_invokeProblems (name : String) (invoke : Value) :
    Answers (¬ invoke.Invokes) (m.invokeProblems name invoke) := by
  unfold invokeProblems
  split
  · exact .ok _ fun unread => unread (.inl (Value.isNull_iff.mp ‹invoke.isNull = true›))
  · have present : invoke ≠ null := fun null => ‹¬ invoke.isNull = true› (Value.isNull_iff.mpr null)
    refine ((invoke.answers_member "src").bind fun src _ =>
      m.answers_offering _ invoke "on_done" fun done =>
        m.answers_offering _ (N := False) invoke "on_error" fun failed => .ok _ not_false).congr ?_
    unfold Value.Invokes
    simp only [present, false_or, or_false, Classical.not_and_iff_not_or_not, not_exists, ne_eq]

theorem answers_nodeProblems (name : String) (n : Node) :
    Answers (¬ n.Legible) (m.nodeProblems name n) := by
  have on : Answers (∃ entry ∈ n.on, ¬ entry.2.Offers) (n.on.mapM (m.onProblems name)) :=
    .mapM fun entry _ => m.answers_offers _ entry.2
  refine (on.bind fun _ _ => (m.answers_invokeProblems name n.invoke).map _).congr ?_
  constructor
  · rintro (⟨entry, mem, unread⟩ | unread) legible
    · exact unread (legible.on entry mem)
    · exact unread legible.invoke
  · intro illegible
    refine Classical.or_iff_not_imp_right.mpr fun read => Classical.byContradiction fun all =>
      illegible ⟨fun entry mem => ?_, ?_⟩
    · exact Classical.not_not.mp fun unread => all ⟨entry, mem, unread⟩
    · exact Classical.not_not.mp read

theorem answers_stateProblems (entry : Value × Value) :
    Answers (¬ ∀ n, Node.ofValue? entry.2 = some n → n.Legible) (m.stateProblems entry) := by
  unfold stateProblems
  cases this : Node.ofValue? entry.2 with
  | none => exact .ok _ (by simp)
  | some n => exact (m.answers_nodeProblems _ n).congr (by simp)

theorem answers_problems : Answers (¬ m.Legible) m.problems := by
  refine ((m.answers_defines m.initial).bind fun _ _ =>
    (Answers.mapM fun entry _ => m.answers_stateProblems entry).map _).congr ?_
  constructor
  · rintro (unhashable | ⟨entry, mem, unread⟩) legible
    · rw [legible.initial] at unhashable
      cases unhashable
    · exact unread (legible.nodes entry mem)
  · intro illegible
    refine Classical.or_iff_not_imp_left.mpr fun key => Classical.byContradiction fun all =>
      illegible ⟨?_, fun entry mem => ?_⟩
    · simpa using key
    · exact Classical.not_not.mp fun unread => all ⟨entry, mem, unread⟩

end Check

/-- From any configuration there is a definition, or it is refused as a configuration, or it is
malformed and fails otherwise; no definition comes from a malformed one. -/
theorem create_answers (config : Value) :
    Answers (Config.Malformed config) (create config .standard) := by
  have checked (m : Machine) : Answers (¬ m.Legible) (Validator.standard.check m) := by
    unfold Validator.check Validator.complaints
    refine ((m.answers_problems.map _).bind (N := False) fun messages _ => ?_).congr (by simp)
    split
    · exact .ok _ not_false
    · exact .refused rfl
  refine ((Config.Place.answers_machine config).bind
    (N := ∃ m, ofValue config = .ok m ∧ ¬ m.Legible) fun m read =>
    ((checked m).map _).congr ?_)
  simp [read]

end Machine

/-! ### A number for a sequence -/

namespace Numbered

/-- The entry actions of the one state are a number. -/
def config : Value :=
  map [(str "initial", str "a"), (str "states", map [(str "a", map [(str "entry", int 5)])])]

/-- The number is gone through as if it were a sequence. -/
theorem entry_misused : Machine.create config .standard = .error (.notIterable "int") ∧
    (Failure.notIterable "int").kind = .type ∧ Config.Malformed config := by
  have failed : Machine.create config .standard = .error (.notIterable "int") := by rfl
  refine ⟨failed, rfl, ?_⟩
  rcases Machine.create_answers
    config with ⟨m, created, -⟩ | ⟨f, refused, configuration | ⟨-, malformed⟩⟩
  · cases created.symm.trans failed
  · cases refused.symm.trans failed
    cases configuration
  · exact malformed

end Numbered

end FlatMachine
