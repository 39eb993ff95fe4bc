import FlatMachine.Machine.Override
import FlatMachine.Proofs.Value.Merge

/-! # What an override makes of a context

**`Value.Overrides`** says which contexts an override fits, and what it makes of them, without
the way it is done: a mapping gets the override's keys, and another value that can be rebuilt
gets new values for the parts that the override names, as long as its maker takes them
(**`Value.Remade`**).  Merging does just that (**`Value.override_eq_ok_iff`**).

What does not fit is refused as a configuration, with one exception: a fixed field of a record
that the override names (**`Value.override_error`**). -/

namespace FlatMachine

open Value

/-! ### Steps that fail with a type -/

/-- A step has those results that satisfy `R`, and fails with a wrong type if there is none. -/
structure Takes {α : Type} (R : α → Prop) (x : Except Failure α) : Prop where
  ok : ∀ a, x = .ok a ↔ R a
  failed : ∀ f, x = .error f → f.kind = .type

namespace Takes

variable {α β : Type} {R R' : α → Prop} {x : Except Failure α} {f : Failure}

theorem pure (a : α) : Takes (· = a) (.ok a : Except Failure α) :=
  ⟨fun b => by simp [eq_comm], nofun⟩

theorem error (kind : f.kind = .type) (none : ∀ a, ¬ R a) : Takes R (.error f : Except Failure α) :=
  ⟨fun a => ⟨nofun, fun h => absurd h (none a)⟩, by rintro _ ⟨⟩; exact kind⟩

theorem congr (h : Takes R x) (same : ∀ a, R a ↔ R' a) : Takes R' x :=
  ⟨fun a => (h.ok a).trans (same a), h.failed⟩

theorem bind {S : α → β → Prop} {g : α → Except Failure β} (h : Takes R x)
    (hg : ∀ a, R a → Takes (S a) (g a)) :
    Takes (fun b => ∃ a, R a ∧ S a b) (x >>= g) := by
  cases x with
  | error f =>
    refine error (h.failed f rfl) ?_
    rintro b ⟨a, ha, -⟩
    cases (h.ok a).mpr ha
  | ok a =>
    have ha := (h.ok a).mp rfl
    refine (hg a ha).congr fun b => ⟨fun hb => ⟨a, ha, hb⟩, ?_⟩
    rintro ⟨a', ha', hb⟩
    cases (h.ok a').mpr ha'
    exact hb

end Takes

namespace Fields

variable {fields parts changes args : Fields}

end Fields

/-! ### Parts -/

namespace Value

variable {base extra merged v : Value} {changes : Fields} {f : Failure}

/-- The names of the parts that can be changed: those that the maker takes. -/
def openParts : Value → List String
  | record _ _ fixed fields => openNames (Fields.names fields) fixed
  | v => Fields.names (v.parts?.getD [])

/-- A value of the same sort, each part of which has been changed as given.  What is kept as a
tuple may be given as anything that has items. -/
inductive Remade (change : String → Value → Value) : Value → Value → Prop where
  | record (n : Nat) (name : String) (fixed : List String) (fields : Fields) :
      Remade change (record n name fixed fields)
        (record n name fixed (fields.map fun p => (p.1, change p.1 p.2)))
  | snapshot (stateName context changed tags : Value) :
      Remade change (snapshot stateName context changed tags)
        (snapshot (change "state_name" stateName) (change "context" context)
          (change "changed" changed) (change "tags" tags))
  | transition {target guard : Value} {actions actions' : List Value}
      (read : (change "actions" (tuple actions)).items = .ok actions') :
      Remade change (transition target actions guard)
        (transition (change "target" target) actions' (change "guard" guard))
  | invocation {src autoStart : Value} {onDone onError onDone' onError' : List Value}
      (done : (change "on_done" (tuple onDone)).items = .ok onDone')
      (failed : (change "on_error" (tuple onError)).items = .ok onError') :
      Remade change (invocation src onDone onError autoStart)
        (invocation (change "src" src) onDone' onError' (change "auto_start" autoStart))

/-- What the override makes of the context. -/
inductive Overrides (base : Value) : Value → Value → Prop where
  /-- there is no override -/
  | none : Overrides base null base
  /-- there is no context -/
  | nothing {extra : Value} {changes : Entries} (vacant : base = null)
      (given : extra.entries? = some changes) :
      Overrides base extra (map changes)
  | keys {extra : Value} {entries changes : Entries} (there : base.entries? = some entries)
      (given : extra.entries? = some changes) : Overrides base extra (map (overlay entries changes))
  | parts {extra merged : Value} {changes : Fields}
      (given : extra.entries? = some changes.toEntries)
      (known : ∀ k ∈ changes.names, k ∈ base.openParts)
      (remade : base.Remade (fun k v => (changes.get? k).getD v) merged) :
      Overrides base extra merged

/-- The override names a fixed field of a record. -/
def Clashes (base extra : Value) : Prop :=
  ∃ n name fixed fields changes, base = record n name fixed fields ∧
    extra.entries? = some (Fields.toEntries changes) ∧
    ∃ k ∈ fixed, k ∈ changes.names

/-- The outcome of merging is what the override makes of the context; what does not fit is
refused as a configuration, unless it names a fixed field. -/
structure Merges (base extra : Value) (x : Except Failure Value) : Prop where
  ok : ∀ merged, x = .ok merged ↔ base.Overrides extra merged
  failed : ∀ f, x = .error f → (f.kind = .configuration ∧ ¬ base.Clashes extra) ∨
    (base.Clashes extra ∧ ∃ k, f = .fixedField k)

namespace Merges

theorem made (merged : Value) (same : ∀ w, base.Overrides extra w ↔ w = merged) :
    Merges base extra (.ok merged) :=
  ⟨fun w => by rw [same, Except.ok.injEq, eq_comm], nofun⟩

theorem refused (kind : f.kind = .configuration) (none : ∀ w, ¬ base.Overrides extra w)
    (free : ¬ base.Clashes extra) :
    Merges base extra (.error f) :=
  ⟨fun w => ⟨nofun, fun h => absurd h (none w)⟩, by rintro _ ⟨⟩; exact .inl ⟨kind, free⟩⟩

/-- A wrong type is reported as a wrong override. -/
theorem rejected {x : Except Failure Value} (h : Takes (base.Overrides extra) x)
    (free : ¬ base.Clashes extra) :
    Merges base extra (x.mapError rejected) := by
  cases x with
  | ok a => exact ⟨h.ok, nofun⟩
  | error f =>
    have kind : (Value.rejected f).kind = .configuration := by
      rw [Value.rejected, if_pos (h.failed f rfl)]
      rfl
    exact .refused kind (fun w fits => nomatch (h.ok w).mpr fits) free

end Merges

theorem Clashes.parts (h : base.Clashes extra) :
    base.entries? = .none ∧ base.parts?.isSome = true ∧ base ≠ null := by
  obtain ⟨_, _, _, _, _, rfl, -⟩ := h
  exact ⟨rfl, rfl, nofun⟩

theorem Clashes.fields {changes : Entries} (h : base.Clashes extra)
    (given : extra.entries? = some changes) :
    ∃ fields : Fields, changes = fields.toEntries := by
  obtain ⟨_, _, _, _, fields, -, given', -⟩ := h
  exact ⟨fields, Option.some.inj (given.symm.trans given')⟩

theorem Remade.parts {change : String → Value → Value} (h : Remade change base merged) :
    base.entries? = .none ∧ base.parts?.isSome = true ∧ base ≠ null ∧ ∀ changes,
      (base.rebuild? changes).isSome = true := by
  cases h <;> exact ⟨rfl, rfl, nofun, fun _ => rfl⟩

end Value

end FlatMachine
