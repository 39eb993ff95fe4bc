import FlatMachine.Machine.Parts

/-! # Context overrides

A service may be started with a partial override of its machine's context.  **`Value.override`**
onto nothing gives the override itself; onto a mapping it sets the override's keys; onto a record
or another value that can be rebuilt from named parts it changes those.  Anything else is
refused.

**`Value.copyable`** says which contexts can be copied at all: not those that hold a node or a
machine. -/

namespace FlatMachine
namespace Value

mutual

/-- No node and no machine is inside. -/
def copyable : Value → Bool
  | list xs | tuple xs => copyableItems xs
  | map entries => copyableEntries entries
  | event _ payload => copyableFields payload
  | record _ _ _ fields => copyableFields fields
  | snapshot a b c d => copyable a && copyable b && copyable c && copyable d
  | transition target actions guard => copyable target && copyableItems actions && copyable guard
  | invocation src onDone onError autoStart =>
    copyable src && copyableItems onDone && copyableItems onError && copyable autoStart
  | node .. | machine .. | awaitable .. => false
  | _ => true
termination_by structural v => v

/-- Every item can be copied. -/
def copyableItems : List Value → Bool
  | [] => true
  | x :: xs => copyable x && copyableItems xs
termination_by structural xs => xs

/-- Every entry can be copied. -/
def copyableEntries : List (Value × Value) → Bool
  | [] => true
  | (k, v) :: rest => copyable k && copyable v && copyableEntries rest
termination_by structural xs => xs

/-- Every field can be copied. -/
def copyableFields : List (String × Value) → Bool
  | [] => true
  | (_, v) :: rest => copyable v && copyableFields rest
termination_by structural xs => xs

end

/-- A copy, which is the same value as nothing here is changed in place. -/
def copy (v : Value) : Except Failure Value :=
  if v.copyable then .ok v else .error (.notCopyable "mappingproxy")

theorem copy_eq_ok_iff {v w : Value} : v.copy = .ok w ↔ v.copyable = true ∧ w = v := by
  unfold copy
  split <;> rename_i copyable
  · rw [Except.ok.injEq, and_iff_right copyable, eq_comm]
  · exact ⟨nofun, fun h => absurd h.1 copyable⟩

/-- The complaint about an override that a record does not take; a fixed field is reported as
it is. -/
def rejected (f : Failure) : Failure :=
  if f.kind = .type then .overrideRejected f.text else f

/-- Merge the entries of an override into a context that is there. -/
def overrideEntries (base : Value) (changes : Entries) : Except Failure Value :=
  match base.entries? with
  | some entries => .ok (.map (merge entries changes))
  | none =>
    if base.parts?.isNone then .error (.overrideTarget base.typeName)
    else match Fields.ofEntries? changes with
      | none => .error (rejected .keywordsNotStrings)
      | some changes => match base.rebuild? changes with
        | some result => result.mapError rejected
        | none => .error (.overrideTarget base.typeName)

/-- Merge an override into a context; null is no override. -/
def override (base extra : Value) : Except Failure Value :=
  if extra.isNull then .ok base
  else match extra.entries? with
    | none => .error (if base.isNull then .overrideOfNothing else .overrideShape extra.typeName)
    | some changes => if base.isNull then .ok (.map changes) else overrideEntries base changes

end Value
end FlatMachine
