import FlatMachine.Value.Equality
import FlatMachine.Value.Shown

/-! # Named values

**`Fields`** are values under names, in order, as in an event's payload or a record.  A mapping
whose keys are all strings is fields, and fields are read back as a mapping's entries. -/

namespace FlatMachine

/-- Values under names, in order. -/
abbrev Fields := List (String × Value)

namespace Fields

/-- The value under a name. -/
def get? (name : String) : Fields → Option Value
  | [] => none
  | (k, v) :: rest => if k = name then some v else get? name rest

/-- Set the value under a name; a new name comes last. -/
def set (name : String) (v : Value) : Fields → Fields
  | [] => [(name, v)]
  | (k, w) :: rest => if k = name then (k, v) :: rest else (k, w) :: set name v rest

/-- Set the second fields in the first, one after the other. -/
def merge (base extra : Fields) : Fields := extra.foldl (fun acc (k, v) => set k v acc) base

/-- All but the value under a name. -/
def erase (name : String) (fields : Fields) : Fields := fields.filter (·.1 ≠ name)

/-- The names, in order. -/
def names (fields : Fields) : List String := fields.map Prod.fst

/-- Fields as a mapping's entries. -/
def toEntries (fields : Fields) : Value.Entries := fields.map fun (k, v) => (.str k, v)

/-- The fields that a mapping's entries are, if every key is a string. -/
def ofEntries? : Value.Entries → Option Fields
  | [] => some []
  | (.str k, v) :: rest => (ofEntries? rest).map ((k, v) :: ·)
  | _ => none

@[simp] theorem ofEntries?_toEntries (fields : Fields) :
    ofEntries? fields.toEntries = some fields := by
  induction fields with
  | nil => rfl
  | cons p rest ih =>
    have : toEntries (p :: rest) = (.str p.1, p.2) :: toEntries rest := rfl
    simp [this, ofEntries?, ih]

theorem get?_set_self (name : String) (v : Value) (fields : Fields) :
    get? name (set name v fields) = some v := by
  induction fields with
  | nil => simp [set, get?]
  | cons p rest ih =>
    obtain ⟨k, w⟩ := p
    by_cases h : k = name <;> simp [set, get?, h, ih]

theorem get?_set_ne {name other : String} (h : name ≠ other) (v : Value) (fields : Fields) :
    get? other (set name v fields) = get? other fields := by
  induction fields with
  | nil => simp [set, get?, h]
  | cons p rest ih =>
    obtain ⟨k, w⟩ := p
    by_cases hk : k = name
    · subst hk; simp [set, get?, h]
    · simp only [set, hk, if_false, get?, ih]

theorem get?_set (name other : String) (v : Value) (fields : Fields) :
    get? other (set name v fields) = if name = other then some v else get? other fields := by
  by_cases h : name = other
  · subst h; simp [get?_set_self]
  · simp [get?_set_ne h, h]

end Fields

namespace Value

/-- Key and value of one item of a sequence of pairs. -/
def pair (item : Value) : Except Failure (Value × Value) := do
  match ← item.items with
  | [k, v] => checkKey k; return (k, v)
  | _ => throw .notPair

/-- A mapping's entries, or the entries that a sequence of pairs gives. -/
def toEntries (v : Value) : Except Failure Entries :=
  match v.entries? with
  | some entries => .ok entries
  | none => do return ofEntries (← (← v.items).mapM pair)

end Value
end FlatMachine
