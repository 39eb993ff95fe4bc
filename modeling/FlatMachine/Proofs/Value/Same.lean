import FlatMachine.Value.Equality

/-! # Equality is reflexive

**`Value.same_self`**: every value is the same as itself, whatever it contains.  So a live state
that was not moved counts as unchanged, and a key that is set is there
(**`Value.hasKey_insert_self`**).  A string is the same as nothing else
(**`Value.eq_of_same_str`**). -/

namespace FlatMachine
namespace Value

mutual

theorem same_self : (v : Value) → same v v = true
  | null => by simp [same]
  | bool b => by cases b <;> simp [same, number?, sameNumber]
  | int i => by simp [same, number?, sameNumber]
  | float x => by simp [same, number?, sameNumber]
  | nan o => by simp [same]
  | str s => by simp [same]
  | list xs => by simp [same, sameItems_self xs]
  | tuple xs => by simp [same, sameItems_self xs]
  | map xs => by simp [same, sameEntries_self xs xs fun _ => id]
  | event s xs => by simp [same, sameFields_self xs xs fun _ => id]
  | failure o f => by simp [same]
  | function o name c xs => by simp [same, sameItems_self xs]
  | assign o u => by simp [same, same_self u]
  | recordType n name defaults fixed => by simp [same]
  | record n name fixed xs => by simp [same, sameFields_self xs xs fun _ => id]
  | snapshot a b c d => by simp [same, same_self a, same_self b, same_self c, same_self d]
  | transition a xs g => by simp [same, same_self a, sameItems_self xs, same_self g]
  | invocation a xs ys b =>
    by simp [same, same_self a, sameItems_self xs, sameItems_self ys, same_self b]
  | node on xs ys i ts => by
    simp [same, sameEntries_self on on fun _ => id, sameItems_self xs, sameItems_self ys,
      same_self i,
      sameItems_self ts]
  | machine o id initial context states => by simp [same]
  | awaitable o n => by simp [same]
  | actionAccess o => by simp [same]
  | sourceAccess i t => by simp [same]

theorem sameItems_self : (xs : List Value) → sameItems xs xs = true
  | [] => by simp [sameItems]
  | x :: xs => by simp [sameItems, same_self x, sameItems_self xs]

theorem sameEntries_self :
    (xs ys : List (Value × Value)) → (∀ p ∈ xs, p ∈ ys) → sameEntries xs ys = true
  | [], _, _ => by simp [sameEntries]
  | (k, v) :: rest, ys, h => by
    have here : ys.any (fun (l, w) => same k l && same v w) = true :=
      List.any_eq_true.mpr ⟨(k, v), h _ List.mem_cons_self, by simp [same_self k, same_self v]⟩
    have others := sameEntries_self rest ys fun p hp => h p (List.mem_cons_of_mem _ hp)
    simp only [sameEntries, here, others, Bool.and_self]

theorem sameFields_self :
    (xs ys : List (String × Value)) → (∀ p ∈ xs, p ∈ ys) → sameFields xs ys = true
  | [], _, _ => by simp [sameFields]
  | (k, v) :: rest, ys, h => by
    have here : ys.any (fun (l, w) => k == l && same v w) = true :=
      List.any_eq_true.mpr ⟨(k, v), h _ List.mem_cons_self, by simp [same_self v]⟩
    have others := sameFields_self rest ys fun p hp => h p (List.mem_cons_of_mem _ hp)
    simp only [sameFields, here, others, Bool.and_self]

end

theorem eq_of_str_same {v : Value} {name : String} (h : (str name).same v = true) :
    v = str name := by
  cases v <;> simp_all [same, number?]

theorem eq_of_same_str {v : Value} {name : String} (h : v.same (str name) = true) :
    v = str name := by
  cases v <;> simp_all [same, number?]

/-! ### Keys that are set -/

variable {k l v : Value} {entries : Entries}

theorem hasKey_insert_self (k v : Value) (entries : Entries) :
    hasKey k (insert k v entries) = true := by
  unfold hasKey
  induction entries with
  | nil => simp [insert, lookup, same_self]
  | cons p rest ih =>
    unfold insert
    split <;> rename_i found
    · simp [lookup, found]
    · simp [lookup, found, ih]

/-- What is set leaves the keys that are there. -/
theorem hasKey_insert (h : hasKey l entries = true) : hasKey l (insert k v entries) = true := by
  unfold hasKey at h ⊢
  induction entries with
  | nil => cases h
  | cons p rest ih =>
    unfold lookup at h
    unfold insert
    split at h <;> rename_i found
    · split <;> simp [lookup, found]
    · split
      · simp [lookup, found, h]
      · simp [lookup, found, ih h]

/-- An entry is there before, or it has the value that is set, under a new key or one that is
there before. -/
theorem mem_insert {q : Value × Value} (h : q ∈ insert k v entries) :
    q ∈ entries ∨ q.2 = v ∧ (q.1 = k ∨ ∃ w, (q.1, w) ∈ entries) := by
  induction entries with
  | nil =>
    cases List.mem_singleton.mp h
    exact Or.inr ⟨rfl, Or.inl rfl⟩
  | cons p rest ih =>
    unfold insert at h
    split at h
    · rcases List.mem_cons.mp h with rfl | h
      · exact Or.inr ⟨rfl, Or.inr ⟨p.2, List.mem_cons_self⟩⟩
      · exact Or.inl (List.mem_cons_of_mem _ h)
    · rcases List.mem_cons.mp h with rfl | h
      · exact Or.inl List.mem_cons_self
      · rcases ih h with h | ⟨value, key | ⟨w, key⟩⟩
        · exact Or.inl (List.mem_cons_of_mem _ h)
        · exact Or.inr ⟨value, Or.inl key⟩
        · exact Or.inr ⟨value, Or.inr ⟨w, List.mem_cons_of_mem _ key⟩⟩

end Value
end FlatMachine
