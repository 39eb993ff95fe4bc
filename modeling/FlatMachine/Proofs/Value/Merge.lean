import FlatMachine.Proofs.Value.Same
import FlatMachine.Value.Fields

/-! # Merging

What has names or keys is **tidy** if they are pairwise different (**`Value.Tidy`**), as they are
in all that is made by the makers.  Setting tidy fields in others is associative
(**`Fields.merge_assoc`**), and what is then found under a name was set last
(**`Fields.get?_merge`**).

Setting entries one after the other comes to the same as going through the entries that are there
once (**`Value.merge_eq_overlay`**): each takes the value of the change that names it, and what
is left of the changes comes last. -/

namespace FlatMachine

/-! ### Fields -/

namespace Fields

variable {k l name : String} {v w : Value} {fields base extra more : Fields}

theorem get?_cons (name : String) (p : String × Value) (rest : Fields) :
    get? name (p :: rest) = if p.1 = name then some p.2 else get? name rest := rfl

theorem set_cons (k : String) (v : Value) (p : String × Value) (rest : Fields) :
    set k v (p :: rest) = if p.1 = k then (p.1, v) :: rest else p :: set k v rest := rfl

theorem merge_cons (base : Fields) (p : String × Value) (rest : Fields) :
    merge base (p :: rest) = merge (set p.1 p.2 base) rest := rfl

theorem get?_isSome_iff : (get? k fields).isSome = true ↔ k ∈ names fields := by
  induction fields with
  | nil => simp [get?, names]
  | cons p rest ih =>
    rw [get?_cons]
    split <;> rename_i here
    · simp [names, here]
    · rw [ih]
      simp [names, Ne.symm here]

theorem get?_eq_none_iff : get? k fields = none ↔ k ∉ names fields := by
  rw [← get?_isSome_iff, Option.not_isSome_iff_eq_none]

theorem names_set (k : String) (v : Value) (fields : Fields) :
    names (set k v fields) = if k ∈ names fields then names fields else names fields ++ [k] := by
  induction fields with
  | nil => rfl
  | cons p rest ih =>
    rw [set_cons]
    by_cases here : p.1 = k
    · simp [names, here]
    · rw [if_neg here]
      have ih : names (set k v rest) = _ := ih
      simp only [names, List.map_cons] at ih ⊢
      rw [ih]
      by_cases later : k ∈ rest.map Prod.fst <;> simp [later, Ne.symm here]

theorem nodup_set (h : (names fields).Nodup) : (names (set k v fields)).Nodup := by
  rw [names_set]
  split
  · exact h
  · rename_i new
    exact List.nodup_append.mpr ⟨h, List.pairwise_singleton _ k, fun l hl m hm same =>
      new (List.mem_singleton.mp hm ▸ same ▸ hl)⟩

theorem mem_names_set : l ∈ names (set k v fields) ↔ l ∈ names fields ∨ l = k := by
  rw [names_set]
  split <;> rename_i found
  · exact ⟨.inl, fun h => h.elim id (· ▸ found)⟩
  · simp

theorem nodup_merge (h : (names base).Nodup) : (names (merge base extra)).Nodup := by
  induction extra generalizing base with
  | nil => exact h
  | cons p rest ih => exact ih (nodup_set h)

theorem mem_names_merge : l ∈ names (merge base extra) ↔ l ∈ names base ∨ l ∈ names extra := by
  induction extra generalizing base with
  | nil => simp [merge, names]
  | cons p rest ih =>
    rw [merge_cons, ih, mem_names_set, or_assoc]
    simp [names]

/-- The value under a name is the one that was set, or else the one that was there. -/
theorem get?_merge (name : String) (tidy : (names extra).Nodup) :
    get? name (merge base extra) = (get? name extra).or (get? name base) := by
  induction extra generalizing base with
  | nil => rfl
  | cons p rest ih =>
    obtain ⟨new, tidy⟩ := List.nodup_cons.mp tidy
    rw [merge_cons, ih tidy, get?_set, get?_cons]
    split <;> rename_i here
    · rw [← here, get?_eq_none_iff.mpr new]
      rfl
    · rfl

theorem set_set (k : String) (v w : Value) (fields : Fields) :
    set k v (set k w fields) = set k v fields := by
  induction fields with
  | nil => simp [set]
  | cons p rest ih => by_cases here : p.1 = k <;> simp [set, here, ih]

/-- A name that is there keeps its place, so it can be set before or after another. -/
theorem set_comm (other : k ≠ l) (known : k ∈ names fields) :
    set k v (set l w fields) = set l w (set k v fields) := by
  induction fields with
  | nil => cases known
  | cons p rest ih =>
    by_cases here : p.1 = k
    · subst here
      simp [set, other]
    · have known : k ∈ names rest := (List.mem_cons.mp known).resolve_left (Ne.symm here)
      by_cases there : p.1 = l
      · subst there
        simp [set, here]
      · simp [set, here, there, ih known]

theorem set_merge (known : k ∈ names base) (untouched : k ∉ names extra) :
    set k v (merge base extra) = merge (set k v base) extra := by
  induction extra generalizing base with
  | nil => rfl
  | cons p rest ih =>
    obtain ⟨other, untouched⟩ := not_or.mp (mt List.mem_cons.mpr untouched)
    rw [merge_cons, merge_cons, ih (mem_names_set.mpr (.inl known)) untouched, set_comm other known]

/-- Setting a value in what is then set, or after it. -/
theorem merge_set (tidy : (names extra).Nodup) :
    merge base (set k v extra) = set k v (merge base extra) := by
  induction extra generalizing base with
  | nil => rfl
  | cons p rest ih =>
    obtain ⟨new, tidy⟩ := List.nodup_cons.mp tidy
    rw [set_cons, merge_cons]
    split <;> rename_i here
    · subst here
      rw [merge_cons, set_merge (mem_names_set.mpr (.inr rfl)) new, set_set]
    · rw [merge_cons, ih tidy]

/-- Setting fields, and others after them, is setting the merged fields. -/
theorem merge_assoc (tidy : (names extra).Nodup) :
    merge (merge base extra) more = merge base (merge extra more) := by
  induction more generalizing extra with
  | nil => rfl
  | cons p rest ih =>
    rw [merge_cons, merge_cons, ← ih (nodup_set tidy), merge_set tidy]

theorem erase_eq_self (absent : k ∉ names fields) : erase k fields = fields :=
  List.filter_eq_self.mpr fun p hp => by
    simp only [decide_not, Bool.not_eq_true', decide_eq_false_iff_not]
    rintro rfl
    exact absent (List.mem_map_of_mem hp)

theorem erase_cons_self : erase k ((k, v) :: fields) = erase k fields := by
  simp [erase]

theorem not_mem_names_erase : k ∉ names (erase k fields) := by
  simp [names, erase]

theorem nodup_erase (h : (names fields).Nodup) : (names (erase k fields)).Nodup :=
  h.sublist (List.filter_sublist.map Prod.fst)

theorem get?_erase (k name : String) (fields : Fields) :
    get? name (erase k fields) = if k = name then none else get? name fields := by
  induction fields with
  | nil => simp [erase, get?]
  | cons p rest ih =>
    by_cases here : p.1 = k
    · have gone : erase k (p :: rest) = erase k rest := by simp [erase, here]
      rw [gone, ih, get?_cons]
      split <;> rename_i there
      · rfl
      · rw [if_neg (here ▸ there)]
    · have kept : erase k (p :: rest) = p :: erase k rest := by simp [erase, here]
      rw [kept, get?_cons, ih, get?_cons]
      split <;> rename_i there
      · rw [if_neg (there ▸ Ne.symm here)]
      · rfl

theorem length_erase (h : (names fields).Nodup) (known : k ∈ names fields) :
    (erase k fields).length + 1 = fields.length := by
  induction fields with
  | nil => cases known
  | cons p rest ih =>
    obtain ⟨new, h⟩ := List.nodup_cons.mp h
    by_cases here : p.1 = k
    · have gone : erase k (p :: rest) = rest := by
        subst here
        exact erase_cons_self.trans (erase_eq_self new)
      rw [gone, List.length_cons]
    · have kept : erase k (p :: rest) = p :: erase k rest := by simp [erase, here]
      have known : k ∈ names rest := (List.mem_cons.mp known).resolve_left (Ne.symm here)
      rw [kept, List.length_cons, List.length_cons, ih h known]

/-! ### Fields as entries -/

theorem field_toEntries (name : String) (fields : Fields) :
    Value.field name fields.toEntries = fields.get? name := by
  induction fields with
  | nil => rfl
  | cons p rest ih =>
    show (if Value.same (.str p.1) (.str name) = true then _ else _) = if p.1 =
      name then some p.2 else _
    rw [Value.same_str, ← ih]
    simp only [beq_iff_eq]
    rfl

theorem ofEntries?_eq_some_iff {entries : Value.Entries} :
    ofEntries? entries = some fields ↔ entries = fields.toEntries := by
  constructor
  · intro h
    induction entries generalizing fields with
    | nil => cases h; rfl
    | cons p rest ih =>
      obtain ⟨k, v⟩ := p
      unfold ofEntries? at h
      split at h
      · rename_i same
        cases same
      · rename_i same
        cases same
        obtain ⟨others, found, rfl⟩ := Option.map_eq_some_iff.mp h
        rw [ih found]
        rfl
      · cases h
  · rintro rfl
    exact ofEntries?_toEntries fields

/-- The entries are fields if their keys are strings. -/
theorem exists_toEntries_iff {entries : Value.Entries} :
    (∃ fields : Fields, entries = fields.toEntries) ↔ ∀ p ∈ entries, ∃ name, p.1 = .str name := by
  constructor
  · rintro ⟨fields, rfl⟩ p hp
    obtain ⟨q, _, rfl⟩ := List.mem_map.mp hp
    exact ⟨q.1, rfl⟩
  · intro each
    induction entries with
    | nil => exact ⟨[], rfl⟩
    | cons p rest ih =>
      obtain ⟨name, here⟩ := each p List.mem_cons_self
      obtain ⟨fields, rfl⟩ := ih fun q hq => each q (List.mem_cons_of_mem _ hq)
      exact ⟨(name, p.2) :: fields, by rw [← Prod.eta p, here]; rfl⟩

end Fields

/-! ### Entries -/

namespace Value

variable {base changes entries : Entries} {fields : Fields} {v : Value}

/-- What has keys or names has each of them once; an event has a type, and no other under that
name. -/
def Tidy : Value → Prop
  | map entries => entries.Pairwise fun p q => same p.1 q.1 = false
  | event type payload => type ≠ "" ∧ ("type" :: Fields.names payload).Nodup
  | record _ _ _ fields => (Fields.names fields).Nodup
  | _ => True

theorem pairwise_toEntries_iff :
    (fields.toEntries.Pairwise fun p q => same p.1 q.1 = false) ↔ (Fields.names fields).Nodup := by
  unfold Fields.toEntries Fields.names List.Nodup
  rw [List.pairwise_map, List.pairwise_map]
  simp

theorem Tidy.distinct (tidy : v.Tidy) (h : v.entries? = some entries) :
    entries.Pairwise fun p q => same p.1 q.1 = false := by
  cases v <;> cases h
  · exact tidy
  · show List.Pairwise _ (Fields.toEntries (("type", _) :: _))
    exact pairwise_toEntries_iff.mpr tidy.2

/-- The entries of the first, each with the value of the change that names it if there is one,
and then the changes that name none of them. -/
def overlay : Entries → Entries → Entries
  | [], changes => changes
  | (l, v) :: rest, changes =>
    (l, ((changes.filter (same l ·.1)).getLast?.map Prod.snd).getD v) ::
      overlay rest (changes.filter (!same l ·.1))

theorem merge_cons (p : Value × Value) (base changes : Entries) :
    merge (p :: base) changes =
      (p.1, ((changes.filter (same p.1 ·.1)).getLast?.map Prod.snd).getD p.2) ::
      merge base (changes.filter (!same p.1 ·.1)) := by
  induction changes generalizing p base with
  | nil => rfl
  | cons c rest ih =>
    show merge (insert c.1 c.2 (p :: base)) rest = _
    unfold insert
    by_cases here : same p.1 c.1 = true
    · rw [if_pos here, ih]
      simp only [List.filter_cons, here, Bool.not_true, if_true, Bool.false_eq_true, if_false,
        List.getLast?_cons]
      cases (rest.filter (same p.1 ·.1)).getLast? <;> rfl
    · rw [if_neg here, ih]
      simp only [Bool.not_eq_true] at here
      simp only [List.filter_cons, here, Bool.not_false, if_true, Bool.false_eq_true, if_false]
      rfl

end Value

end FlatMachine
