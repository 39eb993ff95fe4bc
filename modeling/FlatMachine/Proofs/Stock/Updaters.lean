import FlatMachine.Proofs.Event
import FlatMachine.Proofs.Stock.Form

/-! # What updaters do

An updater computes: it looks at its arguments, reads the clock and calls what it closes over.
**`Prog.Ensures`** says of a program of that sort what it returns, by what time, and how it
fails, whatever the clock shows and whatever is returned by what it calls.  If so, that is what
running it does, and a service that is drained meanwhile is spared (**`Engine.ends_exec`**).  As
an assigning action it sets the pending context accordingly (**`Engine.ends_updating`**). -/

namespace FlatMachine

theorem Event.getItem_str (e : Event) {name : String} (other : name ≠ "type") :
    e.getItem (.str name) =
      (e.payload.get? name).elim (.error (.missingKey (Value.str name).shown)) .ok := by
  unfold getItem
  rw [find_str, field_entries, if_neg (Ne.symm other)]
  cases e.payload.get? name <;> rfl

/-- What was put into the payload of an event is found there. -/
theorem Event.getItem_withPayload {e seen : Event} {name : String} {v : Value}
    (other : name ≠ "type") (h : e.withPayload [(name, v)] = .ok seen) :
    seen.getItem (.str name) = .ok v := by
  cases Event.eq_of_withPayload h
  rw [getItem_str _ other]
  show (Fields.get? name (Fields.set name v e.payload)).elim _ _ = _
  rw [Fields.get?_set_self]
  rfl

/-- Begun at a time that has passed, the program returns a result as it should, at a time that
has passed then, or it fails as it may.  Of what it calls, the result is known that its program
gives, but not how it fails. -/
inductive Prog.Ensures {α : Type} (book : Book) (Q : α → Nat → Prop) (F : Failure → Prop) :
    Prog α → Nat → Prop
  | done {a : α} {time : Nat} (result : Q a time) : Ensures book Q F (.done a) time
  | fail {f : Failure} {time : Nat} (fails : F f) : Ensures book Q F (.fail f) time
  | now {next : Nat → Prog α} {time : Nat} (later : ∀ n, time < n → Ensures book Q F (next n) n) :
      Ensures book Q F (.ask .now next) time
  | call {f : Value} {args : List Object} {next : Object → Prog α} {time : Nat} {P : Object → Prop}
      (fails : ∀ f, F f)
      (gives : (book f args).Gives P) (then_ : ∀ o, P o → Ensures book Q F (next o) time) :
      Ensures book Q F (.ask (.call f args) next) time

theorem Prog.Ensures.ofExcept {α β : Type} {book : Book} {Q : β → Nat → Prop} {F : Failure → Prop}
    {x : Except Failure α} {k : α → Prog β} {time : Nat}
    (ok : ∀ a, x = .ok a → (k a).Ensures book Q F time) (fails : ∀ f, x = .error f → F f) :
    (Prog.ofExcept x >>= k).Ensures book Q F time := by
  cases x with
  | ok a => exact ok a rfl
  | error f => exact .fail (fails f rfl)

/-- A service that is drained, and a time that has passed. -/
theorem World.Steady.since {i : Nat} {K : World → Prop} (h : Steady i K) (time : Nat) :
    Steady i fun w => K w ∧ time ≤ w.clock where
  busy := fun hw => h.busy hw.1
  spared := fun spares hw => ⟨h.spared spares hw.1, Nat.le_trans hw.2 spares.clock⟩

namespace Engine

open Run World

variable {α : Type} {book : Book} {i : Nat} {K : World → Prop} {F : Failure → Prop} {time : Nat}

/-- What is called in passing returns what its program gives. -/
theorem ends_answer_call (hK : Steady i K) {f : Value} {args : List Object} {P : Object → Prop}
    (gives : (book f args).Gives P) (fuel : Nat) (owner : Owner) :
    Ends K ((ofBook book fuel).answer owner (.call f args)) (fun o w => P o ∧ K w) fun _ => K := by
  have sustained : Respects K ((ofBook book fuel).answer owner (.call f args)) :=
    .bind (fun _ => hK.spared (.noted (Entry.deed?_of_other rfl))) fun _ =>
      .bind (hK.sustained (sparing_ofBook book fuel) _ _ _ _) fun _ => .pure
  exact ((meets_answer_gives gives fuel owner).and sustained).conseq (fun _ hw => ⟨trivial, hw⟩)
    (fun _ _ => id) fun _ hw => hw.2

/-- Running the program is as the program ensures. -/
theorem ends_exec {p : Prog α} {Q : α → Nat → Prop} (h : p.Ensures book Q F time) (hK : Steady i K)
    (fuel : Nat) (owner : Owner) (c : Option Context) :
    Ends (fun w => K w ∧ time ≤ w.clock) ((ofBook book fuel).exec owner p c)
      (fun out w => K w ∧ ∃ time', Q out.1 time' ∧ time' ≤ w.clock)
      (fun halt w => K w ∧ ∀ f, halt = .raised f → F f) := by
  induction h with
  | done result => exact .pure fun w hw => ⟨hw.1, _, result, hw.2⟩
  | fail fails => exact .fail fun w hw => ⟨hw.1, fun f same => Halt.raised.inj same ▸ fails⟩
  | @now next time later ih =>
    rintro w ⟨hw, before⟩
    have ticked : K { w with clock := w.clock + 1 } := hK.spared (.advanced (.ticked w)) hw
    exact ih (w.clock + 1) (Nat.lt_succ_of_le before) _ ⟨ticked, Nat.le_refl _⟩
  | call fails gives _ ih =>
    refine .bind ((ends_answer_call (hK.since _) gives fuel owner).weaken fun halt w hw =>
      ⟨hw.1, fun f _ => fails f⟩) fun o => ?_
    exact .given (fun _ hw => hw.1) fun result => (ih o result).pre fun _ hw => hw.2

/-- Calling a callable is as its program ensures. -/
theorem ends_call {f : Value} {args : List Object} {Q : Object → Nat → Prop}
    (h : (book f args).Ensures book Q F time) (hK : Steady i K) (fuel : Nat) (owner : Owner)
    (c : Option Context) :
    Ends (fun w => K w ∧ time ≤ w.clock) ((ofBook book fuel).call owner f args c)
      (fun out w => K w ∧ ∃ time', Q out.1 time' ∧ time' ≤ w.clock)
      (fun halt w => K w ∧ ∀ f, halt = .raised f → F f) := by
  cases fuel with
  | zero => exact .throw fun _ hw => ⟨hw.1, nofun⟩
  | succ fuel => exact ends_exec h hK fuel owner c

/-- As an assigning action, the pending context becomes the result of the updater. -/
theorem ends_updating {codes : Codes} {code : Code} {held : List Value} {context : Context}
    {e : Event} {Q : Object → Nat → Prop}
    (h : (codes code held [.held context, .fresh e.toValue]).Ensures (.ofCodes codes) Q F time)
    (hK : Steady i K) (fuel : Nat) :
    Ends (fun w => K w ∧ time ≤ w.clock)
      ((ofBook (.ofCodes codes) fuel).call (.service i) (Stock.updating code held)
        [.held context, .fresh e.toValue, .fresh (.actionAccess (.service i))] (some context))
      (fun out w => K w ∧ ∃ o time', Q o time' ∧ (out.2.getD context).value = o.value ∧
        time' ≤ w.clock)
      (fun halt w => K w ∧ ∀ f, halt = .raised f → F f) := by
  cases fuel with
  | zero => exact .throw fun _ hw => ⟨hw.1, nofun⟩
  | succ fuel =>
    have sparing := sparing_ofBook (.ofCodes codes) fuel
    have called :
        Ends (fun w => K w ∧ time ≤ w.clock) ((ofBook (.ofCodes codes) fuel).answer (.service i)
          (.call (.function .own none code held) [.held context, .fresh e.toValue]))
          (fun o w => K w ∧ ∃ time', Q o time' ∧ time' ≤ w.clock)
            (fun halt w => K w ∧ ∀ f, halt = .raised f → F f) := by
      refine .bind (Q := fun _ w => K w ∧ time ≤ w.clock) (.note fun w hw => ?_) fun _ => ?_
      · exact (hK.since time).spared (.noted (Entry.deed?_of_other rfl)) hw
      · exact .bind (ends_call h hK fuel _ _) fun out => .pure fun _ => id
    refine .bind called fun o => ?_
    refine .pre (.ofExists (P := fun time' w => Q o time' ∧ K w ∧ time' ≤ w.clock) fun time' =>
      .given (fun _ hw => hw.1) fun result => ?_) fun w ⟨hw, time', result, before⟩ =>
        ⟨time', result, hw, before⟩
    have minted {E : Halt → World → Prop} :
        Ends (fun w => K w ∧ time' ≤ w.clock) (mint (.service i))
          (fun _ w => K w ∧ time' ≤ w.clock) E := fun w hw => by
      obtain ⟨s, hs, -⟩ := hK.busy hw.1
      rw [run_mint hs]
      exact ((hK.since time').free sparing).changed (fun _ => .supply _) hw
    refine Ends.pre (?_ : Ends (fun w => K w ∧ time' ≤ w.clock) _ _ _) fun _ hw => hw.2
    refine .bind (Q := fun c w => c.value = o.value ∧ K w ∧ time' ≤ w.clock) ?_ fun c =>
      .pure fun w ⟨same, hw, before⟩ =>
        ⟨hw, o, time', result, same, before⟩
    exact .bind minted fun n => .pure fun _ hw => ⟨rfl, hw⟩

end Engine
end FlatMachine
