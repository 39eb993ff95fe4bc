import FlatMachine.Proofs.Invocation.Cancel
import FlatMachine.Proofs.Service.OutcomeOrigin
import FlatMachine.Proofs.Service.TriggeringEvent
import FlatMachine.Proofs.Service.Story

/-! # Where awaitables come from

An invocation waits for the awaitable that its source returned.  A source is called once for each
token (**`World.source_called_once`**), so this is the awaitable that the one call of it returned
(**`World.returned_of_waits`**).  If all that the source does is to call another function, then
that call returned it (**`World.Returned.nested`**).

That a call returned something is a statement about the run of the call, in the world as it was
when the call was written: the points and settings of the history say what that world was. -/

namespace FlatMachine

namespace Engine

open Run

variable {book : Book} {owner : Owner} {f f' : Value} {args args' : List Object}

/-- What a call returns that only calls something else is what that returns. -/
theorem invoke_nested (only : book f args = .perform (.call f' args')) {n : Nat} {role : Role}
    {u v : World} {o : Object}
    (run : ((ofBook book n).invoke owner role f args).run u = (.ok o, v)) :
    ∃ m, ((ofBook book m).invoke owner .nested f' args').run (u.noted (.called owner role f args)) =
      (.ok o, v) := by
  obtain ⟨_, _, written, called⟩ := bind_returns run
  cases written
  obtain ⟨r, _, called, returned⟩ := bind_returns called
  cases returned
  cases n with
  | zero => cases called
  | succ m =>
    refine ⟨m, ?_⟩
    change ((ofBook book m).exec owner (book f args) none).run _ = _ at called
    rw [show book f args = .ask (.call f' args') .done from only] at called
    obtain ⟨o, _, answered, done⟩ := bind_returns called
    cases done
    exact answered

end Engine

namespace World

/-- In the history of the world, the call was written on top of the journal, and it returned the
awaitable. -/
def Returned (book : Book) (w : World) (owner : Owner) (role : Role) (f : Value)
    (args : List Object) (journal : List Entry) (a : AwaitableId) : Prop :=
  ∃ n u o v cancel, u.journal = journal ∧
    ((Engine.ofBook book n).invoke owner role f args).run u = (.ok o, v) ∧ v.Precedes w ∧
    awaitableOf o.value = .ok (a, cancel)

theorem Returned.nested {book : Book} {w : World} {owner : Owner} {role : Role} {f f' : Value}
    {args args' : List Object} {journal : List Entry} {a : AwaitableId}
    (h : w.Returned book owner role f args journal a)
    (only : book f args = .perform (.call f' args')) :
    w.Returned book owner .nested f' args' (.called owner role f args :: journal) a := by
  obtain ⟨n, u, o, v, cancel, rfl, run, before, read⟩ := h
  obtain ⟨m, called⟩ := Engine.invoke_nested only run
  exact ⟨m, u.noted (.called owner role f args), o, v, cancel, rfl, called, before, read⟩

/-- The source that was called last only called the function, with the value.  This returned the
awaitable, for which the invocation waited, and which was settled like this. -/
def LatestResult (book : Book) (w : World) (i : Nat) (journal earlier : List Entry) (f x : Value)
    (a : AwaitableId) (settlement : Settlement) : Prop :=
  ∃ t src args e, latestCall (story i journal) = some (t, src, args) ∧
    .called (.service i) (.source t) src args :: earlier <:+ journal ∧
    book src args = .perform (.call f [.fresh x]) ∧
    w.Returned book (.service i) .nested f [.fresh x]
      (.called (.service i) (.source t) src args :: earlier) a ∧
    w.Awaited ⟨i, t, e⟩ a settlement

section Histories

variable {book : Book} {fuel : Nat} {looping : Bool} {history : List Command} {i : Nat} {t : Token}
  {f f' : Value} {args args' : List Object} {earlier earlier' : List Entry}

/-- The source of an invocation is called right after it was activated, which happens once. -/
theorem source_called_once
    (called : .called (.service i) (.source t) f args :: earlier <:+
      ((World.start looping).after (.ofBook book fuel) history).journal)
    (called' : .called (.service i) (.source t) f' args' :: earlier' <:+
      ((World.start looping).after (.ofBook book fuel) history).journal) :
    f' = f ∧ args' = args ∧ earlier' = earlier := by
  have threaded := threaded_after book fuel looping history i
  obtain ⟨level, text, invocation, before, first, rfl⟩ := ((threaded.suffix called).1 rfl).2
  obtain ⟨level', text', invocation', before', first', rfl⟩ := ((threaded.suffix called').1 rfl).2
  have once : ((World.start looping).after (.ofBook book fuel) history).journal.countP
      (Entry.activates i t) ≤ 1 := by
    obtain ⟨held, life⟩ := life_after book fuel looping history i t
    rw [← Entry.countP_about fun _ => Entry.about_of_activates]
    exact life.activates_le
  have activates {invocation : Value} {before : Slot} :
      (Entry.activated i t invocation before).activates i t = true := by
    simp [Entry.activates]
  have later : ∀ {x y : Entry} {journal : List Entry}, journal <:+ x :: y :: journal :=
    fun {_ _ _} => (List.suffix_cons _ _).trans (List.suffix_cons _ _)
  obtain rfl := suffix_once activates activates once (later.trans called) (later.trans called')
  have same := (List.suffix_of_suffix_length_le called called' (Nat.le_refl _)).eq_of_length rfl
  injection same with head tail
  injection head with _ _ callee arguments
  exact ⟨callee.symm, arguments.symm, tail.symm⟩

/-- Whatever an invocation waits for, the call of its source returned it. -/
theorem returned_of_waits {e : Event} {a : AwaitableId}
    (called : .called (.service i) (.source t) f args :: earlier <:+
      ((World.start looping).after (.ofBook book fuel) history).journal)
    (waits : ((World.start looping).after (.ofBook book fuel) history).Waits ⟨i, t, e⟩ a) :
    ((World.start looping).after (.ofBook book fuel) history).Returned book (.service i)
      (.source t) f args earlier a := by
  obtain ⟨n, src, c, u, o, v, cancel, run, read, before⟩ :=
    rooted_after book fuel looping history _ a waits
  have written := (Engine.called_of_invoke (Engine.grows_call book n) run).trans before.journal
  obtain ⟨rfl, rfl, rfl⟩ := source_called_once called written
  exact ⟨n, u, o, v, cancel, rfl, run, before, read⟩

/-- Whatever the invocation waited for whose source was called last, it is the latest result. -/
theorem latestResult_of_awaited {p : Point} {e : Event} {x : Value} {a : AwaitableId}
    {settlement : Settlement}
    (hp : p ∈ ((World.start looping).after (.ofBook book fuel) history).passed)
    (latest : latestCall (story i p.journal) = some (t, f, args))
    (called : .called (.service i) (.source t) f args :: earlier <:+ p.journal)
    (only : book f args = .perform (.call f' [.fresh x]))
    (awaited : ((World.start looping).after (.ofBook book fuel) history).Awaited
      ⟨i, t, e⟩ a settlement) :
    ((World.start looping).after (.ofBook book fuel) history).LatestResult book i
      p.journal earlier f' x a settlement := by
  have returned := returned_of_waits (called.trans (journal_of_passed hp)) awaited.waits
  exact ⟨t, f, args, e, latest, called, only, returned.nested only, awaited⟩

end Histories

end World

end FlatMachine
