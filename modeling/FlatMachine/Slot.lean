import FlatMachine.Value.Basic

/-! # The invocation slot

A service has at most one invocation whose result is still wanted.  The slot holds that
invocation's token and, once its source has returned one, its cancel callback.  Emptying the slot
is what cancelling means: the awaited work goes on, and its outcome finds no token.

The slot runs no callback itself: **`attach`** and **`clear`** hand back the callback that is to
be run. -/

namespace FlatMachine

/-- The token of the active invocation, and its cancel callback. -/
structure Slot where
  token : Option Token
  cancel : Option Value
  deriving Inhabited

namespace Slot

/-- No invocation is active. -/
def empty : Slot := ⟨none, none⟩

/-- Make a token the active one.  Nothing is recorded for it yet. -/
def activate (_ : Slot) (t : Token) : Slot := ⟨some t, none⟩

/-- The token is the active one. -/
def isActive (s : Slot) (t : Token) : Bool := s.token == some t

/-- Record the cancel callback of a token, null for none.  If the token is no longer active, the
callback is handed back, to be run at once. -/
def attach (s : Slot) (t : Token) (cancel : Value) : Slot × Option Value :=
  if cancel.isNull then (s, none)
  else if s.isActive t then ({ s with cancel := some cancel }, none)
  else (s, some cancel)

/-- Empty the slot without running anything, if the token is active; says whether it was. -/
def retire (s : Slot) (t : Token) : Slot × Bool :=
  if s.isActive t then (empty, true) else (s, false)

/-- Empty the slot and hand back the recorded callback, to be run. -/
def clear (s : Slot) : Slot × Option Value := (empty, s.cancel)

@[simp] theorem isActive_activate (s : Slot) (t u : Token) :
    (s.activate t).isActive u = (t == u) := by
  simp [activate, isActive]

theorem isActive_iff {s : Slot} {t : Token} : s.isActive t = true ↔ s.token = some t := by
  simp [isActive]

end Slot
end FlatMachine
