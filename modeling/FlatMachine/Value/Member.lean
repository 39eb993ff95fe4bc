import FlatMachine.Value.Fields

/-! # Members

Records, snapshots, transitions, invocations, nodes and machines are made of named parts, which
**`Value.parts?`** lists.  **`Value.member`** reads one by its name; a value that is made of
other parts, or of none, is refused.

What uses a node, an invocation or a transition reads its members, so a record with members of
the same names serves as well. -/

namespace FlatMachine
namespace Value

/-- The named parts of a value, if it is made of such. -/
def parts? : Value → Option Fields
  | record _ _ _ fields => some fields
  | snapshot stateName context changed tags =>
    some [("state_name", stateName), ("context", context), ("changed", changed), ("tags", tags)]
  | transition target actions guard =>
    some [("target", target), ("actions", tuple actions), ("guard", guard)]
  | invocation src onDone onError autoStart =>
    some [("src", src), ("on_done", tuple onDone), ("on_error", tuple onError),
      ("auto_start", autoStart)]
  | node on entry exit invoke tags =>
    some [("on", map on), ("entry", tuple entry), ("exit", tuple exit), ("invoke", invoke),
      ("tags", tuple tags)]
  | machine _ id initial context states =>
    some [("initial", initial), ("states", map states), ("context", context), ("id", id)]
  | _ => none

/-- The member of a value under a name, which has to be there. -/
def member (v : Value) (name : String) : Except Failure Value :=
  match v.parts?.bind (Fields.get? name) with
  | some w => .ok w
  | none => .error (.noMember v.typeName name)

@[simp] theorem member_null (name : String) :
    member null name = .error (.noMember "NoneType" name) := rfl

theorem member_record (n : Nat) (type : String) (fixed : List String) (fields : Fields)
    (name : String) :
    member (record n type fixed fields) name =
      match fields.get? name with
      | some w => .ok w
      | none => .error (.noMember type name) := rfl

@[simp] theorem member_target (target : Value) (actions : List Value) (guard : Value) :
    member (transition target actions guard) "target" = .ok target := rfl

@[simp] theorem member_actions (target : Value) (actions : List Value) (guard : Value) :
    member (transition target actions guard) "actions" = .ok (tuple actions) := rfl

@[simp] theorem member_src (src : Value) (onDone onError : List Value) (autoStart : Value) :
    member (invocation src onDone onError autoStart) "src" = .ok src := rfl

@[simp] theorem member_onDone (src : Value) (onDone onError : List Value) (autoStart : Value) :
    member (invocation src onDone onError autoStart) "on_done" = .ok (tuple onDone) := rfl

@[simp] theorem member_onError (src : Value) (onDone onError : List Value) (autoStart : Value) :
    member (invocation src onDone onError autoStart) "on_error" = .ok (tuple onError) := rfl

@[simp] theorem member_autoStart (src : Value) (onDone onError : List Value) (autoStart : Value) :
    member (invocation src onDone onError autoStart) "auto_start" = .ok autoStart := rfl

@[simp] theorem member_entry (on : List (Value × Value)) (entry exit : List Value) (invoke : Value)
    (tags : List Value) : member (node on entry exit invoke tags) "entry" = .ok (tuple entry) := rfl

@[simp] theorem member_exit (on : List (Value × Value)) (entry exit : List Value) (invoke : Value)
    (tags : List Value) : member (node on entry exit invoke tags) "exit" = .ok (tuple exit) := rfl

@[simp] theorem member_invoke (on : List (Value × Value)) (entry exit : List Value) (invoke : Value)
    (tags : List Value) : member (node on entry exit invoke tags) "invoke" = .ok invoke := rfl

@[simp] theorem member_tags (on : List (Value × Value)) (entry exit : List Value) (invoke : Value)
    (tags : List Value) : member (node on entry exit invoke tags) "tags" = .ok (tuple tags) := rfl

end Value
end FlatMachine
