import FlatMachine.Value.Basic

/-! # Equality and lookup

**`Value.same`** is the equality that decides which state a name denotes and which key an entry
has: truth values are the numbers one and zero, a floating-point number equals the integer of its
value, a list never equals a tuple, and mappings are compared without regard to order.  What has
an origin is the same only as what has the same origin; record types compare by their numbers.

**`Value.isKey`** says which values can be keys: not lists, mappings, events, records or nodes,
nor what contains one of them.

On both rest the operations of association lists: **`lookup`**, **`insert`** (an equal key keeps
its place and its first spelling) and **`merge`**, and their checked forms, which refuse what is
no key. -/

namespace FlatMachine
namespace Value

/-- The number that a value is, if it is one. -/
def number? : Value → Option (Int ⊕ Decimal)
  | bool b => some (.inl (if b then 1 else 0))
  | int i => some (.inl i)
  | float x => some (.inr x)
  | _ => none

/-- Equality of numbers of either sort. -/
def sameNumber : Int ⊕ Decimal → Int ⊕ Decimal → Bool
  | .inl i, .inl j => i == j
  | .inl i, .inr x => x.isInt i
  | .inr x, .inl i => x.isInt i
  | .inr x, .inr y => x == y || (x.isZero && y.isZero)

mutual

/-- Equality of values. -/
def same : Value → Value → Bool
  | null, null => true
  | str s, str t => s == t
  | list xs, list ys => sameItems xs ys
  | tuple xs, tuple ys => sameItems xs ys
  | map xs, map ys => xs.length == ys.length && sameEntries xs ys
  | event s xs, event t ys => s == t && xs.length == ys.length && sameFields xs ys
  | nan o, nan p => o == p
  | failure o _, failure p _ => o == p
  | function o _ c xs, function p _ d ys => o == p && c == d && sameItems xs ys
  | assign o u, assign p v => o == p && same u v
  | machine o .., machine p .. => o == p
  | recordType m .., recordType n .. => m == n
  | record m _ _ xs, record n _ _ ys => m == n && xs.length == ys.length && sameFields xs ys
  | snapshot a b c d, snapshot a' b' c' d' => same a a' && same b b' && same c c' && same d d'
  | transition a xs g, transition b ys h => same a b && sameItems xs ys && same g h
  | invocation a xs ys b, invocation a' xs' ys' b' =>
    same a a' && sameItems xs xs' && sameItems ys ys' && same b b'
  | node on xs ys i ts, node on' xs' ys' i' ts' =>
    on.length == on'.length && sameEntries on on' && sameItems xs xs' && sameItems ys ys' &&
      same i i' && sameItems ts ts'
  | awaitable o m, awaitable p n => o == p && m == n
  | actionAccess o, actionAccess p => o == p
  | sourceAccess i t, sourceAccess j u => i == j && t == u
  | v, w => match v.number?, w.number? with
    | some a, some b => sameNumber a b
    | _, _ => false
termination_by structural x => x

/-- Equality item by item. -/
def sameItems : List Value → List Value → Bool
  | [], [] => true
  | x :: xs, y :: ys => same x y && sameItems xs ys
  | _, _ => false
termination_by structural x => x

/-- Each entry of the first has an equal entry in the second. -/
def sameEntries : List (Value × Value) → List (Value × Value) → Bool
  | [], _ => true
  | (k, v) :: rest, ys => ys.any (fun (l, w) => same k l && same v w) && sameEntries rest ys
termination_by structural x => x

/-- Each field of the first has an equal field in the second. -/
def sameFields : List (String × Value) → List (String × Value) → Bool
  | [], _ => true
  | (k, v) :: rest, ys => ys.any (fun (l, w) => k == l && same v w) && sameFields rest ys
termination_by structural x => x

end

@[simp] theorem same_str (s t : String) : same (str s) (str t) = (s == t) := by simp [same]

mutual

/-- The type that keeps a value from being a key, if there is one. -/
def unhashable? : Value → Option String
  | list _ => some "list"
  | map _ => some "dict"
  | event .. => some "Event"
  | record _ name .. => some name
  | node .. => some "mappingproxy"
  | tuple xs => unhashableItem? xs
  | snapshot a b c d => unhashable? a <|> unhashable? b <|> unhashable? c <|> unhashable? d
  | transition target actions guard =>
    unhashable? target <|> unhashableItem? actions <|> unhashable? guard
  | invocation src onDone onError autoStart =>
    unhashable? src <|> unhashableItem? onDone <|> unhashableItem? onError <|> unhashable? autoStart
  | _ => none

/-- The first obstacle among the items. -/
def unhashableItem? : List Value → Option String
  | [] => none
  | x :: xs => unhashable? x <|> unhashableItem? xs

end

/-- The value can be a key. -/
def isKey (v : Value) : Bool := v.unhashable?.isNone

/-- Refuse a value that cannot be a key. -/
def checkKey (v : Value) : Except Failure Unit :=
  match v.unhashable? with
  | some type => .error (.unhashable type)
  | none => .ok ()

@[simp] theorem checkKey_str (s : String) :
    checkKey (str s) = .ok () := by simp [checkKey, unhashable?]

/-! ### Association lists -/

/-- Entries in order, keys pairwise different. -/
abbrev Entries := List (Value × Value)

/-- The value at an equal key. -/
def lookup (k : Value) : Entries → Option Value
  | [] => none
  | (l, v) :: rest => if same l k then some v else lookup k rest

/-- An equal key is present. -/
def hasKey (k : Value) (entries : Entries) : Bool := (lookup k entries).isSome

/-- Set the value at a key; a new key comes last. -/
def insert (k v : Value) : Entries → Entries
  | [] => [(k, v)]
  | (l, w) :: rest => if same l k then (l, v) :: rest else (l, w) :: insert k v rest

/-- Set the second entries in the first, one after the other. -/
def merge (base extra : Entries) : Entries := extra.foldl (fun acc (k, v) => insert k v acc) base

/-- Entries without repetition of keys. -/
def ofEntries (entries : Entries) : Entries := merge [] entries

/-- The value at a field name. -/
def field (name : String) (entries : Entries) : Option Value := lookup (str name) entries

/-- The value at a field name, null if there is none. -/
def fieldD (name : String) (entries : Entries) : Value := (field name entries).getD null

/-- Membership among keys; what is no key is refused, whether or not there are entries. -/
def hasKeyChecked (k : Value) (entries : Entries) : Except Failure Bool := do
  checkKey k
  return hasKey k entries

/-- Membership in a sequence. -/
def isIn (v : Value) (items : List Value) : Bool := items.any (same · v)

/-- Membership in any collection: among items, among a mapping's keys, or as a part of a string. -/
def isWithin (v collection : Value) : Except Failure Bool :=
  match collection, v with
  | list items, v | tuple items, v => .ok (isIn v items)
  | str s, str part => .ok ((s.splitOn part).length ≠ 1 || part.isEmpty)
  | str _, v => .error (.notIterable v.typeName)
  | collection, v => match collection.entries? with
    | some entries => hasKeyChecked v entries
    | none => .error (.notIterable collection.typeName)

/-- Items without repetition, in the order of first occurrence; each has to be a key. -/
def distinct (items : List Value) : Except Failure (List Value) := do
  for v in items do checkKey v
  return items.foldl (fun acc v => if isIn v acc then acc else acc ++ [v]) []

end Value
end FlatMachine
