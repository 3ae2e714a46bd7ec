import SchemaLoom.Decimal.Binary64

/-!
# Documents

A document is a tree of objects, arrays and scalars.  An object is the list of its members in the
order in which they were written; replacing the value of a key keeps its place and a new key goes
last.

- `Members.get?`, `Members.insert`: an object as a map from keys to values.
- `Document.equal`: equality of documents, with `==` for it.  The order of an object's members does
  not count, integers and doubles are never equal, and doubles compare as numbers.
- `Document.Distinct`: no object of the tree holds a key twice.  Everything that reads or edits
  documents keeps to it.
- `Document.induction`: to prove a property of all documents, prove it of the scalars, of an array
  from its items and of an object from its members' values.

## What is left out

Numbers of any other precision.  The integers of this type are unbounded, and the ones that are read
fit into 64 bits.
-/

namespace SchemaLoom

/-- A number is an integer or a double, and the two kinds are kept apart. -/
inductive Number where
  | int (value : Int)
  | float (value : Binary64)
deriving DecidableEq, Repr

/-- Equality of numbers; the kinds are never equal to each other. -/
def Number.equal : Number → Number → Bool
  | .int a, .int b => a == b
  | .float a, .float b => a.equal b
  | _, _ => false

inductive Document where
  | null
  | bool (value : Bool)
  | num (value : Number)
  | str (text : String)
  | arr (items : List Document)
  | obj (members : List (String × Document))
deriving Repr, Inhabited

/-- The members of an object, in order. -/
abbrev Members := List (String × Document)

/-! ## Members by key -/

namespace Members

/-- The value of the first member with the given key. -/
def get? (key : String) : Members → Option Document
  | [] => none
  | (k, v) :: rest => if k = key then some v else get? key rest

def contains (key : String) (ms : Members) : Bool :=
  (get? key ms).isSome

def keys (ms : Members) : List String :=
  ms.map Prod.fst

/-- Set the value of a key: in its place when the key is there, else at the end. -/
def insert (key : String) (value : Document) : Members → Members
  | [] => [(key, value)]
  | (k, v) :: rest => if k = key then (k, value) :: rest else (k, v) :: insert key value rest

/-- The members of a list of pairs in which a key may come again: the first occurrence fixes the
place and the last one the value. -/
def ofPairs (pairs : List (String × Document)) : Members :=
  pairs.foldl (fun ms p => insert p.1 p.2 ms) []

@[simp] theorem get?_nil (key : String) : get? key [] = none := rfl

theorem get?_cons (key k : String) (v : Document) (ms : Members) :
    get? key ((k, v) :: ms) = if k = key then some v else get? key ms := rfl

theorem get?_insert (key k : String) (v : Document) (ms : Members) :
    get? key (insert k v ms) = if k = key then some v else get? key ms := by
  induction ms with
  | nil => simp [insert, get?_cons]
  | cons m ms ih =>
    obtain ⟨k', v'⟩ := m
    by_cases h : k' = k
    · subst h
      by_cases hk : k' = key <;> simp [insert, get?_cons, hk]
    · by_cases hk : k' = key
      · subst hk
        simp [insert, h, get?_cons, Ne.symm h]
      · simp [insert, h, get?_cons, hk, ih]

theorem keys_insert (k : String) (v : Document) (ms : Members) :
    keys (insert k v ms) = if k ∈ keys ms then keys ms else keys ms ++ [k] := by
  induction ms with
  | nil => simp [insert, keys]
  | cons m ms ih =>
    obtain ⟨k', v'⟩ := m
    by_cases h : k' = k
    · simp [insert, keys, h]
    · have hne : ¬ k = k' := fun e => h e.symm
      simp only [keys] at ih
      by_cases hm : k ∈ ms.map Prod.fst
      · simp [insert, h, keys, ih, hm]
      · simp [insert, h, keys, ih, hm, hne]

end Members

namespace Document

/-! ## Equality -/

mutual

/-- Equality of documents, in which the order of an object's members does not count. -/
def equal : Document → Document → Bool
  | .null, .null => true
  | .bool a, .bool b => a == b
  | .num a, .num b => a.equal b
  | .str a, .str b => a == b
  | .arr as, .arr bs => equalItems as bs
  | .obj as, .obj bs => as.length == bs.length && equalMembers as bs
  | _, _ => false

def equalItems : List Document → List Document → Bool
  | [], [] => true
  | a :: as, b :: bs => equal a b && equalItems as bs
  | _, _ => false

/-- Whether each member on the left has an equal value under its key on the right. -/
def equalMembers : List (String × Document) → Members → Bool
  | [], _ => true
  | (k, a) :: as, bs =>
    (match Members.get? k bs with
      | some b => equal a b
      | none => false) && equalMembers as bs

end

instance : BEq Document := ⟨equal⟩

theorem beq_def (a b : Document) : (a == b) = equal a b := rfl

/-! ## Views -/

def asObject? : Document → Option Members
  | .obj ms => some ms
  | _ => none

def asArray? : Document → Option (List Document)
  | .arr items => some items
  | _ => none

def asString? : Document → Option String
  | .str s => some s
  | _ => none

/-- The value as a count: an integer that is not negative. -/
def asNat? : Document → Option Nat
  | .num (.int (.ofNat n)) => some n
  | _ => none

def isObject (d : Document) : Bool := d.asObject?.isSome

def isArray (d : Document) : Bool := d.asArray?.isSome

/-! ## Size -/

mutual

/-- How many values the document has, itself and all that it holds. -/
def size : Document → Nat
  | .arr items => sizeItems items + 1
  | .obj members => sizeMembers members + 1
  | _ => 1

def sizeItems : List Document → Nat
  | [] => 0
  | d :: ds => size d + sizeItems ds

def sizeMembers : List (String × Document) → Nat
  | [] => 0
  | (_, v) :: ms => size v + sizeMembers ms

end

/-! ## Induction -/

mutual

theorem inductionAux {motive : Document → Prop}
    (null : motive .null) (bool : ∀ b, motive (.bool b)) (num : ∀ n, motive (.num n))
    (str : ∀ s, motive (.str s))
    (arr : ∀ items, (∀ d ∈ items, motive d) → motive (.arr items))
    (obj : ∀ members : Members, (∀ m ∈ members, motive m.2) → motive (.obj members)) :
    (d : Document) → motive d
  | .null => null
  | .bool b => bool b
  | .num n => num n
  | .str s => str s
  | .arr items => arr items (inductionItems null bool num str arr obj items)
  | .obj members => obj members (inductionMembers null bool num str arr obj members)

theorem inductionItems {motive : Document → Prop}
    (null : motive .null) (bool : ∀ b, motive (.bool b)) (num : ∀ n, motive (.num n))
    (str : ∀ s, motive (.str s))
    (arr : ∀ items, (∀ d ∈ items, motive d) → motive (.arr items))
    (obj : ∀ members : Members, (∀ m ∈ members, motive m.2) → motive (.obj members)) :
    (items : List Document) → ∀ d ∈ items, motive d
  | [] => fun _ h => nomatch h
  | a :: as => List.forall_mem_cons.2
      ⟨inductionAux null bool num str arr obj a, inductionItems null bool num str arr obj as⟩

theorem inductionMembers {motive : Document → Prop}
    (null : motive .null) (bool : ∀ b, motive (.bool b)) (num : ∀ n, motive (.num n))
    (str : ∀ s, motive (.str s))
    (arr : ∀ items, (∀ d ∈ items, motive d) → motive (.arr items))
    (obj : ∀ members : Members, (∀ m ∈ members, motive m.2) → motive (.obj members)) :
    (members : List (String × Document)) → ∀ m ∈ members, motive m.2
  | [] => fun _ h => nomatch h
  | (_, v) :: ms => List.forall_mem_cons.2
      ⟨inductionAux null bool num str arr obj v, inductionMembers null bool num str arr obj ms⟩

end

/-- Induction on documents, with the hypothesis for every item and every member's value. -/
@[elab_as_elim]
theorem induction {motive : Document → Prop} (d : Document)
    (null : motive .null) (bool : ∀ b, motive (.bool b)) (num : ∀ n, motive (.num n))
    (str : ∀ s, motive (.str s))
    (arr : ∀ items, (∀ d ∈ items, motive d) → motive (.arr items))
    (obj : ∀ members : Members, (∀ m ∈ members, motive m.2) → motive (.obj members)) :
    motive d :=
  inductionAux null bool num str arr obj d

/-! ## Distinct keys -/

mutual

/-- No object of the document holds a key twice. -/
def Distinct : Document → Prop
  | .arr items => DistinctItems items
  | .obj members => (members.map Prod.fst).Nodup ∧ DistinctMembers members
  | _ => True

def DistinctItems : List Document → Prop
  | [] => True
  | d :: ds => Distinct d ∧ DistinctItems ds

def DistinctMembers : List (String × Document) → Prop
  | [] => True
  | (_, v) :: ms => Distinct v ∧ DistinctMembers ms

end

end Document

end SchemaLoom
