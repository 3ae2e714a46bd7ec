import SchemaLoom.Grammar.Basic
import SchemaLoom.Location
import SchemaLoom.SortedMap

/-!
# Merging documents

A source is merged into a destination.  Objects are united key by key.  Arrays that are sets are
united by the sort key of their items, and other arrays item by item.  Where both hold different
values, there is a conflict, and the policy of the place says which value stays.

- `merge`: two documents.
- `mergeAll?`: a list of documents, each merged into the result of those before it.
- `mergeSet`, `mergeItems`, `mergeMembers`: the three ways of uniting.

A merge gives its conflicts in the order in which it meets them.
-/

namespace SchemaLoom

/-- Two values that could not be united, and where. -/
structure Conflict where
  location : Location
  destination : Document
  source : Document
deriving Repr

/-- What a merge gives. -/
structure Merged where
  value : Document
  conflicts : List Conflict
deriving Repr

/-- Two values of which only one can stay; equal values are no conflict. -/
def mergeLeaf (policy : Policy) (loc : Location) (dst src : Document) : Merged :=
  if dst == src then ⟨dst, []⟩
  else
    match policy with
    | .keep => ⟨dst, [⟨loc, dst, src⟩]⟩
    | .replace => ⟨src, [⟨loc, dst, src⟩]⟩

/-! ## Sets -/

/-- The items of a set by their keys. -/
abbrev KeyedItems := SortedMap String Document

/-- The items of a destination by their keys; of two with one key the later one stays. -/
def keyItems (key : SortKey) (items : List Document) : KeyedItems :=
  SortedMap.ofList (items.map fun d => (key.key d, d))

/-- One item of a source merged into a set: a new key adds the item, and an unequal item with its
key is a conflict. -/
def mergeSetItem (key : SortKey) (policy : Policy) (loc : Location) (seen : KeyedItems)
    (item : Document) : KeyedItems × List Conflict :=
  match seen.get? (key.key item) with
  | none => (seen.insert (key.key item) item, [])
  | some existing =>
    if existing == item then (seen, [])
    else
      match policy with
      | .keep => (seen, [⟨loc, existing, item⟩])
      | .replace => (seen.insert (key.key item) item, [⟨loc, existing, item⟩])

/-- The items of a source merged into a set, one after the other. -/
def mergeSetItems (key : SortKey) (policy : Policy) (loc : Location) (seen : KeyedItems) :
    List Document → KeyedItems × List Conflict
  | [] => (seen, [])
  | item :: rest =>
    let step := mergeSetItem key policy loc seen item
    let more := mergeSetItems key policy loc step.1 rest
    (more.1, step.2 ++ more.2)

/-- Two sets united by the keys of their items, in the order of the keys. -/
def mergeSet (key : SortKey) (policy : Policy) (loc : Location) (dst src : List Document) :
    Merged :=
  let united := mergeSetItems key policy loc (keyItems key dst) src
  ⟨.arr united.1.values, united.2⟩

/-! ## Documents -/

mutual

/-- A source merged into a destination at a place of a grammar. -/
def mergeAt (g : Grammar) (t : Transition) (loc : Location) (dst : Document) : Document → Merged
  | .obj src =>
    match dst with
    | .obj members =>
      let united := mergeMembers g t.node loc members src
      ⟨.obj united.1, united.2⟩
    | _ => mergeLeaf t.behavior.policy loc dst (.obj src)
  | .arr src =>
    match dst with
    | .arr items =>
      match t.behavior.sortKey with
      | some key => mergeSet key t.behavior.policy loc items src
      | none =>
        let united := mergeItems g t loc 0 items src
        ⟨.arr united.1, united.2⟩
    | _ => mergeLeaf t.behavior.policy loc dst (.arr src)
  | .null => mergeLeaf t.behavior.policy loc dst .null
  | .bool b => mergeLeaf t.behavior.policy loc dst (.bool b)
  | .num n => mergeLeaf t.behavior.policy loc dst (.num n)
  | .str s => mergeLeaf t.behavior.policy loc dst (.str s)

/-- The members of a source merged into those of a destination, one after the other. -/
def mergeMembers (g : Grammar) (node : NodeId) (loc : Location) (dst : Members) :
    List (String × Document) → Members × List Conflict
  | [] => (dst, [])
  | (k, v) :: rest =>
    let step : Merged := match Members.get? k dst with
      | none => ⟨v, []⟩
      | some existing => mergeAt g (g.child node k) (loc.push k) existing v
    let more := mergeMembers g node loc (Members.insert k step.value dst) rest
    (more.1, step.conflicts ++ more.2)

/-- The items of two ordered arrays from an index on: those at one index are merged unless they are
equal, and the longer array gives the rest. -/
def mergeItems (g : Grammar) (t : Transition) (loc : Location) (index : Nat)
    (dst : List Document) : List Document → List Document × List Conflict
  | [] => (dst, [])
  | s :: src =>
    match dst with
    | [] => (s :: src, [])
    | d :: dst =>
      let step : Merged := if d == s then ⟨d, []⟩ else mergeAt g t (loc.pushIndex index) d s
      let more := mergeItems g t loc (index + 1) dst src
      (step.value :: more.1, step.conflicts ++ more.2)

end

/-- A source document merged into a destination. -/
def merge (g : Grammar) (dst src : Document) : Merged :=
  mergeAt g g.entry .root dst src

/-- A document merged into what was merged before. -/
def Merged.andThen (g : Grammar) (acc : Merged) (src : Document) : Merged :=
  let next := merge g acc.value src
  ⟨next.value, acc.conflicts ++ next.conflicts⟩

/-- Documents merged in order, the first one being what the others are merged into; `none` when
there are no documents. -/
def mergeAll? (g : Grammar) : List Document → Option Merged
  | [] => none
  | first :: rest => some (rest.foldl (Merged.andThen g) ⟨first, []⟩)

end SchemaLoom
