/-!
# Similar names

The likeness of two names after Jaro: the characters that they share at about the same place, less
those that are shared in another order.

- `Likeness.of`: the likeness of two names.
- `similar?`: the name among some that is most like another one, if any is like it at all.
-/

namespace SchemaLoom.CommandLine

/-- A quotient of naturals between zero and three. -/
structure Likeness where
  num : Nat
  den : Nat
deriving Repr

namespace Likeness

/-- Takes the first character that is equal to another one and whose index is in a range out of a
list of characters with their indices. -/
def take? (c : Char) (low high : Nat) :
    List (Nat × Char) → Option ((Nat × Char) × List (Nat × Char))
  | [] => none
  | x :: xs =>
    if x.2 = c ∧ low ≤ x.1 ∧ x.1 ≤ high then some (x, xs)
    else (take? c low high xs).map fun r => (r.1, x :: r.2)

/-- The pairs of equal characters whose indices differ by no more than a reach, each character in
one pair at most. -/
def pairs (reach : Nat) : List (Nat × Char) → List (Nat × Char) → List ((Nat × Char) × (Nat × Char))
  | [], _ => []
  | x :: xs, ys =>
    match take? x.2 (x.1 - reach) (x.1 + reach) ys with
    | some (y, ys) => (x, y) :: pairs reach xs ys
    | none => pairs reach xs ys

/-- The characters of a text with their indices. -/
def indexed (cs : List Char) : List (Nat × Char) :=
  cs.zipIdx.map fun x => (x.2, x.1)

/-- The sum of three shares: of the paired characters in each of the names, and of those in order
among the pairs. -/
def of (a b : List Char) : Likeness :=
  let found := pairs (max a.length b.length / 2 - 1) (indexed a) (indexed b)
  let m := found.length
  let left := found.map fun p => p.1.2
  let right := ((found.map Prod.snd).mergeSort fun x y => x.1 ≤ y.1).map Prod.snd
  let swapped := ((left.zip right).filter fun p => p.1 != p.2).length / 2
  ⟨m * m * b.length + m * m * a.length + (m - swapped) * a.length * b.length,
    a.length * b.length * m⟩

/-- Whether names are alike: by more than seven tenths of a share on average. -/
def isClose (l : Likeness) : Bool :=
  21 * l.den < 10 * l.num

def less (x y : Likeness) : Bool :=
  x.num * y.den < y.num * x.den

end Likeness

/-- The name among some that is most like another one, if any is like it at all. -/
def similar? (name : String) (names : List String) : Option String :=
  let close := (names.map fun n => (Likeness.of name.toList n.toList, n)).filter (·.1.isClose)
  (close.mergeSort fun x y => !x.1.less y.1).head?.map Prod.snd

end SchemaLoom.CommandLine
