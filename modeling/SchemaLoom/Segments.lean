/-!
# Texts between slashes

Pointers and paths are both lists of segments with slashes between them.
-/

namespace SchemaLoom

/-- The segments of a text between its slashes; there is always one more than slashes. -/
def segments : List Char → List (List Char)
  | [] => [[]]
  | c :: rest =>
    if c = '/' then [] :: segments rest
    else match segments rest with
      | [] => [[c]]
      | s :: more => (c :: s) :: more

theorem segments_ne_nil (cs : List Char) : segments cs ≠ [] := by
  fun_cases segments cs <;> simp_all

end SchemaLoom
