import Mathlib.Data.List.Basic
import Mathlib.Data.String.Basic

/-!
# Words joined by a separator

Words that do not hold the separator are read apart again, however many there are and whichever of
them are empty.

- `splitOn_intercalate_toList`: the words are what the joined text is cut into.
- `eq_of_intercalate_toList`: so words are the same if their joined texts are.
- `mem_intercalate_toList`: the separator stands between two words.
-/

namespace SchemaLoom

variable {sep : Char} {words words' : List String}

theorem splitOn_intercalate_toList (hne : words ≠ []) (h : ∀ w ∈ words, sep ∉ w.toList) :
    ([sep].intercalate (words.map String.toList)).splitOn sep = words.map String.toList := by
  refine List.splitOn_intercalate sep (fun cs hcs => ?_) (by simpa using hne)
  obtain ⟨w, hw, rfl⟩ := List.mem_map.1 hcs
  exact h w hw

/-- Words without the separator are read off the text that they are joined to. -/
theorem eq_of_intercalate_toList (hne : words ≠ []) (hne' : words' ≠ [])
    (h : ∀ w ∈ words ++ words', sep ∉ w.toList)
    (heq : [sep].intercalate (words.map String.toList) =
      [sep].intercalate (words'.map String.toList)) : words = words' := by
  have hsplit := congrArg (List.splitOn sep) heq
  rw [splitOn_intercalate_toList hne fun w hw => h w (List.mem_append_left _ hw),
    splitOn_intercalate_toList hne' fun w hw => h w (List.mem_append_right _ hw)] at hsplit
  exact List.map_injective_iff.2 (fun _ _ => String.toList_injective) hsplit

/-- Two words or more have a separator between them. -/
theorem mem_intercalate_toList (h : 2 ≤ words.length) :
    sep ∈ [sep].intercalate (words.map String.toList) := by
  match words, h with
  | first :: second :: rest, _ =>
    rw [List.map_cons, List.map_cons, List.intercalate_cons_cons]
    exact List.mem_append_left _ (List.mem_append_right _ List.mem_cons_self)

end SchemaLoom
