import SchemaLoom.Difference
import SchemaLoom.Proofs.Document.Equality
import SchemaLoom.Proofs.Pointer
import SchemaLoom.Proofs.SortedMap

/-!
# Pointers and locations

Every location has a pointer of its own.  The texts that are the pointer of a location are the empty
one and those that begin with a slash and in which each tilde has a `0` or a `1` after it: these come
back as they were when they are read and written again, and no other text does.

- `Location.Escaped`: each tilde of a text has a `0` or a `1` after it.
- `Location.Escaped.pointerChars_readSegments`: such a text comes back after a slash.
- `Location.toPointer_ofPointer_iff`: the texts that come back.
- `Members.ofPairs_of_nodup`: members under keys that are all different.
- `Location.pointers_bijective`: locations, pointers, and differences by pointer.
-/

namespace SchemaLoom

namespace Location

/-! ## Escapes -/

/-- Each tilde of a text has a `0` or a `1` after it. -/
inductive Escaped : List Char → Prop
  | nil : Escaped []
  | tilde {cs : List Char} : Escaped cs → Escaped ('~' :: '0' :: cs)
  | slash {cs : List Char} : Escaped cs → Escaped ('~' :: '1' :: cs)
  | cons {c : Char} {cs : List Char} : c ≠ '~' → Escaped cs → Escaped (c :: cs)

variable {cs rest : List Char} {p : String}

theorem Escaped.append (h : Escaped cs) (hrest : Escaped rest) : Escaped (cs ++ rest) := by
  induction h with
  | nil => exact hrest
  | tilde _ ih => exact .tilde ih
  | slash _ ih => exact .slash ih
  | cons hc _ ih => exact .cons hc ih

theorem escaped_flatMap_escape (cs : List Char) : Escaped (cs.flatMap escape) := by
  induction cs with
  | nil => exact .nil
  | cons c cs ih =>
    rw [List.flatMap_cons]
    refine Escaped.append ?_ ih
    unfold escape
    split
    next => exact .tilde .nil
    next htilde =>
      split
      next => exact .slash .nil
      next => exact .cons htilde .nil

/-- In the pointer of a location each tilde has a `0` or a `1` after it. -/
theorem escaped_pointerChars (path : List String) : Escaped (pointerChars path) := by
  induction path with
  | nil => exact .nil
  | cons s path ih =>
    rw [pointerChars, List.cons_append]
    exact .cons (by decide) ((escaped_flatMap_escape s.toList).append ih)

theorem escaped_of_getElem? : ∀ {cs : List Char},
    (∀ i : Nat, cs[i]? = some '~' → cs[i + 1]? = some '0' ∨ cs[i + 1]? = some '1') → Escaped cs
  | [], _ => .nil
  | [c], h => by
    refine .cons ?_ .nil
    rintro rfl
    simpa using h 0 rfl
  | c :: d :: cs, h => by
    by_cases hc : c = '~'
    · subst hc
      have hcs : Escaped cs := escaped_of_getElem? fun i hi => h (i + 2) hi
      rcases h 0 rfl with hd | hd
      · cases hd
        exact .tilde hcs
      · cases hd
        exact .slash hcs
    · exact .cons hc (escaped_of_getElem? fun i hi => h (i + 1) hi)

theorem escaped_iff_getElem? : Escaped cs ↔
    ∀ i : Nat, cs[i]? = some '~' → cs[i + 1]? = some '0' ∨ cs[i + 1]? = some '1' := by
  refine ⟨fun h => ?_, escaped_of_getElem?⟩
  induction h with
  | nil => exact nofun
  | tilde _ ih =>
    rintro (_ | _ | i) hi
    · exact .inl rfl
    · cases hi
    · exact ih i hi
  | slash _ ih =>
    rintro (_ | _ | i) hi
    · exact .inr rfl
    · cases hi
    · exact ih i hi
  | cons hc _ ih =>
    rintro (_ | i) hi
    · exact absurd (Option.some.inj hi) hc
    · exact ih i hi

/-! ## Reading and writing again -/

/-- A text without slashes belongs to the first segment of what comes after it. -/
theorem segments_append_of_not_mem {w s : List Char} {more : List (List Char)} (hw : '/' ∉ w)
    (h : SchemaLoom.segments cs = s :: more) :
    SchemaLoom.segments (w ++ cs) = (w ++ s) :: more := by
  induction w with
  | nil => exact h
  | cons c w ih =>
    rw [List.mem_cons, not_or] at hw
    rw [List.cons_append, SchemaLoom.segments, if_neg (Ne.symm hw.1), ih hw.2]
    rfl

/-- A segment of a pointer as it is read. -/
def readSegment (s : List Char) : String :=
  String.ofList (unescape '0' '~' (unescape '1' '/' s))

/-- The text after the first slash of a pointer as it is read. -/
def readSegments (cs : List Char) : List String :=
  (SchemaLoom.segments cs).map readSegment

/-- An escaped character at the head of a segment is read as the character. -/
theorem toList_readSegment_escape (x : Char) (s : List Char) :
    (readSegment (escape x ++ s)).toList = x :: (readSegment s).toList := by
  by_cases htilde : x = '~'
  · subst htilde
    simp [readSegment, escape, unescape, unescape_cons]
  · by_cases hslash : x = '/'
    · subst hslash
      simp [readSegment, escape, unescape, unescape_cons]
    · simp [readSegment, escape, htilde, hslash, unescape_cons]

/-- An escaped character after the first slash of a pointer is written as it was read. -/
theorem pointerChars_readSegments_escape (x : Char)
    (h : pointerChars (readSegments cs) = '/' :: cs) :
    pointerChars (readSegments (escape x ++ cs)) = '/' :: (escape x ++ cs) := by
  obtain ⟨s, more, hs⟩ := List.exists_cons_of_ne_nil (segments_ne_nil cs)
  have hslash : '/' ∉ escape x := by simpa using slash_not_mem_escape [x]
  rw [readSegments, hs, List.map_cons, pointerChars, List.cons_append] at h
  rw [readSegments, segments_append_of_not_mem hslash hs, List.map_cons, pointerChars,
    List.cons_append, toList_readSegment_escape, List.flatMap_cons, List.append_assoc,
    (List.cons.inj h).2]

/-- A text in which each tilde belongs to an escape is, after a slash, the pointer of the segments
that it is read as. -/
theorem Escaped.pointerChars_readSegments (h : Escaped cs) :
    pointerChars (readSegments cs) = '/' :: cs := by
  induction h with
  | nil => rfl
  | tilde _ ih => exact pointerChars_readSegments_escape '~' ih
  | slash _ ih => exact pointerChars_readSegments_escape '/' ih
  | @cons c cs hc _ ih =>
    by_cases hslash : c = '/'
    · -- an empty segment, and then the others
      subst hslash
      rw [readSegments, SchemaLoom.segments, if_pos rfl, List.map_cons, pointerChars,
        ← readSegments, ih]
      rfl
    · have hx : escape c = [c] := by rw [escape, if_neg hc, if_neg hslash]
      have hescape := pointerChars_readSegments_escape c ih
      rwa [hx] at hescape

/-- The texts that are the pointer of what they are read as. -/
theorem toPointer_ofPointer_iff : (ofPointer p).toPointer = p ↔
    p = "" ∨ p.toList.head? = some '/' ∧ Escaped p.toList := by
  rw [← String.toList_inj, toPointer, String.toList_ofList, ofPointer]
  constructor
  · intro h
    rw [← String.toList_inj, ← h]
    cases ofPointerChars p.toList with
    | nil => exact .inl rfl
    | cons s path => exact .inr ⟨rfl, escaped_pointerChars _⟩
  · rintro (rfl | ⟨hslash, hescaped⟩)
    · rfl
    · obtain ⟨cs, hcs⟩ := List.head?_eq_some_iff.1 hslash
      rw [hcs] at hescaped ⊢
      cases hescaped with
      | cons _ hrest => exact hrest.pointerChars_readSegments

/-- Locations with one pointer are one location. -/
theorem toPointer_inj {loc loc' : Location} : loc.toPointer = loc'.toPointer ↔ loc = loc' := by
  refine ⟨fun h => ?_, congrArg toPointer⟩
  rw [← ofPointer_toPointer loc, h, ofPointer_toPointer]

end Location

/-! ## Differences by pointer -/

namespace Members

theorem insert_of_not_mem {key : String} {value : Document} {ms : Members} (h : key ∉ keys ms) :
    insert key value ms = ms ++ [(key, value)] := by
  induction ms with
  | nil => rfl
  | cons m ms ih =>
    obtain ⟨k, v⟩ := m
    rw [keys, List.map_cons, List.mem_cons, not_or] at h
    rw [insert, if_neg (Ne.symm h.1), ih h.2, List.cons_append]

/-- Pairs whose keys are all different are members as they are. -/
theorem ofPairs_of_nodup {pairs : List (String × Document)} (h : (pairs.map Prod.fst).Nodup) :
    ofPairs pairs = pairs := by
  induction pairs using List.reverseRecOn with
  | nil => rfl
  | append_singleton pairs p ih =>
    rw [List.map_append, List.nodup_append'] at h
    obtain ⟨hpairs, -, hdisjoint⟩ := h
    have hnot : p.1 ∉ keys pairs := fun hmem => hdisjoint hmem (by simp)
    rw [ofPairs, List.foldl_concat, ← ofPairs, ih hpairs, insert_of_not_mem hnot]

end Members

namespace Difference

theorem nodup_pointers (d : Difference) : (d.entries.map fun e => e.1.toPointer).Nodup := by
  have hpointers : d.entries.map (fun e => e.1.toPointer) = d.keys.map Location.toPointer := by
    rw [SortedMap.keys, List.map_map]
    rfl
  rw [hpointers]
  exact d.nodup_keys.map fun _ _ => Location.toPointer_inj.1

end Difference

/-- Locations and pointers are in bijection.  A location is read back from its pointer, and a text is
written again as it was exactly if it is empty or begins with a slash and has a `0` or a `1` after
each tilde.  So different locations have different pointers, and a difference by pointer has a
member for each of its entries. -/
theorem Location.pointers_bijective :
    (∀ loc : Location, ofPointer loc.toPointer = loc) ∧
    (∀ p : String, (ofPointer p).toPointer = p ↔ p = "" ∨ p.toList.head? = some '/' ∧
      ∀ i : Nat, p.toList[i]? = some '~' →
        p.toList[i + 1]? = some '0' ∨ p.toList[i + 1]? = some '1') ∧
    (∀ loc loc' : Location, loc.toPointer = loc'.toPointer ↔ loc = loc') ∧
    ∀ d : Difference, (d.entries.map fun e => e.1.toPointer).Nodup ∧
      d.document = .obj (d.entries.map fun e => (e.1.toPointer, e.2.document)) := by
  refine ⟨ofPointer_toPointer, fun p => ?_, fun loc loc' => toPointer_inj, fun d => ?_⟩
  · rw [toPointer_ofPointer_iff, escaped_iff_getElem?]
  · refine ⟨d.nodup_pointers, ?_⟩
    rw [Difference.document, Members.ofPairs_of_nodup]
    rw [List.map_map]
    exact d.nodup_pointers

end SchemaLoom
