import SchemaLoom.Proofs.Location

/-!
# The pointer of a location

A segment is escaped so that it holds no slash, and the slashes of a pointer then tell its segments
apart.  What is escaped is found again, since `~1` is undone before `~0`: of the tildes that were
written for a tilde, none has a `1` after it.

- `segments_append`: a text without slashes is a segment of its own.
- `Location.unescape_escape`: a segment is read back as it was.
- `Location.ofPointer_toPointer`: a location is read back from its pointer.
-/

namespace SchemaLoom

variable {cs rest : List Char}

/-! ## Texts between slashes -/

theorem segments_of_not_mem (h : '/' ∉ cs) : segments cs = [cs] := by
  induction cs with
  | nil => rfl
  | cons c cs ih =>
    rw [List.mem_cons, not_or] at h
    rw [segments, if_neg (Ne.symm h.1), ih h.2]

/-- A text without slashes is the first segment of a text that goes on with a slash. -/
theorem segments_append (h : '/' ∉ cs) : segments (cs ++ '/' :: rest) = cs :: segments rest := by
  induction cs with
  | nil => rw [List.nil_append, segments, if_pos rfl]
  | cons c cs ih =>
    rw [List.mem_cons, not_or] at h
    rw [List.cons_append, segments, if_neg (Ne.symm h.1), ih h.2]

namespace Location

/-! ## Escaped segments -/

theorem unescape_cons {digit c x : Char} (h : x ≠ '~') :
    unescape digit c (x :: rest) = x :: unescape digit c rest := by
  rw [unescape]
  rintro d more rfl
  exact absurd rfl h

/-- A segment is read back as it was. -/
theorem unescape_escape (cs : List Char) :
    unescape '0' '~' (unescape '1' '/' (cs.flatMap escape)) = cs := by
  induction cs with
  | nil => rfl
  | cons c cs ih =>
    rw [List.flatMap_cons]
    by_cases htilde : c = '~'
    · subst htilde
      simp [escape, unescape, unescape_cons, ih]
    · by_cases hslash : c = '/'
      · subst hslash
        simp [escape, unescape, unescape_cons, ih]
      · simp [escape, htilde, hslash, unescape_cons, ih]

/-- An escaped segment holds its own characters, but no slash, and those that escapes are made of. -/
theorem mem_escape {x : Char} (h : x ∈ cs.flatMap escape) :
    (x ∈ cs ∧ x ≠ '/') ∨ x ∈ ['~', '0', '1'] := by
  obtain ⟨c, hc, hx⟩ := List.mem_flatMap.1 h
  unfold escape at hx
  by_cases htilde : c = '~'
  · rw [if_pos htilde] at hx
    rcases List.mem_pair.1 hx with rfl | rfl
    · exact .inr (by decide)
    · exact .inr (by decide)
  · by_cases hslash : c = '/'
    · rw [if_neg htilde, if_pos hslash] at hx
      rcases List.mem_pair.1 hx with rfl | rfl
      · exact .inr (by decide)
      · exact .inr (by decide)
    · rw [if_neg htilde, if_neg hslash, List.mem_singleton] at hx
      subst hx
      exact .inl ⟨hc, hslash⟩

theorem slash_not_mem_escape (cs : List Char) : '/' ∉ cs.flatMap escape := by
  intro h
  rcases mem_escape h with ⟨-, hne⟩ | hmem
  · exact hne rfl
  · exact absurd hmem (by decide)

/-- Escaping brings in no line feed. -/
theorem line_feed_not_mem_escape (h : '\n' ∉ cs) : '\n' ∉ cs.flatMap escape := by
  intro hmem
  rcases mem_escape hmem with ⟨hcs, -⟩ | hmem
  · exact h hcs
  · exact absurd hmem (by decide)

/-! ## Pointers -/

/-- The segments of a pointer after its first slash are the escaped segments of the location. -/
theorem segments_pointerChars (s : String) (path : List String) :
    SchemaLoom.segments (s.toList.flatMap escape ++ pointerChars path) =
      (s :: path).map fun s => s.toList.flatMap escape := by
  induction path generalizing s with
  | nil =>
    rw [pointerChars, List.append_nil, segments_of_not_mem (slash_not_mem_escape _)]
    rfl
  | cons t path ih =>
    rw [pointerChars, List.cons_append, segments_append (slash_not_mem_escape _), ih]
    rfl

theorem ofPointerChars_pointerChars (path : List String) :
    ofPointerChars (pointerChars path) = path := by
  cases path with
  | nil => rfl
  | cons s path =>
    have hsegment : ∀ s : String,
        String.ofList (unescape '0' '~' (unescape '1' '/' (s.toList.flatMap escape))) = s := by
      intro s
      rw [unescape_escape, String.ofList_toList]
    rw [pointerChars, List.cons_append, ofPointerChars, if_pos rfl, segments_pointerChars,
      List.map_map]
    exact List.map_id'' hsegment _

/-- A location is read back from its pointer. -/
theorem ofPointer_toPointer (loc : Location) : ofPointer loc.toPointer = loc := by
  rw [ofPointer, toPointer, String.toList_ofList, ofPointerChars_pointerChars]

/-- The pointer of a location is on one line if its segments are. -/
theorem line_feed_not_mem_toPointer {loc : Location} (h : ∀ s ∈ loc.segments, '\n' ∉ s.toList) :
    '\n' ∉ loc.toPointer.toList := by
  have hchars : ∀ path : List String, (∀ s ∈ path, '\n' ∉ s.toList) → '\n' ∉ pointerChars path := by
    intro path
    induction path with
    | nil => exact fun _ => List.not_mem_nil
    | cons s path ih =>
      intro h
      obtain ⟨hs, hpath⟩ := List.forall_mem_cons.1 h
      rw [pointerChars, List.cons_append, List.mem_cons, List.mem_append]
      rintro (hslash | hmem | hmem)
      · cases hslash
      · exact line_feed_not_mem_escape hs hmem
      · exact ih hpath hmem
  rw [toPointer, String.toList_ofList]
  exact hchars _ h

end Location

end SchemaLoom
