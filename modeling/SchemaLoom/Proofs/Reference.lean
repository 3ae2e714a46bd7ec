import SchemaLoom.Proofs.Identity

/-!
# References under repeated normalization

A relative reference loses the file it names, and a reference under the scheme becomes a relative
one.  So a second normalization can go one step further than the first, and a third one cannot.

- `Reference.adjusted`: the reference that a normalization makes of a reference.
- `Reference.pointsInto`: whether a reference is under a scheme and has a fragment.
- `Reference.isUnstable`: whether a second normalization changes a reference once more.
- `Reference.adjusted_twice_eq_iff`: it changes no others.
- `Reference.adjusted_thrice`: a third normalization changes nothing.
-/

namespace SchemaLoom

namespace ReferenceKind

/-- The name of a module holds no number sign. -/
theorem number_sign_not_mem_moduleName {cs : List Char} {identity : Identity}
    {fragment : Option String} (h : ofChars cs = .qualified identity fragment) :
    '#' ∉ identity.moduleName.toList := by
  have hid : identity.WellNamed := (qualified?_eq_some_iff.1 (ofChars_eq_qualified_iff.1 h)).1
  intro hmem
  exact absurd (hid.moduleName.2 '#' hmem) (by decide)

end ReferenceKind

namespace Reference

variable {r : Reference} {scheme : Scheme}

/-! ## The text from the number sign on -/

theorem tail?_eq_none_iff : r.tail? = none ↔ '#' ∉ r.raw.toList := by
  have hdrop : r.raw.toList.dropWhile (· != '#') = [] ↔ '#' ∉ r.raw.toList := by
    rw [List.dropWhile_eq_nil_iff]
    constructor
    · intro h hmem
      exact absurd (h '#' hmem) (by decide)
    · intro h c hc
      rw [bne_iff_ne]
      rintro rfl
      exact h hc
  rw [← hdrop]
  unfold tail?
  split <;> simp_all

/-- The text from the number sign on starts with it. -/
theorem exists_of_tail?_eq_some {cs : List Char} (h : r.tail? = some cs) :
    ∃ rest, cs = '#' :: rest := by
  have hhead := List.head?_dropWhile_not (· != '#') r.raw.toList
  unfold tail? at h
  cases hcs : r.raw.toList.dropWhile (· != '#') with
  | nil =>
    rw [hcs] at h
    cases h
  | cons c rest =>
    rw [hcs] at h hhead
    cases h
    exact ⟨rest, by simpa using hhead⟩

/-! ## One normalization, by kind -/

theorem kind_of_number_sign {cs : List Char} (h : r.raw.toList = '#' :: cs) : r.kind = .inside := by
  rw [kind, h]
  rfl

theorem kind_of_dot_slash {cs : List Char} (h : r.raw.toList = '.' :: '/' :: cs) :
    r.kind = .relative := by
  rw [kind, h]
  rfl

/-- The reference that a normalization makes of a reference. -/
def adjusted (scheme : Scheme) (r : Reference) : Reference :=
  ⟨r.normalize scheme⟩

theorem adjusted_of_inside (h : r.kind = .inside) : r.adjusted scheme = r := by
  rw [adjusted, normalize, h]

theorem adjusted_of_other (h : r.kind = .other) : r.adjusted scheme = r := by
  rw [adjusted, normalize, h]

/-- A relative reference without a number sign stays. -/
theorem adjusted_of_bare (h : r.kind = .relative) (hr : '#' ∉ r.raw.toList) :
    r.adjusted scheme = r := by
  rw [adjusted, normalize, h, tail?_eq_none_iff.2 hr]

/-- A relative reference with a number sign comes to point inside. -/
theorem kind_adjusted_of_relative (h : r.kind = .relative) (hr : '#' ∈ r.raw.toList) :
    (r.adjusted scheme).kind = .inside := by
  cases ht : r.tail? with
  | none => exact absurd hr (tail?_eq_none_iff.1 ht)
  | some cs =>
    obtain ⟨rest, rfl⟩ := exists_of_tail?_eq_some ht
    have hraw : (r.adjusted scheme).raw.toList = '#' :: rest := by
      rw [adjusted, normalize, h, ht]
      exact String.toList_ofList
    exact kind_of_number_sign hraw

theorem adjusted_of_qualified_of_ne {identity : Identity} {fragment : Option String}
    (h : r.kind = .qualified identity fragment) (hs : identity.scheme ≠ scheme.name) :
    r.adjusted scheme = r := by
  rw [adjusted, normalize, h]
  exact congrArg mk (if_neg hs)

/-- The end that a fragment gives to a normalized reference. -/
def fragmentTail : Option String → List Char
  | none => []
  | some text => if text = "" then [] else '#' :: text.toList

/-- A reference under the scheme becomes relative. -/
theorem toList_adjusted_of_qualified {identity : Identity} {fragment : Option String}
    (h : r.kind = .qualified identity fragment) (hs : identity.scheme = scheme.name) :
    (r.adjusted scheme).raw.toList =
      '.' :: '/' :: (identity.moduleName.toList ++ '.' :: scheme.extension.toList ++
        fragmentTail fragment) := by
  rw [adjusted, normalize, h]
  dsimp only
  rw [if_pos hs]
  cases fragment with
  | none => simp [moduleFile, fragmentTail]
  | some text =>
    rw [fragmentTail]
    dsimp only
    split <;> simp [moduleFile]

/-! ## Normalizing again -/

/-- Whether a reference is under a scheme. -/
def isUnder (scheme : Scheme) (r : Reference) : Bool :=
  match r.kind with
  | .qualified identity _ => identity.scheme == scheme.name
  | _ => false

/-- Whether a reference is under a scheme and has a fragment that is not empty. -/
def pointsInto (scheme : Scheme) (r : Reference) : Bool :=
  match r.kind with
  | .qualified identity (some text) => identity.scheme == scheme.name && text != ""
  | _ => false

/-- Whether a second normalization changes a reference once more: the first one gives a relative
reference with a number sign, from the fragment or from the extension of the scheme's files. -/
def isUnstable (scheme : Scheme) (r : Reference) : Bool :=
  r.pointsInto scheme || (r.isUnder scheme && scheme.extension.toList.contains '#')

theorem isUnstable_of_qualified {identity : Identity} {fragment : Option String}
    (h : r.kind = .qualified identity fragment) (hs : identity.scheme = scheme.name) :
    r.isUnstable scheme = true ↔ '#' ∈ (r.adjusted scheme).raw.toList := by
  rw [toList_adjusted_of_qualified h hs]
  have hname := ReferenceKind.number_sign_not_mem_moduleName h
  cases fragment with
  | none => simp [isUnstable, pointsInto, isUnder, h, hs, hname, fragmentTail]
  | some text =>
    by_cases ht : text = ""
    · simp [isUnstable, pointsInto, isUnder, h, hs, hname, fragmentTail, ht]
    · simp [isUnstable, pointsInto, isUnder, h, hs, hname, fragmentTail, ht]

/-- A reference that is not under the scheme is stable. -/
theorem isUnstable_of_isUnder_eq_false (h : r.isUnder scheme = false) :
    r.isUnstable scheme = false := by
  have hinto : r.pointsInto scheme = false := by
    unfold isUnder at h
    unfold pointsInto
    split
    next hk =>
      rw [hk] at h
      dsimp only at h
      rw [h, Bool.false_and]
    · rfl
  rw [isUnstable, hinto, h, Bool.false_and, Bool.or_false]

/-- A reference stays when it is normalized, or comes to point inside, or is under the scheme and
becomes relative. -/
theorem adjusted_cases (scheme : Scheme) (r : Reference) :
    (r.adjusted scheme = r ∧ r.isUnstable scheme = false) ∨
    ((r.adjusted scheme).kind = .inside ∧ r.isUnstable scheme = false) ∨
    ((r.adjusted scheme).kind = .relative ∧
      (r.isUnstable scheme = true ↔ '#' ∈ (r.adjusted scheme).raw.toList)) := by
  cases hk : r.kind with
  | inside =>
    refine .inl ⟨adjusted_of_inside hk, isUnstable_of_isUnder_eq_false ?_⟩
    rw [isUnder, hk]
  | other =>
    refine .inl ⟨adjusted_of_other hk, isUnstable_of_isUnder_eq_false ?_⟩
    rw [isUnder, hk]
  | relative =>
    have hunder : r.isUnder scheme = false := by rw [isUnder, hk]
    have hstable := isUnstable_of_isUnder_eq_false hunder
    by_cases hr : '#' ∈ r.raw.toList
    · exact .inr (.inl ⟨kind_adjusted_of_relative hk hr, hstable⟩)
    · exact .inl ⟨adjusted_of_bare hk hr, hstable⟩
  | qualified identity fragment =>
    by_cases hs : identity.scheme = scheme.name
    · refine .inr (.inr ⟨?_, isUnstable_of_qualified hk hs⟩)
      exact kind_of_dot_slash (toList_adjusted_of_qualified hk hs)
    · refine .inl ⟨adjusted_of_qualified_of_ne hk hs, isUnstable_of_isUnder_eq_false ?_⟩
      rw [isUnder, hk]
      exact beq_false_of_ne hs

/-- A second normalization changes the unstable references and no others. -/
theorem adjusted_twice_eq_iff :
    (r.adjusted scheme).adjusted scheme = r.adjusted scheme ↔ r.isUnstable scheme = false := by
  rcases adjusted_cases scheme r with ⟨h, hstable⟩ | ⟨h, hstable⟩ | ⟨h, hunstable⟩
  · rw [h, h, hstable]
    exact ⟨fun _ => rfl, fun _ => rfl⟩
  · rw [adjusted_of_inside h, hstable]
    exact ⟨fun _ => rfl, fun _ => rfl⟩
  · rw [← Bool.not_eq_true, hunstable]
    constructor
    · -- a number sign makes the second pass point inside, and then it is not the first one again
      intro heq hmem
      have hinside : ((r.adjusted scheme).adjusted scheme).kind = .inside :=
        kind_adjusted_of_relative h hmem
      rw [heq, h] at hinside
      cases hinside
    · exact adjusted_of_bare h

/-- A third normalization changes nothing. -/
theorem adjusted_thrice :
    ((r.adjusted scheme).adjusted scheme).adjusted scheme =
      (r.adjusted scheme).adjusted scheme := by
  rcases adjusted_cases scheme r with ⟨h, -⟩ | ⟨h, -⟩ | ⟨h, -⟩
  · rw [h, h, h]
  · rw [adjusted_of_inside h, adjusted_of_inside h]
  · by_cases hmem : '#' ∈ (r.adjusted scheme).raw.toList
    · exact adjusted_of_inside (kind_adjusted_of_relative h hmem)
    · rw [adjusted_of_bare h hmem, adjusted_of_bare h hmem]

/-- After a normalization no reference is unstable. -/
theorem isUnstable_adjusted (r : Reference) : (r.adjusted scheme).isUnstable scheme = false :=
  adjusted_twice_eq_iff.1 adjusted_thrice

/-- Where the extension of the scheme's files holds no number sign, only a fragment makes a
reference unstable. -/
theorem isUnstable_eq_pointsInto (h : '#' ∉ scheme.extension.toList) :
    r.isUnstable scheme = r.pointsInto scheme := by
  simp [isUnstable, h]

end Reference

end SchemaLoom
