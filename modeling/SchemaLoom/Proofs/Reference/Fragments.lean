import SchemaLoom.Proofs.Reference

/-!
# The fragment of a reference

There are two notions of a fragment: what follows the first number sign of a text, and the last part
of a qualified reference.  They agree, since no other part of a qualified reference can hold a number
sign.  So a reference can be rewritten without changing where it points to in its document.

- `Reference.fragment?_of_toList`: the fragment of a text that is written with a fragment at its end.
- `Reference.fragment?_of_qualified`: the fragment that a qualified reference is read with.
- `Reference.fragment?_adjusted`: a normalization keeps the fragment, unless it is empty and the
  reference is under the scheme.
- `Reference.normalize_sameFragment`: this, and which references a normalization rewrites.
-/

namespace SchemaLoom

/-- No part of an identity holds a number sign, and no version does. -/
theorem Identity.number_sign_not_mem_chars {id : Identity} {digits : List Char}
    (hid : id.WellNamed) (hdigits : ∀ c ∈ digits, c.isDigit = true) : '#' ∉ id.chars digits := by
  have hscheme : '#' ∉ id.scheme.toList := fun h => absurd (hid.scheme _ h) (by decide)
  have hmodule : '#' ∉ id.moduleName.toList := fun h => absurd (hid.moduleName.2 _ h) (by decide)
  have hresource : '#' ∉ id.resource.toList := fun h => absurd (hid.resource.2 _ h) (by decide)
  have hversion : '#' ∉ digits := fun h => absurd (hdigits _ h) (by decide)
  simp [chars, hscheme, hmodule, hresource, hversion]

namespace Reference

open ReferenceKind (fragmentChars)

variable {r : Reference} {scheme : Scheme} {identity : Identity} {fragment : Option String}

theorem fragment?_eq_none_iff : r.fragment? = none ↔ '#' ∉ r.raw.toList := by
  rw [fragment?, Option.map_eq_none_iff, tail?_eq_none_iff]

/-- A fragment at the end of a text is found, if no number sign comes before it. -/
theorem fragment?_of_toList {before : List Char} (hbefore : '#' ∉ before)
    (h : r.raw.toList = before ++ fragmentChars fragment) : r.fragment? = fragment := by
  cases fragment with
  | none =>
    rw [fragmentChars, List.append_nil] at h
    rw [fragment?_eq_none_iff, h]
    exact hbefore
  | some text =>
    have hpass : ∀ c ∈ before, (c != '#') = true := by
      intro c hc
      rw [bne_iff_ne]
      rintro rfl
      exact hbefore hc
    have htail : r.tail? = some ('#' :: text.toList) := by
      rw [tail?, h, List.dropWhile_append_of_pos hpass]
      rfl
    rw [fragment?, htail, Option.map_some, List.tail_cons, String.ofList_toList]

/-- The fragment that a qualified reference is read with is the text after its first number
sign. -/
theorem fragment?_of_qualified (h : r.kind = .qualified identity fragment) :
    r.fragment? = fragment := by
  obtain ⟨hid, -, -, ds, hds, hchars⟩ :=
    ReferenceKind.qualified?_eq_some_iff.1 (ReferenceKind.ofChars_eq_qualified_iff.1 h)
  rw [← Identity.chars_append] at hchars
  exact fragment?_of_toList (Identity.number_sign_not_mem_chars hid hds.isDigit) hchars

/-! ## What a normalization does to a fragment -/

theorem isUnder_of_qualified (h : r.kind = .qualified identity fragment) :
    r.isUnder scheme = true ↔ identity.scheme = scheme.name := by
  rw [isUnder, h]
  exact beq_iff_eq

/-- Only a qualified reference is under a scheme. -/
theorem exists_of_isUnder (h : r.isUnder scheme = true) :
    ∃ identity fragment, r.kind = .qualified identity fragment ∧ identity.scheme = scheme.name := by
  cases hk : r.kind with
  | inside | relative | other =>
    rw [isUnder, hk] at h
    cases h
  | qualified identity fragment => exact ⟨identity, fragment, rfl, (isUnder_of_qualified hk).1 h⟩

theorem isUnder_of_relative (h : r.kind = .relative) : r.isUnder scheme = false := by
  rw [isUnder, h]

theorem isUnder_of_inside (h : r.kind = .inside) : r.isUnder scheme = false := by
  rw [isUnder, h]

/-- A normalization drops an empty fragment and writes any other one as it was. -/
theorem fragmentTail_eq_fragmentChars :
    fragmentTail fragment = fragmentChars (fragment.filter fun text => decide (text ≠ "")) := by
  cases fragment with
  | none => rfl
  | some text =>
    by_cases htext : text = ""
    · simp [fragmentTail, fragmentChars, Option.filter, htext]
    · simp [fragmentTail, fragmentChars, Option.filter, htext]

/-- A relative reference with a number sign is cut down to its fragment. -/
theorem fragment?_adjusted_of_relative (h : r.kind = .relative) :
    (r.adjusted scheme).fragment? = r.fragment? := by
  cases htail : r.tail? with
  | none => rw [adjusted_of_bare h (tail?_eq_none_iff.1 htail)]
  | some cs =>
    obtain ⟨rest, rfl⟩ := exists_of_tail?_eq_some htail
    have hraw : (r.adjusted scheme).raw.toList = '#' :: rest := by
      rw [adjusted, normalize, h, htail]
      exact String.toList_ofList
    have hfound : (r.adjusted scheme).fragment? = some (String.ofList rest) := by
      refine fragment?_of_toList List.not_mem_nil ?_
      rw [hraw, fragmentChars, String.toList_ofList, List.nil_append]
    rw [hfound, fragment?, htail]
    rfl

/-- A reference under the scheme keeps its fragment, unless that is empty. -/
theorem fragment?_adjusted_of_isUnder (hext : '#' ∉ scheme.extension.toList)
    (h : r.isUnder scheme = true) :
    (r.adjusted scheme).fragment? = r.fragment?.filter fun text => decide (text ≠ "") := by
  obtain ⟨identity, fragment, hk, hs⟩ := exists_of_isUnder h
  have hraw := toList_adjusted_of_qualified hk hs
  rw [fragmentTail_eq_fragmentChars, ← List.cons_append, ← List.cons_append] at hraw
  have hmodule := ReferenceKind.number_sign_not_mem_moduleName hk
  rw [fragment?_of_toList (by simp [hmodule, hext]) hraw, fragment?_of_qualified hk]

/-- A reference that is neither under the scheme nor relative with a fragment stays. -/
theorem adjusted_eq_self (hunder : r.isUnder scheme = false)
    (hrelative : r.kind = .relative → '#' ∉ r.raw.toList) : r.adjusted scheme = r := by
  cases hk : r.kind with
  | inside => exact adjusted_of_inside hk
  | other => exact adjusted_of_other hk
  | relative => exact adjusted_of_bare hk (hrelative hk)
  | qualified identity fragment =>
    refine adjusted_of_qualified_of_ne hk fun hs => ?_
    rw [(isUnder_of_qualified hk).2 hs] at hunder
    cases hunder

/-- A normalization keeps the fragment of a reference, unless it is empty and the reference is under
the scheme. -/
theorem fragment?_adjusted (hext : '#' ∉ scheme.extension.toList) :
    (r.adjusted scheme).fragment? =
      if r.isUnder scheme = true ∧ r.fragment? = some "" then none else r.fragment? := by
  by_cases hunder : r.isUnder scheme = true
  · rw [fragment?_adjusted_of_isUnder hext hunder]
    cases r.fragment? with
    | none => simp
    | some text => by_cases htext : text = "" <;> simp [hunder, htext]
  · rw [if_neg fun h => hunder h.1]
    by_cases hrelative : r.kind = .relative
    · exact fragment?_adjusted_of_relative hrelative
    · rw [adjusted_eq_self (Bool.not_eq_true _ ▸ hunder) fun h => absurd h hrelative]

/-- After a normalization no reference is under the scheme. -/
theorem isUnder_adjusted (r : Reference) : (r.adjusted scheme).isUnder scheme = false := by
  cases hunder : r.isUnder scheme with
  | true =>
    obtain ⟨identity, fragment, hk, hs⟩ := exists_of_isUnder hunder
    exact isUnder_of_relative (kind_of_dot_slash (toList_adjusted_of_qualified hk hs))
  | false =>
    by_cases hrelative : r.kind = .relative ∧ '#' ∈ r.raw.toList
    · exact isUnder_of_inside (kind_adjusted_of_relative hrelative.1 hrelative.2)
    · rw [adjusted_eq_self hunder fun h hmem => hrelative ⟨h, hmem⟩]
      exact hunder

/-- A normalization never changes where a reference points to in its document: it keeps the fragment,
and only an empty fragment of a reference under the scheme is dropped.  For qualified references the
fragment is the one that they are read with.  After the normalization no reference is under the
scheme, and the only references that change are the relative ones with a number sign and those under
the scheme. -/
theorem normalize_sameFragment (hext : '#' ∉ scheme.extension.toList) (r : Reference) :
    fragment? ⟨r.normalize scheme⟩ =
        (if r.isUnder scheme = true ∧ r.fragment? = some "" then none else r.fragment?) ∧
      (∀ identity fragment, r.kind = .qualified identity fragment → fragment = r.fragment?) ∧
      isUnder scheme ⟨r.normalize scheme⟩ = false ∧
      (r.normalize scheme ≠ r.raw →
        (r.kind = .relative ∧ '#' ∈ r.raw.toList) ∨ r.isUnder scheme = true) := by
  refine ⟨fragment?_adjusted hext, ?_, isUnder_adjusted r, ?_⟩
  · intro identity fragment h
    exact (fragment?_of_qualified h).symm
  · intro hne
    by_contra hcon
    obtain ⟨hrelative, hunder⟩ := not_or.1 hcon
    have hself : r.adjusted scheme = r :=
      adjusted_eq_self (Bool.not_eq_true _ ▸ hunder) fun h hmem => hrelative ⟨h, hmem⟩
    exact hne (congrArg raw hself)

/-- A number sign and a dot with a slash inside of a fragment, and an empty fragment. -/
theorem normalize_sameFragment_nested :
    '#' ∉ Scheme.default.extension.toList ∧
      fragment? ⟨normalize ⟨"forge://m/r/v1#./a#b"⟩ .default⟩ = some "./a#b" ∧
      fragment? ⟨normalize ⟨"forge://m/r/v1#"⟩ .default⟩ = none ∧
      isUnder .default ⟨normalize ⟨"forge://m/r/v1#./a#b"⟩ .default⟩ = false := by
  have hext : '#' ∉ Scheme.default.extension.toList := by decide
  obtain ⟨hnested, -, hunder, -⟩ := normalize_sameFragment hext ⟨"forge://m/r/v1#./a#b"⟩
  obtain ⟨hempty, -, -, -⟩ := normalize_sameFragment hext ⟨"forge://m/r/v1#"⟩
  refine ⟨hext, hnested.trans ?_, hempty.trans ?_, hunder⟩
  · decide +kernel
  · decide +kernel

end Reference

end SchemaLoom
