import SchemaLoom.Proofs.Difference.Entries

/-!
# A difference determines the other document

The differences of one document to two others are equal exactly when the others are.  So nothing of
the right document is lost: with the left one it could be made again from the difference.

- `Difference.sameAnswer_of_equal`: equal documents differ alike from any other.
- `Difference.equal_of_sameAnswer`: documents that differ alike from another one are equal.
- `diff_faithful`: both for whole differences, and that an empty one means equal documents.
-/

namespace SchemaLoom

variable {a b c : Document}

namespace Difference

/-- Two look-ups are answered with equal entries, or both with none. -/
abbrev SameAnswer (x y : Option Entry) : Prop :=
  Option.Rel (fun e f => e.equal f = true) x y

theorem SameAnswer.some_iff {e f : Entry} : SameAnswer (some e) (some f) ↔ e.equal f = true :=
  Option.rel_some_some

theorem beq_entries_iff (xs ys : List (Location × Entry)) : (xs == ys) = true ↔
    List.Forall₂ (fun x y => x.1 = y.1 ∧ x.2.equal y.2 = true) xs ys := by
  induction xs generalizing ys with
  | nil => cases ys <;> simp
  | cons x xs ih =>
    cases ys with
    | nil => simp
    | cons y ys =>
      have hpair : (x == y) = true ↔ x.1 = y.1 ∧ x.2.equal y.2 = true := by
        show (x.1 == y.1 && x.2.equal y.2) = true ↔ _
        rw [Bool.and_eq_true, beq_iff_eq]
      rw [List.cons_beq_cons, Bool.and_eq_true, hpair, ih, List.forall₂_cons]

/-- Two differences are equal exactly when they answer every look-up with equal entries, or with
none. -/
theorem beq_iff_sameAnswer {d e : Difference} :
    (d == e) = true ↔ ∀ loc, SameAnswer (d.get? loc) (e.get? loc) :=
  (beq_entries_iff d.entries e.entries).trans
    (SortedMap.forall₂_entries_iff (R := fun x y => Entry.equal x y = true))

/-! ## Equal documents differ alike -/

/-- Equal documents differ alike from any other. -/
theorem sameAnswer_of_equal (ha : a.Distinct) (hb : b.Distinct) (hc : c.Distinct)
    (h : b.equal c = true) (path : List String) :
    SameAnswer (entryAt? path a b) (entryAt? path a c) := by
  induction path generalizing a b c with
  | nil =>
    -- what a document matches or does not match, it does so with every document equal to that one
    have halike : a.isAlike b = a.isAlike c := Document.isAlike_of_equal h
    have hequal : a.equal b = a.equal c := by
      rw [Bool.eq_iff_iff]
      constructor
      · exact fun hab => Document.equal_trans hab h
      · exact fun hac => Document.equal_trans hac (Document.equal_symm hb hc h)
    rw [entryAt?, entryAt?, halike, hequal]
    split
    · exact .none
    · have hmismatch : (Entry.mismatch a b).equal (.mismatch a c) = true := by
        show (a.equal a && b.equal c) = true
        rw [Document.equal_refl ha, h]
        rfl
      exact .some hmismatch
  | cons segment path ih =>
    have halike : a.isAlike b = a.isAlike c := Document.isAlike_of_equal h
    by_cases hab : a.isAlike b = true
    · have hac : a.isAlike c = true := halike ▸ hab
      have hparts := (Document.equal_iff_parts (Document.isAlike_trans hab hac) hb hc).1 h segment
      rw [entryAt?_cons_of_alike hab, entryAt?_cons_of_alike hac]
      cases hy : b.part? segment with
      | none =>
        cases hz : c.part? segment with
        | some z =>
          rw [hy, hz] at hparts
          cases hparts
        | none =>
          cases hx : a.part? segment with
          | none => exact .none
          | some x =>
            have hmissing : (Entry.missing x).equal (.missing x) = true :=
              Document.equal_refl (ha.part? hx)
            dsimp only
            split
            · exact .some hmissing
            · exact .none
      | some y =>
        cases hz : c.part? segment with
        | none =>
          rw [hy, hz] at hparts
          cases hparts
        | some z =>
          rw [hy, hz, Option.rel_some_some] at hparts
          cases hx : a.part? segment with
          | some x => exact ih (ha.part? hx) (hb.part? hy) (hc.part? hz) hparts
          | none =>
            have hextra : (Entry.extra y).equal (.extra z) = true := hparts
            dsimp only
            split
            · exact .some hextra
            · exact .none
    · rw [entryAt?_cons_of_not_alike hab, entryAt?_cons_of_not_alike (halike ▸ hab)]
      exact .none

/-! ## Documents that differ alike are equal -/

theorem SameAnswer.eq_none_iff {x y : Option Entry} (h : SameAnswer x y) : x = none ↔ y = none := by
  cases h with
  | none => exact Iff.rfl
  | some => exact ⟨nofun, nofun⟩

/-- A document that is not alike to one it does not differ from is a scalar. -/
theorem isAlike_of_entryAt?_nil (h : entryAt? [] a c = none) (hab : a.isAlike b = true) :
    a.isAlike c = true := by
  by_contra hac
  rw [entryAt?_nil_of_not_alike hac] at h
  split at h
  next he =>
    have haa : a.isAlike a = a.isAlike c := Document.isAlike_of_equal he
    have hself : a.isAlike a = true := by
      cases a <;> cases b <;> first | rfl | cases hab
    exact hac (haa ▸ hself)
  next => cases h

/-- At the root nothing is missing: two documents that are there match, or they do not. -/
theorem not_sameAnswer_missing {x : Document} :
    ¬ SameAnswer (entryAt? [] a b) (some (.missing x)) ∧
      ¬ SameAnswer (some (.missing x)) (entryAt? [] a b) := by
  rw [entryAt?]
  split
  next =>
    constructor
    · intro h
      cases h
    · intro h
      cases h
  next =>
    rw [SameAnswer.some_iff, SameAnswer.some_iff]
    exact ⟨Bool.false_ne_true, Bool.false_ne_true⟩

/-- The parts of two documents are equal, if these differ alike from a third one and a part of that
one tells parts apart. -/
theorem equal_parts_of_sameAnswer (hab : a.isAlike b = true) (hac : a.isAlike c = true)
    {segment : String}
    (h : ∀ path, SameAnswer (entryAt? (segment :: path) a b) (entryAt? (segment :: path) a c))
    (hpart : ∀ x y z, a.part? segment = some x → b.part? segment = some y →
      c.part? segment = some z → (∀ path, SameAnswer (entryAt? path x y) (entryAt? path x z)) →
      y.equal z = true) :
    Option.Rel (fun y z => Document.equal y z = true) (b.part? segment) (c.part? segment) := by
  simp only [entryAt?_cons_of_alike hab, entryAt?_cons_of_alike hac] at h
  have hhere := h []
  cases hx : a.part? segment with
  | none =>
    rw [hx] at hhere
    cases hy : b.part? segment with
    | none =>
      cases hz : c.part? segment with
      | none => exact .none
      | some z =>
        rw [hy, hz] at hhere
        cases hhere
    | some y =>
      cases hz : c.part? segment with
      | none =>
        rw [hy, hz] at hhere
        cases hhere
      | some z =>
        rw [hy, hz] at hhere
        have hyz : y.equal z = true := SameAnswer.some_iff.1 hhere
        exact .some hyz
  | some x =>
    rw [hx] at h hhere
    cases hy : b.part? segment with
    | none =>
      cases hz : c.part? segment with
      | none => exact .none
      | some z =>
        rw [hy, hz] at hhere
        exact absurd hhere not_sameAnswer_missing.2
    | some y =>
      cases hz : c.part? segment with
      | none =>
        rw [hy, hz] at hhere
        exact absurd hhere not_sameAnswer_missing.1
      | some z =>
        rw [hy, hz] at h
        exact .some (hpart x y z hx hy hz h)

/-- Documents that differ alike from another one are equal: where that one ends their own values are
among the entries, and above they have the same parts. -/
theorem equal_of_sameAnswer (ha : a.Distinct) (hb : b.Distinct) (hc : c.Distinct)
    (h : ∀ path, SameAnswer (entryAt? path a b) (entryAt? path a c)) : b.equal c = true := by
  induction a using Document.parts_induction generalizing b c with
  | parts a ih =>
    have hroot := h []
    by_cases hab : a.isAlike b = true
    · -- nothing is told at the root, so the third document cannot be a value of another kind
      have hac : a.isAlike c = true :=
        isAlike_of_entryAt?_nil (hroot.eq_none_iff.1 (entryAt?_nil_of_alike hab)) hab
      refine (Document.equal_iff_parts (Document.isAlike_trans hab hac) hb hc).2 fun segment => ?_
      refine equal_parts_of_sameAnswer hab hac (fun path => h (segment :: path)) ?_
      intro x y z hx hy hz hbelow
      exact ih segment x hx (ha.part? hx) (hb.part? hy) (hc.part? hz) hbelow
    · have hac : ¬ a.isAlike c = true := fun hac =>
        hab (isAlike_of_entryAt?_nil (hroot.eq_none_iff.2 (entryAt?_nil_of_alike hac)) hac)
      -- the entry at the root, if there is one, holds the other document as it is
      rw [entryAt?_nil_of_not_alike hab, entryAt?_nil_of_not_alike hac] at hroot
      by_cases heb : a.equal b = true
      · rw [if_pos heb] at hroot
        by_cases hec : a.equal c = true
        · exact Document.equal_trans (Document.equal_symm ha hb heb) hec
        · rw [if_neg hec] at hroot
          cases hroot
      · rw [if_neg heb] at hroot
        by_cases hec : a.equal c = true
        · rw [if_pos hec] at hroot
          cases hroot
        · rw [if_neg hec] at hroot
          have hsides : (a.equal a && b.equal c) = true := SameAnswer.some_iff.1 hroot
          exact (Bool.and_eq_true_iff.1 hsides).2

/-- The differences of two documents to one are equal exactly when they answer alike wherever
segments lead. -/
theorem beq_diff_iff (ha : a.Distinct) (hb : b.Distinct) (hc : c.Distinct) :
    (diff a b == diff a c) = true ↔
      ∀ path, SameAnswer (entryAt? path a b) (entryAt? path a c) := by
  rw [beq_iff_sameAnswer]
  constructor
  · intro h path
    have hloc := h ⟨path⟩
    rwa [get?_diff ha hb, get?_diff ha hc] at hloc
  · intro h loc
    rw [get?_diff ha hb, get?_diff ha hc]
    exact h loc.segments

/-- A difference is empty exactly when it is that of a document to itself. -/
theorem isEmpty_diff_iff (ha : a.Distinct) :
    (diff a b).isEmpty = true ↔ (diff a a == diff a b) = true := by
  rw [SortedMap.isEmpty_iff_get?, beq_iff_sameAnswer]
  refine forall_congr' fun loc => ?_
  rw [get?_diff ha ha, entryAt?_self ha]
  constructor
  · intro h
    rw [h]
    exact .none
  · exact fun h => h.eq_none_iff.1 rfl

end Difference

/-- A difference determines the other document: two differences to one document are equal exactly
when the documents are, and there is no difference exactly when the documents are equal. -/
theorem diff_faithful (ha : a.Distinct) (hb : b.Distinct) (hc : c.Distinct) :
    ((diff a b == diff a c) = true ↔ b.equal c = true) ∧
      ((diff a b).isEmpty = true ↔ a.equal b = true) := by
  have hfaithful : ∀ {x y : Document}, x.Distinct → y.Distinct →
      ((diff a x == diff a y) = true ↔ x.equal y = true) := by
    intro x y hx hy
    rw [Difference.beq_diff_iff ha hx hy]
    exact ⟨Difference.equal_of_sameAnswer ha hx hy, Difference.sameAnswer_of_equal ha hx hy⟩
  exact ⟨hfaithful hb hc, (Difference.isEmpty_diff_iff ha).trans (hfaithful ha hb)⟩

/-- A schema whose kind, bounds and required properties are given. -/
def boundedSchema (kind : Document) (required : List Document) (bounds : Members) : Document :=
  .obj [("type", kind), ("required", .arr required), ("range", .obj bounds)]

/-- Three schemas with arrays of different lengths and a kind that is a list in two of them; the
order of their bounds does not matter. -/
theorem diff_faithful_schemas :
    let one : Document := boundedSchema (.str "integer") [.str "x", .str "y"] [("low", .null)]
    let two : Document := boundedSchema (.arr [.str "integer"]) [.str "x"]
      [("low", .null), ("high", .bool true)]
    let three : Document := boundedSchema (.arr [.str "integer"]) [.str "x"]
      [("high", .bool true), ("low", .null)]
    (one.Distinct ∧ two.Distinct ∧ three.Distinct) ∧
      two.equal three = true ∧ (diff one two == diff one three) = true ∧
      one.equal two = false ∧ (diff one two).isEmpty = false := by
  intro one two three
  have hone : one.Distinct := by decide
  have htwo : two.Distinct := by decide
  have hthree : three.Distinct := by decide
  have h := diff_faithful hone htwo hthree
  have hequal : two.equal three = true := by decide +kernel
  have hother : one.equal two = false := by decide +kernel
  refine ⟨⟨hone, htwo, hthree⟩, hequal, h.1.2 hequal, hother, Bool.eq_false_iff.2 fun he => ?_⟩
  rw [h.2.1 he] at hother
  cases hother

end SchemaLoom
