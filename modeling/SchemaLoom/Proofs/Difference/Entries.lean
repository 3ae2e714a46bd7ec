import SchemaLoom.Difference
import SchemaLoom.Proofs.Document.Parts
import SchemaLoom.Proofs.SortedMap

/-!
# What a difference holds at a location

Two documents are compared segment by segment, down to where they are not both objects or both
arrays, or to where one of them has no part.

- `Difference.entryAt?`: the entry at the end of some segments, read off the two documents.
- `Difference.mem_entriesAt_iff`: the entries that are collected are these.
- `get?_diff`: the difference of two documents answers a look-up with this entry.
-/

namespace SchemaLoom

variable {a b : Document} {loc : Location} {segment : String} {path : List String}

namespace Difference

/-! ## The entry at the end of some segments -/

/-- The entry at the end of some segments, if the documents differ there: two values that are not
both objects and not both arrays, or the first part that one of the documents lacks. -/
def entryAt? : List String → Document → Document → Option Entry
  | [], a, b => if a.isAlike b || a.equal b then none else some (.mismatch a b)
  | segment :: path, a, b =>
    if a.isAlike b then
      match a.part? segment, b.part? segment with
      | some x, some y => entryAt? path x y
      | some x, none => if path = [] then some (.missing x) else none
      | none, some y => if path = [] then some (.extra y) else none
      | none, none => none
    else none

theorem entryAt?_nil_of_alike (h : a.isAlike b = true) : entryAt? [] a b = none := by
  rw [entryAt?, h, Bool.true_or, if_pos rfl]

theorem entryAt?_nil_of_not_alike (h : ¬ a.isAlike b = true) :
    entryAt? [] a b = if a.equal b = true then none else some (.mismatch a b) := by
  rw [entryAt?, Bool.eq_false_iff.2 h, Bool.false_or]

theorem entryAt?_cons_of_not_alike (h : ¬ a.isAlike b = true) :
    entryAt? (segment :: path) a b = none := by
  rw [entryAt?, if_neg h]

/-- What is at a segment and below it, given the parts under the segment. -/
theorem entryAt?_cons_of_alike (h : a.isAlike b = true) :
    entryAt? (segment :: path) a b =
      match a.part? segment, b.part? segment with
      | some x, some y => entryAt? path x y
      | some x, none => if path = [] then some (.missing x) else none
      | none, some y => if path = [] then some (.extra y) else none
      | none, none => none := by
  rw [entryAt?, if_pos h]

/-- A document does not differ from itself. -/
theorem entryAt?_self (ha : a.Distinct) (path : List String) : entryAt? path a a = none := by
  induction path generalizing a with
  | nil => rw [entryAt?, Document.equal_refl ha, Bool.or_true, if_pos rfl]
  | cons segment path ih =>
    by_cases h : a.isAlike a = true
    · rw [entryAt?_cons_of_alike h]
      cases hx : a.part? segment with
      | none => rfl
      | some x => exact ih (ha.part? hx)
    · exact entryAt?_cons_of_not_alike h

/-! ## The entries that are collected -/

/-- The entries at one segment and below it, given the parts under the segment. -/
def entriesUnder (loc : Location) (segment : String) :
    Option Document → Option Document → List (Location × Entry)
  | some x, some y => entriesAt (loc.push segment) x y
  | some x, none => [(loc.push segment, .missing x)]
  | none, some y => [(loc.push segment, .extra y)]
  | none, none => []

theorem entriesAt_of_not_alike (h : ¬ a.isAlike b = true) :
    entriesAt loc a b = if a.equal b = true then [] else [(loc, .mismatch a b)] := by
  cases a <;> cases b <;> first | exact absurd rfl h | rfl

theorem entriesMembers_eq_flatMap (left right : Members) :
    entriesMembers loc right left =
      left.flatMap fun m => entriesUnder loc m.1 (some m.2) (Members.get? m.1 right) := by
  induction left with
  | nil => rw [entriesMembers, List.flatMap_nil]
  | cons m rest ih =>
    obtain ⟨k, v⟩ := m
    rw [entriesMembers, List.flatMap_cons, ih]
    congr 1
    cases Members.get? k right <;> rfl

/-- The entries of two objects are those under each key. -/
theorem mem_entriesAt_obj {left right : Members} (hl : (Members.keys left).Nodup)
    (hr : (Members.keys right).Nodup) {x : Location × Entry} :
    x ∈ entriesAt loc (.obj left) (.obj right) ↔
      ∃ k, x ∈ entriesUnder loc k (Members.get? k left) (Members.get? k right) := by
  rw [entriesAt, List.mem_append, entriesMembers_eq_flatMap, List.mem_flatMap, extraMembers,
    List.mem_map]
  constructor
  · rintro (⟨⟨k, v⟩, hm, hx⟩ | ⟨⟨k, w⟩, hm, rfl⟩)
    · refine ⟨k, ?_⟩
      rw [Members.get?_of_mem hl hm]
      exact hx
    · obtain ⟨hm, hnot⟩ := List.mem_filter.1 hm
      have hnone : Members.get? k left = none := by
        simpa [Members.contains] using hnot
      refine ⟨k, ?_⟩
      rw [hnone, Members.get?_of_mem hr hm]
      exact List.mem_singleton_self _
  · rintro ⟨k, hx⟩
    cases hv : Members.get? k left with
    | some v =>
      rw [hv] at hx
      exact .inl ⟨(k, v), Members.mem_of_get? hv, hx⟩
    | none =>
      cases hw : Members.get? k right with
      | none =>
        rw [hv, hw] at hx
        cases hx
      | some w =>
        rw [hv, hw] at hx
        refine .inr ⟨(k, w), List.mem_filter.2 ⟨Members.mem_of_get? hw, ?_⟩, ?_⟩
        · simp [Members.contains, hv]
        · exact (List.mem_singleton.1 hx).symm

theorem mem_extraItems {n : Nat} {right : List Document} {x : Location × Entry} :
    x ∈ extraItems loc n right ↔
      ∃ i : Nat, x ∈ entriesUnder loc (toString (n + i)) none right[i]? := by
  induction right generalizing n with
  | nil => simp [extraItems, entriesUnder]
  | cons e right ih =>
    rw [extraItems, List.mem_cons, ih]
    refine Iff.trans ?_ Nat.or_exists_add_one
    refine or_congr List.mem_singleton.symm (exists_congr fun i => ?_)
    rw [Nat.add_right_comm]
    rfl

/-- The entries of two arrays are those under each index. -/
theorem mem_entriesItems {n : Nat} {left right : List Document} {x : Location × Entry} :
    x ∈ entriesItems loc n left right ↔
      ∃ i : Nat, x ∈ entriesUnder loc (toString (n + i)) left[i]? right[i]? := by
  induction left generalizing n right with
  | nil =>
    rw [entriesItems, mem_extraItems]
    rfl
  | cons d left ih =>
    cases right with
    | nil =>
      rw [entriesItems, List.mem_cons, ih]
      refine Iff.trans ?_ Nat.or_exists_add_one
      refine or_congr List.mem_singleton.symm (exists_congr fun i => ?_)
      rw [Nat.add_right_comm]
      rfl
    | cons e right =>
      rw [entriesItems, List.mem_append, ih]
      refine Iff.trans ?_ Nat.or_exists_add_one
      refine or_congr Iff.rfl (exists_congr fun i => ?_)
      rw [Nat.add_right_comm]
      rfl

/-- The entries of two objects, or of two arrays, are those under each segment. -/
theorem mem_entriesAt_of_alike (h : a.isAlike b = true) (ha : a.Distinct) (hb : b.Distinct)
    {x : Location × Entry} : x ∈ entriesAt loc a b ↔
      ∃ segment, x ∈ entriesUnder loc segment (a.part? segment) (b.part? segment) := by
  rcases Document.isAlike_iff.1 h with ⟨as, bs, rfl, rfl⟩ | ⟨as, bs, rfl, rfl⟩
  · exact mem_entriesAt_obj (Document.distinct_obj.1 ha).1 (Document.distinct_obj.1 hb).1
  · rw [entriesAt, mem_entriesItems]
    constructor
    · rintro ⟨i, hx⟩
      refine ⟨toString i, ?_⟩
      rw [Document.part?_arr, Document.part?_arr]
      rwa [Nat.zero_add] at hx
    · rintro ⟨segment, hx⟩
      -- only an index leads to a part of one of the arrays
      have hindex : ∃ i : Nat, segment = toString i := by
        by_contra hno
        have hnone : ∀ items, Document.part? segment (.arr items) = none :=
          fun items => Document.part?_arr_eq_none hno
        rw [hnone, hnone] at hx
        cases hx
      obtain ⟨i, rfl⟩ := hindex
      refine ⟨i, ?_⟩
      rw [Document.part?_arr, Document.part?_arr] at hx
      rwa [Nat.zero_add]

/-- The entries that are collected below a location are the entries at the ends of segments. -/
theorem mem_entriesAt_iff (ha : a.Distinct) (hb : b.Distinct) {l : Location} {e : Entry} :
    (l, e) ∈ entriesAt loc a b ↔
      ∃ path, l = ⟨loc.segments ++ path⟩ ∧ entryAt? path a b = some e := by
  induction a using Document.parts_induction generalizing loc b with
  | parts a ih =>
    by_cases h : a.isAlike b = true
    · -- one segment leads to entries of its own, and a path that is empty leads to none
      have hunder : ∀ segment,
          (l, e) ∈ entriesUnder loc segment (a.part? segment) (b.part? segment) ↔
            ∃ path, l = ⟨loc.segments ++ segment :: path⟩ ∧
              entryAt? (segment :: path) a b = some e := by
        intro segment
        simp only [entryAt?_cons_of_alike h]
        cases hx : a.part? segment with
        | none =>
          cases hy : b.part? segment with
          | none => simp [entriesUnder]
          | some y => simp [entriesUnder, Location.push, Prod.ext_iff, eq_comm]
        | some x =>
          cases hy : b.part? segment with
          | none => simp [entriesUnder, Location.push, Prod.ext_iff, eq_comm]
          | some y =>
            have hpart : (l, e) ∈ entriesAt (loc.push segment) x y ↔
                ∃ path, l = ⟨(loc.push segment).segments ++ path⟩ ∧ entryAt? path x y = some e :=
              ih segment x hx (ha.part? hx) (hb.part? hy)
            rw [entriesUnder, hpart, Location.push]
            simp only [List.append_assoc, List.singleton_append]
      rw [mem_entriesAt_of_alike h ha hb]
      constructor
      · rintro ⟨segment, hx⟩
        obtain ⟨path, hl, he⟩ := (hunder segment).1 hx
        exact ⟨segment :: path, hl, he⟩
      · rintro ⟨path, hl, he⟩
        cases path with
        | nil =>
          rw [entryAt?_nil_of_alike h] at he
          cases he
        | cons segment path => exact ⟨segment, (hunder segment).2 ⟨path, hl, he⟩⟩
    · rw [entriesAt_of_not_alike h]
      constructor
      · intro hx
        by_cases he : a.equal b = true
        · rw [if_pos he] at hx
          cases hx
        · rw [if_neg he] at hx
          cases List.mem_singleton.1 hx
          refine ⟨[], by rw [List.append_nil], ?_⟩
          rw [entryAt?_nil_of_not_alike h, if_neg he]
      · rintro ⟨path, rfl, he⟩
        cases path with
        | cons segment path =>
          rw [entryAt?_cons_of_not_alike h] at he
          cases he
        | nil =>
          rw [entryAt?_nil_of_not_alike h] at he
          by_cases heq : a.equal b = true
          · rw [if_pos heq] at he
            cases he
          · rw [if_neg heq] at he ⊢
            cases he
            rw [List.append_nil]
            exact List.mem_singleton_self _

end Difference

/-! ## Look-ups -/

open Difference in
/-- The difference of two documents holds at a location what is at the end of its segments. -/
theorem get?_diff (ha : a.Distinct) (hb : b.Distinct) (loc : Location) :
    (diff a b).get? loc = entryAt? loc.segments a b := by
  have hroot : ∀ l e, (l, e) ∈ entriesAt .root a b ↔ entryAt? l.segments a b = some e := by
    intro l e
    rw [mem_entriesAt_iff ha hb]
    constructor
    · rintro ⟨path, rfl, he⟩
      exact he
    · exact fun he => ⟨l.segments, rfl, he⟩
  -- the segments determine the entry, so no entry overwrites another
  have huniq : ∀ p ∈ entriesAt .root a b, ∀ q ∈ entriesAt .root a b, p.1 = q.1 → p = q := by
    rintro ⟨l, e⟩ hp ⟨l', e'⟩ hq hl
    cases hl
    have he := (hroot l e).1 hp
    rw [(hroot l e').1 hq] at he
    cases he
    rfl
  refine Option.ext fun e => ?_
  rw [diff, SortedMap.get?_ofList_eq_some_iff huniq, hroot]

theorem mem_entries_diff_iff (ha : a.Distinct) (hb : b.Distinct) {e : Difference.Entry} :
    (loc, e) ∈ (diff a b).entries ↔ Difference.entryAt? loc.segments a b = some e := by
  rw [← SortedMap.get?_eq_some_iff, get?_diff ha hb]

end SchemaLoom
