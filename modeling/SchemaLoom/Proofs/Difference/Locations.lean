import SchemaLoom.Proofs.Difference.Faithfulness

/-!
# Where the entries of a difference are

An entry can be read back by following its location: it says what is found there in each of the two
documents.  No entry is within the place of another, and wherever a location leads to unequal values
there is an entry at it, above it or below it.

- `Location.PlainIn`: the indices on the way along a location are written as a difference writes
  them.  Following a location also reads other texts as indices, such as `+1` and `01`.
- `Difference.Entry.HoldsAt`: what an entry says of the two documents at its location.
- `Difference.holdsAt_of_entryAt?`: every entry is right.
- `Difference.entryAt?_append_eq_none`: there is nothing below an entry.
- `Difference.exists_entryAt?_of_resolve`: no unequal values are left out.
- `diff_located`: the three for whole differences.
-/

namespace SchemaLoom

variable {a b d x y : Document} {segment : String} {path more : List String}

/-! ## Segments that lead to parts -/

namespace Location

/-- Every segment that leads into an array of a document is the plain decimal text of a number: it
has no sign and no zeros in front. -/
def PlainSegments : List String → Document → Prop
  | [], _ => True
  | segment :: path, d =>
    (d.isArray = true → ∃ i : Nat, segment = toString i) ∧
      ∀ x, step? segment d = some x → PlainSegments path x

/-- The indices of a location are plain on the way through a document. -/
def PlainIn (loc : Location) (d : Document) : Prop :=
  PlainSegments loc.segments d

/-- A plain segment that is followed leads to a part. -/
theorem part?_of_step? (hplain : d.isArray = true → ∃ i : Nat, segment = toString i)
    (h : step? segment d = some x) : d.part? segment = some x := by
  cases d with
  | null | bool | num | str => cases h
  | obj members => exact h
  | arr items =>
    obtain ⟨i, rfl⟩ := hplain rfl
    obtain ⟨j, hj, hx⟩ := Option.bind_eq_some_iff.1 h
    rw [Document.part?_arr, eq_of_index?_toString hj]
    exact hx

/-- Where a segment leads to a part of one document, following it in a document of the same shape
finds the part there, if there is one. -/
theorem step?_eq_part? (ha : a.Addressable) (halike : a.isAlike b = true)
    (hx : a.part? segment = some x) : step? segment b = b.part? segment := by
  rcases Document.isAlike_iff.1 halike with ⟨as, bs, rfl, rfl⟩ | ⟨as, bs, rfl, rfl⟩
  · rfl
  · obtain ⟨i, rfl, hi⟩ := Document.part?_arr_eq_some_iff.1 hx
    -- the index is one of the left array, so it is small enough to be read back
    have hlt : i < Numeral.wordLimit :=
      Nat.lt_of_lt_of_le (List.getElem?_eq_some_iff.1 hi).1 (Document.addressable_arr.1 ha).1
    rw [step?, index?_toString hlt, Option.bind_some, Document.part?_arr]

theorem resolve_cons (h : step? segment d = some x) (path : List String) :
    resolve ⟨segment :: path⟩ d = resolve ⟨path⟩ x := by
  unfold resolve
  rw [resolveSegments, h, Option.bind_some]

theorem resolve_cons_of_none (h : step? segment d = none) (path : List String) :
    resolve ⟨segment :: path⟩ d = none := by
  unfold resolve
  rw [resolveSegments, h, Option.bind_none]

end Location

namespace Difference

variable {e : Entry}

/-! ## What an entry says -/

/-- What an entry says of two documents at a location: where it leads in each of them. -/
def Entry.HoldsAt (a b : Document) (loc : Location) : Entry → Prop
  | .missing v => loc.resolve a = some v ∧ loc.resolve b = none
  | .extra v => loc.resolve a = none ∧ loc.resolve b = some v
  | .mismatch l r => loc.resolve a = some l ∧ loc.resolve b = some r ∧ l.equal r = false ∧
      l.isAlike r = false

/-- What is said of two parts is said of the whole documents, with one segment more. -/
theorem Entry.HoldsAt.of_parts (hx : Location.step? segment a = some x)
    (hy : Location.step? segment b = some y) (h : e.HoldsAt x y ⟨path⟩) :
    e.HoldsAt a b ⟨segment :: path⟩ := by
  cases e with
  | missing | extra | mismatch =>
    rw [HoldsAt, Location.resolve_cons hx, Location.resolve_cons hy]
    exact h

/-- An entry at a segment or below it is one of the parts there, or is the part that only one of the
documents has. -/
theorem entryAt?_cons_cases (h : entryAt? (segment :: path) a b = some e) :
    a.isAlike b = true ∧
      ((∃ x y, a.part? segment = some x ∧ b.part? segment = some y ∧
          entryAt? path x y = some e) ∨
        (∃ x, a.part? segment = some x ∧ b.part? segment = none ∧ path = [] ∧ e = .missing x) ∨
        ∃ y, a.part? segment = none ∧ b.part? segment = some y ∧ path = [] ∧ e = .extra y) := by
  by_cases halike : a.isAlike b = true
  · refine ⟨halike, ?_⟩
    rw [entryAt?_cons_of_alike halike] at h
    cases hx : a.part? segment with
    | some x =>
      cases hy : b.part? segment with
      | some y =>
        rw [hx, hy] at h
        exact .inl ⟨x, y, rfl, rfl, h⟩
      | none =>
        rw [hx, hy, Option.ite_none_right_eq_some] at h
        obtain ⟨hpath, ⟨⟩⟩ := h
        exact .inr (.inl ⟨x, rfl, rfl, hpath, rfl⟩)
    | none =>
      cases hy : b.part? segment with
      | none =>
        rw [hx, hy] at h
        cases h
      | some y =>
        rw [hx, hy, Option.ite_none_right_eq_some] at h
        obtain ⟨hpath, ⟨⟩⟩ := h
        exact .inr (.inr ⟨y, rfl, rfl, hpath, rfl⟩)
  · rw [entryAt?_cons_of_not_alike halike] at h
    cases h

/-- What an entry says is true: its location leads in each document to what it holds. -/
theorem holdsAt_of_entryAt? (ha : a.Addressable) (hb : b.Addressable)
    (h : entryAt? path a b = some e) : e.HoldsAt a b ⟨path⟩ := by
  induction path generalizing a b with
  | nil =>
    by_cases halike : a.isAlike b = true
    · rw [entryAt?_nil_of_alike halike] at h
      cases h
    · rw [entryAt?_nil_of_not_alike halike, Option.ite_none_left_eq_some] at h
      obtain ⟨he, ⟨⟩⟩ := h
      exact ⟨rfl, rfl, Bool.eq_false_iff.2 he, Bool.eq_false_iff.2 halike⟩
  | cons segment path ih =>
    obtain ⟨hab, hcases⟩ := entryAt?_cons_cases h
    -- the segment is followed alike in both documents, whichever of them has the part
    have hba : b.isAlike a = true := Document.isAlike_comm a b ▸ hab
    have haa : a.isAlike a = true := Document.isAlike_trans hba hba
    have hbb : b.isAlike b = true := Document.isAlike_trans hab hab
    rcases hcases with ⟨x, y, hx, hy, h⟩ | ⟨x, hx, hy, rfl, rfl⟩ | ⟨y, hx, hy, rfl, rfl⟩
    · have hstepx := (Location.step?_eq_part? ha haa hx).trans hx
      have hstepy := (Location.step?_eq_part? ha hab hx).trans hy
      exact (ih (ha.part? hx) (hb.part? hy) h).of_parts hstepx hstepy
    · have hstepx := (Location.step?_eq_part? ha haa hx).trans hx
      have hstepy := (Location.step?_eq_part? ha hab hx).trans hy
      exact ⟨Location.resolve_cons hstepx [], Location.resolve_cons_of_none hstepy []⟩
    · have hstepx := (Location.step?_eq_part? hb hba hy).trans hx
      have hstepy := (Location.step?_eq_part? hb hbb hy).trans hy
      exact ⟨Location.resolve_cons_of_none hstepx [], Location.resolve_cons hstepy []⟩

/-! ## Entries do not overlap -/

/-- There is nothing below an entry. -/
theorem entryAt?_append_eq_none (h : entryAt? path a b = some e) (hmore : more ≠ []) :
    entryAt? (path ++ more) a b = none := by
  induction path generalizing a b with
  | nil =>
    obtain ⟨segment, rest, rfl⟩ := List.exists_cons_of_ne_nil hmore
    by_cases halike : a.isAlike b = true
    · rw [entryAt?_nil_of_alike halike] at h
      cases h
    · exact entryAt?_cons_of_not_alike halike
  | cons segment path ih =>
    obtain ⟨halike, hcases⟩ := entryAt?_cons_cases h
    rw [List.cons_append, entryAt?_cons_of_alike halike]
    rcases hcases with ⟨x, y, hx, hy, h⟩ | ⟨x, hx, hy, rfl, -⟩ | ⟨y, hx, hy, rfl, -⟩
    · rw [hx, hy]
      exact ih h
    · rw [hx, hy]
      exact if_neg hmore
    · rw [hx, hy]
      exact if_neg hmore

/-! ## Nothing is left out -/

/-- Unequal documents have an entry somewhere. -/
theorem exists_entryAt?_of_not_equal (ha : a.Distinct) (hb : b.Distinct)
    (hne : a.equal b = false) : ∃ path e, entryAt? path a b = some e := by
  by_contra hno
  have hnone : ∀ path, entryAt? path a b = none :=
    fun path => Option.eq_none_iff_forall_ne_some.2 fun e he => hno ⟨path, e, he⟩
  have hequal : a.equal b = true := by
    refine equal_of_sameAnswer ha ha hb fun path => ?_
    rw [entryAt?_self ha, hnone]
    exact .none
  rw [hequal] at hne
  cases hne

/-- Documents of different shapes that lead on are unequal, so there is an entry for them. -/
theorem entryAt?_nil_of_step? (halike : ¬ a.isAlike b = true)
    (h : Location.step? segment a = some x) : entryAt? [] a b = some (.mismatch a b) := by
  rw [entryAt?_nil_of_not_alike halike]
  refine if_neg fun he => halike ?_
  rw [← Document.isAlike_of_equal he]
  cases a with
  | null | bool | num | str => cases h
  | arr | obj => rfl

/-- Where segments lead to unequal values there is an entry at their end, above it or below it. -/
theorem exists_entryAt?_of_resolve (ha : a.Distinct) (hb : b.Distinct)
    (hx : Location.resolveSegments path a = some x)
    (hy : Location.resolveSegments path b = some y) (hne : x.equal y = false)
    (hplain : Location.PlainSegments path a) :
    ∃ place e, entryAt? place a b = some e ∧ (place <+: path ∨ path <+: place) := by
  induction path generalizing a b with
  | nil =>
    cases hx
    cases hy
    obtain ⟨place, e, he⟩ := exists_entryAt?_of_not_equal ha hb hne
    exact ⟨place, e, he, .inr List.nil_prefix⟩
  | cons segment path ih =>
    obtain ⟨x', hstepx, hx⟩ := Option.bind_eq_some_iff.1 hx
    obtain ⟨y', hstepy, hy⟩ := Option.bind_eq_some_iff.1 hy
    by_cases halike : a.isAlike b = true
    · obtain ⟨hindex, hplain⟩ := hplain
      have hindex' : b.isArray = true → ∃ i : Nat, segment = toString i := by
        rcases Document.isAlike_iff.1 halike with ⟨_, _, rfl, rfl⟩ | ⟨_, _, rfl, rfl⟩
        · exact hindex
        · exact hindex
      have hpartx := Location.part?_of_step? hindex hstepx
      have hparty := Location.part?_of_step? hindex' hstepy
      obtain ⟨place, e, he, hwithin⟩ :=
        ih (ha.part? hpartx) (hb.part? hparty) hx hy (hplain x' hstepx)
      refine ⟨segment :: place, e, ?_, ?_⟩
      · rw [entryAt?_cons_of_alike halike, hpartx, hparty]
        exact he
      · rw [List.cons_prefix_cons, List.cons_prefix_cons]
        exact hwithin.imp (And.intro rfl) (And.intro rfl)
    · -- an index of one document may be a key of the other, but then they already differ here
      exact ⟨[], _, entryAt?_nil_of_step? halike hstepx, .inl List.nil_prefix⟩

end Difference

/-! ## Whole documents -/

/-- The entries of a difference are where they say, and nowhere else.  Each location leads in each
of the two documents to what its entry holds, or to nothing; no location is within another one; and
every location that leads to unequal values by plain indices has an entry at it, above it or below
it. -/
theorem diff_located (ha : a.Distinct) (hb : b.Distinct) (ha' : a.Addressable)
    (hb' : b.Addressable) :
    (∀ p ∈ (diff a b).entries, p.2.HoldsAt a b p.1) ∧
      (∀ p ∈ (diff a b).entries, ∀ q ∈ (diff a b).entries, p.1.Within q.1 → p.1 = q.1) ∧
      ∀ loc x y, loc.resolve a = some x → loc.resolve b = some y → x.equal y = false →
        loc.PlainIn a → ∃ p ∈ (diff a b).entries, p.1.Within loc ∨ loc.Within p.1 := by
  refine ⟨?_, ?_, ?_⟩
  · rintro ⟨loc, e⟩ hp
    exact Difference.holdsAt_of_entryAt? ha' hb' ((mem_entries_diff_iff ha hb).1 hp)
  · rintro ⟨⟨path⟩, e⟩ hp ⟨⟨path'⟩, e'⟩ hq hwithin
    obtain ⟨more, rfl⟩ := hwithin
    have he := (mem_entries_diff_iff ha hb).1 hp
    have he' := (mem_entries_diff_iff ha hb).1 hq
    cases more with
    | nil => rw [List.append_nil]
    | cons segment rest =>
      rw [Difference.entryAt?_append_eq_none he' (List.cons_ne_nil _ _)] at he
      cases he
  · intro loc x y hx hy hne hplain
    obtain ⟨place, e, he, hwithin⟩ :=
      Difference.exists_entryAt?_of_resolve ha hb hx hy hne hplain
    exact ⟨(⟨place⟩, e), (mem_entries_diff_iff ha hb).2 he, hwithin.symm⟩

/-- A key that looks like an index leads to arrays of different lengths, and a text stands where the
other document has an array. -/
theorem diff_located_sizes :
    let one : Document := .obj [("0", .arr [.str "s", .str "m"]), ("color", .str "red")]
    let two : Document := .obj [("color", .arr [.str "red"]),
      ("0", .arr [.str "s", .str "l", .str "xl"])]
    let loc : Location := ⟨["0", "1"]⟩
    (one.Distinct ∧ two.Distinct ∧ one.Addressable ∧ two.Addressable) ∧
      (loc.resolve one = some (.str "m") ∧ loc.resolve two = some (.str "l") ∧ loc.PlainIn one) ∧
      (diff one two).keys = [loc, ⟨["0", "2"]⟩, ⟨["color"]⟩] ∧
      (∀ p ∈ (diff one two).entries, p.2.HoldsAt one two p.1) ∧
      (∀ p ∈ (diff one two).entries, ∀ q ∈ (diff one two).entries,
        p.1.Within q.1 → p.1 = q.1) ∧
      ∃ p ∈ (diff one two).entries, p.1.Within loc ∨ loc.Within p.1 := by
  intro one two loc
  have hone : one.Distinct := by decide
  have htwo : two.Distinct := by decide
  have hone' : one.Addressable := by
    simp [one, Document.Addressable, Document.AddressableMembers, Document.AddressableItems,
      Numeral.wordLimit]
  have htwo' : two.Addressable := by
    simp [two, Document.Addressable, Document.AddressableMembers, Document.AddressableItems,
      Numeral.wordLimit]
  have hx : loc.resolve one = some (.str "m") := rfl
  have hy : loc.resolve two = some (.str "l") := rfl
  have hplain : loc.PlainIn one := by
    refine ⟨fun h => absurd h Bool.false_ne_true, fun x _ => ?_⟩
    exact ⟨fun _ => ⟨1, rfl⟩, fun _ _ => trivial⟩
  obtain ⟨hholds, hapart, hfound⟩ := diff_located hone htwo hone' htwo'
  refine ⟨⟨hone, htwo, hone', htwo'⟩, ⟨hx, hy, hplain⟩, ?_, hholds, hapart, ?_⟩
  · decide +kernel
  · exact hfound loc _ _ hx hy (by decide) hplain

end SchemaLoom
