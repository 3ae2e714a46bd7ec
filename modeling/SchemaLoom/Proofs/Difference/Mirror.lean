import SchemaLoom.Proofs.Difference.Entries

/-!
# Differences seen from the other side

When two documents change sides, their difference is told from the other side: the locations stay,
what was missing is extra, what was extra is missing, and values that do not match change sides.

- `Difference.Entry.mirror`: an entry told from the other side.
- `Difference.entryAt?_mirror`: so it is at the end of any segments.
- `diff_mirror`: so it is for whole differences.
-/

namespace SchemaLoom

variable {a b : Document}

namespace Difference

/-- The entry of a place when the two documents change sides. -/
def Entry.mirror : Entry → Entry
  | .missing value => .extra value
  | .extra value => .missing value
  | .mismatch left right => .mismatch right left

/-- What is at the end of some segments, when the documents change sides. -/
theorem entryAt?_mirror (ha : a.Distinct) (hb : b.Distinct) (path : List String) :
    entryAt? path b a = (entryAt? path a b).map Entry.mirror := by
  induction path generalizing a b with
  | nil =>
    rw [entryAt?, entryAt?, Document.isAlike_comm b a, Document.equal_comm hb ha]
    split <;> rfl
  | cons segment path ih =>
    by_cases halike : a.isAlike b = true
    · have halike' : b.isAlike a = true := Document.isAlike_comm a b ▸ halike
      rw [entryAt?_cons_of_alike halike, entryAt?_cons_of_alike halike']
      cases hx : a.part? segment with
      | some x =>
        cases hy : b.part? segment with
        | some y => exact ih (ha.part? hx) (hb.part? hy)
        | none =>
          dsimp only
          split <;> rfl
      | none =>
        cases hy : b.part? segment with
        | some y =>
          dsimp only
          split <;> rfl
        | none => rfl
    · have halike' : ¬ b.isAlike a = true := Document.isAlike_comm a b ▸ halike
      rw [entryAt?_cons_of_not_alike halike, entryAt?_cons_of_not_alike halike']
      rfl

/-- The mirrored entries of a difference are in the order of their locations, as the entries are. -/
theorem pairwise_map_mirror (d : Difference) :
    (d.entries.map fun e => (e.1, e.2.mirror)).Pairwise fun x y => compare x.1 y.1 = .lt :=
  List.pairwise_map.2 d.sorted

/-- Differences with mirrored entries have what is missing and what is extra exchanged. -/
theorem views_of_mirror {d e : Difference}
    (h : e.entries = d.entries.map fun x => (x.1, x.2.mirror)) :
    e.missing = d.extra ∧ e.extra = d.missing ∧ e.mismatch = d.mismatch := by
  unfold missing extra mismatch
  simp only [h, List.filterMap_map]
  refine ⟨?_, ?_, ?_⟩
  all_goals
    refine List.filterMap_congr fun x _ => ?_
    obtain ⟨loc, entry⟩ := x
    cases entry <;> rfl

end Difference

/-- When two documents change sides, every entry of their difference stays at its location and is
mirrored: what was missing is extra, what was extra is missing, and two values that do not match
change sides. -/
theorem diff_mirror (ha : a.Distinct) (hb : b.Distinct) :
    (diff b a).entries = (diff a b).entries.map (fun e => (e.1, e.2.mirror)) ∧
      (diff b a).keys = (diff a b).keys ∧ (diff b a).missing = (diff a b).extra ∧
      (diff b a).extra = (diff a b).missing ∧ (diff b a).mismatch = (diff a b).mismatch := by
  have hentries : (diff b a).entries = (diff a b).entries.map fun e => (e.1, e.2.mirror) := by
    refine SortedMap.entries_eq_of_mem_iff (diff b a).sorted
      (Difference.pairwise_map_mirror _) ?_
    rintro ⟨loc, e⟩
    rw [mem_entries_diff_iff hb ha, Difference.entryAt?_mirror ha hb, Option.map_eq_some_iff,
      List.mem_map]
    constructor
    · rintro ⟨x, hx, rfl⟩
      exact ⟨(loc, x), (mem_entries_diff_iff ha hb).2 hx, rfl⟩
    · rintro ⟨⟨loc', x⟩, hx, hmirror⟩
      cases hmirror
      exact ⟨x, (mem_entries_diff_iff ha hb).1 hx, rfl⟩
  refine ⟨hentries, ?_, Difference.views_of_mirror hentries⟩
  rw [SortedMap.keys, SortedMap.keys, hentries, List.map_map]
  rfl

/-- An array that grows, a key that is renamed and a value that becomes an object, with the entries
of both directions. -/
theorem diff_mirror_sizes :
    let one : Document := .obj [("sizes", .arr [.str "s"]), ("color", .str "red"),
      ("price", .num (.int 1))]
    let two : Document := .obj [("price", .obj [("net", .num (.int 1))]),
      ("sizes", .arr [.str "s", .str "m"]), ("colour", .str "red")]
    (one.Distinct ∧ two.Distinct) ∧
      (diff two one).entries = (diff one two).entries.map (fun e => (e.1, e.2.mirror)) ∧
      (diff two one).missing = [⟨["colour"]⟩, ⟨["sizes", "1"]⟩] ∧
      (diff two one).extra = [⟨["color"]⟩] ∧ (diff two one).mismatch = [⟨["price"]⟩] := by
  intro one two
  have hone : one.Distinct := by decide
  have htwo : two.Distinct := by decide
  obtain ⟨hentries, -, hmissing, hextra, hmismatch⟩ := diff_mirror hone htwo
  refine ⟨⟨hone, htwo⟩, hentries, hmissing.trans ?_, hextra.trans ?_, hmismatch.trans ?_⟩
  all_goals decide +kernel

end SchemaLoom
