import SchemaLoom.Proofs.Difference.Faithfulness
import SchemaLoom.Proofs.Merge.Conflicts
import SchemaLoom.Proofs.Merge.NormalForms
import SchemaLoom.Proofs.Merge.UpperBound

/-!
# Differences and merges

A merge and a difference go through two documents in the same way, unless the grammar has sets: the
difference knows of none.  Without them the conflicts of a merge are the mismatches of the
difference, and a merge that keeps the first value adds to the destination what the difference says
is extra in the source.

- `Grammar.SetFree`: no key leads to a set.
- `entryAt?_eq_mismatch_iff`: the mismatches of two documents are the values that meet in a merge
  and cannot be united.
- `entryAt?_mergeAt`: what a destination lacks of a merge is what it lacks of the source.
- `merge_diff`: both for whole documents.
-/

namespace SchemaLoom

variable {g : Grammar} {t t' : Transition} {loc : Location} {dst src d s : Document}
variable {path : List String}

/-! ## Grammars without sets -/

/-- No key of a grammar leads to a set. -/
def Grammar.SetFree (g : Grammar) : Prop :=
  ∀ node key, (g.child node key).behavior.sortKey = none

/-- It is enough to look at the transitions that the nodes spell out. -/
theorem Grammar.setFree_of_transitions
    (h : ∀ n ∈ g.nodes, ∀ t ∈ n.transitions, t.behavior.sortKey = none) : g.SetFree := by
  intro node key
  have hfallback : ∀ n : Node, ∀ t ∈ n.fallbacks, t.behavior.sortKey = none := by
    intro n
    cases n <;> simp [Node.fallbacks, Transition.data, Transition.plain, Behavior.default]
  rcases Gateways.node_cases g node with hdata | hmem
  · rw [Grammar.child, hdata]
    rfl
  · rcases (g.node node).child_mem key with ht | ht
    · exact h _ (List.fst_mem_of_mem_zipIdx hmem) _ ht
    · exact hfallback _ _ ht

/-- Where two documents meet there is no set either. -/
theorem Meet.sortKey_eq_none (hg : g.SetFree) (h : Meet g t dst src path t' d s)
    (ht : t.behavior.sortKey = none) : t'.behavior.sortKey = none := by
  induction h with
  | here => exact ht
  | key _ _ _ ih => exact ih (hg _ _)
  | index _ _ _ _ ih => exact ih ht

/-! ## One segment at a time -/

/-- The transition at a part of a document: the items of an array are at the node of the array. -/
def Transition.below (g : Grammar) (t : Transition) (segment : String) : Document → Transition
  | .arr _ => t
  | _ => g.child t.node segment

theorem Transition.below_sortKey (hg : g.SetFree) (ht : t.behavior.sortKey = none)
    (segment : String) (d : Document) : (t.below g segment d).behavior.sortKey = none := by
  cases d with
  | arr => exact ht
  | null | bool | num | str | obj => exact hg _ _

theorem Transition.below_policy (hg : g.KeepsFirst) (ht : t.behavior.policy = .keep)
    (segment : String) (d : Document) : (t.below g segment d).behavior.policy = .keep := by
  cases d with
  | arr => exact ht
  | null | bool | num | str | obj => exact hg _ _

/-- Two values cannot be united unless they are alike. -/
theorem apart_iff_not_isAlike : Apart dst src ↔ ¬ dst.isAlike src = true := by
  have halike : dst.isAlike src =
      (dst.isObject && src.isObject || dst.isArray && src.isArray) := by
    cases dst <;> cases src <;> rfl
  rw [Apart, halike, Bool.or_eq_true, Bool.and_eq_true, Bool.and_eq_true, not_or]

/-- Where there are no sets, documents meet below a segment if they are alike and their parts
meet. -/
theorem Meet.cons_iff {segment : String} (ht : t.behavior.sortKey = none) :
    Meet g t dst src (segment :: path) t' d s ↔ dst.isAlike src = true ∧
      ∃ x y, dst.part? segment = some x ∧ src.part? segment = some y ∧
        Meet g (t.below g segment dst) x y path t' d s := by
  constructor
  · intro h
    cases h with
    | key hx hy h => exact ⟨rfl, _, _, hx, hy, h⟩
    | index _ hx hy h =>
      refine ⟨rfl, _, _, ?_, ?_, h⟩
      · rw [Document.part?_arr, hx]
      · rw [Document.part?_arr, hy]
  · rintro ⟨halike, x, y, hx, hy, h⟩
    rcases Document.isAlike_iff.1 halike with ⟨xs, ys, rfl, rfl⟩ | ⟨xs, ys, rfl, rfl⟩
    · exact .key hx hy h
    · obtain ⟨i, rfl, hi⟩ := Document.part?_arr_eq_some_iff.1 hx
      rw [Document.part?_arr] at hy
      exact .index ht hi hy h

/-- Where there are no sets, what a merge makes of documents that are alike is alike to them. -/
theorem isAlike_mergeAt (ht : t.behavior.sortKey = none) (h : dst.isAlike src = true) :
    dst.isAlike (mergeAt g t loc dst src).value = true := by
  rcases Document.isAlike_iff.1 h with ⟨xs, ys, rfl, rfl⟩ | ⟨xs, ys, rfl, rfl⟩
  · rfl
  · rw [mergeAt_list ht]
    rfl

/-- Where there are no sets, a part of a merge is the part of one side that alone has it, or a merge
of the parts of both; equal items of arrays are left as they are. -/
theorem part?_mergeAt_cases (ht : t.behavior.sortKey = none) (h : dst.isAlike src = true)
    (hsrc : src.Distinct) (segment : String) :
    (src.part? segment = none ∧
      (mergeAt g t loc dst src).value.part? segment = dst.part? segment) ∨
    (dst.part? segment = none ∧
      (mergeAt g t loc dst src).value.part? segment = src.part? segment) ∨
    ∃ x y z, dst.part? segment = some x ∧ src.part? segment = some y ∧
      (mergeAt g t loc dst src).value.part? segment = some z ∧
      (x.equal y = true ∧ z = x ∨
        z = (mergeAt g (t.below g segment dst) (loc.push segment) x y).value) := by
  rcases Document.isAlike_iff.1 h with ⟨xs, ys, rfl, rfl⟩ | ⟨xs, ys, rfl, rfl⟩
  · have hn := (Document.distinct_obj.1 hsrc).1
    rw [mergeAt_obj, Document.part?_obj, Document.part?_obj, Document.part?_obj,
      get?_mergeMembers hn]
    cases hy : Members.get? segment ys with
    | none => exact .inl ⟨rfl, rfl⟩
    | some y =>
      cases hx : Members.get? segment xs with
      | none =>
        refine .inr (.inl ⟨rfl, ?_⟩)
        exact congrArg (fun step => some step.value) (memberStep_of_none hx)
      | some x =>
        refine .inr (.inr ⟨x, y, _, rfl, rfl, rfl, .inr ?_⟩)
        exact congrArg Merged.value (memberStep_of_some hx)
  · rw [mergeAt_list ht]
    by_cases hindex : ∃ i : Nat, segment = toString i
    · obtain ⟨i, rfl⟩ := hindex
      rw [Document.part?_arr, Document.part?_arr, Document.part?_arr, getElem?_mergeItems,
        Nat.zero_add]
      cases hy : ys[i]? with
      | none =>
        refine .inl ⟨rfl, ?_⟩
        cases xs[i]? <;> rfl
      | some y =>
        cases hx : xs[i]? with
        | none => exact .inr (.inl ⟨rfl, rfl⟩)
        | some x =>
          refine .inr (.inr ⟨x, y, _, rfl, rfl, rfl, ?_⟩)
          by_cases he : x.equal y = true
          · rw [itemStep_of_equal he]
            exact .inl ⟨he, rfl⟩
          · rw [itemStep_of_not_equal he]
            exact .inr rfl
    · refine .inl ⟨Document.part?_arr_eq_none hindex, ?_⟩
      rw [Document.part?_arr_eq_none hindex, Document.part?_arr_eq_none hindex]

/-! ## Mismatches and conflicts -/

/-- Without sets, the mismatches of two documents are the unequal values that meet and cannot be
united. -/
theorem entryAt?_eq_mismatch_iff (hg : g.SetFree) (ht : t.behavior.sortKey = none) :
    Difference.entryAt? path dst src = some (.mismatch d s) ↔
      ∃ t', Meet g t dst src path t' d s ∧ Apart d s ∧ d.equal s = false := by
  induction path generalizing t dst src with
  | nil =>
    by_cases halike : dst.isAlike src = true
    · rw [Difference.entryAt?_nil_of_alike halike]
      constructor
      · exact nofun
      · rintro ⟨_, ⟨⟩, hap, -⟩
        exact absurd halike (apart_iff_not_isAlike.1 hap)
    · rw [Difference.entryAt?_nil_of_not_alike halike]
      split
      next he =>
        constructor
        · exact nofun
        · rintro ⟨_, ⟨⟩, -, hne⟩
          rw [he] at hne
          cases hne
      next he =>
        constructor
        · rintro ⟨⟩
          exact ⟨t, .here, apart_iff_not_isAlike.2 halike, Bool.eq_false_iff.2 he⟩
        · rintro ⟨_, ⟨⟩, -⟩
          rfl
  | cons segment path ih =>
    by_cases halike : dst.isAlike src = true
    · have hbelow := Transition.below_sortKey hg ht segment dst
      simp only [Meet.cons_iff ht, halike, true_and]
      rw [Difference.entryAt?_cons_of_alike halike]
      cases hx : dst.part? segment with
      | none =>
        cases hy : src.part? segment with
        | none => simp
        | some y => simp
      | some x =>
        cases hy : src.part? segment with
        | none => simp
        | some y => simp [ih hbelow]
    · rw [Difference.entryAt?_cons_of_not_alike halike]
      constructor
      · exact nofun
      · rintro ⟨t', h, -⟩
        exact absurd ((Meet.cons_iff ht).1 h).1 halike

/-- Whether an entry is of two values that do not match. -/
def Difference.Entry.isMismatch : Difference.Entry → Bool
  | .mismatch _ _ => true
  | _ => false

/-- A conflict as the entry of a difference. -/
def Conflict.entry (c : Conflict) : Location × Difference.Entry :=
  (c.location, .mismatch c.destination c.source)

/-- Without sets, the conflicts of a merge are the mismatches of its sides. -/
theorem mem_conflicts_iff (hg : g.SetFree) (hsrc : src.Distinct) {c : Conflict} :
    c ∈ (merge g dst src).conflicts ↔ Difference.entryAt? c.location.segments dst src =
      some (.mismatch c.destination c.source) := by
  rw [entryAt?_eq_mismatch_iff (t := g.entry) hg rfl]
  constructor
  · intro hc
    obtain ⟨path, t, d, s, hmeet, hloc, hne, hclash⟩ := exists_clash_of_mem_conflicts hsrc hc
    have hpath : c.location.segments = path := by
      rw [hloc]
      rfl
    rw [hpath]
    cases hclash with
    | leaf hap => exact ⟨t, hmeet, hap, hne⟩
    | item hkey =>
      -- items clash in sets only, and there are none
      rw [hmeet.sortKey_eq_none hg rfl] at hkey
      cases hkey
  · rintro ⟨t, hmeet, hap, hne⟩
    have hfilter := filter_conflicts_mergeAt hmeet hsrc hap hne .root
    have hmem : c ∈ (merge g dst src).conflicts.filter (Conflict.isAt c.location) :=
      List.mem_of_mem_head? (congrArg List.head? hfilter)
    exact (List.mem_filter.1 hmem).1

/-- Without sets, no two conflicts of a merge are at one location. -/
theorem nodup_locations_conflicts (hg : g.SetFree) (hsrc : src.Distinct) :
    ((merge g dst src).conflicts.map Conflict.location).Nodup := by
  refine List.nodup_iff_count_le_one.2 fun loc => ?_
  have hcount : ((merge g dst src).conflicts.map Conflict.location).count loc =
      ((merge g dst src).conflicts.filter (Conflict.isAt loc)).length := by
    rw [List.count, List.countP_map, List.countP_eq_length_filter]
    rfl
  rw [hcount]
  cases hcs : (merge g dst src).conflicts.filter (Conflict.isAt loc) with
  | nil => exact Nat.zero_le 1
  | cons c rest =>
    -- one conflict at the location is all that is there
    have hc : c ∈ (merge g dst src).conflicts.filter (Conflict.isAt loc) :=
      hcs ▸ List.mem_cons_self
    obtain ⟨hc, hat⟩ := List.mem_filter.1 hc
    obtain ⟨t, hmeet, hap, hne⟩ :=
      (entryAt?_eq_mismatch_iff (t := g.entry) hg rfl).1 ((mem_conflicts_iff hg hsrc).1 hc)
    have hfilter := filter_conflicts_mergeAt hmeet hsrc hap hne .root
    have hloc : c.location = loc := beq_iff_eq.1 hat
    have hall : (merge g dst src).conflicts.filter (Conflict.isAt loc) = [c] := hloc ▸ hfilter
    rw [← hcs, hall]
    rfl

/-! ## What a merge adds -/

namespace Difference

/-- Whether an entry is of a value that only the right document has. -/
def Entry.isExtra : Entry → Bool
  | .extra _ => true
  | _ => false

/-- Documents that are equal do not differ. -/
theorem entryAt?_of_equal (hdst : dst.Distinct) (hsrc : src.Distinct)
    (h : dst.equal src = true) (path : List String) : entryAt? path dst src = none := by
  have hsame := sameAnswer_of_equal hdst hdst hsrc h path
  rw [entryAt?_self hdst] at hsame
  exact hsame.eq_none_iff.1 rfl

/-- Of two values that are not alike the first one is kept. -/
theorem value_mergeAt_of_not_alike (hk : t.behavior.policy = .keep)
    (h : ¬ dst.isAlike src = true) : (mergeAt g t loc dst src).value = dst := by
  rw [mergeAt_leaf (apart_iff_not_isAlike.2 h)]
  exact value_mergeLeaf (.inr hk)

/-- What a destination lacks of a merge is what it lacks of the source, if there are no sets and the
first value is kept. -/
theorem entryAt?_mergeAt (hg : g.SetFree) (hk : KeepsAt g t) (ht : t.behavior.sortKey = none)
    (hdst : dst.Distinct) (hsrc : src.Distinct) (path : List String) :
    entryAt? path dst (mergeAt g t loc dst src).value =
      (entryAt? path dst src).filter Entry.isExtra := by
  induction path generalizing t loc dst src with
  | nil =>
    by_cases halike : dst.isAlike src = true
    · rw [entryAt?_nil_of_alike (isAlike_mergeAt ht halike), entryAt?_nil_of_alike halike]
      rfl
    · rw [value_mergeAt_of_not_alike hk.2 halike, entryAt?_self hdst,
        entryAt?_nil_of_not_alike halike]
      split <;> rfl
  | cons segment path ih =>
    by_cases halike : dst.isAlike src = true
    · rw [entryAt?_cons_of_alike (isAlike_mergeAt ht halike), entryAt?_cons_of_alike halike]
      rcases part?_mergeAt_cases ht halike hsrc segment with
        ⟨hy, hz⟩ | ⟨hx, hz⟩ | ⟨x, y, z, hx, hy, hz, hfrom⟩
      · -- a part that only the destination has is missing in the source, but not in the merge
        rw [hz, hy]
        cases hx : dst.part? segment with
        | none => rfl
        | some x =>
          dsimp only
          rw [entryAt?_self (hdst.part? hx)]
          split <;> rfl
      · -- a part that only the source has is extra in both
        rw [hz, hx]
        cases src.part? segment with
        | none => rfl
        | some y =>
          dsimp only
          split <;> rfl
      · have hdx := hdst.part? hx
        have hdy := hsrc.part? hy
        rw [hz, hx, hy]
        dsimp only
        rcases hfrom with ⟨he, rfl⟩ | rfl
        · rw [entryAt?_self hdx, entryAt?_of_equal hdx hdy he]
          rfl
        · exact ih ⟨hk.1, Transition.below_policy hk.1 hk.2 segment dst⟩
            (Transition.below_sortKey hg ht segment dst) hdx hdy
    · rw [value_mergeAt_of_not_alike hk.2 halike, entryAt?_self hdst,
        entryAt?_cons_of_not_alike halike]
      rfl

end Difference

/-! ## Whole documents -/

/-- Without sets, the conflicts of a merge are the mismatches of its sides, each once; and if the
first value is always kept, the merge differs from its destination by what is extra in its source,
and by nothing else. -/
theorem merge_diff (hg : g.SetFree) (hdst : dst.Distinct) (hsrc : src.Distinct) :
    ((merge g dst src).conflicts.map Conflict.entry).Perm
        ((diff dst src).entries.filter fun e => e.2.isMismatch) ∧
      (g.KeepsFirst → (diff dst (merge g dst src).value).entries =
        (diff dst src).entries.filter fun e => e.2.isExtra) := by
  constructor
  · have hnodup : ((merge g dst src).conflicts.map Conflict.entry).Nodup := by
      refine List.Nodup.of_map Prod.fst ?_
      rw [List.map_map]
      exact nodup_locations_conflicts hg hsrc
    have hentries : ((diff dst src).entries.filter fun e => e.2.isMismatch).Nodup :=
      (List.Nodup.of_map Prod.fst (diff dst src).nodup_keys).filter _
    refine (List.perm_ext_iff_of_nodup hnodup hentries).2 ?_
    rintro ⟨loc, e⟩
    rw [List.mem_map, List.mem_filter, mem_entries_diff_iff hdst hsrc]
    constructor
    · rintro ⟨c, hc, ⟨⟩⟩
      exact ⟨(mem_conflicts_iff hg hsrc).1 hc, rfl⟩
    · rintro ⟨he, hkind⟩
      cases e with
      | missing | extra => cases hkind
      | mismatch d s => exact ⟨⟨loc, d, s⟩, (mem_conflicts_iff hg hsrc).2 he, rfl⟩
  · intro hk
    have hmerged : (merge g dst src).value.Distinct := distinct_mergeAt hdst hsrc
    refine SortedMap.entries_eq_of_mem_iff (SortedMap.sorted _)
      ((SortedMap.sorted _).filter _) fun p => ?_
    obtain ⟨loc, e⟩ := p
    rw [List.mem_filter, mem_entries_diff_iff hdst hmerged, mem_entries_diff_iff hdst hsrc, merge,
      Difference.entryAt?_mergeAt hg ⟨hk, rfl⟩ rfl hdst hsrc, Option.filter_eq_some_iff]

/-- A grammar in which every key leads back to the one place there is. -/
def Grammar.nested : Grammar :=
  ⟨[.data, .map .schema ⟨⟨1⟩, .default⟩], ⟨1⟩⟩

/-- Two documents with arrays of different lengths, values of different kinds, and members that only
one of them has. -/
theorem merge_diff_nested :
    let dst : Document := .obj [("sizes", .arr [.str "s", .str "m"]), ("color", .str "red"),
      ("shape", .obj [("round", .null)])]
    let src : Document := .obj [("shape", .obj [("flat", .null)]), ("color", .arr [.str "blue"]),
      ("sizes", .arr [.str "s", .str "l", .str "xl"])]
    (Grammar.nested.SetFree ∧ Grammar.nested.KeepsFirst ∧ dst.Distinct ∧ src.Distinct) ∧
      ((merge .nested dst src).conflicts.map Conflict.entry).Perm
        ((diff dst src).entries.filter fun e => e.2.isMismatch) ∧
      (diff dst (merge .nested dst src).value).entries =
        (diff dst src).entries.filter (fun e => e.2.isExtra) ∧
      (merge .nested dst src).conflicts.map Conflict.location = [⟨["color"]⟩, ⟨["sizes", "1"]⟩] ∧
      (diff dst src).extra = [⟨["shape", "flat"]⟩, ⟨["sizes", "2"]⟩] := by
  intro dst src
  have hsets : Grammar.nested.SetFree := Grammar.setFree_of_transitions (by decide)
  have hkeeps : Grammar.nested.KeepsFirst := Grammar.keepsFirst_of_transitions (by decide)
  have hdst : dst.Distinct := by decide
  have hsrc : src.Distinct := by decide
  have h := merge_diff hsets hdst hsrc
  refine ⟨⟨hsets, hkeeps, hdst, hsrc⟩, h.1, h.2 hkeeps, ?_, ?_⟩
  · decide +kernel
  · decide +kernel

end SchemaLoom
