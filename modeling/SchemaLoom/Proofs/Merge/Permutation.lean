import SchemaLoom.Proofs.Merge.UpperBound

/-!
# Merging in any order

Documents that can be merged without a conflict can be merged in any order, and the merged values
are equal.  For the merged value of one order is above all the documents, so in another order
nothing conflicts either, and each of the two values is below the other.

- `orderly_mergeAt`: a merge keeps documents orderly.
- `below_foldl`, `foldl_below`: a conflict-free run gives an upper bound of what it merges, and a
  run below an orderly upper bound is free of conflicts and stays below.
- `mergeAll_perm`: the order of the documents does not matter.
-/

namespace SchemaLoom

variable {g : Grammar} {t : Transition} {loc : Location} {dst src : Document}

/-! ## Orderly documents stay orderly -/

theorem orderly_mergeAt (hdst : Orderly g t dst) (hsrc : Orderly g t src) :
    Orderly g t (mergeAt g t loc dst src).value := by
  induction t, loc, dst, src using merge_induction g with
  | leaf t loc dst src hap =>
    rw [mergeAt_leaf hap]
    exact value_mergeLeaf_of hdst hsrc
  | set t loc key dst src hk =>
    rw [mergeAt_set hk, value_mergeSet]
    rw [Orderly.set_iff hk] at hdst hsrc ⊢
    refine ⟨fun d hd => ?_, pairwise_unitedItems dst src⟩
    exact (mem_unitedItems hd).elim (hdst.1 d) (hsrc.1 d)
  | list t loc dst src hk ih =>
    rw [mergeAt_list hk]
    rw [Orderly.list_iff hk] at hdst hsrc ⊢
    intro z hz
    obtain ⟨i, hz⟩ := List.mem_iff_getElem?.1 hz
    rcases getElem?_mergeItems_cases hz with
      ⟨hx, -⟩ | ⟨-, hy⟩ | ⟨x, y, hx, hy, ⟨-, rfl⟩ | ⟨-, rfl⟩⟩
    · exact hdst z (List.mem_of_getElem? hx)
    · exact hsrc z (List.mem_of_getElem? hy)
    · exact hdst z (List.mem_of_getElem? hx)
    · exact ih i x y hx hy (hdst x (List.mem_of_getElem? hx)) (hsrc y (List.mem_of_getElem? hy))
  | obj t loc dst src ih =>
    rw [mergeAt_obj]
    rw [Orderly.obj_iff] at hdst hsrc ⊢
    have hn : (Members.keys (mergeMembers g t.node loc dst src).1).Nodup :=
      nodup_keys_mergeMembers hdst.1
    refine ⟨hn, fun m hm => ?_⟩
    obtain ⟨k, z⟩ := m
    have hz := Members.get?_of_mem hn hm
    rcases get?_mergeMembers_cases hsrc.1 hz with ⟨hx, -⟩ | ⟨-, hy⟩ | ⟨x, y, hx, hy, rfl⟩
    · exact hdst.2 (k, z) (Members.mem_of_get? hx)
    · exact hsrc.2 (k, z) (Members.mem_of_get? hy)
    · have hmy := Members.mem_of_get? hy
      exact ih k x y hx hmy (hdst.2 (k, x) (Members.mem_of_get? hx)) (hsrc.2 (k, y) hmy)

/-! ## Runs -/

section Runs

variable {acc : Merged} {docs : List Document} {u : Document}

theorem conflicts_andThen_eq_nil_iff :
    (acc.andThen g src).conflicts = [] ↔
      acc.conflicts = [] ∧ (merge g acc.value src).conflicts = [] :=
  List.append_eq_nil_iff

theorem orderly_andThen (hacc : Orderly g g.entry acc.value) (hsrc : Orderly g g.entry src) :
    Orderly g g.entry (acc.andThen g src).value :=
  orderly_mergeAt hacc hsrc

theorem orderly_foldl (hacc : Orderly g g.entry acc.value)
    (hdocs : ∀ d ∈ docs, Orderly g g.entry d) :
    Orderly g g.entry (docs.foldl (Merged.andThen g) acc).value := by
  induction docs generalizing acc with
  | nil => exact hacc
  | cons d ds ih =>
    obtain ⟨hd, hds⟩ := List.forall_mem_cons.1 hdocs
    exact ih (orderly_andThen hacc hd) hds

/-- A run without conflicts ends above what it starts from and above all that it merges. -/
theorem below_foldl (hacc : Orderly g g.entry acc.value)
    (hdocs : ∀ d ∈ docs, Orderly g g.entry d)
    (hc : (docs.foldl (Merged.andThen g) acc).conflicts = []) :
    acc.conflicts = [] ∧
      Below g g.entry acc.value (docs.foldl (Merged.andThen g) acc).value ∧
      ∀ d ∈ docs, Below g g.entry d (docs.foldl (Merged.andThen g) acc).value := by
  induction docs generalizing acc with
  | nil => exact ⟨hc, .refl hacc.distinct, by simp⟩
  | cons d ds ih =>
    obtain ⟨hd, hds⟩ := List.forall_mem_cons.1 hdocs
    rw [List.foldl_cons] at hc ⊢
    obtain ⟨hstep, hbelow, hall⟩ := ih (orderly_andThen hacc hd) hds hc
    obtain ⟨hnil, hmerge⟩ := conflicts_andThen_eq_nil_iff.1 hstep
    have hleft := below_mergeAt_left hacc.distinct hd.distinct hacc.consistent (.inl hmerge)
    have hright := below_mergeAt_right hacc.distinct hd.distinct hmerge
    exact ⟨hnil, hleft.trans hbelow, List.forall_mem_cons.2 ⟨hright.trans hbelow, hall⟩⟩

/-- A run below an orderly document has no conflicts and ends below it. -/
theorem foldl_below (hacc : Orderly g g.entry acc.value)
    (hdocs : ∀ d ∈ docs, Orderly g g.entry d) (hu : Orderly g g.entry u)
    (hnil : acc.conflicts = []) (haccu : Below g g.entry acc.value u)
    (hdocsu : ∀ d ∈ docs, Below g g.entry d u) :
    (docs.foldl (Merged.andThen g) acc).conflicts = [] ∧
      Below g g.entry (docs.foldl (Merged.andThen g) acc).value u := by
  induction docs generalizing acc with
  | nil => exact ⟨hnil, haccu⟩
  | cons d ds ih =>
    obtain ⟨hd, hds⟩ := List.forall_mem_cons.1 hdocs
    obtain ⟨hdu, hdsu⟩ := List.forall_mem_cons.1 hdocsu
    rw [List.foldl_cons]
    refine ih (orderly_andThen hacc hd) hds ?_ (mergeAt_below hd.distinct haccu hdu) hdsu
    exact conflicts_andThen_eq_nil_iff.2
      ⟨hnil, conflicts_eq_nil_of_below hacc.keyable hd.keyable hu haccu hdu⟩

end Runs

/-! ## All documents -/

section All

variable {docs : List Document} {m : Merged} {u : Document}

theorem orderly_mergeAll (hm : mergeAll? g docs = some m)
    (hdocs : ∀ d ∈ docs, Orderly g g.entry d) : Orderly g g.entry m.value := by
  cases docs with
  | nil => cases hm
  | cons d ds =>
    cases hm
    obtain ⟨hd, hds⟩ := List.forall_mem_cons.1 hdocs
    exact orderly_foldl hd hds

/-- Without conflicts the merged value is above every document. -/
theorem below_mergeAll (hm : mergeAll? g docs = some m) (hc : m.conflicts = [])
    (hdocs : ∀ d ∈ docs, Orderly g g.entry d) : ∀ d ∈ docs, Below g g.entry d m.value := by
  cases docs with
  | nil => cases hm
  | cons d ds =>
    cases hm
    obtain ⟨hd, hds⟩ := List.forall_mem_cons.1 hdocs
    obtain ⟨-, hfirst, hrest⟩ := below_foldl hd hds hc
    exact List.forall_mem_cons.2 ⟨hfirst, hrest⟩

/-- Documents below an orderly one have no conflict, and their merged value is below it. -/
theorem mergeAll_below (hm : mergeAll? g docs = some m) (hdocs : ∀ d ∈ docs, Orderly g g.entry d)
    (hu : Orderly g g.entry u) (hdocsu : ∀ d ∈ docs, Below g g.entry d u) :
    m.conflicts = [] ∧ Below g g.entry m.value u := by
  cases docs with
  | nil => cases hm
  | cons d ds =>
    cases hm
    obtain ⟨hd, hds⟩ := List.forall_mem_cons.1 hdocs
    obtain ⟨hdu, hdsu⟩ := List.forall_mem_cons.1 hdocsu
    exact foldl_below hd hds hu rfl hdu hdsu

/-- One more document is merged into what was merged before, or is the first one. -/
theorem mergeAll_concat (docs : List Document) (d : Document) :
    mergeAll? g (docs ++ [d]) = some ((mergeAll? g docs).elim ⟨d, []⟩ (·.andThen g d)) := by
  cases docs with
  | nil => rfl
  | cons first rest => exact congrArg some (List.foldl_concat ..)

theorem mergeAll_eq_none_iff : mergeAll? g docs = none ↔ docs = [] := by
  cases docs with
  | nil => exact iff_of_true rfl rfl
  | cons d ds => exact iff_of_false (fun h => nomatch h) (fun h => nomatch h)

theorem exists_mergeAll (h : docs ≠ []) : ∃ m, mergeAll? g docs = some m := by
  cases docs with
  | nil => exact absurd rfl h
  | cons d ds => exact ⟨_, rfl⟩

/-- Orderly documents that are merged without a conflict can be merged in any order: there is still
no conflict, and the merged values are equal. -/
theorem mergeAll_perm {docs' : List Document} (hperm : docs.Perm docs')
    (hdocs : ∀ d ∈ docs, Orderly g g.entry d) (hm : mergeAll? g docs = some m)
    (hc : m.conflicts = []) :
    ∃ m', mergeAll? g docs' = some m' ∧ m'.conflicts = [] ∧ (m'.value == m.value) = true := by
  have hne : docs' ≠ [] := by
    rintro rfl
    rw [hperm.eq_nil] at hm
    cases hm
  obtain ⟨m', hm'⟩ := exists_mergeAll (g := g) hne
  have hdocs' : ∀ d ∈ docs', Orderly g g.entry d := fun d hd => hdocs d (hperm.mem_iff.2 hd)
  have ho := orderly_mergeAll hm hdocs
  have ho' := orderly_mergeAll hm' hdocs'
  -- the value of one order is an upper bound, so the other order has no conflict and stays below
  have habove := below_mergeAll hm hc hdocs
  obtain ⟨hc', hle⟩ := mergeAll_below hm' hdocs' ho fun d hd => habove d (hperm.mem_iff.2 hd)
  have habove' := below_mergeAll hm' hc' hdocs'
  obtain ⟨-, hge⟩ := mergeAll_below hm hdocs ho' fun d hd => habove' d (hperm.mem_iff.1 hd)
  exact ⟨m', hm', hc', hle.antisymm hge ho' ho⟩

/-- Three operations whose tags overlap, merged in two orders. -/
theorem mergeAll_perm_tags :
    ∃ m', mergeAll? .openApi [taggedOperation ["c"], taggedOperation ["a", "c"],
        taggedOperation ["b"]] = some m' ∧ m'.conflicts = [] ∧
      (m'.value == taggedOperation ["a", "b", "c"]) = true := by
  have hdocs : ∀ d ∈ [taggedOperation ["a", "c"], taggedOperation ["b"], taggedOperation ["c"]],
      Orderly .openApi Grammar.openApi.entry d := by
    decide +kernel
  have hperm := List.perm_append_singleton (taggedOperation ["c"])
    [taggedOperation ["a", "c"], taggedOperation ["b"]]
  have hm : mergeAll? .openApi
      [taggedOperation ["a", "c"], taggedOperation ["b"], taggedOperation ["c"]] =
        some ⟨taggedOperation ["a", "b", "c"], []⟩ := by
    rfl
  exact mergeAll_perm hperm hdocs hm rfl

end All

end SchemaLoom
