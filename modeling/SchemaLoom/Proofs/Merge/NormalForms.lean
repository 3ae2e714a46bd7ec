import SchemaLoom.Proofs.Merge.UpperBound
import SchemaLoom.Proofs.Normalization.NormalForms

/-!
# Merging normal documents

A merge of normal documents is normal, whatever conflicts it has.  Normalizing and merging do not
enter the same places: a merge enters the objects under `$ref`, which a normalization copies, and
leaves the items of sets whole, which a normalization enters.  What comes out at such a place is
still normal, since it is a value of one side or nothing that a normalization looks into.

- `distinct_mergeAt`: a merge gives no object a key twice.
- `adjustReference_mergeAt`: two values of references merge to the value of a reference.
- `normal_mergeAt`: one merge.
- `normal_foldl`: a run of merges.
- `mergeAll_normal`: all documents.
-/

namespace SchemaLoom

variable {g : Grammar} {t : Transition} {scheme : Scheme} {loc : Location} {dst src : Document}

/-! ## Distinct keys -/

/-- A merge gives no object a key twice. -/
theorem distinct_mergeAt (hdst : dst.Distinct) (hsrc : src.Distinct) :
    (mergeAt g t loc dst src).value.Distinct := by
  induction t, loc, dst, src using merge_induction g with
  | leaf t loc dst src hap =>
    rw [mergeAt_leaf hap]
    exact value_mergeLeaf_of hdst hsrc
  | set t loc key dst src hk =>
    rw [Document.distinct_arr] at hdst hsrc
    rw [mergeAt_set hk, value_mergeSet, Document.distinct_arr]
    exact fun d hd => (mem_unitedItems hd).elim (hdst d) (hsrc d)
  | list t loc dst src hk ih =>
    rw [Document.distinct_arr] at hdst hsrc
    rw [mergeAt_list hk, Document.distinct_arr]
    intro z hz
    obtain ⟨i, hz⟩ := List.mem_iff_getElem?.1 hz
    rcases getElem?_mergeItems_cases hz with
      ⟨hx, -⟩ | ⟨-, hy⟩ | ⟨x, y, hx, hy, ⟨-, rfl⟩ | ⟨-, rfl⟩⟩
    · exact hdst z (List.mem_of_getElem? hx)
    · exact hsrc z (List.mem_of_getElem? hy)
    · exact hdst z (List.mem_of_getElem? hx)
    · exact ih i x y hx hy (hdst x (List.mem_of_getElem? hx)) (hsrc y (List.mem_of_getElem? hy))
  | obj t loc dst src ih =>
    have hnd := (Document.distinct_obj.1 hdst).1
    have hns := (Document.distinct_obj.1 hsrc).1
    have hn : (Members.keys (mergeMembers g t.node loc dst src).1).Nodup :=
      nodup_keys_mergeMembers hnd
    rw [mergeAt_obj, Document.distinct_obj]
    refine ⟨hn, fun m hm => ?_⟩
    obtain ⟨k, z⟩ := m
    rcases get?_mergeMembers_cases hns (Members.get?_of_mem hn hm) with
      ⟨hx, -⟩ | ⟨-, hy⟩ | ⟨x, y, hx, hy, rfl⟩
    · exact hdst.get? hx
    · exact hsrc.get? hy
    · exact ih k x y hx (Members.mem_of_get? hy) (hdst.get? hx) (hsrc.get? hy)

/-! ## Normal forms -/

/-- Two values that are adjusted references already, or none at all, merge to such a value. -/
theorem adjustReference_mergeAt (hdst : adjustReference scheme dst = dst)
    (hsrc : adjustReference scheme src = src) :
    adjustReference scheme (mergeAt g t loc dst src).value = (mergeAt g t loc dst src).value := by
  by_cases hap : Apart dst src
  · rw [mergeAt_leaf hap]
    exact value_mergeLeaf_of (p := fun d => adjustReference scheme d = d) hdst hsrc
  -- what is united from objects or from arrays is no reference
  · obtain ⟨as, bs, rfl, rfl⟩ | ⟨as, bs, rfl, rfl⟩ := of_not_apart hap
    · rfl
    · cases hk : t.behavior.sortKey with
      | some key =>
        rw [mergeAt_set hk]
        rfl
      | none =>
        rw [mergeAt_list hk]
        rfl

/-- A merge of normal documents is normal, whatever conflicts it has. -/
theorem normal_mergeAt (hdst : dst.Distinct) (hsrc : src.Distinct)
    (hdst' : Normal g scheme t dst) (hsrc' : Normal g scheme t src) :
    Normal g scheme t (mergeAt g t loc dst src).value := by
  induction t, loc, dst, src using merge_induction g with
  | leaf t loc dst src hap =>
    rw [mergeAt_leaf hap]
    exact value_mergeLeaf_of hdst' hsrc'
  | set t loc key dst src hk =>
    rw [normal_set hk] at hdst' hsrc'
    rw [mergeAt_set hk, value_mergeSet, normal_set hk]
    refine ⟨fun d hd => (mem_unitedItems hd).elim (hdst'.1 d) (hsrc'.1 d), ?_⟩
    exact (pairwise_unitedItems dst src).imp fun h => String.not_lt.1 (String.lt_asymm h)
  | list t loc dst src hk ih =>
    rw [Document.distinct_arr] at hdst hsrc
    rw [normal_list hk] at hdst' hsrc'
    rw [mergeAt_list hk, normal_list hk]
    intro z hz
    obtain ⟨i, hz⟩ := List.mem_iff_getElem?.1 hz
    rcases getElem?_mergeItems_cases hz with
      ⟨hx, -⟩ | ⟨-, hy⟩ | ⟨x, y, hx, hy, ⟨-, rfl⟩ | ⟨-, rfl⟩⟩
    · exact hdst' z (List.mem_of_getElem? hx)
    · exact hsrc' z (List.mem_of_getElem? hy)
    · exact hdst' z (List.mem_of_getElem? hx)
    · have hmx := List.mem_of_getElem? hx
      have hmy := List.mem_of_getElem? hy
      exact ih i x y hx hy (hdst x hmx) (hsrc y hmy) (hdst' x hmx) (hsrc' y hmy)
  | obj t loc dst src ih =>
    have hnd := (Document.distinct_obj.1 hdst).1
    have hns := (Document.distinct_obj.1 hsrc).1
    have hn : (Members.keys (mergeMembers g t.node loc dst src).1).Nodup :=
      nodup_keys_mergeMembers hnd
    rw [normal_obj] at hdst' hsrc'
    rw [mergeAt_obj, normal_obj]
    intro m hm
    obtain ⟨k, z⟩ := m
    rcases get?_mergeMembers_cases hns (Members.get?_of_mem hn hm) with
      ⟨hx, -⟩ | ⟨-, hy⟩ | ⟨x, y, hx, hy, rfl⟩
    · exact hdst' (k, z) (Members.mem_of_get? hx)
    · exact hsrc' (k, z) (Members.mem_of_get? hy)
    · -- a reference is merged as any other value, but its value is not entered by a normalization
      have hmx := Members.mem_of_get? hx
      have hmy := Members.mem_of_get? hy
      have hx' := hdst' (k, x) hmx
      have hy' := hsrc' (k, y) hmy
      unfold normalizeMember at hx' hy' ⊢
      by_cases hk : k = refKey ∧ g.isOpaque t.node = false
      · rw [if_pos hk] at hx' hy' ⊢
        exact adjustReference_mergeAt hx' hy'
      · rw [if_neg hk] at hx' hy' ⊢
        exact ih k x y hx hmy (hdst.get? hx) (hsrc.get? hy) hx' hy'

/-! ## Runs -/

variable {acc : Merged} {docs : List Document}

/-- A run of merges over normal documents that starts at a normal document ends at one. -/
theorem normal_foldl (hacc : acc.value.Distinct ∧ Normal g scheme g.entry acc.value)
    (hdocs : ∀ d ∈ docs, d.Distinct ∧ Normal g scheme g.entry d) :
    (docs.foldl (Merged.andThen g) acc).value.Distinct ∧
      Normal g scheme g.entry (docs.foldl (Merged.andThen g) acc).value := by
  induction docs generalizing acc with
  | nil => exact hacc
  | cons d ds ih =>
    obtain ⟨hd, hds⟩ := List.forall_mem_cons.1 hdocs
    rw [List.foldl_cons]
    refine ih ⟨?_, ?_⟩ hds
    · exact distinct_mergeAt hacc.1 hd.1
    · exact normal_mergeAt hacc.1 hd.1 hacc.2 hd.2

/-- Documents that equal their normal forms merge to a document that is its normal form, whatever
conflicts there are. -/
theorem mergeAll_normal (hne : docs ≠ []) (hkey : ∀ d ∈ docs, d.Keyable)
    (hnormal : ∀ d ∈ docs, (normalize g scheme d == d) = true) :
    ∃ m, mergeAll? g docs = some m ∧ normalize g scheme m.value = m.value ∧
      (normalize g scheme m.value == m.value) = true := by
  have hdocs : ∀ d ∈ docs, d.Distinct ∧ Normal g scheme g.entry d :=
    fun d hd => ⟨(hkey d hd).distinct, normal_of_equal (hkey d hd) (hnormal d hd)⟩
  cases docs with
  | nil => exact absurd rfl hne
  | cons d ds =>
    obtain ⟨hd, hds⟩ := List.forall_mem_cons.1 hdocs
    have hacc : (⟨d, []⟩ : Merged).value.Distinct ∧
        Normal g scheme g.entry (⟨d, []⟩ : Merged).value := hd
    obtain ⟨hdistinct, h⟩ := normal_foldl hacc hds
    refine ⟨_, rfl, h, ?_⟩
    rw [Normal] at h
    rw [normalize, h]
    exact Document.equal_refl hdistinct

/-- Two references in conflict: the first one stays, and it is as normal as it was. -/
theorem mergeAll_normal_references :
    ∃ m, mergeAll? .openApi [referringSchema "#/a", referringSchema "#/b"] = some m ∧
      m.conflicts.length = 1 ∧ normalize .openApi .default m.value = m.value := by
  have hkey : ∀ d ∈ [referringSchema "#/a", referringSchema "#/b"], d.Keyable :=
    List.forall_mem_cons.2 ⟨⟨by decide, by decide⟩,
      List.forall_mem_cons.2 ⟨⟨by decide, by decide⟩, by simp⟩⟩
  have hnormal : ∀ d ∈ [referringSchema "#/a", referringSchema "#/b"],
      (normalize .openApi .default d == d) = true := by
    decide +kernel
  obtain ⟨m, hm, h, -⟩ := mergeAll_normal (g := .openApi) (by simp) hkey hnormal
  refine ⟨m, hm, ?_, h⟩
  cases hm
  rfl

end SchemaLoom
