import SchemaLoom.Grammar.OpenApi
import SchemaLoom.Proofs.Normalization.LiveReferences

/-!
# Normalizing again

Where a second normalization changes none of the references, it changes nothing: every set is
sorted already.  And where it does change a reference, the references of the document are no longer
the same ones, so sorting cannot hide it.

- `normalizeAt_twice`: where no reference is unstable, a second normalization changes nothing.
- `forall_stable_of_perm`: if a second normalization leaves the references the same, in any order,
  then each of them was stable.
- `normalize_idempotent_iff`: a second normalization changes nothing exactly when no reference is
  unstable.
- `normalize_settles`: a third normalization never changes anything, and which documents need two.
-/

namespace SchemaLoom

variable {g : Grammar} {t : Transition} {scheme : Scheme} {d : Document}

/-! ## Fixed points -/

theorem arrange_arrange (behavior : Behavior) (items : List Document) :
    arrange behavior (arrange behavior items) = arrange behavior items := by
  unfold arrange
  cases behavior.sortKey with
  | none => rfl
  | some key => exact sortByKey_of_pairwise pairwise_sortByKey

theorem adjustReference_twice (h : ∀ r ∈ referenceOf d, r.isUnstable scheme = false) :
    adjustReference scheme (adjustReference scheme d) = adjustReference scheme d := by
  cases d with
  | str raw =>
    have hr := Reference.adjusted_twice_eq_iff.2 (h ⟨raw⟩ List.mem_cons_self)
    exact congrArg (fun r => Document.str r.raw) hr
  | null | bool | num | arr | obj => rfl

/-- Where no reference is unstable, a second normalization changes nothing. -/
theorem normalizeAt_twice (h : ∀ r ∈ liveReferencesAt g t d, r.isUnstable scheme = false) :
    normalizeAt g scheme t (normalizeAt g scheme t d) = normalizeAt g scheme t d := by
  induction d using Document.induction generalizing t with
  | null | bool | num | str => rfl
  | arr items ih =>
    rw [liveReferencesAt_arr] at h
    -- the items of the sorted array are fixed, so the second sort sees the same array
    have hfixed : ∀ z ∈ arrange t.behavior (items.map (normalizeAt g scheme t)),
        normalizeAt g scheme t z = z := by
      intro z hz
      obtain ⟨x, hx, rfl⟩ := List.mem_map.1 ((arrange_perm _ _).mem_iff.1 hz)
      exact ih x hx fun r hr => h r (List.mem_flatMap.2 ⟨x, hx, hr⟩)
    rw [normalizeAt_arr, normalizeAt_arr, List.map_congr_left hfixed, List.map_id', arrange_arrange]
  | obj members ih =>
    rw [liveReferencesAt_obj] at h
    rw [normalizeAt_obj, normalizeAt_obj, List.map_map]
    refine congrArg Document.obj (List.map_congr_left fun m hm => ?_)
    refine Prod.ext rfl ?_
    have hm' : ∀ r ∈ memberReferences g t.node m, r.isUnstable scheme = false :=
      fun r hr => h r (List.mem_flatMap.2 ⟨m, hm, hr⟩)
    unfold memberReferences at hm'
    unfold normalizeMember
    dsimp only [Function.comp]
    split
    next hk =>
      rw [if_pos hk] at hm'
      exact adjustReference_twice hm'
    next hk =>
      rw [if_neg hk] at hm'
      exact ih m hm hm'

/-! ## References that change -/

/-- If a second normalization leaves the references the same, in any order, then each of them was
stable. -/
theorem forall_stable_of_perm
    (h : (liveReferencesAt g t (normalizeAt g scheme t (normalizeAt g scheme t d))).Perm
      (liveReferencesAt g t (normalizeAt g scheme t d))) :
    ∀ r ∈ liveReferencesAt g t d, r.isUnstable scheme = false := by
  have hone : (liveReferencesAt g t (normalizeAt g scheme t d)).Perm
      ((liveReferencesAt g t d).map (Reference.adjusted scheme)) := liveReferencesAt_normalizeAt
  have htwo := h.symm.trans liveReferencesAt_normalizeAt
  intro r hr
  -- the adjusted reference is there after the second pass, so it is one that was adjusted twice
  have hmem := hone.mem_iff.2 (List.mem_map_of_mem hr)
  obtain ⟨y, hy, hyr⟩ := List.mem_map.1 (htwo.mem_iff.1 hmem)
  obtain ⟨x, -, rfl⟩ := List.mem_map.1 (hone.mem_iff.1 hy)
  rw [← Reference.adjusted_twice_eq_iff, ← hyr]
  exact Reference.adjusted_thrice

/-! ## Normalizing twice and three times -/

theorem distinct_normalizeAt (hd : d.Distinct) : (normalizeAt g scheme t d).Distinct := by
  induction d using Document.induction generalizing t with
  | null | bool | num | str => trivial
  | arr items ih =>
    rw [Document.distinct_arr] at hd
    rw [normalizeAt_arr, Document.distinct_arr]
    intro z hz
    obtain ⟨x, hx, rfl⟩ := List.mem_map.1 ((arrange_perm _ _).mem_iff.1 hz)
    exact ih x hx (hd x hx)
  | obj members ih =>
    obtain ⟨hn, hd⟩ := Document.distinct_obj.1 hd
    rw [normalizeAt_obj, Document.distinct_obj]
    constructor
    · rw [Members.keys, List.map_map]
      exact hn
    · intro z hz
      obtain ⟨m, hm, rfl⟩ := List.mem_map.1 hz
      exact normalizeMember_induction (fun _ => trivial) (hd m hm) (ih m hm (hd m hm))

/-- A third normalization changes nothing. -/
theorem normalizeAt_thrice :
    normalizeAt g scheme t (normalizeAt g scheme t (normalizeAt g scheme t d)) =
      normalizeAt g scheme t (normalizeAt g scheme t d) := by
  refine normalizeAt_twice fun r hr => ?_
  obtain ⟨x, -, rfl⟩ := List.mem_map.1 (liveReferencesAt_normalizeAt.mem_iff.1 hr)
  exact Reference.isUnstable_adjusted x

theorem equal_normalizeAt_twice_iff (hd : d.Distinct) :
    (normalizeAt g scheme t (normalizeAt g scheme t d)).equal (normalizeAt g scheme t d) = true ↔
      ∀ r ∈ liveReferencesAt g t d, r.isUnstable scheme = false := by
  have hone : (normalizeAt g scheme t d).Distinct := distinct_normalizeAt hd
  have htwo : (normalizeAt g scheme t (normalizeAt g scheme t d)).Distinct :=
    distinct_normalizeAt hone
  constructor
  · intro h
    exact forall_stable_of_perm (liveReferencesAt_perm_of_equal htwo hone h)
  · intro h
    rw [normalizeAt_twice h]
    exact Document.equal_refl hone

/-! ## Whole documents -/

/-- A schema that is nothing but a reference. -/
def referringSchema (raw : String) : Document :=
  .obj [("components", .obj [("schemas", .obj [("S", .obj [(refKey, .str raw)])])])]

/-- A normalization is idempotent on a document exactly when none of its references is unstable. -/
theorem normalize_idempotent_iff (hd : d.Distinct) :
    (normalize g scheme (normalize g scheme d) == normalize g scheme d) = true ↔
      ∀ r ∈ liveReferences g d, r.isUnstable scheme = false :=
  equal_normalizeAt_twice_iff hd

/-- References that are relative, local or under another scheme are stable. -/
theorem normalize_idempotent_relative :
    (normalize .openApi .default (normalize .openApi .default (referringSchema "./m.yaml#/x")) ==
      normalize .openApi .default (referringSchema "./m.yaml#/x")) = true := by
  have hd : (referringSchema "./m.yaml#/x").Distinct := by decide
  exact (normalize_idempotent_iff hd).2 (by decide +kernel)

/-- A reference under the scheme that points into a document becomes relative first and local
then. -/
theorem normalize_not_idempotent :
    normalize .openApi .default (.obj [(refKey, .str "forge://m/r/v1#/x")]) =
        .obj [(refKey, .str "./m.openapi.yaml#/x")] ∧
      normalize .openApi .default (.obj [(refKey, .str "./m.openapi.yaml#/x")]) =
        .obj [(refKey, .str "#/x")] ∧
      (normalize .openApi .default
          (normalize .openApi .default (.obj [(refKey, .str "forge://m/r/v1#/x")])) ==
        normalize .openApi .default (.obj [(refKey, .str "forge://m/r/v1#/x")])) = false := by
  refine ⟨?_, ?_, ?_⟩
  all_goals rfl

/-- Two normalizations are enough for every document.  One is enough exactly when no reference is
under the scheme and has a fragment, provided that the extension of the scheme's files holds no
number sign. -/
theorem normalize_settles (hext : '#' ∉ scheme.extension.toList) (hd : d.Distinct) :
    normalize g scheme (normalize g scheme (normalize g scheme d)) =
        normalize g scheme (normalize g scheme d) ∧
      (normalize g scheme (normalize g scheme d) = normalize g scheme d ↔
        ∀ r ∈ liveReferences g d, r.pointsInto scheme = false) ∧
      ((normalize g scheme (normalize g scheme d) == normalize g scheme d) = true ↔
        ∀ r ∈ liveReferences g d, r.pointsInto scheme = false) := by
  have hiff : (∀ r ∈ liveReferences g d, r.isUnstable scheme = false) ↔
      ∀ r ∈ liveReferences g d, r.pointsInto scheme = false := by
    simp only [Reference.isUnstable_eq_pointsInto hext]
  have hequal := (equal_normalizeAt_twice_iff hd).trans hiff
  refine ⟨normalizeAt_thrice, ⟨fun h => ?_, fun h => ?_⟩, hequal⟩
  · refine hequal.1 ?_
    have hone : (normalize g scheme d).Distinct := distinct_normalizeAt hd
    exact (congrArg (fun e => Document.equal e (normalize g scheme d)) h).trans
      (Document.equal_refl hone)
  · exact normalizeAt_twice (hiff.2 h)

/-- Two passes over a reference under the scheme, and no third one. -/
theorem normalize_settles_fragment :
    normalize .openApi .default (normalize .openApi .default
        (normalize .openApi .default (referringSchema "forge://m/r/v1#/x"))) =
      normalize .openApi .default
        (normalize .openApi .default (referringSchema "forge://m/r/v1#/x")) ∧
    normalize .openApi .default
        (normalize .openApi .default (referringSchema "forge://m/r/v1#/x")) ≠
      normalize .openApi .default (referringSchema "forge://m/r/v1#/x") := by
  have hext : '#' ∉ Scheme.default.extension.toList := by decide
  have hd : (referringSchema "forge://m/r/v1#/x").Distinct := by decide
  have h := normalize_settles (g := .openApi) hext hd
  exact ⟨h.1, fun e => absurd (h.2.1.1 e) (by decide +kernel)⟩

end SchemaLoom
