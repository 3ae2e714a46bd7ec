import SchemaLoom.Normalization
import SchemaLoom.Proofs.Document.Canonical
import SchemaLoom.Proofs.Reference

/-!
# The references of a document

A normalization sees some of the strings of a document as references.  It moves them about, since
it sorts sets, but it makes none and loses none.

- `liveReferences`: the references that a normalization sees, in the document's order.
- `liveReferencesAt_normalizeAt`: those of a normalized document are those of the document, each of
  them adjusted, in some order.
- `liveReferencesAt_perm_of_equal`: equal documents have the same ones.
- `bareReferencesAt_eq_filter`: the references that name a file alone are among them.
-/

namespace SchemaLoom

/-! ## Definition -/

/-- The value under `$ref` as a reference, if it is a string. -/
def referenceOf : Document → List Reference
  | .str raw => [⟨raw⟩]
  | _ => []

mutual

/-- The references of a document at a place of a grammar. -/
def liveReferencesAt (g : Grammar) (t : Transition) : Document → List Reference
  | .obj members => liveReferencesIn g t.node members
  | .arr items => liveReferencesAmong g t items
  | _ => []

def liveReferencesAmong (g : Grammar) (t : Transition) : List Document → List Reference
  | [] => []
  | d :: ds => liveReferencesAt g t d ++ liveReferencesAmong g t ds

def liveReferencesIn (g : Grammar) (node : NodeId) : List (String × Document) → List Reference
  | [] => []
  | (k, v) :: ms =>
    (if k = refKey ∧ g.isOpaque node = false then referenceOf v
      else liveReferencesAt g (g.child node k) v) ++ liveReferencesIn g node ms

end

/-- The references that a normalization sees: the strings under `$ref`, except in data and except
inside of a value under `$ref` that is not a string. -/
def liveReferences (g : Grammar) (d : Document) : List Reference :=
  liveReferencesAt g g.entry d

variable {g : Grammar} {t : Transition} {scheme : Scheme}

/-! ## Arrays and objects -/

/-- The references of one member of an object. -/
def memberReferences (g : Grammar) (node : NodeId) (m : String × Document) : List Reference :=
  if m.1 = refKey ∧ g.isOpaque node = false then referenceOf m.2
  else liveReferencesAt g (g.child node m.1) m.2

theorem liveReferencesAt_arr (items : List Document) :
    liveReferencesAt g t (.arr items) = items.flatMap (liveReferencesAt g t) := by
  rw [liveReferencesAt]
  induction items with
  | nil => rfl
  | cons d ds ih => rw [liveReferencesAmong, ih, List.flatMap_cons]

theorem liveReferencesAt_obj (members : Members) :
    liveReferencesAt g t (.obj members) = members.flatMap (memberReferences g t.node) := by
  rw [liveReferencesAt]
  induction members with
  | nil => rfl
  | cons m ms ih =>
    obtain ⟨k, v⟩ := m
    rw [liveReferencesIn, ih, List.flatMap_cons]
    rfl

/-- The normal form of the value of one member of an object. -/
def normalizeMember (g : Grammar) (scheme : Scheme) (node : NodeId) (m : String × Document) :
    Document :=
  if m.1 = refKey ∧ g.isOpaque node = false then adjustReference scheme m.2
  else normalizeAt g scheme (g.child node m.1) m.2

/-- The normal form of a member's value is a string, if it is a reference, or the value itself, or
its normal form at its place; what holds of all of these holds of it. -/
theorem normalizeMember_induction {motive : Document → Prop} {node : NodeId}
    {m : String × Document} (string : ∀ raw, motive (.str raw)) (value : motive m.2)
    (normal : motive (normalizeAt g scheme (g.child node m.1) m.2)) :
    motive (normalizeMember g scheme node m) := by
  unfold normalizeMember
  split
  · cases hv : m.2 with
    | str => exact string _
    | null | bool | num | arr | obj =>
      rw [hv] at value
      exact value
  · exact normal

theorem normalizeAt_arr (items : List Document) :
    normalizeAt g scheme t (.arr items) =
      .arr (arrange t.behavior (items.map (normalizeAt g scheme t))) := by
  have hitems : normalizeItems g scheme t items = items.map (normalizeAt g scheme t) := by
    induction items with
    | nil => rfl
    | cons d ds ih => rw [normalizeItems, ih, List.map_cons]
  rw [normalizeAt, hitems]

theorem normalizeAt_obj (members : Members) :
    normalizeAt g scheme t (.obj members) =
      .obj (members.map fun m => (m.1, normalizeMember g scheme t.node m)) := by
  rw [normalizeAt]
  congr 1
  induction members with
  | nil => rfl
  | cons m ms ih =>
    obtain ⟨k, v⟩ := m
    rw [normalizeMembers, ih, List.map_cons]
    rfl

theorem arrange_perm (behavior : Behavior) (items : List Document) :
    (arrange behavior items).Perm items := by
  unfold arrange
  cases behavior.sortKey with
  | none => exact .refl items
  | some key => exact sortByKey_perm

/-- Lists in step, of which each pair gives the same items in some order. -/
theorem perm_flatMap_of_forall₂ {α β γ : Type} {f : α → List γ} {f' : β → List γ} {as : List α}
    {bs : List β} (h : List.Forall₂ (fun a b => (f a).Perm (f' b)) as bs) :
    (as.flatMap f).Perm (bs.flatMap f') := by
  induction h with
  | nil => exact .nil
  | cons hab _ ih =>
    rw [List.flatMap_cons, List.flatMap_cons]
    exact hab.append ih

/-! ## What a normalization does to references -/

theorem referenceOf_adjustReference (d : Document) :
    referenceOf (adjustReference scheme d) = (referenceOf d).map (Reference.adjusted scheme) := by
  cases d with
  | str => rfl
  | null | bool | num | arr | obj => rfl

/-- The references of a normalized document are those of the document, each of them adjusted, in
some order. -/
theorem liveReferencesAt_normalizeAt {d : Document} :
    (liveReferencesAt g t (normalizeAt g scheme t d)).Perm
      ((liveReferencesAt g t d).map (Reference.adjusted scheme)) := by
  induction d using Document.induction generalizing t with
  | null | bool | num | str => exact .nil
  | arr items ih =>
    rw [normalizeAt_arr, liveReferencesAt_arr, liveReferencesAt_arr, List.map_flatMap]
    refine ((arrange_perm t.behavior _).flatMap_right _).trans ?_
    rw [List.flatMap_map]
    exact perm_flatMap_of_forall₂ (List.forall₂_same.2 fun d hd => ih d hd)
  | obj members ih =>
    rw [normalizeAt_obj, liveReferencesAt_obj, liveReferencesAt_obj, List.map_flatMap,
      List.flatMap_map]
    refine perm_flatMap_of_forall₂ (List.forall₂_same.2 fun m hm => ?_)
    unfold memberReferences normalizeMember
    dsimp only
    split
    · rw [referenceOf_adjustReference]
    · exact ih m hm

/-! ## Equal documents -/

/-- Equal documents have the same references, in some order. -/
theorem liveReferencesAt_perm_of_equal {a b : Document} : a.Distinct → b.Distinct →
    a.equal b = true → (liveReferencesAt g t a).Perm (liveReferencesAt g t b) := by
  induction a using Document.induction generalizing t b with
  | null | bool | str =>
    intro _ _ h
    rw [Document.equal_iff] at h
    cases h
    exact .refl _
  | num n =>
    intro _ _ h
    rw [Document.equal_iff] at h
    obtain ⟨m, rfl, -⟩ := h
    exact .nil
  | arr as ih =>
    intro ha hb h
    rw [Document.equal_iff] at h
    obtain ⟨bs, rfl, h⟩ := h
    rw [Document.distinct_arr] at ha hb
    rw [liveReferencesAt_arr, liveReferencesAt_arr]
    refine perm_flatMap_of_forall₂ (forall₂_imp h fun a hma b hmb hab => ?_)
    exact ih a hma (ha a hma) (hb b hmb) hab
  | obj as ih =>
    intro ha hb h
    have h' := h
    rw [Document.equal_iff] at h'
    obtain ⟨bs, rfl, -, -⟩ := h'
    obtain ⟨hna, ha⟩ := Document.distinct_obj.1 ha
    obtain ⟨hnb, hb⟩ := Document.distinct_obj.1 hb
    obtain ⟨cs, hperm, hall⟩ := Document.exists_perm_of_equal_obj hna hnb h
    rw [liveReferencesAt_obj, liveReferencesAt_obj]
    refine .trans (perm_flatMap_of_forall₂ (forall₂_imp hall fun m hm n hn hmn => ?_))
      (hperm.flatMap_right _)
    obtain ⟨hkey, hmn⟩ := hmn
    have hdn := hb n (hperm.mem_iff.1 hn)
    unfold memberReferences
    rw [hkey]
    split
    · -- equal values under the key of references are one string, or hold no reference
      cases hv : m.2 with
      | str s =>
        rw [hv, Document.equal_iff] at hmn
        rw [← hmn]
      | null | bool | num | arr | obj =>
        rw [hv] at hmn
        cases hw : n.2 with
        | str =>
          rw [hw] at hmn
          cases hmn
        | null | bool | num | arr | obj => exact .nil
    · exact ih m hm (ha m hm) hdn hmn

/-! ## References that name a file alone -/

/-- The references that name a file alone are those of all references that do. -/
theorem bareReferencesAt_eq_filter {d : Document} :
    bareReferencesAt g t d = (liveReferencesAt g t d).filter Reference.isBare := by
  induction d using Document.induction generalizing t with
  | null | bool | num | str => rfl
  | arr items ih =>
    rw [bareReferencesAt, liveReferencesAt]
    induction items with
    | nil => rfl
    | cons d ds ihds =>
      obtain ⟨hd, hds⟩ := List.forall_mem_cons.1 ih
      rw [bareReferencesAmong, liveReferencesAmong, List.filter_append, hd, ihds hds]
  | obj members ih =>
    rw [bareReferencesAt, liveReferencesAt]
    induction members with
    | nil => rfl
    | cons m ms ihms =>
      obtain ⟨k, v⟩ := m
      obtain ⟨hm, hms⟩ := List.forall_mem_cons.1 ih
      rw [bareReferencesIn, liveReferencesIn, List.filter_append, ihms hms]
      congr 1
      split
      · cases v with
        | str => simp [bareReference, referenceOf, List.filter_cons]
        | null | bool | num | arr | obj => rfl
      · exact hm

end SchemaLoom
