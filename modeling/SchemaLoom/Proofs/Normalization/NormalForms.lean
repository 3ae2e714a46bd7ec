import SchemaLoom.Proofs.Location
import SchemaLoom.Proofs.Normalization.Idempotence

/-!
# Normal forms

What a normalization leaves as it is, by the shape of the document, and how a normalization treats
documents that are equal.

- `keyable_normalizeAt`: a normalization keeps documents such that sort keys can be trusted.
- `addressable_normalizeAt`: a normalization keeps documents such that all items have indices.
- `equal_normalizeAt`: equal documents have equal normal forms.
- `Normal`: a document that a normalization leaves as it is, at a place of a grammar.
- `normal_obj`, `normal_list`, `normal_set`: an object, an ordered array or a set is normal exactly
  when what it holds is, and a set is in the order of its keys besides.
- `normal_of_equal`: a document that equals its normal form is its normal form.
-/

namespace SchemaLoom

variable {g : Grammar} {t : Transition} {scheme : Scheme} {a b d : Document}

/-! ## Members that hold no reference -/

theorem normalizeMember_of_not {node : NodeId} {m : String × Document}
    (hk : ¬ (m.1 = refKey ∧ g.isOpaque node = false)) :
    normalizeMember g scheme node m = normalizeAt g scheme (g.child node m.1) m.2 :=
  if_neg hk

theorem normalizeMember_of_ne {node : NodeId} {key : String} (hkey : key ≠ refKey) :
    normalizeMember g scheme node (key, d) = normalizeAt g scheme (g.child node key) d :=
  normalizeMember_of_not fun h => hkey h.1

/-! ## Items in order -/

theorem arrange_list {behavior : Behavior} (hk : behavior.sortKey = none)
    (items : List Document) : arrange behavior items = items := by
  rw [arrange, hk]

theorem arrange_set {behavior : Behavior} {key : SortKey} (hk : behavior.sortKey = some key)
    (items : List Document) : arrange behavior items = sortByKey key.key items := by
  rw [arrange, hk]

theorem mem_arrange_map {items : List Document} {behavior : Behavior} {z : Document} :
    z ∈ arrange behavior (items.map (normalizeAt g scheme t)) ↔
      ∃ x ∈ items, normalizeAt g scheme t x = z := by
  rw [(arrange_perm behavior _).mem_iff, List.mem_map]

/-! ## Keys of normal forms -/

theorem noNegativeZero_normalizeAt (hd : d.NoNegativeZero) :
    (normalizeAt g scheme t d).NoNegativeZero := by
  induction d using Document.induction generalizing t with
  | null | bool | num | str => exact hd
  | arr items ih =>
    rw [Document.noNegativeZero_arr] at hd
    rw [normalizeAt_arr, Document.noNegativeZero_arr]
    intro z hz
    obtain ⟨x, hx, rfl⟩ := mem_arrange_map.1 hz
    exact ih x hx (hd x hx)
  | obj members ih =>
    rw [Document.noNegativeZero_obj] at hd
    rw [normalizeAt_obj, Document.noNegativeZero_obj]
    intro z hz
    obtain ⟨m, hm, rfl⟩ := List.mem_map.1 hz
    exact normalizeMember_induction (fun _ => trivial) (hd m hm) (ih m hm (hd m hm))

/-- A normalization keeps documents such that sort keys can be trusted. -/
theorem keyable_normalizeAt (hd : d.Keyable) : (normalizeAt g scheme t d).Keyable :=
  ⟨distinct_normalizeAt hd.distinct, noNegativeZero_normalizeAt hd.noNegativeZero⟩

/-- A normalization leaves the sizes of arrays as they are, so it keeps indices in range. -/
theorem addressable_normalizeAt (hd : d.Addressable) :
    (normalizeAt g scheme t d).Addressable := by
  induction d using Document.induction generalizing t with
  | null | bool | num | str => trivial
  | arr items ih =>
    obtain ⟨hlength, hd⟩ := Document.addressable_arr.1 hd
    rw [normalizeAt_arr, Document.addressable_arr, (arrange_perm _ _).length_eq, List.length_map]
    refine ⟨hlength, fun z hz => ?_⟩
    obtain ⟨x, hx, rfl⟩ := mem_arrange_map.1 hz
    exact ih x hx (hd x hx)
  | obj members ih =>
    rw [Document.addressable_obj] at hd
    rw [normalizeAt_obj, Document.addressable_obj]
    intro z hz
    obtain ⟨m, hm, rfl⟩ := List.mem_map.1 hz
    exact normalizeMember_induction (fun _ => trivial) (hd m hm) (ih m hm (hd m hm))

/-! ## Equal documents -/

theorem equal_adjustReference (h : a.equal b = true) :
    (adjustReference scheme a).equal (adjustReference scheme b) = true := by
  cases a with
  | str s =>
    rw [Document.equal_iff] at h
    cases h
    show (adjustReference scheme (.str s)).equal (adjustReference scheme (.str s)) = true
    exact Document.equal_refl trivial
  | null | bool | num | arr | obj =>
    cases b with
    | str => cases h
    | null | bool | num | arr | obj => exact h

/-- Equal documents have equal normal forms. -/
theorem equal_normalizeAt (ha : a.Keyable) (hb : b.Keyable) (h : a.equal b = true) :
    (normalizeAt g scheme t a).equal (normalizeAt g scheme t b) = true := by
  induction a using Document.induction generalizing t b with
  | null | bool | str =>
    have h' := h
    rw [Document.equal_iff] at h'
    cases h'
    exact h
  | num n =>
    have h' := h
    rw [Document.equal_iff] at h'
    obtain ⟨m, rfl, -⟩ := h'
    exact h
  | arr as ih =>
    rw [Document.equal_iff] at h
    obtain ⟨bs, rfl, h⟩ := h
    rw [normalizeAt_arr, normalizeAt_arr, Document.equal_arr]
    have hitems : ∀ x ∈ as, ∀ y ∈ bs, x.equal y = true →
        (normalizeAt g scheme t x).equal (normalizeAt g scheme t y) = true :=
      fun x hx y hy => ih x hx (Document.keyable_arr.1 ha x hx) (Document.keyable_arr.1 hb y hy)
    cases hk : t.behavior.sortKey with
    | none =>
      rw [arrange_list hk, arrange_list hk, List.forall₂_map_left_iff, List.forall₂_map_right_iff]
      exact forall₂_imp h hitems
    | some key =>
      rw [arrange_set hk, arrange_set hk]
      refine forall₂_sortByKey ?_
      rw [List.forall₂_map_left_iff, List.forall₂_map_right_iff]
      refine forall₂_imp h fun x hx y hy hxy => ⟨hitems x hx y hy hxy, ?_⟩
      exact key.key_eq_of_equal (keyable_normalizeAt (Document.keyable_arr.1 ha x hx))
        (keyable_normalizeAt (Document.keyable_arr.1 hb y hy)) (hitems x hx y hy hxy)
  | obj as ih =>
    have h' := h
    rw [Document.equal_iff] at h'
    obtain ⟨bs, rfl, hlen, hmembers⟩ := h'
    rw [normalizeAt_obj, normalizeAt_obj, Document.equal_obj]
    refine ⟨by rw [List.length_map, List.length_map, hlen], fun z hz => ?_⟩
    obtain ⟨m, hm, rfl⟩ := List.mem_map.1 hz
    obtain ⟨y, hy, hxy⟩ := hmembers m hm
    refine ⟨normalizeMember g scheme t.node (m.1, y), ?_, ?_⟩
    · rw [Members.get?_map, hy]
      rfl
    · show (normalizeMember g scheme t.node m).equal
        (normalizeMember g scheme t.node (m.1, y)) = true
      unfold normalizeMember
      split
      · exact equal_adjustReference hxy
      · exact ih m hm ((Document.keyable_obj.1 ha).2 m hm) (hb.get? hy) hxy

/-! ## Normal documents -/

/-- A normalization leaves the document as it is, at a place of a grammar. -/
def Normal (g : Grammar) (scheme : Scheme) (t : Transition) (d : Document) : Prop :=
  normalizeAt g scheme t d = d

theorem normal_obj {members : Members} :
    Normal g scheme t (.obj members) ↔ ∀ m ∈ members, normalizeMember g scheme t.node m = m.2 := by
  rw [Normal, normalizeAt_obj, Document.obj.injEq]
  constructor
  · intro h m hm
    have hid := List.map_inj_left.1 (h.trans (List.map_id members).symm) m hm
    exact congrArg Prod.snd hid
  · intro h
    have hid : members.map (fun m => (m.1, normalizeMember g scheme t.node m)) =
        members.map id :=
      List.map_congr_left fun m hm => Prod.ext rfl (h m hm)
    rw [hid, List.map_id]

theorem normal_list (hk : t.behavior.sortKey = none) {items : List Document} :
    Normal g scheme t (.arr items) ↔ ∀ d ∈ items, Normal g scheme t d := by
  rw [Normal, normalizeAt_arr, Document.arr.injEq, arrange_list hk]
  constructor
  · intro h
    exact List.map_inj_left.1 (h.trans (List.map_id items).symm)
  · intro h
    rw [List.map_congr_left h, List.map_id']

theorem normal_set {key : SortKey} (hk : t.behavior.sortKey = some key) {items : List Document} :
    Normal g scheme t (.arr items) ↔
      (∀ d ∈ items, Normal g scheme t d) ∧ items.Pairwise fun a b => key.key a ≤ key.key b := by
  constructor
  · intro h
    rw [Normal, normalizeAt_arr, Document.arr.injEq] at h
    have hsource : ∀ x ∈ items, ∃ z ∈ items, normalizeAt g scheme t z = x := by
      intro x hx
      rw [← h] at hx
      exact mem_arrange_map.1 hx
    constructor
    · -- every item is a normal form twice over, and a third normalization changes nothing
      intro x hx
      obtain ⟨z, hz, rfl⟩ := hsource x hx
      obtain ⟨w, -, rfl⟩ := hsource z hz
      exact normalizeAt_thrice
    · rw [← h, arrange_set hk]
      exact pairwise_sortByKey
  · rintro ⟨hitems, hsorted⟩
    rw [Normal, normalizeAt_arr, arrange_set hk, List.map_congr_left hitems, List.map_id']
    exact congrArg Document.arr (sortByKey_of_pairwise hsorted)

theorem adjustReference_eq_of_equal (h : (adjustReference scheme d).equal d = true) :
    adjustReference scheme d = d := by
  cases d with
  | str s => exact Document.equal_iff.1 h
  | null | bool | num | arr | obj => rfl

/-- If every item equals the normal form of an item, then every item equals its own one. -/
theorem equal_of_sources {items : List Document} (hkey : ∀ x ∈ items, x.Keyable)
    (hsource : ∀ x ∈ items, ∃ z ∈ items, (normalizeAt g scheme t z).equal x = true) :
    ∀ x ∈ items, (normalizeAt g scheme t x).equal x = true := by
  -- every item equals a normal form twice over, and a third normalization changes nothing
  intro x hx
  obtain ⟨z, hz, hzx⟩ := hsource x hx
  obtain ⟨w, hw, hwz⟩ := hsource z hz
  have hw' : (normalizeAt g scheme t w).Keyable := keyable_normalizeAt (hkey w hw)
  have hw'' : (normalizeAt g scheme t (normalizeAt g scheme t w)).Keyable :=
    keyable_normalizeAt hw'
  have hwx : (normalizeAt g scheme t (normalizeAt g scheme t w)).equal x = true :=
    Document.equal_trans (equal_normalizeAt hw' (hkey z hz) hwz) hzx
  have hwx' : (normalizeAt g scheme t (normalizeAt g scheme t (normalizeAt g scheme t w))).equal
      (normalizeAt g scheme t x) = true := equal_normalizeAt hw'' (hkey x hx) hwx
  rw [normalizeAt_thrice] at hwx'
  have hx' := Document.equal_symm hw''.distinct (distinct_normalizeAt (hkey x hx).distinct) hwx'
  exact Document.equal_trans hx' hwx

/-- A document that equals its normal form is its normal form. -/
theorem normal_of_equal (hd : d.Keyable) (h : (normalizeAt g scheme t d).equal d = true) :
    Normal g scheme t d := by
  induction d using Document.induction generalizing t with
  | null | bool | num | str => rfl
  | arr items ih =>
    rw [normalizeAt_arr, Document.equal_arr] at h
    have hkey := Document.keyable_arr.1 hd
    cases hk : t.behavior.sortKey with
    | none =>
      rw [arrange_list hk, List.forall₂_map_left_iff, List.forall₂_same] at h
      exact (normal_list hk).2 fun x hx => ih x hx (hkey x hx) (h x hx)
    | some key =>
      have hsource : ∀ x ∈ items, ∃ z ∈ items, (normalizeAt g scheme t z).equal x = true := by
        intro x hx
        obtain ⟨z, hz, hzx⟩ := exists_mem_of_forall₂ h hx
        obtain ⟨y, hy, rfl⟩ := mem_arrange_map.1 hz
        exact ⟨y, hy, hzx⟩
      have hnormal : ∀ x ∈ items, Normal g scheme t x :=
        fun x hx => ih x hx (hkey x hx) (equal_of_sources hkey hsource x hx)
      refine (normal_set hk).2 ⟨hnormal, ?_⟩
      rw [arrange_set hk, List.map_congr_left hnormal, List.map_id'] at h
      have hkeys : (sortByKey key.key items).map key.key = items.map key.key := by
        refine map_eq_map_of_forall₂ (forall₂_imp h fun x hx y hy hxy => ?_)
        exact key.key_eq_of_equal (hkey x (sortByKey_perm.mem_iff.1 hx)) (hkey y hy) hxy
      have hsorted : (items.map key.key).Pairwise (· ≤ ·) := by
        rw [← hkeys]
        exact List.pairwise_map.2 pairwise_sortByKey
      exact List.pairwise_map.1 hsorted
  | obj members ih =>
    obtain ⟨hn, hkey⟩ := Document.keyable_obj.1 hd
    rw [normalizeAt_obj, Document.equal_obj] at h
    refine normal_obj.2 fun m hm => ?_
    obtain ⟨v, hv, hmv⟩ := h.2 (m.1, normalizeMember g scheme t.node m) (List.mem_map_of_mem hm)
    rw [Members.get?_of_mem hn hm] at hv
    cases hv
    unfold normalizeMember at hmv ⊢
    split
    next hk =>
      rw [if_pos hk] at hmv
      exact adjustReference_eq_of_equal hmv
    next hk =>
      rw [if_neg hk] at hmv
      exact ih m hm (hkey m hm) hmv

end SchemaLoom
