import SchemaLoom.Proofs.Document.Canonical
import SchemaLoom.Grammar.Basic

/-!
# Documents ordered by what they hold

One document is below another when everything it says, the other one says too.  At an ordered array
that means index by index, and at a set it means item by item, wherever the items stand.

- `Below`: the order, at a place of a grammar.
- `Below.of_equal`, `Below.refl`, `Below.trans`: a preorder that contains equality.
- `EverySet`: every array that is a set at its place has a property.
- `Orderly`: documents on which the order is antisymmetric up to equality (`Below.antisymm`).
  Their sets stand in strictly increasing order of their keys.
-/

namespace SchemaLoom

/-- Neither an object nor an array. -/
def Document.isScalar (d : Document) : Bool :=
  !d.isObject && !d.isArray

theorem Document.isScalar_of_equal {a b : Document} (ha : a.isScalar = true)
    (h : equal a b = true) : b.isScalar = true := by
  rw [equal_iff] at h
  cases a with
  | null | bool | str =>
    cases h
    rfl
  | num =>
    obtain ⟨n, rfl, -⟩ := h
    rfl
  | arr | obj => cases ha

variable {g : Grammar} {t : Transition} {a b c : Document}

/-! ## The order -/

/-- Everything that one document says at a place, another one says there too. -/
inductive Below (g : Grammar) : Transition → Document → Document → Prop where
  /-- Scalars are below their equals. -/
  | scalar {t : Transition} {a b : Document} (ha : a.isScalar = true) (h : a.equal b = true) :
      Below g t a b
  /-- Every key is there on the right, and leads to a value above. -/
  | obj {t : Transition} {xs ys : Members} (keys : ∀ k ∈ Members.keys xs, k ∈ Members.keys ys)
      (values : ∀ k x y, Members.get? k xs = some x → Members.get? k ys = some y →
        Below g (g.child t.node k) x y) :
      Below g t (.obj xs) (.obj ys)
  /-- An ordered array is no longer than the right one, and below it index by index. -/
  | list {t : Transition} {xs ys : List Document} (hk : t.behavior.sortKey = none)
      (length : xs.length ≤ ys.length)
      (items : ∀ (i : Nat) x y, xs[i]? = some x → ys[i]? = some y → Below g t x y) :
      Below g t (.arr xs) (.arr ys)
  /-- Every item of a set equals an item on the right. -/
  | set {t : Transition} {key : SortKey} {xs ys : List Document}
      (hk : t.behavior.sortKey = some key)
      (items : ∀ x ∈ xs, ∃ y ∈ ys, x.equal y = true) :
      Below g t (.arr xs) (.arr ys)

namespace Below

variable {xs ys : List Document}

/-- Above an array there are only arrays. -/
theorem arr_right (h : Below g t (.arr xs) b) : ∃ ys, b = .arr ys := by
  cases h with
  | scalar ha => cases ha
  | list | set => exact ⟨_, rfl⟩

/-- Above an object there are only objects. -/
theorem obj_right {xs : Members} (h : Below g t (.obj xs) b) : ∃ ys, b = .obj ys := by
  cases h with
  | scalar ha => cases ha
  | obj => exact ⟨_, rfl⟩

theorem obj_iff {xs ys : Members} :
    Below g t (.obj xs) (.obj ys) ↔ (∀ k ∈ Members.keys xs, k ∈ Members.keys ys) ∧
      ∀ k x y, Members.get? k xs = some x → Members.get? k ys = some y →
        Below g (g.child t.node k) x y := by
  constructor
  · intro h
    cases h with
    | scalar ha => cases ha
    | obj keys values => exact ⟨keys, values⟩
  · rintro ⟨keys, values⟩
    exact .obj keys values

theorem list_iff (hk : t.behavior.sortKey = none) :
    Below g t (.arr xs) (.arr ys) ↔ xs.length ≤ ys.length ∧
      ∀ (i : Nat) x y, xs[i]? = some x → ys[i]? = some y → Below g t x y := by
  constructor
  · intro h
    cases h with
    | scalar ha => cases ha
    | list _ length items => exact ⟨length, items⟩
    | set hk' =>
      rw [hk] at hk'
      cases hk'
  · rintro ⟨length, items⟩
    exact .list hk length items

theorem set_iff {key : SortKey} (hk : t.behavior.sortKey = some key) :
    Below g t (.arr xs) (.arr ys) ↔ ∀ x ∈ xs, ∃ y ∈ ys, x.equal y = true := by
  constructor
  · intro h
    cases h with
    | scalar ha => cases ha
    | list hk' =>
      rw [hk] at hk'
      cases hk'
    | set _ items => exact items
  · exact .set hk

end Below

/-- A list that is no shorter has an item wherever the other one does. -/
theorem exists_getElem?_of_length_le {xs ys : List Document} (h : xs.length ≤ ys.length) {i : Nat}
    {x : Document} (hx : xs[i]? = some x) : ∃ y, ys[i]? = some y := by
  obtain ⟨hi, -⟩ := List.getElem?_eq_some_iff.1 hx
  exact ⟨_, List.getElem?_eq_getElem (Nat.lt_of_lt_of_le hi h)⟩

theorem Below.of_equal (h : a.equal b = true) : Below g t a b := by
  induction a using Document.induction generalizing t b with
  | null | bool | num | str => exact .scalar rfl h
  | arr xs ih =>
    rw [Document.equal_iff] at h
    obtain ⟨ys, rfl, h⟩ := h
    cases hk : t.behavior.sortKey with
    | none =>
      obtain ⟨hlen, hitems⟩ := forall₂_iff_getElem?.1 h
      refine .list hk (Nat.le_of_eq hlen) fun i x y hx hy => ?_
      exact ih x (List.mem_of_getElem? hx) (hitems i x y hx hy)
    | some key =>
      exact .set hk fun x hx => exists_mem_of_forall₂ h.flip hx
  | obj xs ih =>
    rw [Document.equal_iff] at h
    obtain ⟨ys, rfl, -, h⟩ := h
    refine .obj (fun k hk => ?_) fun k x y hx hy => ?_
    · obtain ⟨x, hx⟩ := Members.exists_get?_of_mem_keys hk
      obtain ⟨y, hy, -⟩ := h _ (Members.mem_of_get? hx)
      exact Members.mem_keys_of_get? hy
    · obtain ⟨y', hy', hxy⟩ := h _ (Members.mem_of_get? hx)
      rw [hy] at hy'
      cases hy'
      exact ih (k, x) (Members.mem_of_get? hx) hxy

theorem Below.refl (ha : a.Distinct) : Below g t a a :=
  .of_equal (Document.equal_refl ha)

theorem Below.trans (hab : Below g t a b) (hbc : Below g t b c) : Below g t a c := by
  induction hab generalizing c with
  | scalar ha h =>
    have hb := Document.isScalar_of_equal ha h
    cases hbc with
    | scalar _ h' => exact .scalar ha (Document.equal_trans h h')
    | obj | list | set => cases hb
  | obj keys _ ih =>
    obtain ⟨zs, rfl⟩ := hbc.obj_right
    obtain ⟨keys', values'⟩ := obj_iff.1 hbc
    refine .obj (fun k hk => keys' k (keys k hk)) fun k x z hx hz => ?_
    obtain ⟨y, hy⟩ := Members.exists_get?_of_mem_keys (keys k (Members.mem_keys_of_get? hx))
    exact ih k x y hx hy (values' k y z hy hz)
  | list hk length _ ih =>
    obtain ⟨zs, rfl⟩ := hbc.arr_right
    obtain ⟨length', items'⟩ := (list_iff hk).1 hbc
    refine .list hk (Nat.le_trans length length') fun i x z hx hz => ?_
    obtain ⟨y, hy⟩ := exists_getElem?_of_length_le length hx
    exact ih i x y hx hy (items' i y z hy hz)
  | set hk items =>
    obtain ⟨zs, rfl⟩ := hbc.arr_right
    refine .set hk fun x hx => ?_
    obtain ⟨y, hy, hxy⟩ := items x hx
    obtain ⟨z, hz, hyz⟩ := (set_iff hk).1 hbc y hy
    exact ⟨z, hz, Document.equal_trans hxy hyz⟩

/-! ## Properties of every set -/

mutual

/-- Every array that a merge meets as a set has a property, at the key of the set.  The items of a
set are not entered, since a merge compares them whole. -/
def EverySet (g : Grammar) (P : SortKey → List Document → Prop) (t : Transition) :
    Document → Prop
  | .obj members => EverySetMembers g P t.node members
  | .arr items =>
    match t.behavior.sortKey with
    | some key => P key items
    | none => EverySetItems g P t items
  | _ => True

def EverySetItems (g : Grammar) (P : SortKey → List Document → Prop) (t : Transition) :
    List Document → Prop
  | [] => True
  | d :: ds => EverySet g P t d ∧ EverySetItems g P t ds

def EverySetMembers (g : Grammar) (P : SortKey → List Document → Prop) (node : NodeId) :
    List (String × Document) → Prop
  | [] => True
  | (k, v) :: ms => EverySet g P (g.child node k) v ∧ EverySetMembers g P node ms

end

section EverySet

variable {P : SortKey → List Document → Prop}

theorem everySet_obj {members : Members} :
    EverySet g P t (.obj members) ↔ ∀ m ∈ members, EverySet g P (g.child t.node m.1) m.2 := by
  rw [EverySet]
  induction members with
  | nil => simp [EverySetMembers]
  | cons m ms ih =>
    obtain ⟨k, v⟩ := m
    simp [EverySetMembers, ih]

theorem everySet_list (hk : t.behavior.sortKey = none) {items : List Document} :
    EverySet g P t (.arr items) ↔ ∀ d ∈ items, EverySet g P t d := by
  rw [EverySet, hk]
  induction items with
  | nil => simp [EverySetItems]
  | cons d ds ih => simp [EverySetItems, ← ih]

theorem everySet_set {key : SortKey} (hk : t.behavior.sortKey = some key)
    {items : List Document} : EverySet g P t (.arr items) ↔ P key items := by
  rw [EverySet, hk]

mutual

/-- A property of every set can be decided by a walk through the document. -/
def decideEverySet [∀ key items, Decidable (P key items)] :
    (t : Transition) → (d : Document) → Decidable (EverySet g P t d)
  | t, .obj members => decideEverySetMembers t.node members
  | t, .arr items =>
    match hk : t.behavior.sortKey with
    | some key => decidable_of_iff (P key items) (everySet_set hk).symm
    | none => @decidable_of_iff _ (EverySetItems g P t items) (by rw [EverySet, hk])
        (decideEverySetItems t items)
  | _, .null | _, .bool _ | _, .num _ | _, .str _ => .isTrue trivial

def decideEverySetItems [∀ key items, Decidable (P key items)] :
    (t : Transition) → (items : List Document) → Decidable (EverySetItems g P t items)
  | _, [] => .isTrue trivial
  | t, d :: ds => @instDecidableAnd _ _ (decideEverySet t d) (decideEverySetItems t ds)

def decideEverySetMembers [∀ key items, Decidable (P key items)] :
    (node : NodeId) → (members : List (String × Document)) →
      Decidable (EverySetMembers g P node members)
  | _, [] => .isTrue trivial
  | node, (k, v) :: ms =>
    @instDecidableAnd _ _ (decideEverySet (g.child node k) v) (decideEverySetMembers node ms)

end

instance [∀ key items, Decidable (P key items)] (t : Transition) (d : Document) :
    Decidable (EverySet g P t d) :=
  decideEverySet t d

end EverySet

/-- The keys of the items increase strictly. -/
def Increasing (key : SortKey) (items : List Document) : Prop :=
  items.Pairwise fun a b => key.key a < key.key b

/-- Items with one key are equal. -/
def Consistent (key : SortKey) (items : List Document) : Prop :=
  ∀ a ∈ items, ∀ b ∈ items, key.key a = key.key b → a.equal b = true

instance (key : SortKey) (items : List Document) : Decidable (Increasing key items) :=
  inferInstanceAs (Decidable (items.Pairwise _))

instance (key : SortKey) (items : List Document) : Decidable (Consistent key items) :=
  inferInstanceAs (Decidable (∀ a ∈ items, ∀ b ∈ items, _))

namespace Increasing

variable {key : SortKey} {items : List Document}

theorem nodup_map (h : Increasing key items) : (items.map key.key).Nodup :=
  List.pairwise_map.2 (h.imp String.ne_of_lt)

/-- Where the keys increase strictly, a key determines its item. -/
theorem eq_of_key_eq (h : Increasing key items) {x y : Document} (hx : x ∈ items) (hy : y ∈ items)
    (hxy : key.key x = key.key y) : x = y :=
  List.inj_on_of_nodup_map h.nodup_map hx hy hxy

theorem consistent (h : Increasing key items) (hd : ∀ d ∈ items, Document.Distinct d) :
    Consistent key items := by
  intro a ha b hb hab
  rw [h.eq_of_key_eq ha hb hab]
  exact Document.equal_refl (hd b hb)

end Increasing

/-! ## Orderly documents -/

/-- A document whose keys can be trusted: no object holds a key twice, no double is the negative
zero, and the keys of every set increase strictly. -/
structure Orderly (g : Grammar) (t : Transition) (d : Document) : Prop where
  distinct : d.Distinct
  noNegativeZero : d.NoNegativeZero
  increasing : EverySet g Increasing t d

instance (g : Grammar) (t : Transition) (d : Document) : Decidable (Orderly g t d) :=
  decidable_of_iff (d.Distinct ∧ d.NoNegativeZero ∧ EverySet g Increasing t d)
    ⟨fun h => ⟨h.1, h.2.1, h.2.2⟩, fun h => ⟨h.1, h.2, h.3⟩⟩

theorem Document.Keyable.item {items : List Document} (h : Keyable (.arr items)) {d : Document}
    (hd : d ∈ items) : d.Keyable :=
  keyable_arr.1 h d hd

namespace Orderly

theorem keyable (h : Orderly g t a) : a.Keyable :=
  ⟨h.distinct, h.noNegativeZero⟩

theorem obj_iff {members : Members} :
    Orderly g t (.obj members) ↔ (Members.keys members).Nodup ∧
      ∀ m ∈ members, Orderly g (g.child t.node m.1) m.2 := by
  constructor
  · intro h
    obtain ⟨hn, hd⟩ := Document.distinct_obj.1 h.distinct
    refine ⟨hn, fun m hm => ⟨hd m hm, ?_, ?_⟩⟩
    · exact Document.noNegativeZero_obj.1 h.noNegativeZero m hm
    · exact everySet_obj.1 h.increasing m hm
  · rintro ⟨hn, h⟩
    refine ⟨Document.distinct_obj.2 ⟨hn, fun m hm => (h m hm).distinct⟩, ?_, ?_⟩
    · exact Document.noNegativeZero_obj.2 fun m hm => (h m hm).noNegativeZero
    · exact everySet_obj.2 fun m hm => (h m hm).increasing

theorem list_iff (hk : t.behavior.sortKey = none) {items : List Document} :
    Orderly g t (.arr items) ↔ ∀ d ∈ items, Orderly g t d := by
  constructor
  · intro h d hd
    have hkey : d.Keyable := h.keyable.item hd
    exact ⟨hkey.distinct, hkey.noNegativeZero, (everySet_list hk).1 h.increasing d hd⟩
  · intro h
    refine ⟨Document.distinct_arr.2 fun d hd => (h d hd).distinct, ?_, ?_⟩
    · exact Document.noNegativeZero_arr.2 fun d hd => (h d hd).noNegativeZero
    · exact (everySet_list hk).2 fun d hd => (h d hd).increasing

theorem set_iff {key : SortKey} (hk : t.behavior.sortKey = some key) {items : List Document} :
    Orderly g t (.arr items) ↔ (∀ d ∈ items, d.Keyable) ∧ Increasing key items := by
  constructor
  · exact fun h => ⟨fun d hd => h.keyable.item hd, (everySet_set hk).1 h.increasing⟩
  · rintro ⟨hkey, h⟩
    refine ⟨Document.distinct_arr.2 fun d hd => (hkey d hd).distinct, ?_, (everySet_set hk).2 h⟩
    exact Document.noNegativeZero_arr.2 fun d hd => (hkey d hd).noNegativeZero

/-- The items of the sets of an orderly document agree wherever their keys do. -/
theorem consistent (h : Orderly g t a) : EverySet g Consistent t a := by
  induction a using Document.induction generalizing t with
  | null | bool | num | str => trivial
  | arr items ih =>
    cases hk : t.behavior.sortKey with
    | none =>
      rw [list_iff hk] at h
      exact (everySet_list hk).2 fun d hd => ih d hd (h d hd)
    | some key =>
      obtain ⟨hkey, hinc⟩ := (set_iff hk).1 h
      exact (everySet_set hk).2 (hinc.consistent fun d hd => (hkey d hd).distinct)
  | obj members ih =>
    obtain ⟨-, h⟩ := obj_iff.1 h
    exact everySet_obj.2 fun m hm => ih m hm (h m hm)

theorem member {members : Members} (h : Orderly g t (.obj members)) {k : String} {v : Document}
    (hv : (k, v) ∈ members) : Orderly g (g.child t.node k) v :=
  (obj_iff.1 h).2 (k, v) hv

theorem item {items : List Document} (h : Orderly g t (.arr items))
    (hk : t.behavior.sortKey = none) {d : Document} (hd : d ∈ items) : Orderly g t d :=
  (list_iff hk).1 h d hd

end Orderly

/-- Two sets in strictly increasing order of their keys that have the same keys have them in the same
order. -/
theorem Increasing.map_key_eq_of_perm {key : SortKey} {xs ys : List Document}
    (hxs : Increasing key xs) (hys : Increasing key ys)
    (h : (xs.map key.key).Perm (ys.map key.key)) : xs.map key.key = ys.map key.key := by
  have hantisymm : ∀ k l, k ∈ xs.map key.key → l ∈ ys.map key.key → k < l → l < k → k = l :=
    fun k l _ _ hkl hlk => absurd hlk (String.lt_asymm hkl)
  exact h.eq_of_pairwise hantisymm (List.pairwise_map.2 hxs) (List.pairwise_map.2 hys)

/-- Lists with the same keys in the same order are equal item by item, if every item on the left has
its equal on the right, where a key tells the items apart. -/
theorem equal_arr_of_map_key_eq {key : SortKey} {xs ys : List Document}
    (hx : Document.Keyable (.arr xs)) (hy : Document.Keyable (.arr ys))
    (hkeys : xs.map key.key = ys.map key.key) (hxy : ∀ x ∈ xs, ∃ y ∈ ys, x.equal y = true)
    (hys : Consistent key ys) : Document.equal (.arr xs) (.arr ys) = true := by
  rw [Document.equal_arr, forall₂_iff_getElem?]
  have hlen : xs.length = ys.length := by
    rw [← List.length_map key.key, hkeys, List.length_map]
  refine ⟨hlen, fun i x y hix hiy => ?_⟩
  have hmx := List.mem_of_getElem? hix
  obtain ⟨y', hmy', h⟩ := hxy x hmx
  have hkey : key.key x = key.key y := by
    have hi : (xs.map key.key)[i]? = (ys.map key.key)[i]? := by rw [hkeys]
    rw [List.getElem?_map, List.getElem?_map, hix, hiy] at hi
    exact Option.some.inj hi
  -- the equal of the left item has the key of the right one, and is therefore its equal too
  have hkey' : key.key x = key.key y' := key.key_eq_of_equal (hx.item hmx) (hy.item hmy') h
  have hy'y : y'.equal y = true :=
    hys y' hmy' y (List.mem_of_getElem? hiy) (hkey'.symm.trans hkey)
  exact Document.equal_trans h hy'y

/-- Two sets with strictly increasing keys, each of which has an equal for every item of the other,
are equal item by item. -/
theorem equal_of_mutual_inclusion {key : SortKey} {xs ys : List Document}
    (hx : Document.Keyable (.arr xs)) (hy : Document.Keyable (.arr ys))
    (hxs : Increasing key xs) (hys : Increasing key ys)
    (hxy : ∀ x ∈ xs, ∃ y ∈ ys, x.equal y = true) (hyx : ∀ y ∈ ys, ∃ x ∈ xs, y.equal x = true) :
    Document.equal (.arr xs) (.arr ys) = true := by
  -- equal items have one key, so both lists have the same keys in the same order
  have hkeys : xs.map key.key = ys.map key.key := by
    refine hxs.map_key_eq_of_perm hys ?_
    refine (List.perm_ext_iff_of_nodup hxs.nodup_map hys.nodup_map).2 fun k => ?_
    constructor
    · intro hk
      obtain ⟨x, hmx, rfl⟩ := List.mem_map.1 hk
      obtain ⟨y, hmy, h⟩ := hxy x hmx
      rw [key.key_eq_of_equal (hx.item hmx) (hy.item hmy) h]
      exact List.mem_map_of_mem hmy
    · intro hk
      obtain ⟨y, hmy, rfl⟩ := List.mem_map.1 hk
      obtain ⟨x, hmx, h⟩ := hyx y hmy
      rw [key.key_eq_of_equal (hy.item hmy) (hx.item hmx) h]
      exact List.mem_map_of_mem hmx
  exact equal_arr_of_map_key_eq hx hy hkeys hxy
    (hys.consistent fun d hd => (hy.item hd).distinct)

/-- Orderly documents below each other are equal. -/
theorem Below.antisymm (hab : Below g t a b) (hba : Below g t b a) (ha : Orderly g t a)
    (hb : Orderly g t b) : a.equal b = true := by
  induction hab with
  | scalar _ h => exact h
  | @obj t xs ys keys _ ih =>
    obtain ⟨keys', values'⟩ := obj_iff.1 hba
    have hnx := (Document.distinct_obj.1 ha.distinct).1
    have hny := (Document.distinct_obj.1 hb.distinct).1
    rw [Document.equal_obj]
    constructor
    · have hperm := (List.perm_ext_iff_of_nodup hnx hny).2 fun k => ⟨keys k, keys' k⟩
      simpa [Members.keys] using hperm.length_eq
    · intro m hm
      obtain ⟨k, x⟩ := m
      have hx := Members.get?_of_mem hnx hm
      obtain ⟨y, hy⟩ := Members.exists_get?_of_mem_keys (keys k (Members.mem_keys_of_get? hx))
      have hmy := Members.mem_of_get? hy
      exact ⟨y, hy, ih k x y hx hy (values' k y x hy hx) (ha.member hm) (hb.member hmy)⟩
  | list hk length _ ih =>
    obtain ⟨length', items'⟩ := (list_iff hk).1 hba
    rw [Document.equal_arr, forall₂_iff_getElem?]
    refine ⟨Nat.le_antisymm length length', fun i x y hx hy => ?_⟩
    exact ih i x y hx hy (items' i y x hy hx) (ha.item hk (List.mem_of_getElem? hx))
      (hb.item hk (List.mem_of_getElem? hy))
  | set hk items =>
    have items' := (set_iff hk).1 hba
    exact equal_of_mutual_inclusion ha.keyable hb.keyable ((everySet_set hk).1 ha.increasing)
      ((everySet_set hk).1 hb.increasing) items items'

end SchemaLoom
