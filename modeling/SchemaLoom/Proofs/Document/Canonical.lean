import SchemaLoom.Grammar.Behavior
import SchemaLoom.Proofs.Document.Equality

/-!
# Keys of equal documents

Equal documents have one canonical text, so every sort key takes the same text from them.  The one
exception is the negative zero, which equals zero and has a text of its own.

- `Document.NoNegativeZero`: no double of the document is the negative zero.
- `Document.sortKeys_eq_of_equal`: equal documents become one once their members are sorted.
- `SortKey.key_eq_of_equal`: equal documents have one key.
- `sortByKey_perm`, `pairwise_sortByKey`, `sortByKey_of_pairwise`: a sorted list holds the same
  items, in the order of their keys, and a list in that order stays as it is.
- `filter_sortByKey`, `eq_sortByKey`: items with one key keep their order, and no other list in the
  order of the keys has them so.
-/

namespace SchemaLoom

/-! ## Sorting -/

section Sorting

variable {key : Document → String} {items : List Document}

private theorem keyLe_trans {β : Type} (a b c : String × β) :
    decide (a.1 ≤ b.1) = true → decide (b.1 ≤ c.1) = true → decide (a.1 ≤ c.1) = true := by
  simp only [decide_eq_true_eq]
  exact String.le_trans

private theorem keyLe_total {β : Type} (a b : String × β) :
    (decide (a.1 ≤ b.1) || decide (b.1 ≤ a.1)) = true := by
  simpa using String.le_total a.1 b.1

private theorem map_snd_keyed (key : Document → String) (items : List Document) :
    (items.map fun d => (key d, d)).map Prod.snd = items := by
  simp [Function.comp_def]

theorem sortByKey_perm : (sortByKey key items).Perm items := by
  have h := (List.mergeSort_perm (items.map fun d => (key d, d))
    fun a b => decide (a.1 ≤ b.1)).map Prod.snd
  rwa [map_snd_keyed] at h

theorem pairwise_sortByKey : (sortByKey key items).Pairwise fun a b => key a ≤ key b := by
  have hsorted := List.pairwise_mergeSort keyLe_trans keyLe_total (items.map fun d => (key d, d))
  refine List.pairwise_map.2 (hsorted.imp_of_mem fun ha hb hab => ?_)
  -- the pairs that are sorted hold the key of their item
  obtain ⟨a, -, rfl⟩ := List.mem_map.1 (List.mem_mergeSort.1 ha)
  obtain ⟨b, -, rfl⟩ := List.mem_map.1 (List.mem_mergeSort.1 hb)
  simpa using hab

theorem sortByKey_of_pairwise (h : items.Pairwise fun a b => key a ≤ key b) :
    sortByKey key items = items := by
  unfold sortByKey
  rw [List.mergeSort_of_pairwise, map_snd_keyed]
  exact List.pairwise_map.2 (h.imp fun hab => by simpa using hab)

/-- Items with one key keep their order. -/
theorem filter_sortByKey (key : Document → String) (items : List Document) (k : String) :
    (sortByKey key items).filter (fun d => key d = k) = items.filter fun d => key d = k := by
  -- the items with the key are in order already, so the sorted list keeps them as a sublist
  have hpairs : ((items.filter fun d => key d = k).map fun d => (key d, d)).Pairwise
      fun a b => decide (a.1 ≤ b.1) = true := by
    refine List.pairwise_map.2 (List.pairwise_of_forall_mem_list fun a ha b hb => ?_)
    have hka : key a = k := by simpa using (List.mem_filter.1 ha).2
    have hkb : key b = k := by simpa using (List.mem_filter.1 hb).2
    rw [hka, hkb]
    exact decide_eq_true (String.le_refl k)
  have hpairs_kept := List.sublist_mergeSort keyLe_trans keyLe_total hpairs
    (List.filter_sublist.map fun d => (key d, d))
  have hkept : (items.filter fun d => key d = k).Sublist (sortByKey key items) := by
    have h := hpairs_kept.map Prod.snd
    rwa [map_snd_keyed] at h
  have hfilter := hkept.filter fun d => key d = k
  rw [List.filter_filter] at hfilter
  simp only [Bool.and_self] at hfilter
  -- and it has no others with that key, since it is a permutation
  have hlen : (items.filter fun d => key d = k).length =
      ((sortByKey key items).filter fun d => key d = k).length :=
    (sortByKey_perm.filter _).length_eq.symm
  exact (hfilter.eq_of_length hlen).symm

theorem mem_iff_of_filter_eq {as bs : List Document}
    (h : ∀ k, as.filter (fun d => key d = k) = bs.filter fun d => key d = k) (d : Document) :
    d ∈ as ↔ d ∈ bs := by
  have hd : d ∈ as.filter (fun e => key e = key d) ↔ d ∈ bs.filter fun e => key e = key d := by
    rw [h]
  simpa using hd

/-- Two lists in the order of their keys are the same list if they hold the same items with each
key, in the same order. -/
theorem eq_of_filter_eq {as bs : List Document} (has : as.Pairwise fun a b => key a ≤ key b)
    (hbs : bs.Pairwise fun a b => key a ≤ key b)
    (h : ∀ k, as.filter (fun d => key d = k) = bs.filter fun d => key d = k) : as = bs := by
  induction as generalizing bs with
  | nil =>
    refine (List.eq_nil_iff_forall_not_mem.2 fun d hd => ?_).symm
    cases (mem_iff_of_filter_eq h d).2 hd
  | cons a as ih =>
    cases bs with
    | nil => cases (mem_iff_of_filter_eq h a).1 List.mem_cons_self
    | cons b bs =>
      obtain ⟨ha, has'⟩ := List.pairwise_cons.1 has
      obtain ⟨hb, hbs'⟩ := List.pairwise_cons.1 hbs
      -- both lists begin with a least key, so with one key, and then with one item
      have hab : key a ≤ key b := by
        rcases List.mem_cons.1 ((mem_iff_of_filter_eq h b).2 List.mem_cons_self) with rfl | hmem
        · exact String.le_refl _
        · exact ha b hmem
      have hba : key b ≤ key a := by
        rcases List.mem_cons.1 ((mem_iff_of_filter_eq h a).1 List.mem_cons_self) with rfl | hmem
        · exact String.le_refl _
        · exact hb a hmem
      have hkey : key b = key a := String.le_antisymm hba hab
      have hfirst := h (key a)
      rw [List.filter_cons_of_pos (by simp), List.filter_cons_of_pos (by simp [hkey])] at hfirst
      obtain ⟨rfl, -⟩ := List.cons.inj hfirst
      refine congrArg (a :: ·) (ih has' hbs' fun k => ?_)
      have hk := h k
      rw [List.filter_cons, List.filter_cons] at hk
      split at hk
      · exact (List.cons.inj hk).2
      · exact hk

/-- A list in the order of its keys is what sorting gives for every list with the same items with
each key, in the same order. -/
theorem eq_sortByKey {as bs : List Document} (has : as.Pairwise fun a b => key a ≤ key b)
    (h : ∀ k, as.filter (fun d => key d = k) = bs.filter fun d => key d = k) :
    as = sortByKey key bs :=
  eq_of_filter_eq has pairwise_sortByKey fun k => (h k).trans (filter_sortByKey key bs k).symm

/-- Lists that have the same keys, in any order, have them in one order when they are sorted. -/
theorem map_sortByKey_eq_of_perm {as bs : List Document} (h : (as.map key).Perm (bs.map key)) :
    (sortByKey key as).map key = (sortByKey key bs).map key := by
  have hsorted : ∀ ds : List Document, ((sortByKey key ds).map key).Pairwise (· ≤ ·) :=
    fun ds => List.pairwise_map.2 pairwise_sortByKey
  have hperm : ((sortByKey key as).map key).Perm ((sortByKey key bs).map key) :=
    (sortByKey_perm.map key).trans (h.trans (sortByKey_perm.map key).symm)
  exact hperm.eq_of_pairwise (fun _ _ _ _ hab hba => String.le_antisymm hab hba)
    (hsorted as) (hsorted bs)

/-- Lists in step whose items have the same keys are in step when they are sorted. -/
theorem forall₂_sortByKey {R : Document → Document → Prop} {as bs : List Document}
    (h : List.Forall₂ (fun a b => R a b ∧ key a = key b) as bs) :
    List.Forall₂ R (sortByKey key as) (sortByKey key bs) := by
  -- both are the sides of one list of pairs, which is sorted by the keys of its left items
  obtain ⟨hlen, hR⟩ := List.forall₂_iff_zip.1 h
  have hleft : (as.zip bs).map Prod.fst = as := List.map_fst_zip (Nat.le_of_eq hlen)
  have hright : (as.zip bs).map Prod.snd = bs := List.map_snd_zip (Nat.le_of_eq hlen.symm)
  generalize as.zip bs = ps at hR hleft hright
  subst hleft hright
  have hfst : sortByKey key (ps.map Prod.fst) =
      (ps.mergeSort fun p q => decide (key p.1 ≤ key q.1)).map Prod.fst := by
    unfold sortByKey
    rw [List.map_map, ← List.map_mergeSort (r := fun p q => decide (key p.1 ≤ key q.1))
      (fun _ _ _ _ => rfl), List.map_map]
    rfl
  have hsnd : sortByKey key (ps.map Prod.snd) =
      (ps.mergeSort fun p q => decide (key p.1 ≤ key q.1)).map Prod.snd := by
    unfold sortByKey
    rw [List.map_map, ← List.map_mergeSort (r := fun p q => decide (key p.1 ≤ key q.1))
      (fun p hp q hq => ?_), List.map_map]
    · rfl
    · show decide (key p.1 ≤ key q.1) = decide (key p.2 ≤ key q.2)
      rw [(hR hp).2, (hR hq).2]
  rw [hfst, hsnd, List.forall₂_map_left_iff, List.forall₂_map_right_iff, List.forall₂_same]
  intro p hp
  exact (hR (List.mem_mergeSort.1 hp)).1

/-- Lists that are in step when they are sorted hold the items with one key in step, as they are. -/
theorem forall₂_filter_of_sortByKey {R : Document → Document → Prop} {as bs : List Document}
    (hkey : ∀ a ∈ as, ∀ b ∈ bs, R a b → key a = key b)
    (h : List.Forall₂ R (sortByKey key as) (sortByKey key bs)) (k : String) :
    List.Forall₂ R (as.filter fun d => key d = k) (bs.filter fun d => key d = k) := by
  have hstep : List.Forall₂ (fun a b => R a b ∧ key a = key b) (sortByKey key as)
      (sortByKey key bs) := by
    refine forall₂_imp h fun a ha b hb hab => ⟨hab, ?_⟩
    exact hkey a (sortByKey_perm.mem_iff.1 ha) b (sortByKey_perm.mem_iff.1 hb) hab
  have hfilter : List.Forall₂ (fun a b => R a b ∧ key a = key b)
      ((sortByKey key as).filter fun d => key d = k)
      ((sortByKey key bs).filter fun d => key d = k) := by
    refine List.rel_filter (fun a b hab => ?_) hstep
    show decide (key a = k) = true ↔ decide (key b = k) = true
    rw [hab.2]
  rw [filter_sortByKey, filter_sortByKey] at hfilter
  exact hfilter.imp fun _ _ => And.left

theorem Members.sort_perm (ms : Members) : (Members.sort ms).Perm ms :=
  List.mergeSort_perm ..

/-- Members without a key twice have one sorted order, whatever order they come in. -/
theorem Members.sort_eq_of_perm {as bs : Members} (h : as.Perm bs)
    (hn : (Members.keys as).Nodup) : Members.sort as = Members.sort bs := by
  have hsorted : ∀ ms : Members, (sort ms).Pairwise fun a b => decide (a.1 ≤ b.1) = true :=
    List.pairwise_mergeSort keyLe_trans keyLe_total
  refine List.Perm.eq_of_pairwise (fun a b ha hb hab hba => ?_) (hsorted as) (hsorted bs)
    ((sort_perm as).trans (h.trans (sort_perm bs).symm))
  have ha : a ∈ as := (sort_perm as).mem_iff.1 ha
  have hb : b ∈ as := h.mem_iff.2 ((sort_perm bs).mem_iff.1 hb)
  have hkey : a.1 = b.1 :=
    String.le_antisymm (of_decide_eq_true hab) (of_decide_eq_true hba)
  exact List.inj_on_of_nodup_map hn ha hb hkey

end Sorting

/-! ## The negative zero -/

namespace Document

mutual

/-- No double of the document is the negative zero. -/
def NoNegativeZero : Document → Prop
  | .num n => n ≠ .float (Binary64.zero true)
  | .arr items => NoNegativeZeroItems items
  | .obj members => NoNegativeZeroMembers members
  | _ => True

def NoNegativeZeroItems : List Document → Prop
  | [] => True
  | d :: ds => NoNegativeZero d ∧ NoNegativeZeroItems ds

def NoNegativeZeroMembers : List (String × Document) → Prop
  | [] => True
  | (_, v) :: ms => NoNegativeZero v ∧ NoNegativeZeroMembers ms

end

theorem noNegativeZero_arr {items : List Document} :
    NoNegativeZero (.arr items) ↔ ∀ d ∈ items, NoNegativeZero d := by
  rw [NoNegativeZero]
  induction items with
  | nil => simp [NoNegativeZeroItems]
  | cons d ds ih => simp [NoNegativeZeroItems, ih]

theorem noNegativeZero_obj {members : Members} :
    NoNegativeZero (.obj members) ↔ ∀ m ∈ members, NoNegativeZero m.2 := by
  rw [NoNegativeZero]
  induction members with
  | nil => simp [NoNegativeZeroMembers]
  | cons m ms ih =>
    obtain ⟨k, v⟩ := m
    simp [NoNegativeZeroMembers, ih]

mutual

def decideNoNegativeZero : (d : Document) → Decidable (NoNegativeZero d)
  | .num n => inferInstanceAs (Decidable (n ≠ .float (Binary64.zero true)))
  | .arr items => decideNoNegativeZeroItems items
  | .obj members => decideNoNegativeZeroMembers members
  | .null | .bool _ | .str _ => .isTrue trivial

def decideNoNegativeZeroItems : (items : List Document) → Decidable (NoNegativeZeroItems items)
  | [] => .isTrue trivial
  | d :: ds => @instDecidableAnd _ _ (decideNoNegativeZero d) (decideNoNegativeZeroItems ds)

def decideNoNegativeZeroMembers : (members : List (String × Document)) →
    Decidable (NoNegativeZeroMembers members)
  | [] => .isTrue trivial
  | (_, v) :: ms =>
    @instDecidableAnd _ _ (decideNoNegativeZero v) (decideNoNegativeZeroMembers ms)

end

instance : DecidablePred NoNegativeZero := decideNoNegativeZero

end Document

theorem Binary64.eq_zero_of_isZero {x : Binary64} (h : x.isZero = true) :
    x = zero x.negative := by
  obtain ⟨neg, e, f⟩ := x
  simp only [isZero, mantissa, beq_iff_eq] at h
  split at h
  next he =>
    simp only [zero, mk.injEq, true_and]
    exact ⟨Fin.ext he, Fin.ext h⟩
  next => exact absurd h (by simp [leadingBit])

/-- Numbers other than the negative zero are equal only when they are the same. -/
theorem Number.eq_of_equal {m n : Number} (hm : m ≠ .float (Binary64.zero true))
    (hn : n ≠ .float (Binary64.zero true)) (h : m.equal n = true) : m = n := by
  cases m with
  | int a =>
    cases n with
    | int b => simpa [Number.equal] using h
    | float => cases h
  | float x =>
    cases n with
    | int => cases h
    | float y =>
      simp only [Number.equal, Binary64.equal, Bool.or_eq_true, Bool.and_eq_true,
        beq_iff_eq] at h
      rcases h with rfl | ⟨hx, hy⟩
      · rfl
      · have hx := Binary64.eq_zero_of_isZero hx
        have hy := Binary64.eq_zero_of_isZero hy
        have hneg : ∀ z : Binary64, z = Binary64.zero z.negative →
            Number.float z ≠ .float (Binary64.zero true) → z.negative = false := by
          intro z hz hne
          cases hzn : z.negative with
          | false => rfl
          | true => exact absurd (by rw [hz, hzn]) hne
        rw [hx, hy, hneg x hx hm, hneg y hy hn]

/-! ## Canonical text -/

theorem map_eq_map_of_forall₂ {α β γ : Type} {f : α → γ} {g : β → γ} {as : List α} {bs : List β}
    (h : List.Forall₂ (fun a b => f a = g b) as bs) : as.map f = bs.map g := by
  induction h with
  | nil => rfl
  | cons hab _ ih => rw [List.map_cons, List.map_cons, hab, ih]

namespace Document

theorem sortKeysItems_eq_map (items : List Document) : sortKeysItems items = items.map sortKeys := by
  induction items with
  | nil => rfl
  | cons d ds ih => rw [sortKeysItems, ih, List.map_cons]

theorem sortKeysMembers_eq_map (members : Members) :
    sortKeysMembers members = members.map fun m => (m.1, sortKeys m.2) := by
  induction members with
  | nil => rfl
  | cons m ms ih => rw [sortKeysMembers, ih, List.map_cons]

/-- Equal documents become one once the members of their objects are sorted. -/
theorem sortKeys_eq_of_equal {a b : Document} : Distinct a → Distinct b → NoNegativeZero a →
    NoNegativeZero b → equal a b = true → sortKeys a = sortKeys b := by
  induction a using Document.induction generalizing b with
  | null | bool | str =>
    intro _ _ _ _ h
    rw [equal_iff] at h
    cases h
    rfl
  | num m =>
    intro _ _ hm hn h
    rw [equal_iff] at h
    obtain ⟨n, rfl, h⟩ := h
    rw [Number.eq_of_equal hm hn h]
  | arr as ih =>
    intro ha hb hza hzb h
    rw [equal_iff] at h
    obtain ⟨bs, rfl, h⟩ := h
    rw [distinct_arr] at ha hb
    rw [noNegativeZero_arr] at hza hzb
    rw [sortKeys, sortKeys, sortKeysItems_eq_map, sortKeysItems_eq_map]
    refine congrArg Document.arr (map_eq_map_of_forall₂ ?_)
    exact forall₂_imp h fun a hm b hm' =>
      ih a hm (ha a hm) (hb b hm') (hza a hm) (hzb b hm')
  | obj as ih =>
    intro ha hb hza hzb h
    have h' := h
    rw [equal_iff] at h'
    obtain ⟨bs, rfl, -, -⟩ := h'
    obtain ⟨hna, ha⟩ := distinct_obj.1 ha
    obtain ⟨hnb, hb⟩ := distinct_obj.1 hb
    rw [noNegativeZero_obj] at hza hzb
    -- put the members of one object in the order of the other, and sorting undoes that order
    obtain ⟨cs, hperm, hall⟩ := exists_perm_of_equal_obj hna hnb h
    have hmap : sortKeysMembers as = sortKeysMembers cs := by
      rw [sortKeysMembers_eq_map, sortKeysMembers_eq_map]
      refine map_eq_map_of_forall₂ (forall₂_imp hall fun m hm n hn hmn => ?_)
      have hn := hperm.mem_iff.1 hn
      rw [hmn.1, ih m hm (ha m hm) (hb n hn) (hza m hm) (hzb n hn) hmn.2]
    have hsorted : (sortKeysMembers cs).Perm (sortKeysMembers bs) := by
      rw [sortKeysMembers_eq_map, sortKeysMembers_eq_map]
      exact hperm.map _
    have hn : (Members.keys (sortKeysMembers cs)).Nodup := by
      rw [← hmap, sortKeysMembers_eq_map, Members.keys, List.map_map]
      exact hna
    rw [sortKeys, sortKeys, hmap, Members.sort_eq_of_perm hsorted hn]

/-- Documents that a sort key cannot tell from their equals. -/
structure Keyable (d : Document) : Prop where
  distinct : Distinct d
  noNegativeZero : NoNegativeZero d

theorem Keyable.get? {members : Members} (h : Keyable (.obj members)) {key : String}
    {v : Document} (hv : Members.get? key members = some v) : Keyable v :=
  ⟨h.distinct.get? hv, noNegativeZero_obj.1 h.noNegativeZero _ (Members.mem_of_get? hv)⟩

theorem keyable_arr {items : List Document} :
    Keyable (.arr items) ↔ ∀ d ∈ items, Keyable d := by
  constructor
  · intro h d hd
    exact ⟨distinct_arr.1 h.distinct d hd, noNegativeZero_arr.1 h.noNegativeZero d hd⟩
  · intro h
    exact ⟨distinct_arr.2 fun d hd => (h d hd).distinct,
      noNegativeZero_arr.2 fun d hd => (h d hd).noNegativeZero⟩

theorem keyable_obj {members : Members} :
    Keyable (.obj members) ↔ (Members.keys members).Nodup ∧ ∀ m ∈ members, Keyable m.2 := by
  constructor
  · intro h
    obtain ⟨hn, hd⟩ := distinct_obj.1 h.distinct
    exact ⟨hn, fun m hm => ⟨hd m hm, noNegativeZero_obj.1 h.noNegativeZero m hm⟩⟩
  · rintro ⟨hn, h⟩
    exact ⟨distinct_obj.2 ⟨hn, fun m hm => (h m hm).distinct⟩,
      noNegativeZero_obj.2 fun m hm => (h m hm).noNegativeZero⟩

theorem canonical_eq_of_equal {a b : Document} (ha : Keyable a) (hb : Keyable b)
    (h : equal a b = true) : canonical a = canonical b := by
  rw [canonical, canonical, sortKeys_eq_of_equal ha.1 hb.1 ha.2 hb.2 h]

end Document

/-! ## Sort keys -/

namespace SortKey

open Document

theorem plainText_eq_of_equal {a b : Document} (ha : Keyable a) (hb : Keyable b)
    (h : equal a b = true) : plainText a = plainText b := by
  cases a with
  | str s =>
    rw [equal_iff] at h
    cases h
    rfl
  | null | bool | num | arr | obj =>
    have hb' : plainText b = b.canonical := by
      cases b with
      | str => cases h
      | _ => rfl
    rw [hb']
    exact canonical_eq_of_equal ha hb h

theorem fieldText_eq_of_equal {as bs : Members} (ha : Keyable (.obj as)) (hb : Keyable (.obj bs))
    (h : equal (.obj as) (.obj bs) = true) (field : String) :
    fieldText as field = fieldText bs field := by
  have hna := (distinct_obj.1 ha.distinct).1
  have hnb := (distinct_obj.1 hb.distinct).1
  rcases get?_of_equal_obj hna hnb h field with ⟨hga, hgb⟩ | ⟨a, b, hga, hgb, hab⟩
  · rw [fieldText, fieldText, hga, hgb]
  · rw [fieldText, fieldText, hga, hgb]
    exact plainText_eq_of_equal (ha.get? hga) (hb.get? hgb) hab

/-- Equal documents have one key. -/
theorem key_eq_of_equal (k : SortKey) {a b : Document} (ha : Keyable a) (hb : Keyable b)
    (h : equal a b = true) : k.key a = k.key b := by
  cases k with
  | canonical => exact canonical_eq_of_equal ha hb h
  | str => exact plainText_eq_of_equal ha hb h
  | identity fields =>
    cases a with
    | obj as =>
      have h' := h
      rw [equal_iff] at h'
      obtain ⟨bs, rfl, -, -⟩ := h'
      rw [key, key, List.map_congr_left fun f _ => fieldText_eq_of_equal ha hb h f]
    | null | bool | num | arr | str =>
      have hb' : (SortKey.identity fields).key b = b.canonical := by
        cases b with
        | obj => cases h
        | _ => rfl
      rw [hb']
      exact canonical_eq_of_equal ha hb h

end SortKey

end SchemaLoom
