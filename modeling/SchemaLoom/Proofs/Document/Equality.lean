import Mathlib.Data.List.Forall2
import Mathlib.Data.List.Nodup
import SchemaLoom.Document.Basic

/-!
# Equality of documents

Documents are compared without the order of the members of their objects.  On documents whose
objects hold no key twice this is an equivalence.

- `Document.EqualSpec`, `Document.equal_iff`: equality by the shape of the left document.
- `Document.equal_refl`, `Document.equal_symm`, `Document.equal_trans`: the equivalence.
  Transitivity needs no distinct keys.
- `Document.exists_perm_of_equal_obj`: equal objects agree member by member once the members of one
  of them are put in the order of the other.
-/

namespace SchemaLoom

/-! ## Lists in step -/

section InStep

variable {α β γ : Type}

theorem forall₂_imp {R S : α → β → Prop} {as : List α} {bs : List β} (h : List.Forall₂ R as bs)
    (hRS : ∀ a ∈ as, ∀ b ∈ bs, R a b → S a b) : List.Forall₂ S as bs := by
  induction h with
  | nil => exact .nil
  | cons hab _ ih =>
    refine .cons (hRS _ List.mem_cons_self _ List.mem_cons_self hab) (ih fun a ha b hb => ?_)
    exact hRS a (List.mem_cons_of_mem _ ha) b (List.mem_cons_of_mem _ hb)

theorem forall₂_trans {R : α → β → Prop} {S : β → γ → Prop} {T : α → γ → Prop} {as : List α}
    {bs : List β} {cs : List γ} (hab : List.Forall₂ R as bs) (hbc : List.Forall₂ S bs cs)
    (hT : ∀ a ∈ as, ∀ b c, R a b → S b c → T a c) : List.Forall₂ T as cs := by
  induction hab generalizing cs with
  | nil =>
    cases hbc
    exact .nil
  | cons h _ ih =>
    cases hbc with
    | cons h' hbc =>
      refine .cons (hT _ List.mem_cons_self _ _ h h') (ih hbc fun a ha => ?_)
      exact hT a (List.mem_cons_of_mem _ ha)

/-- Two lists are in step exactly when they have one length and are related index by index. -/
theorem forall₂_iff_getElem? {R : α → β → Prop} {as : List α} {bs : List β} :
    List.Forall₂ R as bs ↔ as.length = bs.length ∧
      ∀ (i : Nat) a b, as[i]? = some a → bs[i]? = some b → R a b := by
  rw [List.forall₂_iff_get]
  constructor
  · rintro ⟨hlen, h⟩
    refine ⟨hlen, fun i a b ha hb => ?_⟩
    obtain ⟨hi, rfl⟩ := List.getElem?_eq_some_iff.1 ha
    obtain ⟨hj, rfl⟩ := List.getElem?_eq_some_iff.1 hb
    exact h i hi hj
  · rintro ⟨hlen, h⟩
    refine ⟨hlen, fun i hi hj => ?_⟩
    exact h i _ _ (List.getElem?_eq_getElem hi) (List.getElem?_eq_getElem hj)

/-- The left list holds what a function gives for the right one. -/
theorem forall₂_eq_map_iff {f : β → α} {as : List α} {bs : List β} :
    List.Forall₂ (fun a b => a = f b) as bs ↔ as = bs.map f := by
  rw [← List.forall₂_map_right_iff (R := Eq), List.forall₂_eq_eq_eq]

/-- If everything in a list has a partner, then there is a list of partners. -/
theorem forall_exists_iff_forall₂ {R : α → β → Prop} {as : List α} :
    (∀ a ∈ as, ∃ b, R a b) ↔ ∃ bs, List.Forall₂ R as bs := by
  induction as with
  | nil => exact iff_of_true nofun ⟨[], .nil⟩
  | cons a as ih =>
    rw [List.forall_mem_cons, ih]
    constructor
    · rintro ⟨⟨b, hab⟩, bs, hbs⟩
      exact ⟨b :: bs, .cons hab hbs⟩
    · rintro ⟨_, h⟩
      cases h with
      | cons hab hbs => exact ⟨⟨_, hab⟩, _, hbs⟩

/-- What is in the right list has its partner in the left one. -/
theorem exists_mem_of_forall₂ {R : α → β → Prop} {as : List α} {bs : List β}
    (h : List.Forall₂ R as bs) {b : β} (hb : b ∈ bs) : ∃ a ∈ as, R a b := by
  induction h with
  | nil => cases hb
  | cons hab _ ih =>
    rcases List.mem_cons.1 hb with rfl | hb
    · exact ⟨_, List.mem_cons_self, hab⟩
    · obtain ⟨a, ha, hR⟩ := ih hb
      exact ⟨a, List.mem_cons_of_mem _ ha, hR⟩

end InStep

theorem Binary64.equal_trans {a b c : Binary64} (hab : a.equal b = true)
    (hbc : b.equal c = true) : a.equal c = true := by
  simp only [Binary64.equal, Bool.or_eq_true, Bool.and_eq_true, beq_iff_eq] at *
  rcases hab with rfl | ⟨ha, hb⟩
  · exact hbc
  · rcases hbc with rfl | ⟨-, hc⟩
    · exact .inr ⟨ha, hb⟩
    · exact .inr ⟨ha, hc⟩

theorem Number.equal_trans {a b c : Number} (hab : a.equal b = true) (hbc : b.equal c = true) :
    a.equal c = true := by
  cases a with
  | int x => cases b <;> cases c <;> simp_all [Number.equal]
  | float x =>
    cases b with
    | int => cases hab
    | float y =>
      cases c with
      | int => cases hbc
      | float z => exact Binary64.equal_trans hab hbc

theorem Number.equal_comm (a b : Number) : a.equal b = b.equal a := by
  cases a <;> cases b <;> simp [Number.equal, Binary64.equal_comm, Bool.beq_comm]

/-! ## Looking up members -/

namespace Members

variable {key : String} {v : Document} {ms : Members}

theorem mem_of_get? (h : get? key ms = some v) : (key, v) ∈ ms := by
  induction ms with
  | nil => simp at h
  | cons m ms ih =>
    obtain ⟨k, w⟩ := m
    rw [get?_cons] at h
    split at h
    next hk =>
      cases h
      rw [hk]
      exact List.mem_cons_self
    next => exact List.mem_cons_of_mem _ (ih h)

theorem mem_keys_of_mem {m : String × Document} (h : m ∈ ms) : m.1 ∈ keys ms :=
  List.mem_map_of_mem h

theorem get?_eq_none_iff : get? key ms = none ↔ key ∉ keys ms := by
  induction ms with
  | nil => simp [keys]
  | cons m ms ih =>
    obtain ⟨k, w⟩ := m
    rw [get?_cons]
    by_cases hk : k = key
    · simp [keys, hk]
    · have hne : ¬ key = k := fun e => hk e.symm
      simp only [keys] at ih
      simp [keys, hk, hne, ih]

theorem exists_get?_of_mem_keys (h : key ∈ keys ms) : ∃ w, get? key ms = some w := by
  cases hg : get? key ms with
  | none => exact absurd h (get?_eq_none_iff.1 hg)
  | some w => exact ⟨w, rfl⟩

theorem mem_keys_of_get? (h : get? key ms = some v) : key ∈ keys ms :=
  mem_keys_of_mem (mem_of_get? h)

/-- Where no key comes twice, a look-up finds every member. -/
theorem get?_of_mem (hn : (keys ms).Nodup) (h : (key, v) ∈ ms) : get? key ms = some v := by
  induction ms with
  | nil => cases h
  | cons m ms ih =>
    obtain ⟨k, w⟩ := m
    obtain ⟨hk, hn⟩ := List.nodup_cons.1 hn
    rw [get?_cons]
    rcases List.mem_cons.1 h with h | h
    · cases h
      rw [if_pos rfl]
    · have hmem : key ∈ keys ms := mem_keys_of_mem h
      have hne : k ≠ key := fun e => hk (e ▸ hmem)
      rw [if_neg hne]
      exact ih hn h

/-- A look-up among members whose values are changed one by one finds the changed value. -/
theorem get?_map (f : String × Document → Document) (key : String) (ms : Members) :
    get? key (ms.map fun m => (m.1, f m)) = (get? key ms).map fun v => f (key, v) := by
  induction ms with
  | nil => rfl
  | cons m ms ih =>
    obtain ⟨k, v⟩ := m
    rw [List.map_cons, get?_cons, get?_cons]
    by_cases h : k = key
    · subst h
      simp
    · rw [if_neg h, if_neg h, ih]

end Members

namespace Document

/-! ## Distinct keys -/

theorem distinctItems_iff (items : List Document) :
    DistinctItems items ↔ ∀ d ∈ items, Distinct d := by
  induction items with
  | nil => simp [DistinctItems]
  | cons d ds ih => simp [DistinctItems, ih]

theorem distinctMembers_iff (members : List (String × Document)) :
    DistinctMembers members ↔ ∀ m ∈ members, Distinct m.2 := by
  induction members with
  | nil => simp [DistinctMembers]
  | cons m ms ih =>
    obtain ⟨k, v⟩ := m
    simp [DistinctMembers, ih]

theorem distinct_arr {items : List Document} :
    Distinct (.arr items) ↔ ∀ d ∈ items, Distinct d := by
  rw [Distinct, distinctItems_iff]

theorem distinct_obj {members : Members} :
    Distinct (.obj members) ↔ (Members.keys members).Nodup ∧ ∀ m ∈ members, Distinct m.2 := by
  rw [Distinct, distinctMembers_iff]
  rfl

theorem Distinct.get? {members : Members} (h : Distinct (.obj members)) {key : String}
    {v : Document} (hv : Members.get? key members = some v) : Distinct v :=
  (distinct_obj.1 h).2 _ (Members.mem_of_get? hv)

mutual

/-- Distinct keys can be decided by a walk through the document. -/
def decideDistinct : (d : Document) → Decidable (Distinct d)
  | .arr items => decideDistinctItems items
  | .obj members => @instDecidableAnd _ _ inferInstance (decideDistinctMembers members)
  | .null | .bool _ | .num _ | .str _ => .isTrue trivial

def decideDistinctItems : (items : List Document) → Decidable (DistinctItems items)
  | [] => .isTrue trivial
  | d :: ds => @instDecidableAnd _ _ (decideDistinct d) (decideDistinctItems ds)

def decideDistinctMembers : (members : List (String × Document)) →
    Decidable (DistinctMembers members)
  | [] => .isTrue trivial
  | (_, v) :: ms => @instDecidableAnd _ _ (decideDistinct v) (decideDistinctMembers ms)

end

instance : DecidablePred Distinct := decideDistinct

/-! ## Equality by shape -/

/-- What equality says, by the shape of the left document. -/
def EqualSpec : Document → Document → Prop
  | .null, d => .null = d
  | .bool a, d => .bool a = d
  | .num m, d => ∃ n, d = .num n ∧ m.equal n = true
  | .str s, d => .str s = d
  | .arr as, d => ∃ bs, d = .arr bs ∧ List.Forall₂ (fun a b => equal a b = true) as bs
  | .obj as, d => ∃ bs, d = .obj bs ∧ as.length = bs.length ∧
      ∀ m ∈ as, ∃ b, Members.get? m.1 bs = some b ∧ equal m.2 b = true

theorem equalItems_iff (as bs : List Document) :
    equalItems as bs = true ↔ List.Forall₂ (fun a b => equal a b = true) as bs := by
  induction as generalizing bs with
  | nil => cases bs <;> simp [equalItems]
  | cons a as ih => cases bs <;> simp [equalItems, ih]

theorem equalMembers_iff (as : List (String × Document)) (bs : Members) :
    equalMembers as bs = true ↔
      ∀ m ∈ as, ∃ b, Members.get? m.1 bs = some b ∧ equal m.2 b = true := by
  induction as with
  | nil => simp [equalMembers]
  | cons m as ih =>
    obtain ⟨k, a⟩ := m
    cases hg : Members.get? k bs with
    | none => simp [equalMembers, hg]
    | some b => simp [equalMembers, hg, ih]

/-- Equality satisfies its characterization by shape, and nothing else does. -/
theorem equal_iff {a b : Document} : equal a b = true ↔ EqualSpec a b := by
  cases a with
  | null => cases b <;> simp [equal, EqualSpec]
  | bool x => cases b <;> simp [equal, EqualSpec]
  | num m => cases b <;> simp [equal, EqualSpec]
  | str s => cases b <;> simp [equal, EqualSpec]
  | arr as => cases b <;> simp [equal, EqualSpec, equalItems_iff]
  | obj as => cases b <;> simp [equal, EqualSpec, equalMembers_iff]

theorem equal_arr {as bs : List Document} :
    equal (.arr as) (.arr bs) = true ↔ List.Forall₂ (fun a b => equal a b = true) as bs :=
  equalItems_iff as bs

theorem equal_obj {as bs : Members} :
    equal (.obj as) (.obj bs) = true ↔ as.length = bs.length ∧
      ∀ m ∈ as, ∃ b, Members.get? m.1 bs = some b ∧ equal m.2 b = true := by
  show (as.length == bs.length && equalMembers as bs) = true ↔ _
  rw [Bool.and_eq_true, beq_iff_eq, equalMembers_iff]

/-! ## An equivalence -/

theorem equal_refl {d : Document} : Distinct d → equal d d = true := by
  induction d using Document.induction with
  | null | bool | str => simp [equal]
  | num n => cases n <;> simp [equal, Number.equal, Binary64.equal_refl]
  | arr items ih =>
    intro hd
    rw [equal_arr, List.forall₂_same]
    exact fun d hm => ih d hm (distinct_arr.1 hd d hm)
  | obj members ih =>
    intro hd
    obtain ⟨hn, hd⟩ := distinct_obj.1 hd
    rw [equal_obj]
    exact ⟨rfl, fun m hm => ⟨m.2, Members.get?_of_mem hn hm, ih m hm (hd m hm)⟩⟩

theorem equal_trans {a b c : Document} :
    equal a b = true → equal b c = true → equal a c = true := by
  induction a using Document.induction generalizing b c with
  | null | bool | str =>
    intro hab hbc
    rw [equal_iff] at hab
    cases hab
    exact hbc
  | num n =>
    intro hab hbc
    rw [equal_iff] at hab
    obtain ⟨m, rfl, hnm⟩ := hab
    rw [equal_iff] at hbc
    obtain ⟨l, rfl, hml⟩ := hbc
    exact Number.equal_trans hnm hml
  | arr as ih =>
    intro hab hbc
    rw [equal_iff] at hab
    obtain ⟨bs, rfl, hab⟩ := hab
    rw [equal_iff] at hbc
    obtain ⟨cs, rfl, hbc⟩ := hbc
    rw [equal_arr]
    exact forall₂_trans hab hbc fun a ha _ _ => ih a ha
  | obj as ih =>
    intro hab hbc
    rw [equal_iff] at hab
    obtain ⟨bs, rfl, hlen, hab⟩ := hab
    rw [equal_iff] at hbc
    obtain ⟨cs, rfl, hlen', hbc⟩ := hbc
    rw [equal_obj]
    refine ⟨hlen.trans hlen', fun m hm => ?_⟩
    obtain ⟨b, hb, hmb⟩ := hab m hm
    obtain ⟨c, hc, hbc⟩ := hbc _ (Members.mem_of_get? hb)
    exact ⟨c, hc, ih m hm hmb hbc⟩

/-- Equal objects hold equal values in the same order, once the members of one of them are put in
the order of the other. -/
theorem exists_perm_of_equal_obj {as bs : Members} (ha : (Members.keys as).Nodup)
    (hb : (Members.keys bs).Nodup) (h : equal (.obj as) (.obj bs) = true) :
    ∃ cs : Members, cs.Perm bs ∧
      List.Forall₂ (fun m n => m.1 = n.1 ∧ equal m.2 n.2 = true) as cs := by
  obtain ⟨hlen, h⟩ := equal_obj.1 h
  induction as generalizing bs with
  | nil =>
    have hbs : bs = [] := List.length_eq_zero_iff.1 hlen.symm
    exact ⟨[], by rw [hbs], .nil⟩
  | cons m as ih =>
    obtain ⟨k, a⟩ := m
    obtain ⟨hk, ha⟩ := List.nodup_cons.1 ha
    obtain ⟨b, hget, hab⟩ := h _ List.mem_cons_self
    -- take the member found on the right out of its list, and go on with what is left
    obtain ⟨s, t, rfl⟩ := List.append_of_mem (Members.mem_of_get? hget)
    have hperm : ((k, b) :: (s ++ t)).Perm (s ++ (k, b) :: t) := List.perm_middle.symm
    have hb' : (Members.keys ((k, b) :: (s ++ t))).Nodup :=
      (hperm.map Prod.fst).nodup_iff.2 hb
    obtain ⟨-, hrest⟩ := List.nodup_cons.1 hb'
    have hmem : ∀ m ∈ as, ∃ c, Members.get? m.1 (s ++ t) = some c ∧ equal m.2 c = true := by
      intro m hm
      obtain ⟨c, hc, hmc⟩ := h m (List.mem_cons_of_mem _ hm)
      refine ⟨c, Members.get?_of_mem hrest ?_, hmc⟩
      rcases List.mem_cons.1 (hperm.mem_iff.2 (Members.mem_of_get? hc)) with e | hin
      · have hmk : m.1 = k := congrArg Prod.fst e
        have hkey : m.1 ∈ Members.keys as := Members.mem_keys_of_mem hm
        exact absurd (hmk ▸ hkey) hk
      · exact hin
    have hlen' : as.length = (s ++ t).length := by
      simp only [List.length_cons, List.length_append] at hlen ⊢
      omega
    obtain ⟨cs, hcs, hall⟩ := ih ha hrest (equal_obj.2 ⟨hlen', hmem⟩) hlen' hmem
    exact ⟨(k, b) :: cs, (hcs.cons _).trans hperm, .cons ⟨rfl, hab⟩ hall⟩

/-- A key leads to equal values in equal objects, or to nothing in both. -/
theorem get?_of_equal_obj {as bs : Members} (ha : (Members.keys as).Nodup)
    (hb : (Members.keys bs).Nodup) (h : equal (.obj as) (.obj bs) = true) (key : String) :
    (Members.get? key as = none ∧ Members.get? key bs = none) ∨
      ∃ a b, Members.get? key as = some a ∧ Members.get? key bs = some b ∧ equal a b = true := by
  cases hga : Members.get? key as with
  | some a =>
    obtain ⟨b, hgb, hab⟩ := (equal_obj.1 h).2 _ (Members.mem_of_get? hga)
    exact .inr ⟨a, b, rfl, hgb, hab⟩
  | none =>
    refine .inl ⟨rfl, Members.get?_eq_none_iff.2 fun hkey => ?_⟩
    obtain ⟨cs, hperm, hall⟩ := exists_perm_of_equal_obj ha hb h
    obtain ⟨n, hn, rfl⟩ := List.mem_map.1 hkey
    obtain ⟨m, hm, hmn, -⟩ := exists_mem_of_forall₂ hall (hperm.mem_iff.2 hn)
    exact Members.get?_eq_none_iff.1 hga (hmn ▸ Members.mem_keys_of_mem hm)

theorem equal_symm {a b : Document} :
    Distinct a → Distinct b → equal a b = true → equal b a = true := by
  induction a using Document.induction generalizing b with
  | null | bool | str =>
    intro _ _ h
    have h' := h
    rw [equal_iff] at h'
    cases h'
    exact h
  | num n =>
    intro _ _ h
    rw [equal_iff] at h
    obtain ⟨m, rfl, h⟩ := h
    rw [equal, Number.equal_comm]
    exact h
  | arr as ih =>
    intro ha hb h
    rw [equal_iff] at h
    obtain ⟨bs, rfl, h⟩ := h
    rw [distinct_arr] at ha hb
    rw [equal_arr]
    refine List.Forall₂.flip (forall₂_imp h fun a hm b hm' hab => ?_)
    exact ih a hm (ha a hm) (hb b hm') hab
  | obj as ih =>
    intro ha hb h
    have h' := h
    rw [equal_iff] at h'
    obtain ⟨bs, rfl, hlen, -⟩ := h'
    obtain ⟨hna, ha⟩ := distinct_obj.1 ha
    obtain ⟨hnb, hb⟩ := distinct_obj.1 hb
    obtain ⟨cs, hperm, hall⟩ := exists_perm_of_equal_obj hna hnb h
    rw [equal_obj]
    refine ⟨hlen.symm, fun n hn => ?_⟩
    obtain ⟨m, hm, hkey, hmn⟩ := exists_mem_of_forall₂ hall (hperm.mem_iff.2 hn)
    refine ⟨m.2, ?_, ih m hm (ha m hm) (hb n hn) hmn⟩
    rw [← hkey]
    exact Members.get?_of_mem hna hm

theorem equal_comm {a b : Document} (ha : Distinct a) (hb : Distinct b) : equal a b = equal b a :=
  Bool.eq_iff_iff.2 ⟨equal_symm ha hb, equal_symm hb ha⟩

end Document

end SchemaLoom
