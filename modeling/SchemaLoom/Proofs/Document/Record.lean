import SchemaLoom.Document.Record
import SchemaLoom.Proofs.Document.Equality
import SchemaLoom.Proofs.Except

/-!
# What a record is read from

A reader gives a value exactly if the document is a form of that value.  For each reader of a field
this says which documents they are; what a record is read from follows by taking the readers of its
fields one after the other.

- `Record.required_eq_ok_iff`, `Record.optional_eq_ok_iff`: the field of a key.
- `Record.items_eq_ok_iff`, `Record.items_eq_error_iff`: the items of a list.
- `Record.string_eq_ok_iff`, `Record.word_eq_ok_iff`, `Record.list_eq_ok_iff`,
  `Record.strings_eq_ok_iff`: the values of a type.
-/

namespace SchemaLoom

variable {α : Type}

namespace Record

variable {members : Members} {key expected : String} {d : Document}

/-! ## Fields -/

theorem members_eq_ok_iff {name : String} : Record.members name d = .ok members ↔
    d = .obj members := by
  cases d with
  | obj | null | bool | num | str | arr => simp [Record.members]

theorem required_eq_ok_iff {read : Document → Except RecordFault α} {x : α} :
    required key read members = .ok x ↔
      ∃ v, Members.get? key members = some v ∧ read v = .ok x := by
  unfold required
  cases Members.get? key members with
  | some | none => simp

theorem optional_eq_ok_iff {read : Document → Except RecordFault (List α)} {xs : List α} :
    optional key read members = .ok xs ↔
      (∃ v, Members.get? key members = some v ∧ read v = .ok xs) ∨
        (Members.get? key members = none ∧ xs = []) := by
  unfold optional
  cases Members.get? key members with
  | some | none => simp [eq_comm]

/-! ## Values -/

theorem string_eq_ok_iff {s : String} : string expected d = .ok s ↔ d = .str s := by
  cases d with
  | obj | null | bool | num | str | arr => simp [string]

/-- A word is read from an integer that is no negative one and fits into 64 bits; a double is none,
also where it has no fraction. -/
theorem word_eq_ok_iff {n : Nat} :
    word d = .ok n ↔ d = .num (.int n) ∧ n < Numeral.wordLimit := by
  cases d with
  | null | bool | str | arr | obj => simp [word]
  | num number =>
    cases number with
    | float => simp [word]
    | int i =>
      rw [word]
      split
      next hrange =>
        simp only [Except.ok.injEq, Document.num.injEq, Number.int.injEq]
        omega
      next hrange =>
        simp only [reduceCtorEq, Document.num.injEq, Number.int.injEq, false_iff]
        rintro ⟨rfl, hn⟩
        omega

theorem items_eq_ok_iff {read : Document → Except RecordFault α} {ds : List Document}
    {xs : List α} : items read ds = .ok xs ↔ List.Forall₂ (fun d x => read d = .ok x) ds xs := by
  induction ds generalizing xs with
  | nil => simp [items, eq_comm]
  | cons d ds ih =>
    rw [items, List.forall₂_cons_left_iff]
    cases read d with
    | error fault => simp
    | ok x => simp [map_eq_ok_iff, ih, eq_comm (a := xs)]

/-- A list has the fault of its first item that has one. -/
theorem items_eq_error_iff {read : Document → Except RecordFault α} {ds : List Document}
    {fault : RecordFault} : items read ds = .error fault ↔
      ∃ before d rest, ds = before ++ d :: rest ∧ (∀ x ∈ before, ∃ y, read x = .ok y) ∧
        read d = .error fault := by
  induction ds with
  | nil => simp [items]
  | cons d ds ih =>
    rw [items]
    cases hd : read d with
    | error fault' =>
      constructor
      · rintro ⟨⟩
        exact ⟨[], d, ds, rfl, nofun, hd⟩
      · rintro ⟨before, d', rest, hds, hbefore, hd'⟩
        cases before with
        | nil =>
          cases hds
          cases hd.symm.trans hd'
          rfl
        | cons x before =>
          cases hds
          obtain ⟨y, hy⟩ := hbefore d List.mem_cons_self
          cases hd.symm.trans hy
    | ok y =>
      dsimp only
      rw [map_eq_error_iff, ih]
      constructor
      · rintro ⟨before, d', rest, rfl, hbefore, hd'⟩
        exact ⟨d :: before, d', rest, rfl, List.forall_mem_cons.2 ⟨⟨y, hd⟩, hbefore⟩, hd'⟩
      · rintro ⟨before, d', rest, hds, hbefore, hd'⟩
        cases before with
        | nil =>
          cases hds
          cases hd.symm.trans hd'
        | cons x before =>
          cases hds
          exact ⟨before, d', rest, rfl, (List.forall_mem_cons.1 hbefore).2, hd'⟩

theorem list_eq_ok_iff {read : Document → Except RecordFault α} {xs : List α} :
    list read d = .ok xs ↔
      ∃ ds, d = .arr ds ∧ List.Forall₂ (fun d x => read d = .ok x) ds xs := by
  cases d with
  | arr ds => simp [list, items_eq_ok_iff]
  | obj | null | bool | num | str => simp [list]

/-- A list of strings. -/
theorem strings_eq_ok_iff {ss : List String} :
    list (string expected) d = .ok ss ↔ d = .arr (ss.map .str) := by
  simp [list_eq_ok_iff, string_eq_ok_iff, forall₂_eq_map_iff]

end Record

end SchemaLoom
