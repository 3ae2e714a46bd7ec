import SchemaLoom.Grammar.OpenApi
import SchemaLoom.Joining
import SchemaLoom.Proofs.Merge.Conflicts
import SchemaLoom.Proofs.Merge.Permutation
import SchemaLoom.Proofs.Normalization.NormalForms

/-!
# Joining as a merge

Joining files is merging the normal forms of those documents that could be loaded.  A file that
could not be loaded is told of, and makes no other difference, wherever it comes.

- `loadedDocuments`, `loadErrors`: what files give.
- `Joined.Merges`: what has been joined is what a merge gives.  It holds at first, and stays with
  every file (`Joined.Merges.add`), so it holds at the end (`merges_join`).
- `Supplies`: a document holds the source of a conflict at the location of the conflict.
- `join_eq_mergeAll`: value, conflicts, their files and errors of what has been joined.
-/

namespace SchemaLoom

variable {g : Grammar} {scheme : Scheme}
variable {files : List (Path × Except LoadError Document)} {docs : List (Path × Document)}
variable {j : Joined}

/-! ## What files give -/

/-- The normal form of the document of a file, with the file. -/
def loadedDocument? (g : Grammar) (scheme : Scheme) :
    Path × Except LoadError Document → Option (Path × Document)
  | (p, .ok d) => some (p, normalize g scheme d)
  | (_, .error _) => none

/-- The normal forms of the documents that files give, each with its file. -/
def loadedDocuments (g : Grammar) (scheme : Scheme)
    (files : List (Path × Except LoadError Document)) : List (Path × Document) :=
  files.filterMap (loadedDocument? g scheme)

/-- Why a file gives no document. -/
def loadError? : Path × Except LoadError Document → Option LoadError
  | (_, .ok _) => none
  | (_, .error e) => some e

/-- The errors of files. -/
def loadErrors (files : List (Path × Except LoadError Document)) : List LoadError :=
  files.filterMap loadError?

theorem filterMap_concat {α β : Type} (f : α → Option β) (xs : List α) (x : α) :
    (xs ++ [x]).filterMap f = xs.filterMap f ++ (f x).toList := by
  rw [List.filterMap_append, List.filterMap_cons]
  cases f x <;> rfl

/-- Only the files that give a document count for the documents. -/
theorem loadedDocuments_filter (g : Grammar) (scheme : Scheme)
    (files : List (Path × Except LoadError Document)) :
    loadedDocuments g scheme (files.filter fun file => file.2.isOk) =
      loadedDocuments g scheme files := by
  rw [loadedDocuments, List.filterMap_filter]
  refine List.filterMap_congr fun file _ => ?_
  obtain ⟨p, e | d⟩ := file <;> rfl

theorem loadedDocuments_eq_nil_iff :
    loadedDocuments g scheme files = [] ↔ ∀ file ∈ files, file.2.isOk = false := by
  rw [loadedDocuments, List.filterMap_eq_nil_iff]
  refine forall₂_congr fun file _ => ?_
  obtain ⟨p, e | d⟩ := file
  · exact iff_of_true rfl rfl
  · exact iff_of_false (fun h => nomatch h) Bool.true_eq_false.mp

/-! ## One file after the other -/

/-- The conflicts that a document brings to those before it, marked with its file. -/
def broughtBy (g : Grammar) (before : List (Path × Document)) (file : Path × Document) :
    List JoinConflict :=
  (mergeAll? g (before.map Prod.snd)).elim [] fun acc =>
    (merge g acc.value file.2).conflicts.map (⟨file.1, ·⟩)

/-- The conflicts that each document brings to those before it. -/
def allBrought (g : Grammar) (docs : List (Path × Document)) : List JoinConflict :=
  docs.zipIdx.flatMap fun p => broughtBy g (docs.take p.2) p.1

theorem allBrought_concat (docs : List (Path × Document)) (file : Path × Document) :
    allBrought g (docs ++ [file]) = allBrought g docs ++ broughtBy g docs file := by
  have hbefore : docs.zipIdx.flatMap (fun p => broughtBy g ((docs ++ [file]).take p.2) p.1) =
      allBrought g docs := by
    refine List.flatMap_congr fun p hp => ?_
    obtain ⟨hlt, -⟩ := List.getElem?_eq_some_iff.1 (List.mk_mem_zipIdx_iff_getElem?.1 hp)
    rw [List.take_append_of_le_length (Nat.le_of_lt hlt)]
  rw [allBrought, List.zipIdx_append, List.flatMap_append, hbefore, List.zipIdx_singleton,
    List.flatMap_singleton, Nat.zero_add, List.take_left]

/-- What has been joined is what the documents give when they are merged in order, and each conflict
is marked with the file that brought it. -/
structure Joined.Merges (g : Grammar) (docs : List (Path × Document)) (j : Joined) : Prop where
  value : j.value = (mergeAll? g (docs.map Prod.snd)).map Merged.value
  conflicts : j.conflicts.map JoinConflict.conflict =
    (mergeAll? g (docs.map Prod.snd)).elim [] Merged.conflicts
  brought : j.conflicts = allBrought g docs

namespace Joined

/-! What one more document adds to each field. -/

theorem value_addDocument (j : Joined) (p : Path) (d : Document) :
    (j.addDocument g p d).value = some (j.value.elim d fun value => (merge g value d).value) := by
  unfold Joined.addDocument
  cases j.value <;> rfl

theorem conflicts_addDocument (j : Joined) (p : Path) (d : Document) :
    (j.addDocument g p d).conflicts = j.conflicts ++
      j.value.elim [] fun value => (merge g value d).conflicts.map (⟨p, ·⟩) := by
  unfold Joined.addDocument
  cases j.value with
  | none => exact (List.append_nil _).symm
  | some value => rfl

theorem errors_addDocument (j : Joined) (p : Path) (d : Document) :
    (j.addDocument g p d).errors = j.errors := by
  unfold Joined.addDocument
  cases j.value <;> rfl

theorem Merges.empty (g : Grammar) : Joined.empty.Merges g [] :=
  ⟨rfl, rfl, rfl⟩

/-- One more document keeps what has been joined in step with a merge. -/
theorem Merges.addDocument (h : j.Merges g docs) (p : Path) (d : Document) :
    (j.addDocument g p d).Merges g (docs ++ [(p, d)]) where
  value := by
    rw [value_addDocument, h.value, List.map_append, List.map_singleton, mergeAll_concat]
    cases mergeAll? g (docs.map Prod.snd) <;> rfl
  conflicts := by
    rw [conflicts_addDocument, List.map_append, h.conflicts, h.value, List.map_append,
      List.map_singleton, mergeAll_concat]
    cases mergeAll? g (docs.map Prod.snd) with
    | none => rfl
    | some acc =>
      have hfile : JoinConflict.conflict ∘ (⟨p, ·⟩ : Conflict → JoinConflict) = id := rfl
      simp [hfile, Merged.andThen]
  brought := by
    rw [conflicts_addDocument, allBrought_concat, ← h.brought, h.value, broughtBy]
    cases mergeAll? g (docs.map Prod.snd) <;> rfl

/-- One more file does so too: its document comes last, if it has one. -/
theorem Merges.add (h : j.Merges g docs) (scheme : Scheme)
    (file : Path × Except LoadError Document) :
    (j.add g scheme file).Merges g (docs ++ (loadedDocument? g scheme file).toList) := by
  obtain ⟨p, e | d⟩ := file
  · rw [loadedDocument?, Option.toList_none, List.append_nil]
    exact ⟨h.value, h.conflicts, h.brought⟩
  · exact h.addDocument p _

/-- One more file adds its error, if it has one. -/
theorem errors_add (j : Joined) (scheme : Scheme) (file : Path × Except LoadError Document) :
    (j.add g scheme file).errors = j.errors ++ (loadError? file).toList := by
  obtain ⟨p, e | d⟩ := file
  · rfl
  · exact (errors_addDocument j p _).trans (List.append_nil _).symm

end Joined

/-! ## All files -/

theorem join_concat (files : List (Path × Except LoadError Document))
    (file : Path × Except LoadError Document) :
    join g scheme (files ++ [file]) = (join g scheme files).add g scheme file :=
  List.foldl_concat ..

theorem merges_join : (join g scheme files).Merges g (loadedDocuments g scheme files) := by
  induction files using List.reverseRecOn with
  | nil => exact .empty g
  | append_singleton files file ih =>
    rw [join_concat, loadedDocuments, filterMap_concat]
    exact ih.add scheme file

theorem errors_join : (join g scheme files).errors = loadErrors files := by
  induction files using List.reverseRecOn with
  | nil => rfl
  | append_singleton files file ih =>
    rw [join_concat, Joined.errors_add, ih, loadErrors, loadErrors, filterMap_concat]

/-! ## Where a conflict comes from -/

/-- A document holds the source of a conflict at the location of the conflict, alone or among the
items of an array. -/
def Supplies (d : Document) (c : Conflict) : Prop :=
  ∃ s, c.location.resolve d = some s ∧ (s = c.source ∨ ∃ items, s = .arr items ∧ c.source ∈ items)

/-- The source of a merge supplies the conflicts. -/
theorem supplies_of_mem_conflicts {dst src : Document} (hd : src.Distinct) (ha : src.Addressable)
    {c : Conflict} (hc : c ∈ (merge g dst src).conflicts) : Supplies src c := by
  obtain ⟨path, t, d, s, hmeet, hloc, -, hclash⟩ := exists_clash_of_mem_conflicts hd hc
  obtain ⟨hs, -⟩ := hmeet.symm.resolve ha
  have hresolve : c.location.resolve src = some s := by
    rw [hloc]
    exact hs
  refine ⟨s, hresolve, ?_⟩
  cases hclash with
  | leaf => exact .inl rfl
  | item => exact .inr ⟨_, rfl, by simp⟩

theorem mem_broughtBy {file : Path × Document} {c : JoinConflict} :
    c ∈ broughtBy g docs file ↔ ∃ acc, mergeAll? g (docs.map Prod.snd) = some acc ∧
      c.conflict ∈ (merge g acc.value file.2).conflicts ∧ c.file = file.1 := by
  unfold broughtBy
  cases hm : mergeAll? g (docs.map Prod.snd) with
  | none =>
    constructor
    · intro hc
      cases hc
    · rintro ⟨acc, h, -⟩
      cases h
  | some acc =>
    rw [Option.elim_some, List.mem_map]
    constructor
    · rintro ⟨conflict, hc, rfl⟩
      exact ⟨acc, rfl, hc, rfl⟩
    · rintro ⟨acc', h, hc, hfile⟩
      cases h
      exact ⟨c.conflict, hc, by rw [← hfile]⟩

theorem mem_allBrought {c : JoinConflict} :
    c ∈ allBrought g docs ↔
      ∃ i d, docs[i]? = some (c.file, d) ∧ c ∈ broughtBy g (docs.take i) (c.file, d) := by
  rw [allBrought, List.mem_flatMap]
  constructor
  · rintro ⟨⟨⟨p, d⟩, i⟩, hi, hc⟩
    obtain ⟨-, -, -, hfile⟩ := mem_broughtBy.1 hc
    refine ⟨i, d, ?_, ?_⟩
    · rw [hfile]
      exact List.mk_mem_zipIdx_iff_getElem?.1 hi
    · rw [hfile]
      exact hc
  · rintro ⟨i, d, hi, hc⟩
    exact ⟨((c.file, d), i), List.mk_mem_zipIdx_iff_getElem?.2 hi, hc⟩

/-- The normal form of a well-formed document is well-formed. -/
theorem wellFormed_of_mem_loadedDocuments
    (hfiles : ∀ file ∈ files, ∀ d, file.2 = .ok d → d.Distinct ∧ d.Addressable)
    {file : Path × Document} (h : file ∈ loadedDocuments g scheme files) :
    file.2.Distinct ∧ file.2.Addressable := by
  obtain ⟨⟨p, e | d⟩, hm, hfile⟩ := List.mem_filterMap.1 h
  · cases hfile
  · cases hfile
    obtain ⟨hd, ha⟩ := hfiles (p, .ok d) hm d rfl
    exact ⟨distinct_normalizeAt hd, addressable_normalizeAt ha⟩

/-! ## Joining files -/

/-- Joining files merges the normal forms of the documents that could be loaded.  Each conflict is
one that a document brings to those before it, and this document, whose file the conflict names,
holds the source of the conflict where the conflict is.  The errors are those of the files in their
order, and files that could not be loaded may be left out or put in anywhere. -/
theorem join_eq_mergeAll (g : Grammar) (scheme : Scheme)
    (hfiles : ∀ file ∈ files, ∀ d, file.2 = .ok d → d.Distinct ∧ d.Addressable) :
    let docs := loadedDocuments g scheme files
    let joined := join g scheme files
    joined.value = (mergeAll? g (docs.map Prod.snd)).map Merged.value ∧
      (joined.value = none ↔ ∀ file ∈ files, file.2.isOk = false) ∧
      joined.conflicts.map JoinConflict.conflict =
        (mergeAll? g (docs.map Prod.snd)).elim [] Merged.conflicts ∧
      joined.conflicts = allBrought g docs ∧
      (∀ c ∈ joined.conflicts, ∃ i d, docs[i]? = some (c.file, d) ∧
        c ∈ broughtBy g (docs.take i) (c.file, d) ∧ Supplies d c.conflict) ∧
      joined.errors = loadErrors files ∧
      ∀ files' : List (Path × Except LoadError Document),
        files'.filter (fun file => file.2.isOk) = files.filter (fun file => file.2.isOk) →
          (join g scheme files').value = joined.value ∧
            (join g scheme files').conflicts = joined.conflicts := by
  intro docs joined
  have hjoined : joined.Merges g docs := merges_join
  refine ⟨hjoined.value, ?_, hjoined.conflicts, hjoined.brought, ?_, errors_join, ?_⟩
  · rw [hjoined.value, Option.map_eq_none_iff, mergeAll_eq_none_iff, List.map_eq_nil_iff]
    exact loadedDocuments_eq_nil_iff
  · intro c hc
    rw [hjoined.brought] at hc
    obtain ⟨i, d, hi, hbrought⟩ := mem_allBrought.1 hc
    obtain ⟨acc, -, hconflict, -⟩ := mem_broughtBy.1 hbrought
    obtain ⟨hd, ha⟩ := wellFormed_of_mem_loadedDocuments hfiles (List.mem_of_getElem? hi)
    exact ⟨i, d, hi, hbrought, supplies_of_mem_conflicts hd ha hconflict⟩
  · intro files' hloaded
    -- both give the same documents, which are all that value and conflicts hang on
    have hdocs : loadedDocuments g scheme files' = docs := by
      rw [← loadedDocuments_filter, hloaded, loadedDocuments_filter]
    have hjoined' : (join g scheme files').Merges g docs := hdocs ▸ merges_join
    exact ⟨hjoined'.value.trans hjoined.value.symm, hjoined'.brought.trans hjoined.brought.symm⟩

/-- Two files disagree with the first one that could be loaded, and one comes twice; with or without
the two that could not be loaded, the value is that of the first and the conflicts name the files
of the others. -/
theorem join_eq_mergeAll_titles :
    let titled (title : String) : Document := .obj [("info", .obj [("title", .str title)])]
    let missing : Path × Except LoadError Document := (⟨"m.yaml"⟩, .error (.notFound ⟨"m.yaml"⟩))
    let a : Path × Except LoadError Document := (⟨"a.yaml"⟩, .ok (titled "A"))
    let b : Path × Except LoadError Document := (⟨"b.yaml"⟩, .ok (titled "B"))
    let c : Path × Except LoadError Document := (⟨"c.yaml"⟩, .ok (titled "C"))
    let files := [missing, a, missing, b, c, b]
    let joined := join .openApi .default files
    (∀ file ∈ files, ∀ d, file.2 = .ok d → d.Distinct ∧ d.Addressable) ∧
      joined.value = some (titled "A") ∧
      joined.conflicts.map JoinConflict.file = [⟨"b.yaml"⟩, ⟨"c.yaml"⟩, ⟨"b.yaml"⟩] ∧
      joined.errors = [.notFound ⟨"m.yaml"⟩, .notFound ⟨"m.yaml"⟩] ∧
      (join .openApi .default [a, b, c, b]).conflicts = joined.conflicts := by
  intro titled missing a b c files joined
  have hfiles : ∀ file ∈ files, ∀ d, file.2 = .ok d → d.Distinct ∧ d.Addressable := by
    intro file hm d hd
    have hgiven : d ∈ [titled "A", titled "B", titled "C"] := by
      simp only [files, List.mem_cons, List.not_mem_nil, or_false] at hm
      rcases hm with rfl | rfl | rfl | rfl | rfl | rfl <;> cases hd <;> simp
    have hdistinct : ∀ d ∈ [titled "A", titled "B", titled "C"], d.Distinct := by decide
    refine ⟨hdistinct d hgiven, ?_⟩
    simp only [List.mem_cons, List.not_mem_nil, or_false] at hgiven
    rcases hgiven with rfl | rfl | rfl <;> exact ⟨⟨trivial, trivial⟩, trivial⟩
  obtain ⟨hvalue, -, -, hbrought, -, herrors, hsame⟩ := join_eq_mergeAll .openApi .default hfiles
  refine ⟨hfiles, hvalue.trans ?_, ?_, herrors, (hsame [a, b, c, b] rfl).2⟩
  · rfl
  · decide +kernel

end SchemaLoom
