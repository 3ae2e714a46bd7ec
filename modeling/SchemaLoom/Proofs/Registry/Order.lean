import SchemaLoom.Proofs.Registry.Accounting

/-!
# The order of workspaces

Each thing that registering comes upon either puts forward a document under an identity, or is
wrong.  This depends on nothing that was registered before.  What was registered decides only
whether the identity is still free: the first document with an identity is registered, and every
later one is an error.

- `Finding.offer?`, `Finding.fault?`: the document that is put forward, or what is wrong.
- `Registered.Reflects`: a registry is what is put forward first, and its errors are the faults, up
  to taken identities.  It holds at first, and stays with every step (`Registered.Reflects.take`).
- `register_perm`: the order of the directories decides between documents with one identity, and
  nothing else.
-/

namespace SchemaLoom

/-- Whether an error is that an identity was taken. -/
def WorkspaceError.isDuplicate : WorkspaceError → Bool
  | .duplicateIdentity _ _ => true
  | _ => false

/-! ## What is put forward -/

namespace Source

/-- The document that is put forward, with its identity and file. -/
def offer? (s : Source) : Option (Identity × Entry) :=
  match s.identified with
  | .error _ => none
  | .ok (identity, d) => some (identity, ⟨s.path, d⟩)

theorem offer?_eq_some_iff {s : Source} {id : Identity} {e : Entry} :
    s.offer? = some (id, e) ↔ s.identified = .ok (id, e.document) ∧ s.path = e.path := by
  obtain ⟨path, document⟩ := e
  unfold offer?
  cases s.identified with
  | error => simp
  | ok found =>
    obtain ⟨id', d⟩ := found
    simp only [Option.some.injEq, Prod.mk.injEq, Entry.mk.injEq, Except.ok.injEq]
    exact ⟨fun ⟨hid, hp, hd⟩ => ⟨⟨hid, hd⟩, hp⟩, fun ⟨⟨hid, hd⟩, hp⟩ => ⟨hid, hp, hd⟩⟩

/-- The identity and the members of a document give the document that is put forward: an identity
that is not stated is the given one. -/
theorem document_of_identify {path : Path} {given id : Identity} {members : Members}
    {d : Document} (h : identify path given members = .ok (id, d)) :
    d = match Members.get? idKey members with
      | none => .obj (Members.insert idKey (.str id.text) members)
      | some _ => .obj members := by
  unfold identify at h
  split at h
  next hnone =>
    cases h
    rw [hnone]
  next hsome =>
    split at h
    next =>
      cases h
      rw [hsome]
    next => cases h
  next => cases h

/-- One file puts forward one document under an identity, whoever lists it. -/
theorem document_eq_of_identified {s s' : Source} {id : Identity} {d d' : Document}
    (hloaded : s.loaded = s'.loaded) (h : s.identified = .ok (id, d))
    (h' : s'.identified = .ok (id, d')) : d = d' := by
  unfold identified at h h'
  rw [← hloaded] at h'
  split at h
  next => cases h
  next members hmembers =>
    rw [hmembers] at h'
    rw [document_of_identify h, document_of_identify h']
  next => cases h

end Source

namespace Finding

/-- The document that is put forward, with its identity and file. -/
def offer? : Finding → Option (Identity × Entry)
  | .error _ => none
  | .ok s => s.offer?

/-- What is wrong, whatever is registered. -/
def fault? : Finding → Option WorkspaceError
  | .error e => some e
  | .ok s =>
    match s.identified with
    | .error e => some e
    | .ok _ => none

end Finding

/-- The documents that are put forward, in order. -/
def offers (findings : List Finding) : List (Identity × Entry) :=
  findings.filterMap Finding.offer?

/-- What is wrong, whatever is registered. -/
def faults (findings : List Finding) : List WorkspaceError :=
  findings.filterMap Finding.fault?

theorem offers_append (findings rest : List Finding) :
    offers (findings ++ rest) = offers findings ++ offers rest :=
  List.filterMap_append

theorem faults_append (findings rest : List Finding) :
    faults (findings ++ rest) = faults findings ++ faults rest :=
  List.filterMap_append

/-! ## What is registered -/

namespace Registered

variable {r : Registered} {findings : List Finding}

/-- What a step does, by what it comes upon: a fault is an error, and a document is registered if its
identity is free and costs an error if it is taken. -/
theorem take_cases (r : Registered) (finding : Finding) :
    (∃ e, faults [finding] = [e] ∧ offers [finding] = [] ∧ r.take finding = r.fail e) ∨
    (∃ id e, faults [finding] = [] ∧ offers [finding] = [(id, e)] ∧
      ((∃ e', r.registry.get? id = some e') ∧
          r.take finding = r.fail (.duplicateIdentity e.path id) ∨
        r.registry.get? id = none ∧
          r.take finding = ⟨r.registry.insert id e, r.errors⟩)) := by
  cases finding with
  | error e => exact .inl ⟨e, rfl, rfl, rfl⟩
  | ok s =>
    simp only [faults, offers, List.filterMap_cons, List.filterMap_nil, Finding.fault?,
      Finding.offer?, Source.offer?, take, add, admission, SortedMap.contains]
    cases s.identified with
    | error e => exact .inl ⟨e, rfl, rfl, rfl⟩
    | ok found =>
      obtain ⟨id, d⟩ := found
      refine .inr ⟨id, ⟨s.path, d⟩, rfl, rfl, ?_⟩
      cases hget : r.registry.get? id with
      | none => exact .inr ⟨rfl, by simp [hget]⟩
      | some e' => exact .inl ⟨⟨e', rfl⟩, by simp [hget]⟩

/-- What registering has gone through decides what is registered: the first document with an
identity.  The errors are the faults, apart from those about taken identities, and without these no
identity came twice. -/
structure Reflects (findings : List Finding) (r : Registered) : Prop where
  registered : ∀ id, r.registry.get? id =
    ((offers findings).find? fun o => o.1 = id).map Prod.snd
  faults : r.errors.filter (!·.isDuplicate) = (faults findings).filter (!·.isDuplicate)
  fresh : (∀ e ∈ r.errors, e.isDuplicate = false) → ((offers findings).map Prod.fst).Nodup

theorem reflects_empty : empty.Reflects [] where
  registered _ := rfl
  faults := rfl
  fresh _ := List.nodup_nil

theorem Reflects.take (h : r.Reflects findings) (finding : Finding) :
    (r.take finding).Reflects (findings ++ [finding]) := by
  rcases take_cases r finding with ⟨e, hfaults, hoffers, htake⟩ |
    ⟨id, e, hfaults, hoffers, ⟨⟨e', htaken⟩, htake⟩ | ⟨hfree, htake⟩⟩
  · -- a fault
    rw [htake]
    refine ⟨fun k => ?_, ?_, fun herrors => ?_⟩
    · rw [offers_append, hoffers, List.append_nil]
      exact h.registered k
    · rw [faults_append, hfaults, List.filter_append, ← h.faults, ← List.filter_append]
      rfl
    · rw [offers_append, hoffers, List.append_nil]
      exact h.fresh fun e he => herrors e (List.mem_append_left _ he)
  · -- a document whose identity is taken
    rw [htake]
    refine ⟨fun k => ?_, ?_, fun herrors => ?_⟩
    · rw [offers_append, hoffers, List.find?_append]
      have hk := h.registered k
      show r.registry.get? k = _
      cases hfind : (offers findings).find? fun o => o.1 = k with
      | some o =>
        rw [hfind] at hk
        exact hk
      | none =>
        have hne : id ≠ k := by
          rintro rfl
          rw [hfind, htaken] at hk
          cases hk
        rw [hfind] at hk
        simpa [hne] using hk
    · rw [faults_append, hfaults, List.append_nil, ← h.faults, fail, List.filter_append]
      exact List.append_nil _
    · have hlast := herrors (.duplicateIdentity e.path id) (by simp [fail])
      cases hlast
  · -- a document whose identity is free
    rw [htake]
    have hnone : (offers findings).find? (fun o => o.1 = id) = none := by
      have hid := h.registered id
      rwa [hfree, eq_comm, Option.map_eq_none_iff] at hid
    refine ⟨fun k => ?_, ?_, fun herrors => ?_⟩
    · rw [offers_append, hoffers, List.find?_append]
      dsimp only
      by_cases hk : id = k
      · subst hk
        rw [SortedMap.get?_insert_self, hnone]
        simp
      · rw [SortedMap.get?_insert_of_ne _ hk, h.registered]
        simp [hk]
    · rw [faults_append, hfaults, List.append_nil]
      exact h.faults
    · rw [offers_append, hoffers, List.map_append]
      refine List.nodup_append'.2 ⟨h.fresh herrors, List.nodup_singleton _, ?_⟩
      intro k hk hid
      obtain rfl : k = id := List.mem_singleton.1 hid
      obtain ⟨o, ho, rfl⟩ := List.mem_map.1 hk
      have hno := List.find?_eq_none.1 hnone o ho
      simp at hno

theorem reflects_foldl_take (findings : List Finding) :
    (findings.foldl take empty).Reflects findings := by
  induction findings using List.reverseRecOn with
  | nil => exact reflects_empty
  | append_singleton findings finding ih =>
    rw [List.foldl_concat]
    exact ih.take finding

/-- An identity is registered exactly if a document was put forward under it. -/
theorem Reflects.isSome_get?_iff (h : r.Reflects findings) {id : Identity} :
    (r.registry.get? id).isSome = true ↔ id ∈ (offers findings).map Prod.fst := by
  rw [h.registered, Option.isSome_map, List.find?_isSome]
  simp

/-- Where one document alone was put forward under an identity, this one is registered. -/
theorem Reflects.get?_eq_some_iff (h : r.Reflects findings) {id : Identity}
    (hone : ∀ e e', (id, e) ∈ offers findings → (id, e') ∈ offers findings → e = e') {e : Entry} :
    r.registry.get? id = some e ↔ (id, e) ∈ offers findings := by
  have hfound : ∀ e, r.registry.get? id = some e → (id, e) ∈ offers findings := by
    intro e he
    rw [h.registered, Option.map_eq_some_iff] at he
    obtain ⟨⟨id', e'⟩, hfind, rfl⟩ := he
    have hid : id' = id := by simpa using List.find?_some hfind
    exact hid ▸ List.mem_of_find?_eq_some hfind
  refine ⟨hfound e, fun he => ?_⟩
  have hsome := h.isSome_get?_iff.2 (List.mem_map_of_mem he)
  obtain ⟨e', he'⟩ := Option.isSome_iff_exists.1 hsome
  rw [he', hone e' e (hfound e' he') he]

end Registered

/-! ## Directories in another order -/

theorem reflects_register (fs : FileSystem Id) (scheme : String) (dirs : List Path) :
    (register fs scheme dirs).run.Reflects (findingsIn fs scheme dirs) := by
  rw [run_register_eq_foldl]
  exact Registered.reflects_foldl_take _

/-- Everything that is gone through is an entry or an error. -/
theorem length_keys_add_length_errors (fs : FileSystem Id) (scheme : String) (dirs : List Path) :
    (register fs scheme dirs).run.registry.keys.length +
      (register fs scheme dirs).run.errors.length = (findingsIn fs scheme dirs).length := by
  rw [run_register_eq_foldl, SortedMap.keys, List.length_map]
  exact (Registered.accounted_foldl_take _ _).trans (Nat.zero_add _)

/-- What a file holds does not depend on where it is listed. -/
theorem loaded_of_mem_findingsIn {fs : FileSystem Id} {scheme : String} {dirs : List Path}
    {s : Source} (h : .ok s ∈ findingsIn fs scheme dirs) : s.loaded = (load fs s.path).run := by
  obtain ⟨dir, -, hs⟩ := List.mem_flatMap.1 h
  rw [run_readWorkspace] at hs
  cases hload : (Workspace.load fs dir).run with
  | error e =>
    rw [hload] at hs
    simp [Except.map, WorkspaceReading.findings] at hs
  | ok w =>
    rw [hload] at hs
    simp only [Except.map, WorkspaceReading.findings, List.map_map, List.mem_map,
      Function.comp_apply, Except.ok.injEq] at hs
    obtain ⟨c, -, rfl⟩ := hs
    rfl

/-- The documents that the workspaces in some directories put forward, with their identities. -/
def offersIn (fs : FileSystem Id) (scheme : String) (dirs : List Path) : List (Identity × Entry) :=
  offers (findingsIn fs scheme dirs)

/-- A file puts forward one document under an identity, wherever it is listed. -/
theorem entry_eq_of_mem_offersIn {fs : FileSystem Id} {scheme : String} {dirs : List Path}
    {id : Identity} {e e' : Entry} (h : (id, e) ∈ offersIn fs scheme dirs)
    (h' : (id, e') ∈ offersIn fs scheme dirs) (hpath : e.path = e'.path) : e = e' := by
  have hsource : ∀ e, (id, e) ∈ offersIn fs scheme dirs → ∃ s : Source,
      s.loaded = (load fs e.path).run ∧ s.identified = .ok (id, e.document) := by
    intro e he
    obtain ⟨finding, hfinding, hoffer⟩ := List.mem_filterMap.1 he
    cases finding with
    | error => cases hoffer
    | ok s =>
      obtain ⟨hidentified, hs⟩ := Source.offer?_eq_some_iff.1 hoffer
      exact ⟨s, hs ▸ loaded_of_mem_findingsIn hfinding, hidentified⟩
  obtain ⟨s, hloaded, hs⟩ := hsource e h
  obtain ⟨s', hloaded', hs'⟩ := hsource e' h'
  have hdocument : e.document = e'.document :=
    Source.document_eq_of_identified (by rw [hloaded, hloaded', hpath]) hs hs'
  obtain ⟨path, document⟩ := e
  cases hpath
  cases hdocument
  rfl

/-- The order of the directories decides only which of the documents with one identity is
registered.  In any order the same identities are registered, there are as many errors, and the
errors are the same but for those about taken identities.  A file that alone puts a document forward
under an identity has it registered, and if no identity is taken twice the registry is the same. -/
theorem register_perm (fs : FileSystem Id) (scheme : String) {dirs dirs' : List Path}
    (h : dirs.Perm dirs') :
    let r := (register fs scheme dirs).run
    let r' := (register fs scheme dirs').run
    r.registry.keys = r'.registry.keys ∧
    r.errors.length = r'.errors.length ∧
    (r.errors.filter (!·.isDuplicate)).Perm (r'.errors.filter (!·.isDuplicate)) ∧
    (∀ id e, (id, e) ∈ offersIn fs scheme dirs →
      (∀ e', (id, e') ∈ offersIn fs scheme dirs → e'.path = e.path) →
      r.registry.get? id = some e ∧ r'.registry.get? id = some e) ∧
    ((∀ e ∈ r.errors, e.isDuplicate = false) → r.registry = r'.registry) := by
  intro r r'
  have hfindings : (findingsIn fs scheme dirs).Perm (findingsIn fs scheme dirs') :=
    h.flatMap_right _
  have hoffers : (offersIn fs scheme dirs).Perm (offersIn fs scheme dirs') :=
    hfindings.filterMap _
  have hr : r.Reflects (findingsIn fs scheme dirs) := reflects_register fs scheme dirs
  have hr' : r'.Reflects (findingsIn fs scheme dirs') := reflects_register fs scheme dirs'
  have hkeys : r.registry.keys = r'.registry.keys := by
    refine SortedMap.keys_eq_of_isSome fun id => Bool.eq_iff_iff.2 ?_
    rw [hr.isSome_get?_iff, hr'.isSome_get?_iff]
    exact (hoffers.map _).mem_iff
  have hone : ∀ id, (∀ e e', (id, e) ∈ offersIn fs scheme dirs →
      (id, e') ∈ offersIn fs scheme dirs → e = e') →
      ∀ e, (r.registry.get? id = some e ↔ (id, e) ∈ offersIn fs scheme dirs) ∧
        (r'.registry.get? id = some e ↔ (id, e) ∈ offersIn fs scheme dirs) := by
    intro id hid e
    refine ⟨hr.get?_eq_some_iff hid, ?_⟩
    rw [hoffers.mem_iff]
    refine hr'.get?_eq_some_iff fun e e' he he' => ?_
    exact hid e e' (hoffers.mem_iff.2 he) (hoffers.mem_iff.2 he')
  refine ⟨hkeys, ?_, ?_, fun id e he hpath => ?_, fun hfresh => ?_⟩
  · -- each of the findings is an entry or an error, and there are as many entries
    have hcount : r.registry.keys.length + r.errors.length = (findingsIn fs scheme dirs).length :=
      length_keys_add_length_errors fs scheme dirs
    have hcount' : r'.registry.keys.length + r'.errors.length =
        (findingsIn fs scheme dirs').length :=
      length_keys_add_length_errors fs scheme dirs'
    rw [← hkeys, ← hfindings.length_eq, ← hcount] at hcount'
    exact (Nat.add_left_cancel hcount').symm
  · rw [hr.faults, hr'.faults]
    exact (hfindings.filterMap _).filter _
  · have hid : ∀ a b, (id, a) ∈ offersIn fs scheme dirs → (id, b) ∈ offersIn fs scheme dirs →
        a = b :=
      fun a b ha hb => entry_eq_of_mem_offersIn ha hb ((hpath a ha).trans (hpath b hb).symm)
    exact ⟨(hone id hid e).1.2 he, (hone id hid e).2.2 he⟩
  · have hnodup := hr.fresh hfresh
    refine SortedMap.ext_get? fun id => Option.ext fun e => ?_
    have hid : ∀ a b, (id, a) ∈ offersIn fs scheme dirs → (id, b) ∈ offersIn fs scheme dirs →
        a = b := by
      intro a b ha hb
      exact congrArg Prod.snd (List.inj_on_of_nodup_map hnodup ha hb rfl)
    rw [(hone id hid e).1, (hone id hid e).2]

/-- A file system that holds some directories, each with some files in it. -/
def FileSystem.ofDirectories (dirs : List (Path × List (String × String))) : FileSystem Id :=
  let files := dirs.flatMap fun d => d.2.map fun f => (d.1.join ⟨f.1⟩, f.2)
  { holds p := dirs.any (·.1 = p) || files.any (·.1 = p)
    isFile p := files.any (·.1 = p)
    read p := ((files.find? (·.1 = p)).map Prod.snd).elim (.error FileFault.notFound.message) .ok
    names p := ((dirs.find? (·.1 = p)).map fun d => d.2.map Prod.fst).elim
      (.error FileFault.notFound.message) .ok
    canonical p := if dirs.any (·.1 = p) then .ok p else .error FileFault.notFound.message
    current := .ok ⟨"/"⟩ }

/-- Two workspaces, each with a document that states one identity, and one with a document that
states none. -/
def FileSystem.ofRivals : FileSystem Id :=
  .ofDirectories [
    (⟨"/a"⟩, [("jsmn-forge.yaml",
      "resources:\n  - name: own\n    version: 0\n    openapi: [x.yaml, y.yaml]\n"),
      ("x.yaml", "openapi: 3.1.0\n"), ("y.yaml", "$id: forge://m/r/v1\n")]),
    (⟨"/b"⟩, [("jsmn-forge.yaml",
      "resources:\n  - name: other\n    version: 0\n    openapi: [z.yaml]\n"),
      ("z.yaml", "$id: forge://m/r/v1\n")])]

/-- The order of two workspaces decides between the documents with one identity.  The document that
has its identity to itself is registered in both orders, and a directory without a workspace may
come first or last. -/
theorem register_perm_rivals :
    let ab := (register .ofRivals "forge" [⟨"/a"⟩, ⟨"/b"⟩]).run
    let ba := (register .ofRivals "forge" [⟨"/b"⟩, ⟨"/a"⟩]).run
    let own : Identity := ⟨"forge", "a", "own", 0⟩
    let common : Identity := ⟨"forge", "m", "r", 1⟩
    List.Perm (α := Path) [⟨"/a"⟩, ⟨"/b"⟩] [⟨"/b"⟩, ⟨"/a"⟩] ∧
    (ab.registry.get? common).map Entry.path = some ⟨"/a/y.yaml"⟩ ∧
    (ba.registry.get? common).map Entry.path = some ⟨"/b/z.yaml"⟩ ∧
    ab.registry.keys = ba.registry.keys ∧ ab.errors.length = ba.errors.length ∧
    (ab.errors.filter (!·.isDuplicate)).Perm (ba.errors.filter (!·.isDuplicate)) ∧
    (∃ e, (own, e) ∈ offersIn .ofRivals "forge" [⟨"/a"⟩, ⟨"/b"⟩] ∧ e.path = ⟨"/a/x.yaml"⟩ ∧
      ab.registry.get? own = some e ∧ ba.registry.get? own = some e) ∧
    let an := (register .ofRivals "forge" [⟨"/a"⟩, ⟨"/none"⟩]).run
    (∀ e ∈ an.errors, e.isDuplicate = false) ∧
      an.registry = (register .ofRivals "forge" [⟨"/none"⟩, ⟨"/a"⟩]).run.registry := by
  intro ab ba own common
  have hswap : List.Perm (α := Path) [⟨"/a"⟩, ⟨"/b"⟩] [⟨"/b"⟩, ⟨"/a"⟩] := .swap _ _ _
  obtain ⟨hkeys, hlength, herrors, hone, -⟩ := register_perm .ofRivals "forge" hswap
  -- what is read is evaluated once, for all that is said about it
  obtain ⟨hoffers, hfresh, hab, hba⟩ :
      (offersIn .ofRivals "forge" [⟨"/a"⟩, ⟨"/b"⟩]).map (fun o => (o.1, o.2.path)) =
        [(own, ⟨"/a/x.yaml"⟩), (common, ⟨"/a/y.yaml"⟩), (common, ⟨"/b/z.yaml"⟩)] ∧
      (∀ e ∈ (register .ofRivals "forge" [⟨"/a"⟩, ⟨"/none"⟩]).run.errors,
        e.isDuplicate = false) ∧
      (ab.registry.get? common).map Entry.path = some ⟨"/a/y.yaml"⟩ ∧
      (ba.registry.get? common).map Entry.path = some ⟨"/b/z.yaml"⟩ := by
    decide +kernel
  have hown : ∀ e, (own, e) ∈ offersIn .ofRivals "forge" [⟨"/a"⟩, ⟨"/b"⟩] →
      e.path = ⟨"/a/x.yaml"⟩ := by
    intro e he
    have hmem := hoffers ▸ List.mem_map_of_mem he
    simpa [own, common] using hmem
  obtain ⟨⟨id, e⟩, he, hpair⟩ := List.mem_map.1 (hoffers ▸ List.mem_cons_self)
  obtain ⟨rfl, hpath⟩ := Prod.mk.inj hpair
  refine ⟨hswap, hab, hba, hkeys, hlength, herrors,
    ⟨e, he, hpath, hone own e he fun e' he' => (hown e' he').trans hpath.symm⟩, hfresh, ?_⟩
  exact (register_perm .ofRivals "forge" (.swap _ _ _)).2.2.2.2 hfresh

end SchemaLoom
