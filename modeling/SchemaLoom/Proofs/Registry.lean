import SchemaLoom.Proofs.Identity
import SchemaLoom.Proofs.SortedMap
import SchemaLoom.Proofs.Workspace.Resources
import SchemaLoom.FileSystem.Tree
import SchemaLoom.Registry

/-!
# Registered documents and their identities

A document is registered under the identity that it states, or under the one that its workspace
gives it, and then it comes to state that one.  A stated identity has been read.  A given one has
not: it is made of the scheme, the name of a directory and a name in a configuration, and these may
be any text.

- `Stated`: a document states an identity, as it is read or as it is written.
- `Registered.stated_add`, `Registered.stated_ofReadings`: every registered document does so.
- `register_stated`: what is read from a registered document, for every file system.
- `register_unreadable`: a name with a blank gives an identity that is not read.
-/

namespace SchemaLoom

/-! ## The versions that workspaces give -/

namespace Workspace

variable {w : Workspace}

theorem version_lt_of_ofConfig {given root config : Path} {d : Document}
    (h : ofConfig given root config d = .ok w) :
    ∀ r ∈ w.resources, r.version < Numeral.wordLimit := by
  unfold ofConfig at h
  split at h
  next rs hrs =>
    cases h
    intro r hr
    obtain ⟨r', hr', rfl⟩ := List.mem_map.1 hr
    exact Resource.version_lt_of_listOf? hrs r' hr'
  next => cases h

/-- The versions of a workspace that was loaded fit into 64 bits. -/
theorem version_lt_of_load {fs : FileSystem Id} {dir : Path} (h : (load fs dir).run = .ok w) :
    ∀ r ∈ w.resources, r.version < Numeral.wordLimit := by
  unfold load at h
  simp only [Id.run, bind, pure] at h
  split at h
  next => cases h
  next =>
    split at h
    next => cases h
    next =>
      split at h
      next => cases h
      next => cases h
      next =>
        split at h
        next => cases h
        next => exact version_lt_of_ofConfig h

/-- The versions in the identities that a workspace gives fit into 64 bits. -/
theorem version_lt_of_mem_claims (h : ∀ r ∈ w.resources, r.version < Numeral.wordLimit)
    {scheme : String} : ∀ c ∈ w.claims scheme, c.2.version < Numeral.wordLimit := by
  intro c hc
  obtain ⟨r, hr, hc⟩ := List.mem_flatMap.1 hc
  obtain ⟨path, -, rfl⟩ := List.mem_map.1 hc
  exact h r hr

end Workspace

/-! ## Reading workspaces -/

/-- What is read of the workspace in a directory: every document that it claims, as its file is. -/
theorem run_readWorkspace (fs : FileSystem Id) (scheme : String) (dir : Path) :
    (readWorkspace fs scheme dir).run =
      ⟨dir, (Workspace.load fs dir).run.map fun w =>
        (w, (w.claims scheme).map fun c => ⟨c.1, c.2, (load fs c.1).run⟩)⟩ := by
  unfold readWorkspace
  simp only [Id.run_bind]
  cases (Workspace.load fs dir).run with
  | error e => rfl
  | ok w => simp [Except.map]

theorem run_register (fs : FileSystem Id) (scheme : String) (dirs : List Path) :
    (register fs scheme dirs).run =
      .ofReadings (dirs.map fun dir => (readWorkspace fs scheme dir).run) := by
  simp [register, readWorkspaces]

/-- The identities that a workspace gives to its documents have versions that fit into 64 bits. -/
def WorkspaceReading.Bounded (reading : WorkspaceReading) : Prop :=
  ∀ w sources, reading.found = .ok (w, sources) →
    ∀ s ∈ sources, s.given.version < Numeral.wordLimit

theorem bounded_readWorkspace (fs : FileSystem Id) (scheme : String) (dir : Path) :
    (readWorkspace fs scheme dir).run.Bounded := by
  intro w sources h s hs
  rw [run_readWorkspace] at h
  cases hload : (Workspace.load fs dir).run with
  | error e =>
    rw [hload] at h
    cases h
  | ok w' =>
    rw [hload] at h
    cases h
    obtain ⟨c, hc, rfl⟩ := List.mem_map.1 hs
    exact Workspace.version_lt_of_mem_claims (Workspace.version_lt_of_load hload) c hc

/-! ## What registered documents state -/

/-- What a document states under the key of identities. -/
def Document.statedId? : Document → Option String
  | .obj members => (Members.get? idKey members).bind asString?
  | _ => none

/-- A document states an identity: by a text from which the identity is read, or by the text that
is written for it. -/
def Stated (id : Identity) (d : Document) : Prop :=
  ∃ text, d.statedId? = some text ∧
    (Identity.parse? text = some id ∨ text = id.text ∧ id.version < Numeral.wordLimit)

theorem Source.stated_of_identified {s : Source} {id : Identity} {d : Document}
    (hs : s.given.version < Numeral.wordLimit) (h : s.identified = .ok (id, d)) : Stated id d := by
  unfold identified at h
  split at h
  next => cases h
  next members _ =>
    unfold identify at h
    split at h
    next =>
      -- the given identity is written into the document, but it is not read
      cases h
      refine ⟨s.given.text, ?_, .inr ⟨rfl, hs⟩⟩
      rw [Document.statedId?, Members.get?_insert, if_pos rfl]
      rfl
    next text htext =>
      split at h
      next hid =>
        cases h
        refine ⟨text, ?_, .inl hid⟩
        rw [Document.statedId?, htext]
        rfl
      next => cases h
    next => cases h
  next => cases h

namespace Registered

/-- A source is admitted under its identity, unless that is wrong or taken. -/
theorem admission_eq_ok_iff {r : Registered} {s : Source} {id : Identity} {d : Document} :
    r.admission s = .ok (id, d) ↔
      s.identified = .ok (id, d) ∧ r.registry.contains id = false := by
  unfold admission
  cases s.identified with
  | error e => simp
  | ok found =>
    obtain ⟨id', d'⟩ := found
    dsimp only
    split
    next htaken =>
      constructor
      · intro h
        cases h
      · rintro ⟨⟨⟩, hfree⟩
        rw [htaken] at hfree
        cases hfree
    next hfree =>
      constructor
      · rintro ⟨⟩
        exact ⟨rfl, Bool.eq_false_iff.2 hfree⟩
      · exact And.left

/-- Every registered document states the identity that it is registered under. -/
def AllStated (r : Registered) : Prop :=
  ∀ id e, r.registry.get? id = some e → Stated id e.document

theorem stated_add {r : Registered} {s : Source} (hr : r.AllStated)
    (hs : s.given.version < Numeral.wordLimit) : (r.add s).AllStated := by
  unfold add
  split
  next => exact hr
  next id d hadmission =>
    obtain ⟨hid, -⟩ := admission_eq_ok_iff.1 hadmission
    intro id' e he
    dsimp only at he
    -- one more identity is set, and what is registered under the others stays
    by_cases hsame : id' = id
    · subst hsame
      rw [SortedMap.get?_insert_self] at he
      cases he
      exact Source.stated_of_identified hs hid
    · rw [SortedMap.get?_insert_of_ne _ (Ne.symm hsame)] at he
      exact hr id' e he

theorem stated_foldl_add {sources : List Source} {r : Registered} (hr : r.AllStated)
    (hsources : ∀ s ∈ sources, s.given.version < Numeral.wordLimit) :
    (sources.foldl add r).AllStated := by
  induction sources generalizing r with
  | nil => exact hr
  | cons s rest ih =>
    obtain ⟨hs, hrest⟩ := List.forall_mem_cons.1 hsources
    exact ih (stated_add hr hs) hrest

theorem stated_addWorkspace {r : Registered} {w : WorkspaceReading} (hr : r.AllStated)
    (hw : w.Bounded) : (r.addWorkspace w).AllStated := by
  unfold addWorkspace
  split
  next => exact hr
  next workspace sources hfound => exact stated_foldl_add hr (hw workspace sources hfound)

theorem stated_ofReadings {readings : List WorkspaceReading} (h : ∀ w ∈ readings, w.Bounded) :
    (ofReadings readings).AllStated := by
  have hrun : ∀ r : Registered, r.AllStated → (readings.foldl addWorkspace r).AllStated := by
    induction readings with
    | nil => exact fun _ hr => hr
    | cons w rest ih =>
      obtain ⟨hw, hrest⟩ := List.forall_mem_cons.1 h
      exact fun r hr => ih hrest _ (stated_addWorkspace hr hw)
  exact hrun empty nofun

end Registered

/-! ## Look-ups by what is stated -/

/-- The text of an identity looks up the whole document that is registered under it. -/
theorem Registry.lookup_of_parse? {r : Registry} {text : String} {id : Identity}
    (h : Identity.parse? text = some id) : r.lookup text = (r.get? id).map Entry.document := by
  have hkind : Reference.kind ⟨text⟩ = .qualified id none := by
    unfold Identity.parse? at h
    split at h
    next hq =>
      cases h
      exact hq
    next => cases h
  rw [lookup, hkind]
  exact Option.map_eq_bind.symm

/-- Every registered document states an identity, and the one it is registered under is read from
what it states exactly if the names in that one hold the characters of their kind.  Then the
document is looked up by what it states. -/
theorem register_stated (fs : FileSystem Id) (scheme : String) (dirs : List Path) :
    ∀ p ∈ (register fs scheme dirs).run.registry.entries, ∃ text,
      p.2.document.statedId? = some text ∧
      (Identity.parse? text = some p.1 ↔ p.1.WellNamed) ∧
      (p.1.WellNamed →
        (register fs scheme dirs).run.registry.lookup text = some p.2.document) := by
  rintro ⟨id, e⟩ hp
  have hget := SortedMap.get?_eq_some_iff.2 hp
  have hstated : Stated id e.document := by
    rw [run_register] at hget
    refine Registered.stated_ofReadings (fun w hw => ?_) id e hget
    obtain ⟨dir, -, rfl⟩ := List.mem_map.1 hw
    exact bounded_readWorkspace fs scheme dir
  obtain ⟨text, htext, hread⟩ := hstated
  have hiff : Identity.parse? text = some id ↔ id.WellNamed := by
    rcases hread with hread | ⟨rfl, hv⟩
    · exact ⟨fun h => (Identity.parse?_eq_some_iff.1 h).1, fun _ => hread⟩
    · exact Identity.parse?_text_iff hv
  refine ⟨text, htext, hiff, fun hid => ?_⟩
  rw [Registry.lookup_of_parse? (hiff.2 hid), hget]
  rfl

/-! ## Names that are not read back -/

/-- A file system that holds one directory with some files in it. -/
def FileSystem.ofDirectory (dir : Path) (files : List (String × String)) : FileSystem Id where
  holds p := p = dir || files.any fun f => dir.join ⟨f.1⟩ == p
  isFile p := files.any fun f => dir.join ⟨f.1⟩ == p
  read p :=
    match files.find? fun f => dir.join ⟨f.1⟩ == p with
    | some f => .ok f.2
    | none => .error FileFault.notFound.message
  names p := if p = dir then .ok (files.map Prod.fst) else .error FileFault.notFound.message
  canonical p := if p = dir then .ok p else .error FileFault.notFound.message
  current := .ok ⟨"/"⟩

/-- A workspace of one document, which states no identity, under a resource of some name. -/
def FileSystem.ofResource (name : String) : FileSystem Id :=
  .ofDirectory ⟨"/ws"⟩ [("jsmn-forge.yaml",
    "resources:\n  - name: " ++ name ++ "\n    version: 0\n    openapi: [x.yaml]\n"),
    ("x.yaml", "openapi: 3.1.0\n")]

/-- What is registered for a file system: the identities, and what the documents state. -/
def statedPairs (fs : FileSystem Id) : List (Identity × Option String) :=
  (register fs "forge" [⟨"/ws"⟩]).run.registry.entries.map fun p => (p.1, p.2.document.statedId?)

/-- A document under a name that can be read is found by the identity that it was given. -/
theorem register_stated_given :
    ∃ p ∈ (register (.ofResource "a-b") "forge" [⟨"/ws"⟩]).run.registry.entries,
      p.1 = ⟨"forge", "ws", "a-b", 0⟩ ∧ p.1.WellNamed ∧
        p.2.document.statedId? = some "forge://ws/a-b/v0" ∧
        Identity.parse? "forge://ws/a-b/v0" = some p.1 ∧
        (register (.ofResource "a-b") "forge" [⟨"/ws"⟩]).run.registry.lookup "forge://ws/a-b/v0" =
          some p.2.document := by
  have hpairs : statedPairs (.ofResource "a-b") =
      [(⟨"forge", "ws", "a-b", 0⟩, some "forge://ws/a-b/v0")] := by decide +kernel
  obtain ⟨p, hp, hpair⟩ := List.mem_map.1 (hpairs ▸ List.mem_singleton_self _)
  obtain ⟨hid, hstates⟩ := Prod.mk.inj hpair
  have hnamed : p.1.WellNamed := by
    rw [hid]
    decide +kernel
  obtain ⟨text, htext, hread, hlookup⟩ := register_stated _ _ _ p hp
  cases htext.symm.trans hstates
  exact ⟨p, hp, hid, hnamed, hstates, hread.2 hnamed, hlookup hnamed⟩

/-- A resource may be named by any text, and with a blank in the name the identity is not read from
the document that is registered under it. -/
theorem register_unreadable :
    ¬ ∀ (fs : FileSystem Id) (scheme : String) (dirs : List Path),
      ∀ p ∈ (register fs scheme dirs).run.registry.entries, ∃ text,
        p.2.document.statedId? = some text ∧ Identity.parse? text = some p.1 := by
  intro h
  have hpairs : statedPairs (.ofResource "a b") =
      [(⟨"forge", "ws", "a b", 0⟩, some "forge://ws/a b/v0")] := by decide +kernel
  obtain ⟨p, hp, hpair⟩ := List.mem_map.1 (hpairs ▸ List.mem_singleton_self _)
  obtain ⟨text, htext, hread⟩ := h _ _ _ p hp
  cases htext.symm.trans (congrArg Prod.snd hpair)
  have hnone : Identity.parse? "forge://ws/a b/v0" = none := by decide +kernel
  cases hnone.symm.trans hread

end SchemaLoom
