import SchemaLoom.Proofs.Registry
import SchemaLoom.Proofs.Validation

/-!
# What the schema of configurations lets through

The shape of a configuration is said twice, by the schema that it is checked against and by the
record that it is read as.  A document that the schema lets through is read, with one exception: the
schema asks for a number where the record has a version, and not every number is one.

- `VersionFits`: the version of an entry is one.
- `Resource.exists_writtenAs_iff`: the entries of the right shape that can be read.
- `Resource.versionFault_of_readAll`: the fault of a configuration that cannot.
- `Workspace.ofConfig_agreement`: which documents are refused and why, and what is read from the
  others.
-/

namespace SchemaLoom

/-! ## Two readings of one shape -/

/-- The entries that a configuration lists. -/
def Document.resourceEntries (d : Document) : List Document :=
  ((d.asObject?.bind (Members.get? "resources")).bind asArray?).getD []

/-- The version of an entry is an integer from 0 on that fits into 64 bits. -/
def VersionFits (e : Document) : Prop :=
  ∃ members i, e = .obj members ∧ Members.get? "version" members = some (.num (.int i)) ∧
    0 ≤ i ∧ i ≤ 0xFFFFFFFFFFFFFFFF

theorem Document.resourceEntries_obj {members : Members} {entries : List Document}
    (h : Members.get? "resources" members = some (.arr entries)) :
    (Document.obj members).resourceEntries = entries := by
  simp [resourceEntries, asObject?, asArray?, h]

/-- A key whose value is a list of strings, wherever it is there, lists some strings. -/
theorem exists_lists {members : Members} {key : String}
    (h : ∀ v, Members.get? key members = some v → StringsShape v) : ∃ ss, Lists members key ss := by
  cases hv : Members.get? key members with
  | none => exact ⟨[], .inr ⟨hv, rfl⟩⟩
  | some v =>
    obtain ⟨items, rfl, hitems⟩ := h v hv
    obtain ⟨ss, hss⟩ := forall_exists_iff_forall₂.1 hitems
    rw [forall₂_eq_map_iff] at hss
    exact ⟨ss, .inl (hss ▸ hv)⟩

namespace Resource

/-- An entry of the right shape is read exactly if its version fits. -/
theorem exists_writtenAs_iff {e : Document} (h : ResourceShape e) :
    (∃ r, WrittenAs e r) ↔ VersionFits e := by
  constructor
  · rintro ⟨r, members, he, -, hversion, hfits, -⟩
    refine ⟨members, r.version, he, hversion, Int.natCast_nonneg _, ?_⟩
    rw [Numeral.wordLimit] at hfits
    omega
  · rintro ⟨members, i, rfl, hversion, hpos, hfits⟩
    obtain ⟨_, ⟨⟩, ⟨_, hname, name, rfl⟩, -, hlists⟩ := h
    simp only [List.forall_mem_cons] at hlists
    obtain ⟨openapi, hopenapi⟩ := exists_lists hlists.1
    obtain ⟨asyncapi, hasyncapi⟩ := exists_lists hlists.2.1
    obtain ⟨conditions, hconditions⟩ := exists_lists hlists.2.2.1
    obtain ⟨n, rfl⟩ := Int.eq_ofNat_of_zero_le hpos
    refine ⟨⟨name, n, openapi.map Path.mk, asyncapi.map Path.mk, conditions⟩, members, rfl, hname,
      hversion, ?_, ?_, ?_, hconditions⟩
    · change n < Numeral.wordLimit
      rw [Numeral.wordLimit]
      omega
    · simpa [Function.comp_def] using hopenapi
    · simpa [Function.comp_def] using hasyncapi

/-- The version of an entry is a number that has a fault. -/
def VersionFault (e : Document) (fault : RecordFault) : Prop :=
  ∃ members n, e = .obj members ∧ Members.get? "version" members = some (.num n) ∧
    Record.word (.num n) = .error fault

/-- An entry of the right shape has no other fault than that of its version. -/
theorem versionFault_of_read {e : Document} {fault : RecordFault} (h : ResourceShape e)
    (hread : read e = .error fault) : VersionFault e fault := by
  have hshape := h
  obtain ⟨members, rfl, ⟨_, hname, name, rfl⟩, ⟨_, hversion, n, rfl⟩, -⟩ := h
  cases hword : Record.word (.num n) with
  | error fault' =>
    have hfault : read (.obj members) = .error fault' := by
      simp [read, Record.members, Record.required, hname, hversion, hword, Record.string, bind,
        Except.bind]
    cases hread.symm.trans hfault
    exact ⟨members, n, rfl, hversion, hword⟩
  | ok version =>
    -- then all of the entry is read
    obtain ⟨hn, hfits⟩ := Record.word_eq_ok_iff.1 hword
    rw [hn] at hversion
    rw [Numeral.wordLimit] at hfits
    obtain ⟨r, hr⟩ := (exists_writtenAs_iff hshape).2
      ⟨members, version, rfl, hversion, Int.natCast_nonneg _, by omega⟩
    cases hread.symm.trans (read_eq_ok_iff.2 hr)

theorem readAll_of_shape {d : Document} (h : ConfigShape d) :
    readAll d = Record.items read d.resourceEntries := by
  obtain ⟨members, rfl, _, hresources, entries, rfl, -⟩ := h
  rw [Document.resourceEntries_obj hresources]
  simp [readAll, Record.members, Record.required, Record.list, hresources, bind, Except.bind]

/-- The resources of a configuration are read from its entries, one from each. -/
theorem readAll_eq_ok_iff_of_shape {d : Document} {rs : List Resource} (h : ConfigShape d) :
    readAll d = .ok rs ↔ List.Forall₂ WrittenAs d.resourceEntries rs := by
  simp only [readAll_of_shape h, Record.items_eq_ok_iff, read_eq_ok_iff]

theorem resourceShape_of_mem {d e : Document} (h : ConfigShape d) (he : e ∈ d.resourceEntries) :
    ResourceShape e := by
  obtain ⟨members, rfl, _, hresources, entries, rfl, hentries⟩ := h
  rw [Document.resourceEntries_obj hresources] at he
  exact hentries e he

/-- A configuration of the right shape is read exactly if all versions fit. -/
theorem exists_readAll_eq_ok_iff {d : Document} (h : ConfigShape d) :
    (∃ rs, readAll d = .ok rs) ↔ ∀ e ∈ d.resourceEntries, VersionFits e := by
  simp only [readAll_eq_ok_iff_of_shape h, ← forall_exists_iff_forall₂]
  exact forall₂_congr fun e he => exists_writtenAs_iff (resourceShape_of_mem h he)

/-- A configuration of the right shape has the fault of the first version that does not fit. -/
theorem versionFault_of_readAll {d : Document} {fault : RecordFault} (h : ConfigShape d)
    (hread : readAll d = .error fault) : ∃ before e rest, d.resourceEntries = before ++ e :: rest ∧
      (∀ x ∈ before, VersionFits x) ∧ VersionFault e fault := by
  rw [readAll_of_shape h, Record.items_eq_error_iff] at hread
  obtain ⟨before, e, rest, hentries, hbefore, he⟩ := hread
  have hshape : ∀ x ∈ before ++ e :: rest, ResourceShape x :=
    fun x hx => resourceShape_of_mem h (hentries ▸ hx)
  refine ⟨before, e, rest, hentries, fun x hx => ?_, versionFault_of_read (hshape e ?_) he⟩
  · obtain ⟨r, hr⟩ := hbefore x hx
    exact (exists_writtenAs_iff (hshape x (List.mem_append_left _ hx))).1 ⟨r, read_eq_ok_iff.1 hr⟩
  · exact List.mem_append_right _ List.mem_cons_self

theorem listOf?_of_shape {d : Document} (h : ConfigShape d) :
    listOf? d = (readAll d).mapError .malformed := by
  rw [listOf?, validateConfig_eq_nil_iff.2 h]

theorem exists_listOf?_eq_invalid_iff {d : Document} :
    (∃ errors, listOf? d = .error (.invalid errors)) ↔ ¬ ConfigShape d := by
  rw [← validateConfig_eq_nil_iff]
  unfold listOf?
  split
  next h => simp [h, mapError_eq_error_iff]
  next h => exact iff_of_true ⟨_, rfl⟩ h

end Resource

/-! ## Workspaces -/

namespace Workspace

variable {given root config : Path} {d : Document}

theorem ofConfig_eq_error_iff {fault : ConfigFault} :
    ofConfig given root config d = .error (.config config fault) ↔
      Resource.listOf? d = .error fault := by
  unfold ofConfig
  cases Resource.listOf? d with
  | ok | error => simp

/-- What is found in a directory before its configuration is looked at. -/
structure Configured (fs : FileSystem Id) (dir given root config : Path) (d : Document) : Prop where
  given_eq : ∃ current, fs.current.run = .ok current ∧ given = current.join dir
  canonical : (fs.canonical dir).run = .ok root
  discovered : (discover fs root).run = .ok (some config)
  loaded : (SchemaLoom.load fs config).run = .ok d

theorem load_eq_ofConfig {fs : FileSystem Id} {dir : Path}
    (h : Configured fs dir given root config d) :
    (load fs dir).run = ofConfig given root config d := by
  obtain ⟨⟨current, hcurrent, rfl⟩, hroot, hconfig, hdocument⟩ := h
  simp only [Id.run] at hcurrent hroot hconfig hdocument
  simp [load, Id.run, bind, pure, hcurrent, hroot, hconfig, hdocument]

/-- A configuration is refused by the schema exactly if it has not the shape of one.  If it has, it
is refused as a record exactly if some version is no integer of 64 bits, with the fault of the first
such version; and else the workspace lists what its entries say, in their order and with the paths
followed from the root. -/
theorem ofConfig_agreement (given root config : Path) (d : Document) :
    (∀ fs dir, Configured fs dir given root config d →
      (load fs dir).run = ofConfig given root config d) ∧
    ((∃ errors, ofConfig given root config d = .error (.config config (.invalid errors))) ↔
      ¬ ConfigShape d) ∧
    (ConfigShape d →
      ((∃ fault, ofConfig given root config d = .error (.config config (.malformed fault))) ↔
        ∃ e ∈ d.resourceEntries, ¬ VersionFits e) ∧
      (∀ fault, ofConfig given root config d = .error (.config config (.malformed fault)) →
        ∃ before e rest, d.resourceEntries = before ++ e :: rest ∧
          (∀ x ∈ before, VersionFits x) ∧ Resource.VersionFault e fault) ∧
      ((∀ e ∈ d.resourceEntries, VersionFits e) →
        ∃ rs, List.Forall₂ Resource.WrittenAs d.resourceEntries rs ∧
          ofConfig given root config d =
            .ok ⟨nameOf given root, root, config, rs.map (Resource.under root)⟩)) := by
  refine ⟨fun _ _ => load_eq_ofConfig, ?_, fun h => ⟨?_, fun fault hfault => ?_, fun hfit => ?_⟩⟩
  · simp only [ofConfig_eq_error_iff, Resource.exists_listOf?_eq_invalid_iff]
  · simp only [ofConfig_eq_error_iff, Resource.listOf?_of_shape h, mapError_eq_error_iff,
      ConfigFault.malformed.injEq, exists_eq_right, exists_error_iff,
      Resource.exists_readAll_eq_ok_iff h, not_forall, exists_prop]
  · rw [ofConfig_eq_error_iff, Resource.listOf?_of_shape h, mapError_eq_error_iff] at hfault
    obtain ⟨_, hread, ⟨⟩⟩ := hfault
    exact Resource.versionFault_of_readAll h hread
  · obtain ⟨rs, hrs⟩ := (Resource.exists_readAll_eq_ok_iff h).2 hfit
    refine ⟨rs, (Resource.readAll_eq_ok_iff_of_shape h).1 hrs, ?_⟩
    rw [ofConfig, Resource.listOf?_of_shape h, hrs]
    rfl

/-- A configuration of one resource with some version, and with a key that says nothing. -/
def configOf (version : Number) : Document :=
  .obj [("resources", .arr [.obj [("name", .str "a"), ("version", .num version),
    ("openapi", .arr [.str "x.yaml"]), ("owner", .null)]])]

theorem configShape_configOf (version : Number) : ConfigShape (configOf version) := by
  refine ⟨_, rfl, _, rfl, _, rfl, List.forall_mem_singleton.2
    ⟨_, rfl, ⟨_, rfl, _, rfl⟩, ⟨_, rfl, _, rfl⟩, ?_⟩⟩
  simp [Members.get?_cons, StringsShape]

/-- The version 1 is read, and the version 1.0 is not, which the schema does not tell from it. -/
theorem ofConfig_agreement_versions :
    let dir : Path := ⟨"/ws"⟩
    let config : Path := ⟨"/ws/jsmn-forge.yaml"⟩
    let fs := FileSystem.ofDirectory dir
      [("jsmn-forge.yaml", "resources:\n  - name: a\n    version: 1.0\n")]
    let whole := configOf (.int 1)
    let fractional := configOf (.float ⟨false, 1023, 0⟩)
    (∃ d, Configured fs dir dir dir config d ∧ (load fs dir).run = ofConfig dir dir config d) ∧
    (ConfigShape whole ∧ (∀ e ∈ whole.resourceEntries, VersionFits e) ∧
      ∃ rs, List.Forall₂ Resource.WrittenAs whole.resourceEntries rs ∧
        ofConfig dir dir config whole =
          .ok ⟨nameOf dir dir, dir, config, rs.map (Resource.under dir)⟩) ∧
    ConfigShape fractional ∧ (∃ e ∈ fractional.resourceEntries, ¬ VersionFits e) ∧
      ∃ fault, ofConfig dir dir config fractional = .error (.config config (.malformed fault)) ∧
        ∃ e ∈ fractional.resourceEntries, Resource.VersionFault e fault := by
  intro dir config fs whole fractional
  have hloaded : (SchemaLoom.load fs config).run.toOption.isSome = true := by decide +kernel
  have hdiscovered : (discover fs dir).run.toOption = some (some config) := by decide +kernel
  have hwhole : ∀ e ∈ whole.resourceEntries, VersionFits e :=
    List.forall_mem_singleton.2 ⟨_, 1, rfl, rfl, by decide, by decide⟩
  have hfractional : ∃ e ∈ fractional.resourceEntries, ¬ VersionFits e := by
    refine ⟨_, List.mem_singleton_self _, ?_⟩
    rintro ⟨_, _, ⟨⟩, hversion, -⟩
    cases hversion
  refine ⟨?_, ⟨configShape_configOf _, hwhole, ?_⟩, configShape_configOf _, hfractional, ?_⟩
  · obtain ⟨d, hd⟩ := Option.isSome_iff_exists.1 hloaded
    have hfound : Configured fs dir dir dir config d :=
      ⟨⟨⟨"/"⟩, rfl, by decide +kernel⟩, rfl, toOption_eq_some_iff.1 hdiscovered,
        toOption_eq_some_iff.1 hd⟩
    exact ⟨d, hfound, (ofConfig_agreement dir dir config d).1 fs dir hfound⟩
  · exact ((ofConfig_agreement dir dir config whole).2.2 (configShape_configOf _)).2.2 hwhole
  · have h := (ofConfig_agreement dir dir config fractional).2.2 (configShape_configOf _)
    obtain ⟨fault, hfault⟩ := h.1.2 hfractional
    obtain ⟨before, e, rest, hentries, -, he⟩ := h.2.1 fault hfault
    exact ⟨fault, hfault, e, hentries ▸ List.mem_append_right _ List.mem_cons_self, he⟩

end Workspace

end SchemaLoom
