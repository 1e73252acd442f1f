import ImageRecipe.Proofs.Context.Lookalikes
import ImageRecipe.Proofs.Text.Reading

/-!
# Importing once more changes nothing

A Dockerfile that has been through an import names its sources as the archive does, each by one ordinary
name. A later import, on whatever host and with whatever options, may find something under such a name or
nothing; either way the name stays.

* `importPass` — the Dockerfile that the import of its sources leaves;
* `OwnName` — a name that is a path of one component and the base name of that path, on every host.

Principal results:

* `packageBytes_result`, `script_of_packageDisk` — what is packaged is what an import pass leaves;
* `ownName_of_archiveName?` — every name that an import gives is its own;
* `renamed_renamed` — renaming twice is renaming once;
* `importPass_idempotent` — so a second pass leaves what the first one has renamed, and on the same host with
  the same options all else as well.
-/

set_option autoImplicit false

namespace ImageRecipe

/-! ## Import passes -/

/-- The Dockerfile that the import of its sources leaves, if it succeeds. -/
def importPass (host : Host) (options : Options) (file : Dockerfile) : Except Failure Dockerfile :=
  match firstFailure? (importsOf host options file) with
  | some failure => .error failure
  | none => .ok (packaged host options file)

section

variable {host : Host} {options : Options} {file rewritten : Dockerfile}

theorem importPass_eq_ok_iff : importPass host options file = .ok rewritten ↔
    firstFailure? (importsOf host options file) = none ∧ packaged host options file = rewritten := by
  unfold importPass
  cases firstFailure? (importsOf host options file) <;> simp

/-- Packaging into bytes writes what an import pass leaves, and fails as it does. -/
theorem packageBytes_result (host : Host) (options : Options) (file : Dockerfile) :
    (packageBytes host options file).result =
      (importPass host options file).map fun rewritten =>
        Tar.write (importedEntries host options file ++
          [⟨scriptName, .generated (contentOf rewritten.render)⟩]) := by
  unfold packageBytes importPass
  simp only
  cases firstFailure? (importsOf host options file) <;> rfl

/-- Packaging on disk imports on a host that holds the new archive. -/
theorem script_of_packageDisk {temporary : Path} {draw : Draw} {context : BuildContext}
    (h : (packageDisk host options temporary draw file).1.result = .ok context) :
    ∃ started spot rewritten,
      host.create (archiveOf options temporary draw) [] Host.freshMode = .ok (started, spot) ∧
      importPass started options file = .ok rewritten ∧ context.dockerfile = rewritten.render := by
  have hrun : DiskRun host options temporary draw file _ _ := diskRun
  generalize (packageDisk host options temporary draw file).2 = left at hrun
  rw [h] at hrun
  cases hrun with
  | done hstart himport _ => exact ⟨_, _, _, hstart, importPass_eq_ok_iff.2 ⟨himport, rfl⟩, rfl⟩

end

/-! ## Names of their own -/

/-- A name that is a path of one ordinary component and, on every host, the base name of that path. -/
structure OwnName (name : String) : Prop where
  single : (Path.ofString name).components = [.name (nameBytes name)]
  own : ∀ host : Host, baseName host (.ofString name) = .ok (some name)

/-- A name of one part that leads down is its own. -/
theorem ownName_of_slashless {name : String} (hname : Slashless name)
    (hdown : Path.Downward (nameBytes name)) (hzero : 0 ∉ nameBytes name) : OwnName name := by
  have hsingle : (Path.ofString name).components = [.name (nameBytes name)] := by
    rw [components_of_contained (contained_of_slashless hname hdown hzero)]
    show (Path.pieces (nameBytes name)).map Path.Component.name = _
    rw [Path.pieces_of_not_mem (slash_not_mem_nameBytes hname)]
    rfl
  have hfile : (Path.ofString name).fileName? = some (nameBytes name) := by
    rw [Path.fileName?_eq_some_iff, hsingle]
    rfl
  refine ⟨hsingle, fun host => ?_⟩
  rw [baseName, hfile]
  simp only [nameBytes, Utf8.lossy_encode, String.ofList_toList]

section

variable {host : Host} {options : Options} {source name : String}

/-- **Every name that an import gives is its own**, whatever the source was like: the last component of a
path or the name of the place it leads to, as it shows. -/
theorem ownName_of_archiveName? (hwf : host.WellFormed)
    (h : archiveName? host options source = some name) : OwnName name := by
  obtain ⟨node, hnode, hbase⟩ := archiveName?_eq_some_iff.1 h
  obtain ⟨-, place, hfound⟩ := find_node?_iff.1 hnode
  obtain ⟨own, rfl, hdown, hslash, hzero, -⟩ := exists_lossy_of_baseName hwf hfound.leads hbase
  exact ownName_of_slashless (slashless_lossy hslash) (downward_lossy hdown)
    (Utf8.zero_not_mem_lossy hzero)

/-- A name of its own is never renamed: if anything is imported under it, it is imported as it is called. -/
theorem OwnName.renamed_eq (h : OwnName name) (host : Host) (options : Options) :
    renamed host options name = name := by
  cases hname : archiveName? host options name with
  | none => rw [renamed, hname, Option.getD_none]
  | some other =>
    obtain ⟨-, -, hbase⟩ := archiveName?_eq_some_iff.1 hname
    rw [h.own host, Except.ok.injEq, Option.some.injEq] at hbase
    rw [renamed, hname, Option.getD_some, hbase]

/-- **Renaming twice is renaming once**, for what is renamed as for what is kept. -/
theorem renamed_renamed (hwf : host.WellFormed) (options : Options) (source : String) :
    renamed host options (renamed host options source) = renamed host options source := by
  cases hname : archiveName? host options source with
  | some name =>
    have hrenamed : renamed host options source = name := by rw [renamed, hname, Option.getD_some]
    rw [hrenamed, (ownName_of_archiveName? hwf hname).renamed_eq]
  | none =>
    have hkept : renamed host options source = source := by rw [renamed, hname, Option.getD_none]
    rw [hkept, hkept]

end

/-! ## Twice and once -/

/-- **Importing once more changes nothing.** Let an import pass leave a rewritten Dockerfile. Any pass over
it that succeeds, on any host and with any options, leaves each instruction as it is whose source the first
pass has imported. On the same host with the same options it leaves the whole Dockerfile as it is. For every
name that an import gives is one ordinary component, and its own base name on every host. -/
theorem importPass_idempotent {host : Host} (hwf : host.WellFormed) {options : Options}
    {file rewritten : Dockerfile} (hpass : importPass host options file = .ok rewritten) :
    (∀ (other : Host) (otherOptions : Options) (again : Dockerfile),
      importPass other otherOptions rewritten = .ok again →
      ∀ (line : Nat) (i : Instruction) (source destination name : String) (place : Place),
        file.commands[line]? = some i → i.copy? = some (source, destination) →
        Importable host options source place name →
        ∃ j, rewritten.commands[line]? = some j ∧ j.copy? = some (name, destination) ∧
          again.commands[line]? = some j) ∧
    (∀ again : Dockerfile, importPass host options rewritten = .ok again → again = rewritten) ∧
    ∀ source name : String, archiveName? host options source = some name → OwnName name := by
  obtain ⟨hok, rfl⟩ := importPass_eq_ok_iff.1 hpass
  refine ⟨?_, ?_, fun source name => ownName_of_archiveName? hwf⟩
  · intro other otherOptions again hagain line i source destination name place hline hcopy himport
    obtain ⟨-, rfl⟩ := importPass_eq_ok_iff.1 hagain
    have hsource := mem_sources_of_copy? (List.mem_of_getElem? hline) hcopy
    have hname := (archiveName?_iff_importable hwf hok hsource).2 ⟨place, himport⟩
    have hrenamed : renamed host options source = name := by rw [renamed, hname, Option.getD_some]
    have hown := ownName_of_archiveName? hwf hname
    have hcopied : (i.mapSource (renamed host options)).copy? = some (name, destination) := by
      rw [i.copy?_mapSource, hcopy, Option.map_some, hrenamed]
    refine ⟨i.mapSource (renamed host options), ?_, hcopied, ?_⟩
    · rw [packaged, Dockerfile.commands_mapSources, List.getElem?_map, hline]
      rfl
    · rw [packaged, packaged, Dockerfile.commands_mapSources, Dockerfile.commands_mapSources,
        List.getElem?_map, List.getElem?_map, hline, Option.map_some, Option.map_some,
        Instruction.mapSource_eq_self]
      intro pair hpair
      rw [hcopied] at hpair
      cases hpair
      exact hown.renamed_eq other otherOptions
  · intro again hagain
    obtain ⟨-, rfl⟩ := importPass_eq_ok_iff.1 hagain
    rw [packaged, packaged, Dockerfile.mapSources_mapSources]
    congr 1
    funext source
    exact renamed_renamed hwf options source

/-- The host with two namesakes, seen from the directory of the first one. -/
def Host.fromWithin : Host := { Host.namesakes with workdir := [[0x78]] }

/-- Copies of two sources and an addition of one that is nowhere. -/
def Dockerfile.copying (first second : String) : Dockerfile :=
  ⟨[⟨Kind.copy.priority, [.step (.pair .copy first "/p"), .step (.pair .copy second "/q"),
    .step (.pair .add "gone" "/r")]⟩]⟩

/-- The working directory and its neighbour, imported from within the one and then, under their names, from
the directory around both. -/
theorem importPass_idempotent_within : Host.fromWithin.WellFormed ∧
    importPass .fromWithin {} (.copying "." "..//y/.") = .ok (.copying "x" "y") ∧
    (∃ again, importPass .namesakes {} (.copying "x" "y") = .ok again ∧
      again.commands[1]? = some (.step (.pair .copy "y" "/q"))) ∧
    (∃ again, importPass .fromWithin {} (.copying "x" "y") = .ok again ∧ again = .copying "x" "y") ∧
    archiveName? .fromWithin {} "." = some "x" ∧ OwnName "x" := by
  have hwf : Host.fromWithin.WellFormed := by decide
  have hpass : importPass .fromWithin {} (.copying "." "..//y/.") = .ok (.copying "x" "y") :=
    importPass_eq_ok_iff.2 ⟨by decide +kernel, by decide +kernel⟩
  have helsewhere : importPass .namesakes {} (.copying "x" "y") = .ok (.copying "x" "y") :=
    importPass_eq_ok_iff.2 ⟨by decide +kernel, by decide +kernel⟩
  have hsecond : importPass .fromWithin {} (.copying "x" "y") = .ok (.copying "x" "y") :=
    importPass_eq_ok_iff.2 ⟨by decide +kernel, by decide +kernel⟩
  have hdot : archiveName? .fromWithin {} "." = some "x" := by decide +kernel
  obtain ⟨hother, hsame, hown⟩ := importPass_idempotent hwf hpass
  have hsource : "..//y/." ∈ (Dockerfile.copying "." "..//y/.").sources := .tail _ (.head _)
  have hname : archiveName? .fromWithin {} "..//y/." = some "y" := by decide +kernel
  obtain ⟨place, himport⟩ :=
    (archiveName?_iff_importable hwf (importPass_eq_ok_iff.1 hpass).1 hsource).1 hname
  obtain ⟨j, hj, -, hkept⟩ := hother _ _ _ helsewhere 1 _ "..//y/." "/q" "y" place rfl rfl himport
  refine ⟨hwf, hpass, ⟨_, helsewhere, ?_⟩, ⟨_, hsecond, hsame _ hsecond⟩, hdot, hown "." "x" hdot⟩
  rw [hkept, ← hj]
  rfl

end ImageRecipe
