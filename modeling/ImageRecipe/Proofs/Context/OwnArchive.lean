import ImageRecipe.Proofs.Context.Copies
import ImageRecipe.Proofs.Context.Collisions
import ImageRecipe.Proofs.Context.DiskRun

/-!
# A run on disk can pack its own archive

A run on disk creates its archive before it looks at the sources, so the tree that is imported holds the
archive. Nothing keeps the import from it: where the archive is listed in a directory that is added, or is
itself what a link or a source leads to, it is added like any other file.

It is added as an empty file. That is so while at most 8 KiB have been added, the header of its own entry
included, since that much is held back before it is written. A run that meets its archive later reads what it
itself appends and never ends, so in every run that succeeds the entry is empty, as it is here.

* `Event.addsFrom` — an event that adds the file at a spot, and `entriesFrom`, the entries of such events;
* `Encloses` — a place at or below which something stands that is at the spot, or a link that leads there;
* `encloses_directory_iff` — a directory encloses what its entries enclose; files, links and special files
  enclose at most what they are or lead to;
* `exists_addsFrom_addTree` — adding a directory adds the file at a spot exactly if the directory encloses
  it; `exists_addsFrom_importsOf` — so does an import and its sources.

Principal result: `packageDisk_packsItself_iff` — which runs pack their own archive.
-/

set_option autoImplicit false

namespace ImageRecipe

/-! ## Where entries come from -/

/-- Whether an event adds the file that stands at a spot: the path that it reads leads there. -/
def Event.addsFrom (host : Host) (spot : List Name) : Event → Bool
  | .file path _ _ _ =>
    match host.resolve path with
    | .ok place => place.names = spot
    | .error _ => false
  | _ => false

/-- The entries of an import that stem from the file at a spot. -/
def entriesFrom (host : Host) (spot : List Name) (options : Options) (file : Dockerfile) :
    List Tar.Entry :=
  ((importsOf host options file).filter (·.addsFrom host spot)).filterMap Event.entry?

section

variable {host : Host} {spot place : List Name}

theorem addsFrom_file_iff {path : Path} {name : String} {content : List UInt8} {mode : Nat} :
    (Event.file path name content mode).addsFrom host spot = true ↔
      ∃ there, host.resolve path = .ok there ∧ there.names = spot := by
  rw [Event.addsFrom]
  cases host.resolve path <;> simp

/-- What adds a file puts an entry into the archive. -/
theorem entry?_isSome_of_addsFrom {event : Event} (h : event.addsFrom host spot = true) :
    ∃ entry, event.entry? = some entry := by
  cases event with
  | file path name content mode => exact ⟨_, rfl⟩
  | _ => cases h

theorem exists_mem_entriesFrom_iff {options : Options} {file : Dockerfile} :
    (∃ entry, entry ∈ entriesFrom host spot options file) ↔
      ∃ event ∈ importsOf host options file, event.addsFrom host spot = true := by
  simp only [entriesFrom, List.mem_filterMap, List.mem_filter]
  constructor
  · rintro ⟨entry, event, ⟨hmem, hadds⟩, -⟩
    exact ⟨event, hmem, hadds⟩
  · rintro ⟨event, hmem, hadds⟩
    obtain ⟨entry, hentry⟩ := entry?_isSome_of_addsFrom hadds
    exact ⟨entry, event, ⟨hmem, hadds⟩, hentry⟩

/-! ## What a place encloses -/

/-- The spot is at a place or below it, or a link that stands at the place or below it leads to the spot. -/
inductive Encloses (host : Host) (place spot : List Name) : Prop
  | within (h : place <+: spot)
  | link {names : List Name} {target : Path} {there : Place}
      (hat : host.tree.at? (place ++ names) = some (.link target))
      (hleads : host.walkFromRoot .plain (place ++ names) = .ok there) (hspot : there.names = spot)

/-- Nothing stands below what is no directory. -/
theorem eq_of_at?_append {node other : Node} {names : List Name}
    (hat : host.tree.at? place = some node) (hleaf : node.isDirectory = false)
    (h : host.tree.at? (place ++ names) = some other) : names = [] ∧ other = node := by
  rw [Node.at?_append, hat, Option.bind_some] at h
  exact (Node.at?_eq_some_iff hleaf).1 h

variable {content : List UInt8} {mode : Nat} (hspot : host.tree.at? spot = some (.file content mode))
include hspot

theorem encloses_file_iff {own : List UInt8} {bits : Nat}
    (hat : host.tree.at? place = some (.file own bits)) : Encloses host place spot ↔ place = spot := by
  constructor
  · rintro (⟨rest, rfl⟩ | ⟨hlink, -, -⟩)
    · rw [(eq_of_at?_append hat rfl hspot).1, List.append_nil]
    · cases (eq_of_at?_append hat rfl hlink).2
  · rintro rfl
    exact .within (List.prefix_refl _)

theorem encloses_link_iff {target : Path} (hat : host.tree.at? place = some (.link target)) :
    Encloses host place spot ↔
      ∃ there, host.walkFromRoot .plain place = .ok there ∧ there.names = spot := by
  constructor
  · rintro (⟨rest, rfl⟩ | ⟨hlink, hleads, hnames⟩)
    · cases (eq_of_at?_append hat rfl hspot).2
    · rw [(eq_of_at?_append hat rfl hlink).1, List.append_nil] at hleads
      exact ⟨_, hleads, hnames⟩
  · rintro ⟨there, hleads, hnames⟩
    rw [← List.append_nil place] at hat hleads
    exact .link hat hleads hnames

theorem not_encloses_special (hat : host.tree.at? place = some .special) :
    ¬Encloses host place spot := by
  rintro (⟨rest, rfl⟩ | ⟨hlink, -, -⟩)
  · cases (eq_of_at?_append hat rfl hspot).2
  · cases (eq_of_at?_append hat rfl hlink).2

/-- **A directory encloses what its entries enclose.** -/
theorem encloses_directory_iff {entries : List (Name × Node)}
    (hat : host.tree.at? place = some (.directory entries)) :
    Encloses host place spot ↔
      ∃ entry ∈ inByteOrder entries, Encloses host (place ++ [entry]) spot := by
  have hentry : ∀ {entry rest node}, host.tree.at? (place ++ entry :: rest) = some node →
      entry ∈ inByteOrder entries := by
    intro entry rest node h
    rw [Node.at?_append, hat, Option.bind_some, Node.at?_directory_cons] at h
    obtain ⟨child, hchild, -⟩ := Option.bind_eq_some_iff.1 h
    exact mem_inByteOrder.2 (List.mem_map_of_mem (Node.mem_of_lookup hchild))
  constructor
  · rintro (⟨rest, rfl⟩ | @⟨names, target, there, hlink, hleads, hnames⟩)
    · cases rest with
      | nil =>
        rw [List.append_nil, hat] at hspot
        cases hspot
      | cons entry rest => exact ⟨entry, hentry hspot, .within ⟨rest, by simp⟩⟩
    · cases names with
      | nil =>
        rw [List.append_nil, hat] at hlink
        cases hlink
      | cons entry rest =>
        rw [List.append_cons] at hlink hleads
        exact ⟨entry, hentry (List.append_cons place entry rest ▸ hlink), .link hlink hleads hnames⟩
  · rintro ⟨entry, -, h | @⟨names, target, there, hlink, hleads, hnames⟩⟩
    · exact .within ((List.prefix_append _ _).trans h)
    · rw [← List.append_cons] at hlink hleads
      exact .link hlink hleads hnames

end

/-! ## Additions -/

section

variable {host : Host} {path : Path} {name : String} {spot : List Name} {place : Place}

/-- A file is added from where its path leads. -/
theorem addsFrom_addFile_iff {own : List UInt8} {bits : Nat} (hp : host.resolve path = .ok place)
    (hok : (addFile host path name own bits).failure? = none) :
    (addFile host path name own bits).addsFrom host spot = true ↔ place.names = spot := by
  rw [addFile_of_succeeds hok, addsFrom_file_iff, hp]
  simp

theorem resolve_of_addFile {own : List UInt8} {bits : Nat}
    (hok : (addFile host path name own bits).failure? = none) :
    ∃ there, host.resolve path = .ok there := by
  cases hp : host.resolve path with
  | ok there => exact ⟨there, rfl⟩
  | error fault =>
    rw [addFile, hp] at hok
    cases hok

theorem addsFrom_addDirectory : (addDirectory host path name).addsFrom host spot = false := by
  unfold addDirectory
  split <;> rfl

variable {content : List UInt8} {mode : Nat} (hspot : host.tree.at? spot = some (.file content mode))
include hspot

/-- **Meeting an entry adds the file at a spot** exactly if the entry is no directory and encloses it. -/
theorem exists_addsFrom_meet {entries : List (Name × Node)} {entry : Name} {node : Node}
    (hp : host.resolve path = .ok place) (hnode : place.node = .directory entries)
    (hname : Node.properName entry = true) (hl : entries.lookup entry = some node)
    (hok : firstFailure? (meet host (entryPath path entry) (entryName name entry) node) = none) :
    (∃ event ∈ meet host (entryPath path entry) (entryName name entry) node,
        event.addsFrom host spot = true) ↔
      node.isDirectory = false ∧ Encloses host (place.names ++ [entry]) spot := by
  have hplace : host.tree.at? place.names = some (.directory entries) :=
    hnode ▸ (Host.reached_of_resolve hp).at?_names
  have hat : host.tree.at? (place.names ++ [entry]) = some node := hl ▸ Node.at?_concat hplace entry
  cases node with
  | file own bits =>
    rw [meet, firstFailure?_eq_none_iff] at hok
    have hadded := hok _ List.mem_cons_self
    obtain ⟨there, hthere⟩ := resolve_of_addFile hadded
    have henter := Host.resolve_join_enter hp hnode hname hl (fun _ => Node.noConfusion) hthere
    rw [encloses_file_iff hspot hat, meet]
    simp only [List.mem_singleton, exists_eq_left, addsFrom_addFile_iff hthere hadded, henter,
      Place.names_enter, Node.isDirectory, true_and]
  | directory below => simp [meet, Node.isDirectory]
  | special =>
    have hnot := not_encloses_special hspot hat
    simp [meet, Event.addsFrom, hnot]
  | link target =>
    have hwalk := link_of_succeeds hp hname hok
    rw [encloses_link_iff hspot hat, hwalk]
    rw [meet] at hok ⊢
    cases hr : host.resolve (entryPath path entry) with
    | error fault =>
      rw [hr] at hok
      by_cases hdangling : fault = .notFound
      · simp [hdangling, Event.addsFrom]
      · simp [hdangling, Event.addsFrom]
    | ok there =>
      rw [hr] at hok
      obtain ⟨node, way⟩ := there
      -- what stands at the spot is a file, so nothing else leads there
      have hother : Place.names ⟨node, way⟩ = spot → node = .file content mode := by
        intro hnames
        have hthere := (Host.reached_of_resolve hr).at?_names
        rw [hnames, hspot] at hthere
        exact (Option.some.inj hthere).symm
      cases node with
      | file own bits =>
        rw [firstFailure?_eq_none_iff] at hok
        simp [addsFrom_addFile_iff hr (hok _ List.mem_cons_self), Node.isDirectory]
      | directory _ | special | link _ =>
        refine iff_of_false (by simp [Event.addsFrom]) ?_
        rintro ⟨-, there, hthere, hnames⟩
        cases hthere
        cases hother hnames

/-- **Adding a directory adds the file at a spot** exactly if the directory encloses it. -/
theorem exists_addsFrom_addTree (hwf : host.WellFormed) (node : Node) :
    ∀ (path : Path) (name : String) (place : Place), host.resolve path = .ok place →
      place.node = node → node.isDirectory = true →
      firstFailure? (addTree host path name node) = none →
      ((∃ event ∈ addTree host path name node, event.addsFrom host spot = true) ↔
        Encloses host place.names spot) := by
  induction node using Node.induction_on_entries with
  | hfile _ _ => exact fun _ _ _ _ _ hdir => by cases hdir
  | hlink _ => exact fun _ _ _ _ _ hdir => by cases hdir
  | hspecial => exact fun _ _ _ _ _ hdir => by cases hdir
  | hdirectory entries ih =>
    intro path name place hp hnode _ hok
    have hat : host.tree.at? place.names = some (.directory entries) :=
      hnode ▸ (Host.reached_of_resolve hp).at?_names
    have hs := hwf.listing hat
    rw [addTree_directory host path name hs.distinct] at hok ⊢
    rw [← List.singleton_append, firstFailure?_append_eq_none, firstFailure?_append_eq_none,
      firstFailure?_flatMap_eq_none, firstFailure?_flatMap_eq_none] at hok
    obtain ⟨-, hmet, hbelow⟩ := hok
    -- an entry is met or, if it is a directory, added below
    have heach : ∀ entry ∈ inByteOrder entries,
        ((∃ event ∈ metAt host path name entries entry, event.addsFrom host spot = true) ∨
          ∃ event ∈ belowAt host path name entries entry, event.addsFrom host spot = true) ↔
        Encloses host (place.names ++ [entry]) spot := by
      intro entry hentry
      obtain ⟨child, hl⟩ := lookup_of_mem_inByteOrder hentry
      have hproper := hs.proper _ (mem_inByteOrder.1 hentry)
      have hmet := hmet entry hentry
      have hbelow := hbelow entry hentry
      simp only [metAt, belowAt, hl] at hmet hbelow ⊢
      rw [exists_addsFrom_meet hspot hp hnode hproper hl hmet]
      cases child with
      | directory inner =>
        obtain ⟨q, hq⟩ := resolve_of_addTree hbelow
        have henter := Host.resolve_join_enter hp hnode hproper hl
          (fun _ hlink => Node.noConfusion hlink) hq
        rw [ih entry _ (Node.mem_of_lookup hl) _ _ q hq (henter ▸ rfl) rfl hbelow, henter,
          Place.names_enter]
        simp [Node.isDirectory]
      | file _ _ | link _ | special =>
        rw [addTree_of_not_directory _ _ _ rfl]
        simp [Node.isDirectory]
    rw [encloses_directory_iff hspot hat]
    simp only [List.mem_cons, List.mem_append, List.mem_flatMap]
    constructor
    · rintro ⟨event, rfl | ⟨entry, hentry, hmem⟩ | ⟨entry, hentry, hmem⟩, hadds⟩
      · rw [addsFrom_addDirectory] at hadds
        cases hadds
      · exact ⟨entry, hentry, (heach entry hentry).1 (.inl ⟨event, hmem, hadds⟩)⟩
      · exact ⟨entry, hentry, (heach entry hentry).1 (.inr ⟨event, hmem, hadds⟩)⟩
    · rintro ⟨entry, hentry, hencloses⟩
      rcases (heach entry hentry).2 hencloses with ⟨event, hmem, hadds⟩ | ⟨event, hmem, hadds⟩
      · exact ⟨event, .inr (.inl ⟨entry, hentry, hmem⟩), hadds⟩
      · exact ⟨event, .inr (.inr ⟨entry, hentry, hmem⟩), hadds⟩

/-- A copy adds the file at a spot exactly if the place that its source leads to encloses it. -/
theorem exists_addsFrom_additions (hwf : host.WellFormed) {node : Node}
    (hfound : Found host path node place)
    (hok : firstFailure? (additions host path name node) = none) :
    (∃ event ∈ additions host path name node, event.addsFrom host spot = true) ↔
      Encloses host place.names spot := by
  rcases hfound.held with ⟨own, bits, rfl⟩ | ⟨entries, rfl⟩
  · have hat : host.tree.at? place.names = some (.file own bits) :=
      hfound.node_eq ▸ (Host.reached_of_resolve hfound.leads).at?_names
    rw [additions, firstFailure?_eq_none_iff] at hok
    rw [encloses_file_iff hspot hat, additions]
    simp only [List.mem_singleton, exists_eq_left,
      addsFrom_addFile_iff hfound.leads (hok _ List.mem_cons_self)]
  · exact exists_addsFrom_addTree hspot hwf _ path name place hfound.leads hfound.node_eq rfl hok

end

/-! ## Imports -/

section

variable {host : Host} {options : Options} {file : Dockerfile} {spot : List Name}

/-- What adds a file is an event of a copy. -/
theorem Makes.exists_addsFrom {added : Added} {events : List Event} {made : List Copy}
    (h : Makes host added events made) :
    (∃ event ∈ events, event.addsFrom host spot = true) ↔
      ∃ copy ∈ made, ∃ event ∈ copy.additions host, event.addsFrom host spot = true := by
  have hquiet : ∀ {report : List Event}, report.filterMap Event.entry? = [] →
      ¬∃ event ∈ report, event.addsFrom host spot = true := by
    rintro report hadds ⟨event, hmem, hfrom⟩
    obtain ⟨entry, hentry⟩ := entry?_isSome_of_addsFrom hfrom
    rw [List.filterMap_eq_nil_iff.1 hadds event hmem] at hentry
    cases hentry
  have hsplit : ∀ {a b : List Event}, (∃ event ∈ a ++ b, event.addsFrom host spot = true) ↔
      (∃ event ∈ a, event.addsFrom host spot = true) ∨
        ∃ event ∈ b, event.addsFrom host spot = true := by
    intro a b
    simp only [List.mem_append, or_and_right, exists_or]
  induction h with
  | nothing => simp
  | reported hadds _ ih => exact hsplit.trans ((or_iff_right (hquiet hadds)).trans ih)
  | @copied added copy events made _ _ ih =>
    rw [hsplit, hsplit, or_iff_right (hquiet (remarks_remarks added copy).adds_nothing),
      List.exists_mem_cons_iff]
    exact or_congr_right ih

/-- **An import adds the file at a spot** exactly if a source that is to be imported leads to a place that
encloses it. -/
theorem exists_addsFrom_importsOf (hwf : host.WellFormed)
    (hok : firstFailure? (importsOf host options file) = none) {content : List UInt8} {mode : Nat}
    (hspot : host.tree.at? spot = some (.file content mode)) :
    (∃ event ∈ importsOf host options file, event.addsFrom host spot = true) ↔
      ∃ source ∈ file.sources, ∃ place name, Importable host options source place name ∧
        Encloses host place.names spot := by
  have hmakes := makes_importEvents host options file.sources
  have hcopy : ∀ copy ∈ copies host options file, ∀ place, Found host copy.path copy.node place →
      ((∃ event ∈ copy.additions host, event.addsFrom host spot = true) ↔
        Encloses host place.names spot) := fun copy hmem place hfound =>
    exists_addsFrom_additions hspot hwf hfound (hmakes.additions_ok hok copy hmem)
  rw [importsOf, hmakes.exists_addsFrom]
  constructor
  · rintro ⟨copy, hmem, hadds⟩
    obtain ⟨place, hfound⟩ := found_of_mem_importedSources (mem_importedSources_of_mem_copies hmem)
    obtain ⟨source, hsource, name, himport⟩ := (exists_copied_iff hwf hok).1 ⟨copy, hmem, hfound⟩
    exact ⟨source, hsource, place, name, himport, (hcopy copy hmem place hfound).1 hadds⟩
  · rintro ⟨source, hsource, place, name, himport, hencloses⟩
    obtain ⟨copy, hmem, hfound⟩ := (exists_copied_iff hwf hok).2 ⟨source, hsource, name, himport⟩
    exact ⟨copy, hmem, (hcopy copy hmem place hfound).2 hencloses⟩

end

/-! ## Runs on disk -/

/-- **Which runs pack their own archive.** When a run on disk succeeds, the archive that it has created, empty
at first, holds what was imported and the script. An entry of the import stems from the archive itself
exactly if a source that is to be imported leads to a place that encloses it: if the archive stands at that
place or anywhere below it, or a link does that leads to it. -/
theorem packageDisk_packsItself_iff {host : Host} (hwf : host.WellFormed) {options : Options}
    {temporary : Path} {draw : Draw} {file : Dockerfile} {context : BuildContext}
    (hok : (packageDisk host options temporary draw file).1.result = .ok context) :
    ∃ started spot,
      host.create context.archivePath [] Host.freshMode = .ok (started, spot) ∧
      (packageDisk host options temporary draw file).2.read? context.archivePath =
        some (Tar.write (importedEntries started options file ++
          [⟨"Dockerfile", .file (contentOf context.dockerfile) false⟩])) ∧
      entriesFrom started spot.location options file ⊆ importedEntries started options file ∧
      ((∃ entry, entry ∈ entriesFrom started spot.location options file) ↔
        ∃ source ∈ file.sources, ∃ place name, Importable started options source place name ∧
          Encloses started place.names spot.location) := by
  have hrun : DiskRun host options temporary draw file _ _ := diskRun
  rw [hok] at hrun
  generalize (packageDisk host options temporary draw file).2 = left at hrun ⊢
  generalize hresult : (Except.ok context : Except Failure BuildContext) = result at hrun
  cases hrun with
  | noArchive _ | importFails _ _ | noScript _ _ _ => cases hresult
  | @done started scripted spot scriptSpot hstart himport hcreate =>
    cases hresult
    have hcreated := Host.created_of_create hstart
    refine ⟨started, spot, hstart, ?_, ?_, ?_⟩
    · exact (read?_of_done hstart hcreate options.removeScript (diskBytes started options file)).1
    · exact List.filterMap_subset _ (List.filter_subset_self _)
    · rw [exists_mem_entriesFrom_iff]
      exact exists_addsFrom_importsOf (hcreated.wellFormed hwf) himport hcreated.at?

/-- What a run in the one directory of a host comes to that copies this directory. -/
def BuildContext.within : BuildContext :=
  ⟨.ofString "o/docker_build_archive_7.tar", "COPY [\"o\", \"/\"]\n", none⟩

theorem packageDisk_within :
    (packageDisk (.single []) .inside ⟨[]⟩ .seven .oneCopy).1.result = .ok .within := by
  decide +kernel

theorem packageDisk_packsItself_iff_within : (Host.single []).WellFormed ∧
    (packageDisk (.single []) .inside ⟨[]⟩ .seven .oneCopy).1.result = .ok .within ∧
    ∃ started spot,
      (Host.single []).create BuildContext.within.archivePath [] Host.freshMode =
        .ok (started, spot) ∧
      (packageDisk (.single []) .inside ⟨[]⟩ .seven .oneCopy).2.read? BuildContext.within.archivePath =
        some (Tar.write (importedEntries started .inside .oneCopy ++
          [⟨"Dockerfile", .file (contentOf BuildContext.within.dockerfile) false⟩])) ∧
      entriesFrom started spot.location .inside .oneCopy ⊆ importedEntries started .inside .oneCopy ∧
      ((∃ entry, entry ∈ entriesFrom started spot.location .inside .oneCopy) ↔
        ∃ source ∈ Dockerfile.oneCopy.sources, ∃ place name,
          Importable started .inside source place name ∧
            Encloses started place.names spot.location) :=
  ⟨by decide, packageDisk_within, packageDisk_packsItself_iff (by decide) packageDisk_within⟩

/-- The directory that is copied holds the archive by then, so the archive has an entry for itself. -/
theorem packsItself_within : (Host.single []).WellFormed ∧
    (packageDisk (.single []) .inside ⟨[]⟩ .seven .oneCopy).1.result = .ok .within ∧
    ∃ started spot,
      (Host.single []).create BuildContext.within.archivePath [] Host.freshMode =
        .ok (started, spot) ∧
      importedEntries started .inside .oneCopy =
        [⟨"o", .directory⟩, ⟨"o/docker_build_archive_7.tar", .file [] false⟩] ∧
      entriesFrom started spot.location .inside .oneCopy =
        [⟨"o/docker_build_archive_7.tar", .file [] false⟩] :=
  ⟨by decide, packageDisk_within, _, _, rfl, by decide +kernel, by decide +kernel⟩

end ImageRecipe
