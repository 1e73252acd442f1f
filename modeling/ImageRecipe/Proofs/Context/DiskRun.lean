import ImageRecipe.Proofs.Context.SlashedCopy
import ImageRecipe.Proofs.Context.Undisturbed

/-!
# Runs on disk

A run on disk puts an archive into the host before it looks at the sources, and a script after it has. What
it imports is what a run in memory imports, if it does not meet the archive.

* `DiskRun` — the four ways that a run on disk ends;
* `SameImport` — two hosts that a Dockerfile imports alike from;
* `SameContent` — two archives that are read back as the same entries.

Principal results: `diskRun` — a run on disk ends in one of the four ways; `sameImport_of_create` — the
archive makes no difference to an import that does not meet it; `packageDisk_agrees` — packaging on disk
and in memory come to the same; `packageDisk_overlong` — they do not where a run fails at its own archive.
-/

set_option autoImplicit false

namespace ImageRecipe

/-! ## How a run ends -/

/-- The path of the archive that a run on disk makes. -/
def archiveOf (options : Options) (temporary : Path) (draw : Draw) : Path :=
  archivePath options (options.outputDirectory temporary) draw

/-- The path of the script that a run on disk makes. -/
def scriptOf (host : Host) (options : Options) (temporary : Path) (draw : Draw) : Path :=
  scriptPath host options (options.outputDirectory temporary) draw

/-- The content of the script. -/
def scriptContent (host : Host) (options : Options) (file : Dockerfile) : List UInt8 :=
  contentOf (packaged host options file).render

/-- The entries of an import. -/
def importedEntries (host : Host) (options : Options) (file : Dockerfile) : List Tar.Entry :=
  (importsOf host options file).filterMap Event.entry?

/-- The archive that a run on disk writes, the script being a file like the others. -/
def diskBytes (host : Host) (options : Options) (file : Dockerfile) : List UInt8 :=
  Tar.write (importedEntries host options file ++
    [⟨scriptName, .file (scriptContent host options file) false⟩])

section Run

variable {host : Host} {options : Options} {temporary : Path} {draw : Draw} {file : Dockerfile}

/-- The four ways that a run on disk ends, with its result and the host it leaves. -/
inductive DiskRun (host : Host) (options : Options) (temporary : Path) (draw : Draw)
    (file : Dockerfile) : Except Failure BuildContext → Host → Prop
  | noArchive {fault : Fault}
      (hstart : host.create (archiveOf options temporary draw) [] Host.freshMode = .error fault) :
      DiskRun host options temporary draw file
        (.error (.archiving (archiveOf options temporary draw) fault)) host
  | importFails {started : Host} {spot : Host.Spot} {failure : Failure}
      (hstart : host.create (archiveOf options temporary draw) [] Host.freshMode = .ok (started, spot))
      (himport : firstFailure? (importsOf started options file) = some failure) :
      DiskRun host options temporary draw file (.error failure) (started.remove spot)
  | noScript {started : Host} {spot : Host.Spot} {fault : Fault}
      (hstart : host.create (archiveOf options temporary draw) [] Host.freshMode = .ok (started, spot))
      (himport : firstFailure? (importsOf started options file) = none)
      (hscript : started.create (scriptOf started options temporary draw)
        (scriptContent started options file) scriptMode = .error fault) :
      DiskRun host options temporary draw file
        (.error (.archiving (options.outputDirectory temporary) fault)) (started.remove spot)
  | done {started scripted : Host} {spot scriptSpot : Host.Spot}
      (hstart : host.create (archiveOf options temporary draw) [] Host.freshMode = .ok (started, spot))
      (himport : firstFailure? (importsOf started options file) = none)
      (hscript : started.create (scriptOf started options temporary draw)
        (scriptContent started options file) scriptMode = .ok (scripted, scriptSpot)) :
      DiskRun host options temporary draw file
        (.ok ⟨archiveOf options temporary draw, (packaged started options file).render,
          if options.removeScript then none else some (scriptOf started options temporary draw)⟩)
        (if options.removeScript then
          (scripted.write spot (diskBytes started options file)).remove scriptSpot
        else scripted.write spot (diskBytes started options file))

/-- A script that was created can be read. -/
theorem addFile_script {started scripted : Host} {script : Path} {content : List UInt8}
    {spot : Host.Spot} (h : started.create script content scriptMode = .ok (scripted, spot)) :
    addFile scripted script scriptName content scriptMode =
      .file script scriptName content scriptMode := by
  obtain ⟨way, hp⟩ := (Host.created_of_create h).resolve
  rw [addFile, hp]
  rfl

/-- **A run on disk ends in one of the four ways.** -/
theorem diskRun : DiskRun host options temporary draw file
    (packageDisk host options temporary draw file).1.result
    (packageDisk host options temporary draw file).2 := by
  unfold packageDisk
  simp only
  split
  · rename_i fault hstart
    exact .noArchive hstart
  · rename_i started spot hstart
    split
    · rename_i failure himport
      exact .importFails hstart himport
    · rename_i himport
      split
      · rename_i fault hscript
        exact .noScript hstart himport hscript
      · rename_i scripted scriptSpot hscript
        have hdone : DiskRun host options temporary draw file _ _ := .done hstart himport hscript
        rw [addFile_script hscript]
        simp only [Event.failure?, conclude]
        rw [List.filterMap_append]
        split
        · rename_i hremove
          simp only [if_pos hremove] at hdone
          exact hdone
        · rename_i hremove
          simp only [if_neg hremove] at hdone
          exact hdone

/-- A run fails as its import does. -/
theorem error_of_import {started : Host} {spot : Host.Spot} {failure : Failure}
    (hstart : host.create (archiveOf options temporary draw) [] Host.freshMode = .ok (started, spot))
    (himport : firstFailure? (importsOf started options file) = some failure) :
    (packageDisk host options temporary draw file).1.result = .error failure := by
  rw [archiveOf] at hstart
  unfold packageDisk
  simp only [hstart, himport]
  rfl

/-- A run succeeds if nothing fails and both files can be created. -/
theorem ok_of_created {started scripted : Host} {spot scriptSpot : Host.Spot}
    (hstart : host.create (archiveOf options temporary draw) [] Host.freshMode = .ok (started, spot))
    (himport : firstFailure? (importsOf started options file) = none)
    (hscript : started.create (scriptOf started options temporary draw)
      (scriptContent started options file) scriptMode = .ok (scripted, scriptSpot)) :
    ∃ context, (packageDisk host options temporary draw file).1.result = .ok context := by
  have hrun : DiskRun host options temporary draw file _ _ := diskRun
  generalize (packageDisk host options temporary draw file).1.result = result at hrun ⊢
  generalize (packageDisk host options temporary draw file).2 = left at hrun
  cases hrun with
  | noArchive hother =>
    rw [hstart] at hother
    cases hother
  | importFails hother hfails =>
    rw [hstart] at hother
    cases hother
    rw [himport] at hfails
    cases hfails
  | noScript hother _ hfails =>
    rw [hstart] at hother
    cases hother
    rw [hscript] at hfails
    cases hfails
  | done _ _ _ => exact ⟨_, rfl⟩

/-! ## The import -/

/-- Two hosts that a Dockerfile imports alike from. -/
structure SameImport (host other : Host) (options : Options) (file : Dockerfile) : Prop where
  failure : firstFailure? (importsOf other options file) = firstFailure? (importsOf host options file)
  entries : firstFailure? (importsOf host options file) = none →
    importedEntries other options file = importedEntries host options file
  packaged : packaged other options file = packaged host options file

theorem SameImport.content {other : Host} (h : SameImport host other options file) :
    scriptContent other options file = scriptContent host options file := by
  rw [scriptContent, scriptContent, h.packaged]

/-- A host lacks the file that is created in it. -/
theorem lacks_of_created {made : Host} {path : Path} {content : List UInt8} {mode : Nat}
    {spot : Host.Spot} (hwf : host.WellFormed)
    (h : host.Created path (.file content mode) made spot) : Lacks made host spot.location where
  wellFormed := h.wellFormed hwf
  wellFormed' := hwf
  alike := by
    rw [h.made_eq]
    exact (Host.alikeBut_insert host spot _).symm
  file := ⟨content, mode, h.at?⟩
  missing := h.free

/-- **The archive makes no difference to an import that does not meet it.** -/
theorem sameImport_of_create {started : Host} {path : Path} {content : List UInt8} {mode : Nat}
    {spot : Host.Spot} (hwf : host.WellFormed)
    (hstart : host.create path content mode = .ok (started, spot))
    (hunmet : Unmet started spot.location options file) : SameImport host started options file := by
  have hlacks := lacks_of_created hwf (Host.created_of_create hstart)
  have hperformed := performed_importsOf_eq hlacks hunmet
  have hfailure : firstFailure? (importsOf started options file) =
      firstFailure? (importsOf host options file) := by
    rw [← firstFailure?_performed, ← hperformed, firstFailure?_performed]
  refine ⟨hfailure, fun hnone => ?_, (packaged_eq hlacks hunmet).symm⟩
  rw [performed_of_firstFailure?_eq_none hnone,
    performed_of_firstFailure?_eq_none (hfailure.trans hnone)] at hperformed
  rw [importedEntries, importedEntries, hperformed]

/-! ## The archives -/

/-- Two listings are of the same entry, whatever they tell of owner and time. -/
structure Tar.Listing.Same (a b : Tar.Listing) : Prop where
  path : a.path = b.path
  kind : a.typeFlag = 0x35 ↔ b.typeFlag = 0x35
  mode : a.mode = b.mode
  content : a.content = b.content

/-- Two archives are read back as the same entries, of which only the last one, the script, may tell
something else of its type, owner and time. -/
def SameContent (bytes disk script : List UInt8) : Prop :=
  ∃ (listings : List Tar.Listing) (last last' : Tar.Listing),
    Tar.read? bytes = some (listings ++ [last]) ∧ Tar.read? disk = some (listings ++ [last']) ∧
      last.Same last' ∧ last.path = contentOf scriptName ∧ last.content = script

theorem path_listing (entry : Tar.Entry) : entry.listing.path = contentOf entry.name := by
  obtain ⟨name, body⟩ := entry
  cases body <;> rfl

theorem content_listing (entry : Tar.Entry) : entry.listing.content = entry.body.content := by
  obtain ⟨name, body⟩ := entry
  cases body <;> rfl

theorem same_script (content : List UInt8) :
    Tar.Listing.Same (Tar.Entry.listing ⟨scriptName, .generated content⟩)
      (Tar.Entry.listing ⟨scriptName, .file content false⟩) where
  path := rfl
  kind := by
    have hgenerated : ¬(0 : UInt8) = 0x35 := by decide
    have hfile : ¬(0x30 : UInt8) = 0x35 := by decide
    exact iff_of_false hgenerated hfile
  mode := rfl
  content := rfl

/-- **Archives with the same entries before the script have the same content.** -/
theorem sameContent_write {entries : List Tar.Entry} {content : List UInt8}
    (hfits : ∀ entry ∈ entries, entry.Fits) (hcontent : content.length < Tar.sizeLimit) :
    SameContent (Tar.write (entries ++ [⟨scriptName, .generated content⟩]))
      (Tar.write (entries ++ [⟨scriptName, .file content false⟩])) content := by
  have hzero : 0 ∉ nameBytes scriptName := by decide
  have hname : (nameBytes scriptName).length ≤ 9 * Host.maxPath := by decide
  have hread : ∀ body : Tar.Body, body.content.length < Tar.sizeLimit →
      Tar.read? (Tar.write (entries ++ [⟨scriptName, body⟩])) =
        some (entries.map Tar.Entry.listing ++ [Tar.Entry.listing ⟨scriptName, body⟩]) := by
    intro body hbody
    rw [Tar.read?_of_archive (Tar.archive_write ?_), List.map_append, List.map_singleton]
    intro entry hentry
    rcases List.mem_append.1 hentry with hentry | hentry
    · exact hfits entry hentry
    · rw [List.mem_singleton] at hentry
      subst hentry
      exact fits_of_le (Nat.le_refl Tar.sizeLimit) hzero hname hbody
  exact ⟨_, _, _, hread _ hcontent, hread _ hcontent, same_script content,
    path_listing _, content_listing _⟩

/-- What a run on disk that succeeds leaves: the archive, and the script if it is to stay. -/
theorem read?_of_done {started scripted : Host} {archive script : Path} {content : List UInt8}
    {mode : Nat} {spot scriptSpot : Host.Spot}
    (hstart : host.create archive [] Host.freshMode = .ok (started, spot))
    (hscript : started.create script content mode = .ok (scripted, scriptSpot)) (remove : Bool)
    (bytes : List UInt8) :
    let left := if remove then (scripted.write spot bytes).remove scriptSpot
      else scripted.write spot bytes
    left.read? archive = some bytes ∧ (remove = false → left.read? script = some content) := by
  obtain ⟨harchive, hkept, hremoved⟩ := Host.read?_of_created_twice
    (Host.created_of_create hstart) (Host.created_of_create hscript) bytes
  cases remove with
  | true => exact ⟨hremoved, fun h => by cases h⟩
  | false => exact ⟨harchive, fun _ => hkept⟩

/-! ## Both ways of packaging -/

/-- The archive that a run starts with is not met by its import. -/
def ArchiveUnmet (host : Host) (options : Options) (temporary : Path) (draw : Draw)
    (file : Dockerfile) : Prop :=
  ∀ started spot,
    host.create (archiveOf options temporary draw) [] Host.freshMode = .ok (started, spot) →
      Unmet started spot.location options file

/-- **If both ways succeed, the archives have the same content**, and the script is the same text wherever
it is found. -/
theorem sameContent_of_ok {limit : Nat} (hlimit : limit ≤ Tar.sizeLimit) (hpos : 0 < limit)
    (hwf : host.WellFormed) (hfiles : host.tree.filesBelow limit = true)
    (hscript : (scriptContent host options file).length < Tar.sizeLimit)
    (hunmet : ArchiveUnmet host options temporary draw file) {bytes : List UInt8}
    (hbytes : (packageBytes host options file).result = .ok bytes) {context : BuildContext}
    (hdisk : (packageDisk host options temporary draw file).1.result = .ok context) :
    ∃ disk, (packageDisk host options temporary draw file).2.read? context.archivePath = some disk ∧
      SameContent bytes disk (contentOf context.dockerfile) ∧
      ∀ script, context.scriptPath = some script →
        (packageDisk host options temporary draw file).2.read? script =
          some (contentOf context.dockerfile) := by
  obtain ⟨hnone, hwritten⟩ := packageBytes_eq_ok_iff.1 hbytes
  have hrun : DiskRun host options temporary draw file _ _ := diskRun
  rw [hdisk] at hrun
  generalize (packageDisk host options temporary draw file).2 = left at hrun ⊢
  generalize hresult : (Except.ok context : Except Failure BuildContext) = result at hrun
  cases hrun with
  | noArchive _ | importFails _ _ | noScript _ _ _ => cases hresult
  | @done started scripted spot scriptSpot hstart himport hcreate =>
    cases hresult
    have hsame := sameImport_of_create hwf hstart (hunmet started spot hstart)
    obtain ⟨hread, hkept⟩ := read?_of_done hstart hcreate options.removeScript
      (diskBytes started options file)
    refine ⟨_, hread, ?_, fun script hpath => ?_⟩
    · have hcontent : contentOf (packaged started options file).render =
          scriptContent host options file := hsame.content
      have hfits := fits_importEvents hlimit hpos hwf hfiles options file.sources
      rw [hwritten, diskBytes, hsame.entries hnone, hsame.content, hcontent]
      exact sameContent_write hfits hscript
    · cases hremove : options.removeScript with
      | true =>
        rw [hremove] at hpath
        cases hpath
      | false =>
        rw [hremove] at hpath hkept
        cases hpath
        exact hkept rfl

/-- **What fails in memory fails on disk**, with the same failure, unless there can be no archive. -/
theorem error_of_error (hwf : host.WellFormed) (hunmet : ArchiveUnmet host options temporary draw file)
    {failure : Failure} (hbytes : (packageBytes host options file).result = .error failure) :
    (packageDisk host options temporary draw file).1.result = .error failure ∨
      ∃ fault, host.create (archiveOf options temporary draw) [] Host.freshMode = .error fault ∧
        (packageDisk host options temporary draw file).1.result =
          .error (.archiving (archiveOf options temporary draw) fault) := by
  have hfails : firstFailure? (importsOf host options file) = some failure :=
    packageBytes_eq_error_iff.1 hbytes
  have hrun : DiskRun host options temporary draw file _ _ := diskRun
  generalize (packageDisk host options temporary draw file).1.result = result at hrun ⊢
  generalize (packageDisk host options temporary draw file).2 = left at hrun
  cases hrun with
  | noArchive hstart => exact .inr ⟨_, hstart, rfl⟩
  | @importFails started spot own hstart himport =>
    have hsame := sameImport_of_create hwf hstart (hunmet started spot hstart)
    rw [hsame.failure, hfails, Option.some.injEq] at himport
    exact .inl (himport ▸ rfl)
  | @noScript started spot _ hstart himport _ =>
    have hsame := sameImport_of_create hwf hstart (hunmet started spot hstart)
    rw [hsame.failure, hfails] at himport
    cases himport
  | @done started _ spot _ hstart himport _ =>
    have hsame := sameImport_of_create hwf hstart (hunmet started spot hstart)
    rw [hsame.failure, hfails] at himport
    cases himport

/-- **What succeeds in memory fails on disk only for want of the archive or of the script.** -/
theorem creation_of_error (hwf : host.WellFormed)
    (hunmet : ArchiveUnmet host options temporary draw file) {bytes : List UInt8}
    (hbytes : (packageBytes host options file).result = .ok bytes) {failure : Failure}
    (hdisk : (packageDisk host options temporary draw file).1.result = .error failure) :
    (∃ fault, host.create (archiveOf options temporary draw) [] Host.freshMode = .error fault ∧
        failure = .archiving (archiveOf options temporary draw) fault) ∨
      ∃ started spot fault,
        host.create (archiveOf options temporary draw) [] Host.freshMode = .ok (started, spot) ∧
        started.create (scriptOf started options temporary draw)
          (scriptContent started options file) scriptMode = .error fault ∧
        failure = .archiving (options.outputDirectory temporary) fault := by
  have hnone := (packageBytes_eq_ok_iff.1 hbytes).1
  have hrun : DiskRun host options temporary draw file _ _ := diskRun
  rw [hdisk] at hrun
  generalize (packageDisk host options temporary draw file).2 = left at hrun
  generalize hresult : (Except.error failure : Except Failure BuildContext) = result at hrun
  cases hrun with
  | noArchive hstart =>
    cases hresult
    exact .inl ⟨_, hstart, rfl⟩
  | @importFails started spot own hstart himport =>
    have hsame := sameImport_of_create hwf hstart (hunmet started spot hstart)
    rw [hsame.failure, hnone] at himport
    cases himport
  | @noScript started spot fault hstart _ hscript =>
    cases hresult
    exact .inr ⟨started, spot, fault, hstart, hscript, rfl⟩
  | done _ _ _ => cases hresult

end Run

/-- **Packaging on disk and in memory come to the same**, if the import does not meet the archive that the
run on disk has created: the archives have the same content, and its script is the text that the run on
disk returns and keeps; the same failures occur; and a failure on disk alone comes from the creation of the
archive or of the script. No file and no text is too long for 64 bits. -/
theorem packageDisk_agrees {host : Host} (hwf : host.WellFormed)
    (hfiles : host.tree.filesBelow (2 ^ 64) = true) {options : Options} {temporary : Path}
    {draw : Draw} {file : Dockerfile} (hscript : (scriptContent host options file).length < 2 ^ 64)
    (hunmet : ArchiveUnmet host options temporary draw file) :
    (∀ bytes context, (packageBytes host options file).result = .ok bytes →
      (packageDisk host options temporary draw file).1.result = .ok context →
        ∃ disk,
          (packageDisk host options temporary draw file).2.read? context.archivePath = some disk ∧
          SameContent bytes disk (contentOf context.dockerfile) ∧
          ∀ script, context.scriptPath = some script →
            (packageDisk host options temporary draw file).2.read? script =
              some (contentOf context.dockerfile)) ∧
    (∀ failure, (packageBytes host options file).result = .error failure →
      (packageDisk host options temporary draw file).1.result = .error failure ∨
        ∃ fault, host.create (archiveOf options temporary draw) [] Host.freshMode = .error fault ∧
          (packageDisk host options temporary draw file).1.result =
            .error (.archiving (archiveOf options temporary draw) fault)) ∧
    ∀ bytes failure, (packageBytes host options file).result = .ok bytes →
      (packageDisk host options temporary draw file).1.result = .error failure →
        (∃ fault, host.create (archiveOf options temporary draw) [] Host.freshMode = .error fault ∧
          failure = .archiving (archiveOf options temporary draw) fault) ∨
        ∃ started spot fault,
          host.create (archiveOf options temporary draw) [] Host.freshMode = .ok (started, spot) ∧
          started.create (scriptOf started options temporary draw)
            (scriptContent started options file) scriptMode = .error fault ∧
          failure = .archiving (options.outputDirectory temporary) fault := by
  have hlimit : 2 ^ 64 ≤ Tar.sizeLimit := by decide
  have hshort := Nat.lt_of_lt_of_le hscript hlimit
  refine ⟨fun bytes context hbytes hdisk => ?_, fun failure => error_of_error hwf hunmet,
    fun bytes failure hbytes hdisk => creation_of_error hwf hunmet hbytes hdisk⟩
  exact sameContent_of_ok hlimit (by decide) hwf hfiles hshort hunmet hbytes hdisk

/-- Options of a run in the root that keeps its script. -/
def Options.rooted : Options :=
  { buildDirectory := some ⟨[Path.slash]⟩, archiveStem := "c", scriptStem := "d", removeScript := false }

/-- A draw of seven and a text. -/
def Draw.seven : Draw := ⟨7, "abcdef"⟩

theorem packageDisk_agrees_rooted : Host.looped.WellFormed ∧
    Host.looped.tree.filesBelow (2 ^ 64) = true ∧
    (scriptContent Host.looped .rooted .threeCopies).length < 2 ^ 64 ∧
    ArchiveUnmet Host.looped .rooted ⟨[]⟩ .seven .threeCopies ∧
    ∃ bytes context disk, (packageBytes Host.looped .rooted .threeCopies).result = .ok bytes ∧
      (packageDisk Host.looped .rooted ⟨[]⟩ .seven .threeCopies).1.result = .ok context ∧
      (packageDisk Host.looped .rooted ⟨[]⟩ .seven .threeCopies).2.read? context.archivePath =
        some disk ∧
      SameContent bytes disk (contentOf context.dockerfile) := by
  have hwf : Host.looped.WellFormed := by decide
  have hfiles : Host.looped.tree.filesBelow (2 ^ 64) = true := by decide
  have hscript : (scriptContent Host.looped .rooted .threeCopies).length < 2 ^ 64 := by decide
  have harchive : archiveOf .rooted ⟨[]⟩ .seven = ⟨[0x2F, 0x63, 0x37, 0x2E, 0x74, 0x61, 0x72]⟩ := by
    decide
  have hunmet : ArchiveUnmet Host.looped .rooted ⟨[]⟩ .seven .threeCopies := by
    intro started spot hstart
    rw [harchive] at hstart
    cases hstart
    exact ⟨by decide, fun _ _ hfails => by cases hfails⟩
  obtain ⟨context, hdisk⟩ : ∃ context,
      (packageDisk Host.looped .rooted ⟨[]⟩ .seven .threeCopies).1.result = .ok context := by
    have hpath : ∀ started : Host, started.workdir = [] → scriptOf started .rooted ⟨[]⟩ .seven =
        ⟨[0x2F, 0x64, 0x61, 0x62, 0x63, 0x64, 0x65, 0x66]⟩ := by
      intro started hworkdir
      rw [scriptOf, scriptPath, hworkdir]
      decide
    exact ok_of_created (by rw [harchive]; rfl) (by decide) (by rw [hpath _ rfl]; rfl)
  obtain ⟨hsame, -, -⟩ := packageDisk_agrees hwf hfiles hscript hunmet
  obtain ⟨disk, hread, hcontent, -⟩ := hsame _ context rfl hdisk
  exact ⟨hwf, hfiles, hscript, hunmet, _, context, disk, rfl, hdisk, hread, hcontent⟩

/-! ## An archive that is met but not found

That the import does not fail at the archive has to be asked beside that no path leads there. In a directory
that is added the archive is listed like any other file, and it is met though the path to it may be too long
to be looked up: a run on disk then fails at its own archive, before it comes to what a run in memory fails
at. -/

/-- The name of a link that leads to itself. -/
def knotName : Name := [0x7A]

/-- A host with one directory, which holds a link to itself. -/
def Host.knotted : Host := .single [(knotName, .link ⟨knotName⟩)]

/-- Options of a run in the directory of that host. -/
def Options.inside : Options := { buildDirectory := some ⟨[0x6F]⟩ }

/-- The name that its archive gets by the draw of seven. -/
def sevenName : Name := Utf8.encode "docker_build_archive_7.tar".toList

/-- The entries of that directory when the archive has been created. -/
def knottedWithArchive : List (Name × Node) :=
  [(knotName, .link ⟨knotName⟩), (sevenName, .file [] Host.freshMode)]

theorem properName_knotName : Node.properName knotName = true := by decide

theorem properName_sevenName : Node.properName sevenName = true := by decide

/-- No walk comes to the end of that link, however many links it may follow. -/
theorem walks_knot {tree : Node} {place : Place} {entries : List (Name × Node)}
    (hnode : place.node = .directory entries)
    (hl : entries.lookup knotName = some (.link ⟨knotName⟩)) (links : Nat) :
    Walks tree links place [knotName] (.error .tooManyLinks) := by
  have hname : Ordinary knotName := ⟨by decide, by decide, by decide⟩
  induction links with
  | zero => exact .exhausted hnode hname hl
  | succ links ih => exact .followed hnode hname hl ih

/-- Met by a path with slashes, the link ends the import. -/
theorem metAt_knot {n : Nat} (hroom : n + 3 ≤ Host.maxPath) {entries : List (Name × Node)}
    (hl : entries.lookup knotName = some (.link ⟨knotName⟩)) (name : String) :
    metAt (.single entries) (slashed (n + 1)) name entries knotName =
      [.unreadableLink (entryPath (slashed (n + 1)) knotName) .tooManyLinks] := by
  have hn : n + 2 ≤ Host.maxPath := by omega
  obtain ⟨links, -, hgo⟩ := Host.resolve_join (resolve_slashed hn entries)
  have hleads := hgo knotName _ properName_knotName (walks_knot rfl hl links)
  have hshort : ¬Host.maxPath < n + 2 + knotName.length := Nat.not_lt.2 hroom
  rw [← entryPath, length_entryPath_slashed properName_knotName, if_neg hshort] at hleads
  rw [metAt, hl]
  simp only [meet, hleads]
  rfl

/-- In memory the link is all that is met. -/
theorem importsOf_knotted {n : Nat} (hroom : n + 3 ≤ Host.maxPath) :
    importsOf .knotted .inside (.slashedCopy (n + 1)) =
      [.directory (slashed (n + 1)) "o",
        .unreadableLink (entryPath (slashed (n + 1)) knotName) .tooManyLinks] := by
  have hn : n + 2 ≤ Host.maxPath := by omega
  have horder : inByteOrder [(knotName, .link ⟨knotName⟩)] = [knotName] := rfl
  rw [Host.knotted, importsOf_slashedCopy hn (by decide) rfl, horder, List.flatMap_singleton,
    metAt_knot hroom rfl]
  rfl

/-- On disk the archive is met before the link. -/
theorem importsOf_knottedWithArchive {n : Nat} (hroom : n + 3 ≤ Host.maxPath)
    (hlong : Host.maxPath < n + 2 + sevenName.length) :
    importsOf (.single knottedWithArchive) .inside (.slashedCopy (n + 1)) =
      [.directory (slashed (n + 1)) "o",
        .unreadableFile (entryPath (slashed (n + 1)) sevenName) (entryName "o" sevenName)
          (.metadata .nameTooLong (entryPath (slashed (n + 1)) sevenName)),
        .unreadableLink (entryPath (slashed (n + 1)) knotName) .tooManyLinks] := by
  have hn : n + 2 ≤ Host.maxPath := by omega
  have horder : inByteOrder knottedWithArchive = [sevenName, knotName] := by decide
  have hseven : knottedWithArchive.lookup sevenName = some (.file [] Host.freshMode) := rfl
  have hmet : metAt (.single knottedWithArchive) (slashed (n + 1)) "o" knottedWithArchive sevenName =
      [.unreadableFile (entryPath (slashed (n + 1)) sevenName) (entryName "o" sevenName)
        (.metadata .nameTooLong (entryPath (slashed (n + 1)) sevenName))] := by
    rw [metAt, hseven]
    simp only [meet, addFile, resolve_overlong properName_sevenName hn hlong]
  rw [importsOf_slashedCopy hn (by decide) rfl, horder, List.flatMap_cons, List.flatMap_singleton, hmet,
    metAt_knot hroom rfl]
  rfl

/-- The directory is visited by its own path, and the archive by one that leads nowhere. -/
theorem visited_misses_archive {n : Nat} (hroom : n + 3 ≤ Host.maxPath)
    (hlong : Host.maxPath < n + 2 + sevenName.length) {path : Path}
    (hpath : path ∈ visited (.single knottedWithArchive) .inside (.slashedCopy (n + 1))) :
    ((Host.single knottedWithArchive).resolve path).map Place.names ≠ .ok [[0x6F], sevenName] := by
  have hn : n + 2 ≤ Host.maxPath := by omega
  have hpaths : visited (.single knottedWithArchive) .inside (.slashedCopy (n + 1)) =
      [slashed (n + 1), slashed (n + 1), entryPath (slashed (n + 1)) sevenName] := by
    rw [visited, importsOf_knottedWithArchive hroom hlong, sources_slashedCopy, List.map_singleton,
      ofString_slashed]
    rfl
  rw [hpaths] at hpath
  simp only [List.mem_cons, List.not_mem_nil, or_false, or_self_left] at hpath
  rcases hpath with rfl | rfl
  · rw [resolve_slashed hn]
    intro hleads
    cases Except.ok.inj hleads
  · rw [resolve_overlong properName_sevenName hn hlong]
    intro hleads
    cases hleads

/-- **It is not enough that no path leads to the archive.** In memory this run fails at a link that leads
to itself. On disk it creates its archive and fails there: at a path that spells that of the archive, but
is too long to be looked up. -/
theorem packageDisk_overlong : Host.knotted.WellFormed ∧ ∃ started spot knot own,
    Host.knotted.create (archiveOf .inside ⟨[]⟩ .seven) [] Host.freshMode = .ok (started, spot) ∧
    (∀ path ∈ visited started .inside (.slashedCopy 4090),
      (started.resolve path).map Place.names ≠ .ok spot.location) ∧
    (packageBytes .knotted .inside (.slashedCopy 4090)).result = .error (.archiving knot .tooManyLinks) ∧
    (packageDisk .knotted .inside ⟨[]⟩ .seven (.slashedCopy 4090)).1.result =
      .error (.archiving own (.metadata .nameTooLong own)) ∧
    own.same (archiveOf .inside ⟨[]⟩ .seven) = true ∧
    knot.same (archiveOf .inside ⟨[]⟩ .seven) = false := by
  have hwf : Host.knotted.WellFormed := by decide
  have hroom : 4089 + 3 ≤ Host.maxPath := by decide
  have hlong : Host.maxPath < 4089 + 2 + sevenName.length := by decide
  have harchive : archiveOf .inside ⟨[]⟩ .seven = ⟨[0x6F, Path.slash] ++ sevenName⟩ := by decide
  have hstart : Host.knotted.create ⟨[0x6F, Path.slash] ++ sevenName⟩ [] Host.freshMode =
      .ok (.single knottedWithArchive, ⟨[[0x6F]], sevenName⟩) := rfl
  rw [← harchive] at hstart
  refine ⟨hwf, _, _, entryPath (slashed 4090) knotName, entryPath (slashed 4090) sevenName, hstart,
    fun path hpath => visited_misses_archive hroom hlong hpath, packageBytes_eq_error_iff.2 ?_,
    error_of_import hstart ?_, ?_, ?_⟩
  · rw [importsOf_knotted hroom]
    rfl
  · rw [importsOf_knottedWithArchive hroom hlong]
    rfl
  · rw [Path.same_iff, components_entryPath_slashed properName_sevenName, harchive]
    decide
  · rw [Path.same, components_entryPath_slashed properName_knotName, harchive]
    decide

/-- A directory with a link that goes on behind the archive as if that were a directory. -/
def Host.behind : Host :=
  { tree := .directory [([0x61], .directory [([0x62], .link (.ofString "/c7.tar/b"))])], workdir := [] }

-- such a link dangles unless the archive is there
example : firstFailure? (importsOf .behind .rooted .threeCopies) = none ∧
    (packageDisk .behind .rooted ⟨[]⟩ .seven .threeCopies).1.result =
      .error (.archiving (.ofString "a/b") .notDirectory) := by decide +kernel

end ImageRecipe
