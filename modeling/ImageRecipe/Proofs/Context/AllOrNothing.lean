import ImageRecipe.Proofs.Context.DiskRun
import ImageRecipe.Proofs.Host.View

/-!
# All or nothing

A run on disk creates at most two files, and names each of them by the path it created it at. Whatever
trouble it meets, and at whatever step, it leaves the host as it was or with just what it returns.

* `AmidRun` — the two ways that a run amid trouble ends;
* `NewFile` — a view of a host that has one more file, which a path leads to;
* `Delivered` — a host that has the archive, the script if it is to stay, and nothing else that is new.

Principal results: `packageDiskAmid_calm` — without trouble this is packaging on disk; `amidRun` — a run
ends in one of the two ways; `packageDiskAmid_allOrNothing` — it fails and leaves the host as it was, or
succeeds and adds what it returns.
-/

set_option autoImplicit false

namespace ImageRecipe

variable {host left : Host} {options : Options} {temporary : Path} {draw : Draw} {file : Dockerfile}

/-! ## Without trouble -/

/-- **Without trouble, a run is one on disk**: taking files away by their paths is taking them away from
their places. -/
theorem packageDiskAmid_calm (host : Host) (options : Options) (temporary : Path) (draw : Draw)
    (file : Dockerfile) :
    packageDiskAmid {} host options temporary draw file =
      packageDisk host options temporary draw file := by
  unfold packageDiskAmid packageDisk
  simp only [Trouble.creating, Trouble.importing, Trouble.closing?, Option.map_none, Option.none_or,
    Option.or_none]
  cases hstart : host.create (archivePath options (options.outputDirectory temporary) draw) []
      Host.freshMode with
  | error fault => rfl
  | ok created =>
    obtain ⟨started, spot⟩ := created
    have hfirst := Host.created_of_create hstart
    have harchive : ∀ messages failure, withdraw started
        (archivePath options (options.outputDirectory temporary) draw)
        [archivePath options (options.outputDirectory temporary) draw] messages failure =
          abandon started (archivePath options (options.outputDirectory temporary) draw) [spot]
            messages failure := by
      intro messages failure
      simp only [withdraw, abandon, List.foldl_cons, List.foldl_nil,
        hfirst.gives_made.unlink hfirst.at?]
    simp only
    cases firstFailure? (importsOf started options file) with
    | some failure => exact harchive _ _
    | none =>
      simp only
      cases hscript : started.create
          (scriptPath started options (options.outputDirectory temporary) draw)
          (contentOf (packaged started options file).render) scriptMode with
      | error fault => exact harchive _ _
      | ok created =>
        obtain ⟨scripted, scriptSpot⟩ := created
        have hpair := Host.pair_of_created_twice hfirst (Host.created_of_create hscript)
        simp only [addFile_script hscript, Event.failure?, deliver, conclude]
        split
        · rw [(hpair _).gives_second.unlink (hpair _).at_second]
        · rfl

/-! ## How a run ends -/

/-- The two ways that a run amid trouble ends, with its result and the host it leaves. -/
inductive AmidRun (host : Host) (options : Options) (temporary : Path) (draw : Draw) :
    Except Failure BuildContext → Host → Prop
  | failed (failure : Failure) : AmidRun host options temporary draw (.error failure) host
  | succeeded {started scripted : Host} {spot scriptSpot : Host.Spot} {dockerfile : String}
      (entries : List Tar.Entry)
      (hstart : host.create (archiveOf options temporary draw) [] Host.freshMode = .ok (started, spot))
      (hscript : started.create (scriptOf started options temporary draw) (contentOf dockerfile)
        scriptMode = .ok (scripted, scriptSpot)) :
      AmidRun host options temporary draw
        (.ok ⟨archiveOf options temporary draw, dockerfile,
          if options.removeScript then none else some (scriptOf started options temporary draw)⟩)
        (if options.removeScript then
          (scripted.write spot (Tar.write (entries ++
            [⟨scriptName, .file (contentOf dockerfile) false⟩]))).remove scriptSpot
        else scripted.write spot (Tar.write (entries ++
          [⟨scriptName, .file (contentOf dockerfile) false⟩])))

/-- What is created on a device that may refuse it is created. -/
theorem ok_of_creating {α : Type} {fault : Option Fault} {created : Except Fault α} {result : α}
    (h : Trouble.creating fault created = .ok result) : created = .ok result := by
  cases fault with
  | some fault => cases h
  | none => exact h

/-- **A run ends in one of the two ways**, whatever trouble it meets. -/
theorem amidRun (trouble : Trouble) : AmidRun host options temporary draw
    (packageDiskAmid trouble host options temporary draw file).1.result
    (packageDiskAmid trouble host options temporary draw file).2 := by
  unfold packageDiskAmid
  simp only
  split
  · exact .failed _
  · rename_i started spot hcreating
    have hstart : host.create (archiveOf options temporary draw) [] Host.freshMode =
        .ok (started, spot) := ok_of_creating hcreating
    have hfirst := Host.created_of_create hstart
    -- the archive is there, and nothing else is new
    have harchive : started.unlink (archiveOf options temporary draw) = host := hfirst.unlink
    split
    · rename_i messages failure _
      simp only [withdraw, List.foldl_cons, List.foldl_nil]
      exact harchive.symm ▸ .failed failure
    · split
      · rename_i fault _
        simp only [withdraw, List.foldl_cons, List.foldl_nil]
        exact harchive.symm ▸ .failed _
      · rename_i scripted scriptSpot hcreating
        have hscript : started.create (scriptOf started options temporary draw)
            (contentOf (packaged started options file).render) scriptMode =
              .ok (scripted, scriptSpot) := ok_of_creating hcreating
        have hsecond := Host.created_of_create hscript
        -- the script is there as well, and goes first
        have hwithdrawn : (scripted.unlink (scriptOf started options temporary draw)).unlink
            (archiveOf options temporary draw) = host := by
          rw [hsecond.unlink, harchive]
        split
        · rename_i failure _
          simp only [withdraw, List.foldl_cons, List.foldl_nil]
          exact hwithdrawn.symm ▸ .failed failure
        · have hunlink : ∀ bytes, (scripted.write spot bytes).unlink
              (scriptPath started options (options.outputDirectory temporary) draw) =
                (scripted.write spot bytes).remove scriptSpot := by
            intro bytes
            have hpair := Host.pair_of_created_twice hfirst hsecond bytes
            exact hpair.gives_second.unlink hpair.at_second
          have hdone : AmidRun host options temporary draw _ _ :=
            .succeeded ((importsOf started options file).filterMap Event.entry?) hstart hscript
          have hlast := addFile_script hscript
          rw [scriptOf] at hlast
          rw [hlast, deliver, List.filterMap_append]
          split
          · rename_i hremove
            simp only [if_pos hremove] at hdone
            rw [hunlink]
            exact hdone
          · rename_i hremove
            simp only [if_neg hremove] at hdone
            exact hdone

/-! ## What a run leaves -/

/-- A view with a file at a place where nothing was seen before, and to which a path of the host leads. -/
def NewFile (host : Host) (before after : List Name → Option Face) (path : Path)
    (content : List UInt8) (mode : Nat) : Prop :=
  ∃ place, before place = none ∧ (host.resolve path).map Place.names = .ok place ∧
    after = Function.update before place (some (.file content mode))

/-- What a run that succeeds leaves: an archive that ends in the script, at its path; the script at its own
path, if it is to stay; and all else as it was. -/
inductive Delivered (host left : Host) (context : BuildContext) : Prop
  | archive {entries : List Tar.Entry} (hscript : context.scriptPath = none)
      (harchive : NewFile left host.view left.view context.archivePath
        (Tar.write (entries ++ [⟨"Dockerfile", .file (contentOf context.dockerfile) false⟩]))
        Host.freshMode)
  | archiveAndScript {entries : List Tar.Entry} {between : List Name → Option Face} {script : Path}
      (hscript : context.scriptPath = some script)
      (harchive : NewFile left host.view between context.archivePath
        (Tar.write (entries ++ [⟨"Dockerfile", .file (contentOf context.dockerfile) false⟩]))
        Host.freshMode)
      (hkept : NewFile left between left.view script (contentOf context.dockerfile) scriptMode)

theorem newFile_of_gives {path : Path} {spot : Host.Spot} {content : List UInt8} {mode : Nat}
    (hgives : left.Gives path spot)
    (hat : left.tree.at? spot.location = some (.file content mode))
    {before after : List Name → Option Face} (hfree : before spot.location = none)
    (hafter : after = Function.update before spot.location (some (.file content mode))) :
    NewFile left before after path content mode := by
  obtain ⟨place, hp, -, hnames⟩ := hgives.leads hat
  refine ⟨spot.location, hfree, ?_, hafter⟩
  rw [hp, ← hnames]
  rfl

/-- The views that a run goes through: the archive is created, the script is, and the archive is written. -/
theorem view_written {started scripted : Host} {archive script : Path} {spot scriptSpot : Host.Spot}
    {content bytes : List UInt8} {mode : Nat}
    (hfirst : host.Created archive (.file [] Host.freshMode) started spot)
    (hsecond : started.Created script (.file content mode) scripted scriptSpot) :
    host.view scriptSpot.location = none ∧ scriptSpot.location ≠ spot.location ∧
      (scripted.write spot bytes).view =
        Function.update (Function.update host.view spot.location (some (.file bytes Host.freshMode)))
          scriptSpot.location (some (.file content mode)) := by
  have hne : scriptSpot.location ≠ spot.location := fun heq =>
    (Host.pair_of_created_twice hfirst hsecond bytes).apart (heq ▸ List.prefix_rfl)
  have hstarted := hfirst.view
  have hscripted := hsecond.view
  have hat : scripted.tree.at? spot.location = some (.file [] Host.freshMode) := by
    have hinsert := Host.alikeBut_insert started scriptSpot (.file content mode)
    rw [← hsecond.made_eq] at hinsert
    exact hinsert.file_at? hfirst.at? (Host.pair_of_created_twice hfirst hsecond bytes).apart
  refine ⟨?_, hne, ?_⟩
  · have hfree : started.view scriptSpot.location = none := by
      rw [Host.view, hsecond.free]
      rfl
    rwa [hstarted, Function.update_of_ne hne] at hfree
  · rw [Host.view_write hat, hscripted, hstarted, Function.update_comm hne, Function.update_idem]

/-- **A run that succeeds leaves what it returns, and nothing else that is new.** -/
theorem delivered_of_created {started scripted : Host} {archive script : Path}
    {spot scriptSpot : Host.Spot} {dockerfile : String} {entries : List Tar.Entry}
    (hfirst : host.Created archive (.file [] Host.freshMode) started spot)
    (hsecond : started.Created script (.file (contentOf dockerfile) scriptMode) scripted scriptSpot)
    (remove : Bool) :
    let written := scripted.write spot
      (Tar.write (entries ++ [⟨scriptName, .file (contentOf dockerfile) false⟩]))
    Delivered host (if remove then written.remove scriptSpot else written)
      ⟨archive, dockerfile, if remove then none else some script⟩ := by
  intro written
  have hpair : written.Pair archive script spot scriptSpot _ _ :=
    Host.pair_of_created_twice hfirst hsecond _
  obtain ⟨hscriptFree, hne, hview⟩ : _ ∧ _ ∧ written.view = _ := view_written hfirst hsecond
  have hfree : host.view spot.location = none := by
    rw [Host.view, hfirst.free]
    rfl
  cases remove with
  | false =>
    refine .archiveAndScript rfl (newFile_of_gives hpair.gives_first hpair.at_first hfree rfl)
      (newFile_of_gives hpair.gives_second hpair.at_second ?_ hview)
    rw [Function.update_of_ne hne]
    exact hscriptFree
  | true =>
    obtain ⟨hgives, hat⟩ := hpair.remove
    refine .archive rfl (newFile_of_gives hgives hat hfree ?_)
    have hgone : (written.remove scriptSpot).view =
        Function.update written.view scriptSpot.location none := Host.view_remove hpair.at_second
    -- the script comes and goes where nothing was seen
    rw [if_pos rfl, hgone, hview, Function.update_idem, Function.update_eq_self_iff, Function.update_of_ne hne,
      hscriptFree]

/-- **Packaging on disk is all or nothing**, whatever trouble it meets and at whatever step. A run that
fails leaves the host as it was. A run that succeeds adds the archive at its path and, if the script is to
stay, the script at its own path, which holds the text that is returned; all else is seen as it was. Without
trouble such a run is one of `packageDisk`. -/
theorem packageDiskAmid_allOrNothing (host : Host) (options : Options) (temporary : Path)
    (draw : Draw) (file : Dockerfile) :
    packageDiskAmid {} host options temporary draw file =
      packageDisk host options temporary draw file ∧
    ∀ trouble : Trouble,
      (∀ failure, (packageDiskAmid trouble host options temporary draw file).1.result = .error failure →
        (packageDiskAmid trouble host options temporary draw file).2 = host) ∧
      ∀ context, (packageDiskAmid trouble host options temporary draw file).1.result = .ok context →
        context.archivePath = archiveOf options temporary draw ∧
        (context.scriptPath = none ↔ options.removeScript = true) ∧
        Delivered host (packageDiskAmid trouble host options temporary draw file).2 context := by
  refine ⟨packageDiskAmid_calm host options temporary draw file, fun trouble => ?_⟩
  have hrun : AmidRun host options temporary draw
      (packageDiskAmid trouble host options temporary draw file).1.result
      (packageDiskAmid trouble host options temporary draw file).2 := amidRun trouble
  generalize (packageDiskAmid trouble host options temporary draw file).1.result = result at hrun ⊢
  generalize (packageDiskAmid trouble host options temporary draw file).2 = left at hrun ⊢
  cases hrun with
  | failed failure => exact ⟨fun _ _ => rfl, fun context hcontext => by cases hcontext⟩
  | succeeded entries hstart hscript =>
    refine ⟨fun failure hfailure => ?_, fun context hcontext => ?_⟩
    · cases hfailure
    cases hcontext
    refine ⟨rfl, by simp, ?_⟩
    exact delivered_of_created (Host.created_of_create hstart) (Host.created_of_create hscript)
      options.removeScript

theorem packageDiskAmid_allOrNothing_rooted :
    (∃ failure, (packageDiskAmid { ending := some (.system 28) } Host.looped .rooted ⟨[]⟩ .seven
        .threeCopies).1.result = .error failure ∧
      (packageDiskAmid { ending := some (.system 28) } Host.looped .rooted ⟨[]⟩ .seven
        .threeCopies).2 = Host.looped) ∧
    ∃ context, (packageDiskAmid {} Host.looped .rooted ⟨[]⟩ .seven .threeCopies).1.result =
        .ok context ∧
      context.scriptPath = some (.ofString "/dabcdef") ∧
      Delivered Host.looped (packageDiskAmid {} Host.looped .rooted ⟨[]⟩ .seven .threeCopies).2
        context := by
  have hfails : (packageDiskAmid { ending := some (.system 28) } Host.looped .rooted ⟨[]⟩ .seven
      .threeCopies).1.result = .error (.transfer (.system 28)) := by decide +kernel
  have hsucceeds : (packageDiskAmid {} Host.looped .rooted ⟨[]⟩ .seven .threeCopies).1.result =
      .ok ⟨.ofString "/c7.tar", "COPY [\"a\", \"/\"]\nCOPY [\"x\", \"/\"]\nCOPY [\"c\", \"/\"]\n",
        some (.ofString "/dabcdef")⟩ := by decide +kernel
  have hrun := (packageDiskAmid_allOrNothing Host.looped .rooted ⟨[]⟩ .seven .threeCopies).2
  exact ⟨⟨_, hfails, (hrun _).1 _ hfails⟩, _, hsucceeds, rfl, ((hrun _).2 _ hsucceeds).2.2⟩

end ImageRecipe
