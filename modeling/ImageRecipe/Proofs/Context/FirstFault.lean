import ImageRecipe.Context.Trouble
import ImageRecipe.Proofs.Context.Collisions
import ImageRecipe.Proofs.Context.DiskRun
import ImageRecipe.Proofs.Context.Noninterference
import ImageRecipe.Proofs.Context.Tour

/-!
# What packaging fails with

Packaging fails if something cannot be done on the way through its sources, and with the first such thing.
What can fail is said here of the tree alone: at each place that the import comes to, by what stands there;
for each source, at the least place in the order of its tour; and over all sources, in the order of the
import. A source that is passed over cannot fail, nor can one that leads nowhere.

* `FailsAt` — a fault at a place: a file, a directory or a link that cannot be looked up, and contents and
  listings that the device does not give;
* `FailsOn` — the first failure of a source: that it cannot be named, or that of the first place that fails;
* `FailsFirst` — the first failure of a row of sources, some of which are passed over;
* `Repeated`, `AlreadyImported` — sources that the import passes over, and sources that it has come to
  before: the two differ once another source of the same name has been imported in between.

Principal results:

* `failure?_visit`, `failure?_importSource` — the events of one place and of one source fail as told;
* `failure?_importSources` — so does a run over all sources;
* `packageBytes_fails_iff` — packaging fails exactly with the first fault of its sources;
* `alreadyImported_returning` — a source that comes back can fail though it has been imported.
-/

set_option autoImplicit false

namespace ImageRecipe

/-! ## Faults at a place -/

/-- What keeps the content of a file of these permission bits from being read. -/
def Flaws.unread? (flaws : Flaws) (path : Path) (mode : Nat) : Option Fault :=
  if Node.ownerMayRead mode then flaws.content path else some .denied

/-- A fault at a place that the import comes to by a path. The place cannot be looked up, or it does not
give what it holds; a link may dangle, and lead to anything but a file that is not given. -/
inductive FailsAt (flaws : Flaws) (host : Host) (path : Path) : Node → Fault → Prop
  | fileMetadata {content : List UInt8} {mode : Nat} {fault : Fault}
      (h : host.resolve path = .error fault) :
      FailsAt flaws host path (.file content mode) (.metadata fault path)
  | fileContent {content : List UInt8} {mode : Nat} {place : Place} {fault : Fault}
      (h : host.resolve path = .ok place) (hread : flaws.unread? path mode = some fault) :
      FailsAt flaws host path (.file content mode) fault
  | directoryMetadata {entries : List (Name × Node)} {fault : Fault}
      (h : host.resolve path = .error fault) : FailsAt flaws host path (.directory entries) fault
  | directoryListing {entries : List (Name × Node)} {place : Place} {fault : Fault}
      (h : host.resolve path = .ok place) (hlisting : flaws.listing path = some fault) :
      FailsAt flaws host path (.directory entries) fault
  | link {target : Path} {fault : Fault} (h : host.resolve path = .error fault)
      (hother : fault ≠ .notFound) : FailsAt flaws host path (.link target) fault
  | linkedContent {target : Path} {content : List UInt8} {mode : Nat} {way : List (Name × Node)}
      {fault : Fault} (h : host.resolve path = .ok ⟨.file content mode, way⟩)
      (hread : flaws.unread? path mode = some fault) : FailsAt flaws host path (.link target) fault

/-- The first failure of a source: it has no name of its own and cannot be given one, or it has a name and
something fails at a place, but nothing at those before it in the order of the tour. -/
inductive FailsOn (flaws : Flaws) (host : Host) (path : Path) : Failure → Prop
  | unnamed {fault : Fault} (hname : path.fileName? = none) (h : host.realLocation path = .error fault) :
      FailsOn flaws host path (.archiving path fault)
  | visited {place : Place} {name : String} {stop : Stop} {fault : Fault}
      (hleads : host.resolve path = .ok place) (hname : baseName host path = .ok (some name))
      (hat : host.tree.at? (place.names ++ stop.names) = some stop.node)
      (hfails : FailsAt flaws host (stop.path path) stop.node fault)
      (hfirst : ∀ earlier : Stop, host.tree.at? (place.names ++ earlier.names) = some earlier.node →
        earlier.key < stop.key → ∀ other, ¬FailsAt flaws host (earlier.path path) earlier.node other) :
      FailsOn flaws host path (.archiving (stop.path path) fault)

/-- The first failure of a row of sources, of which some are passed over, as what comes before them has
it. -/
def FailsFirst (flaws : Flaws) (host : Host) (passes : List (Path × Node) → Path → Prop)
    (sources : List (Path × Node)) (failure : Failure) : Prop :=
  ∃ before found after, sources = before ++ found :: after ∧ ¬passes before found.1 ∧
    FailsOn flaws host found.1 failure ∧
    ∀ front earlier back, before = front ++ earlier :: back → ¬passes front earlier.1 →
      ∀ other, ¬FailsOn flaws host earlier.1 other

/-- The path, as components, that has come last under a name. -/
def lastUnder (host : Host) (before : List (Path × Node)) (name : String) :
    Option (List Path.Component) :=
  (keysNamed name (before.filterMap (Copy.ofFound? host))).getLast?

/-- A source that the import passes over: under its name the same path has come last. -/
def Repeated (host : Host) (before : List (Path × Node)) (path : Path) : Prop :=
  ∃ name, baseName host path = .ok (some name) ∧ lastUnder host before name = some path.components

/-- A source that the import has come to before. -/
def AlreadyImported (before : List (Path × Node)) (path : Path) : Prop :=
  ∃ earlier ∈ before, earlier.1.same path = true

/-! ## Events of a place -/

section

variable {flaws : Flaws} {host : Host} {path : Path} {name : String} {failure : Failure}

theorem failure?_addFile_iff {content : List UInt8} {mode : Nat} :
    flaws.failure? (addFile host path name content mode) = some failure ↔
      ∃ fault, FailsAt flaws host path (.file content mode) fault ∧
        failure = .archiving path fault := by
  unfold addFile
  constructor
  · intro h
    split at h
    · rename_i hp
      cases h
      exact ⟨_, .fileMetadata hp, rfl⟩
    · rename_i hp
      split at h
      · rename_i hmay
        obtain ⟨fault, hfault, rfl⟩ := Option.map_eq_some_iff.1 h
        exact ⟨fault, .fileContent hp (by rw [Flaws.unread?, if_pos hmay, hfault]), rfl⟩
      · rename_i hmay
        cases h
        exact ⟨_, .fileContent hp (if_neg hmay), rfl⟩
  · rintro ⟨fault, hfails, rfl⟩
    cases hfails with
    | fileMetadata hp => simp only [hp, Flaws.failure?, Event.failure?]
    | fileContent hp hread =>
      unfold Flaws.unread? at hread
      simp only [hp]
      split
      · rename_i hmay
        rw [if_pos hmay] at hread
        simp only [Flaws.failure?, hread, Option.map_some]
      · rename_i hmay
        rw [if_neg hmay] at hread
        cases hread
        rfl

theorem failure?_addDirectory_iff {entries : List (Name × Node)} :
    flaws.failure? (addDirectory host path name) = some failure ↔
      ∃ fault, FailsAt flaws host path (.directory entries) fault ∧
        failure = .archiving path fault := by
  unfold addDirectory
  constructor
  · intro h
    split at h
    · rename_i hp
      obtain ⟨fault, hfault, rfl⟩ := Option.map_eq_some_iff.1 h
      exact ⟨fault, .directoryListing hp hfault, rfl⟩
    · rename_i hp
      cases h
      exact ⟨_, .directoryMetadata hp, rfl⟩
  · rintro ⟨fault, hfails, rfl⟩
    cases hfails with
    | directoryMetadata hp => simp only [hp, Flaws.failure?, Event.failure?]
    | directoryListing hp hlisting => simp only [hp, Flaws.failure?, hlisting, Option.map_some]

/-- **The events of a place fail as what stands there does.** -/
theorem failure?_visit {node : Node} :
    (visit host path name node).findSome? flaws.failure? = some failure ↔
      ∃ fault, FailsAt flaws host path node fault ∧ failure = .archiving path fault := by
  cases node with
  | directory entries =>
    rw [visit, List.findSome?_singleton]
    exact failure?_addDirectory_iff
  | file content mode =>
    rw [visit, meet, List.findSome?_singleton]
    · exact failure?_addFile_iff
    · exact fun _ => Node.noConfusion
  | special =>
    rw [visit, meet, List.findSome?_singleton]
    · constructor
      · intro h
        cases h
      · rintro ⟨fault, hfails, -⟩
        cases hfails
    · exact fun _ => Node.noConfusion
  | link target =>
    rw [visit, meet]
    · constructor
      · intro h
        split at h
        · rename_i content mode way hp
          rw [List.findSome?_singleton, failure?_addFile_iff] at h
          obtain ⟨fault, hfails, rfl⟩ := h
          cases hfails with
          | fileMetadata hother => cases hp.symm.trans hother
          | fileContent _ hread => exact ⟨fault, .linkedContent hp hread, rfl⟩
        · cases h
        · cases h
        · rename_i fault hp
          split at h
          · cases h
          · rename_i hother
            cases h
            exact ⟨fault, .link hp hother, rfl⟩
      · rintro ⟨fault, hfails, rfl⟩
        cases hfails with
        | link hp hother =>
          simp only [hp, if_neg hother]
          rfl
        | linkedContent hp hread =>
          simp only [hp]
          rw [List.findSome?_singleton, failure?_addFile_iff]
          exact ⟨fault, .fileContent hp hread, rfl⟩
    · exact fun _ => Node.noConfusion

theorem failure?_visit_eq_none {node : Node} :
    (visit host path name node).findSome? flaws.failure? = none ↔
      ∀ fault, ¬FailsAt flaws host path node fault := by
  rw [Option.eq_none_iff_forall_ne_some]
  constructor
  · intro h fault hfails
    exact h _ (failure?_visit.2 ⟨fault, hfails, rfl⟩)
  · intro h failure hfailure
    obtain ⟨fault, hfails, -⟩ := failure?_visit.1 hfailure
    exact h fault hfails

end

/-! ## Events of a source -/

section

variable {flaws : Flaws} {host : Host} {path : Path} {node : Node} {place : Place} {failure : Failure}

/-- What is met first along a row of rows is met first in the first of them that meets anything. -/
theorem findSome?_flatMap {α β γ : Type} (items : List α) (row : α → List β) (meets : β → Option γ) :
    (items.flatMap row).findSome? meets = items.findSome? fun item => (row item).findSome? meets := by
  induction items with
  | nil => rfl
  | cons item rest ih =>
    rw [List.flatMap_cons, List.findSome?_append, List.findSome?_cons, ih]
    cases (row item).findSome? meets <;> rfl

/-- **Adding a source visits the stops of its tour**: a file is its only stop. -/
theorem exists_tour_additions (hwf : host.WellFormed) (hfound : Found host path node place) :
    ∃ stops, Tours node stops ∧ ∀ name,
      additions host path name node = stops.flatMap (Stop.events host path name) := by
  rcases hfound.held with ⟨content, mode, rfl⟩ | ⟨entries, rfl⟩
  · refine ⟨[⟨[], .file content mode⟩], ⟨fun stop => ?_, List.pairwise_singleton _ _⟩, fun name => ?_⟩
    · obtain ⟨names, there⟩ := stop
      rw [List.mem_singleton, Stop.mk.injEq]
      exact (Node.at?_eq_some_iff rfl).symm
    · rfl
  · have hat := (Host.reached_of_resolve hfound.leads).at?_names
    rw [hfound.node_eq] at hat
    obtain ⟨stops, htours, hevents⟩ := exists_tour (hwf.at? hat) rfl
    exact ⟨stops, htours, fun name => hevents host path name⟩

theorem baseName_eq_error_iff {fault : Fault} : baseName host path = .error fault ↔
    path.fileName? = none ∧ host.realLocation path = .error fault := by
  unfold baseName
  cases path.fileName? with
  | some own => simp
  | none => cases host.realLocation path <;> simp [Except.map]

/-- What a source fails with that cannot be named. -/
theorem failsOn_of_unnamable {fault : Fault} (hbase : baseName host path = .error fault) :
    FailsOn flaws host path failure ↔ failure = .archiving path fault := by
  obtain ⟨hname, hreal⟩ := baseName_eq_error_iff.1 hbase
  constructor
  · intro hfails
    cases hfails with
    | unnamed _ hother =>
      cases hreal.symm.trans hother
      rfl
    | visited _ hown => cases hbase.symm.trans hown
  · rintro rfl
    exact .unnamed hname hreal

/-- A source that gets no name does not fail. -/
theorem not_failsOn_of_nameless (hbase : baseName host path = .ok none) :
    ¬FailsOn flaws host path failure := by
  intro hfails
  cases hfails with
  | unnamed hname hreal => cases hbase.symm.trans (baseName_eq_error_iff.2 ⟨hname, hreal⟩)
  | visited _ hown => cases hbase.symm.trans hown

/-- What adding a source under its name fails with. -/
theorem failure?_additions (hwf : host.WellFormed) (hfound : Found host path node place)
    {name : String} (hname : baseName host path = .ok (some name)) :
    (additions host path name node).findSome? flaws.failure? = some failure ↔
      FailsOn flaws host path failure := by
  obtain ⟨stops, htours, hevents⟩ := exists_tour_additions hwf hfound
  have hbelow : ∀ names, host.tree.at? (place.names ++ names) = node.at? names := by
    intro names
    rw [Node.at?_append, (Host.reached_of_resolve hfound.leads).at?_names, Option.bind_some,
      hfound.node_eq]
  rw [hevents, findSome?_flatMap, htours.first_iff]
  constructor
  · rintro ⟨stop, hat, hmeets, hfirst⟩
    obtain ⟨fault, hfails, rfl⟩ := failure?_visit.1 hmeets
    refine .visited hfound.leads hname ((hbelow _).trans hat) hfails ?_
    intro earlier hearlier hlt
    exact failure?_visit_eq_none.1 (hfirst earlier ((hbelow _).symm.trans hearlier) hlt)
  · intro hfailsOn
    cases hfailsOn with
    | unnamed hnone hreal => cases hname.symm.trans (baseName_eq_error_iff.2 ⟨hnone, hreal⟩)
    | @visited there _ stop fault hleads _ hat hfails hfirst =>
      obtain rfl : there = place := Except.ok.inj (hleads.symm.trans hfound.leads)
      refine ⟨stop, (hbelow _).symm.trans hat, failure?_visit.2 ⟨fault, hfails, rfl⟩, ?_⟩
      intro earlier hearlier hlt
      exact failure?_visit_eq_none.2 (hfirst earlier ((hbelow _).trans hearlier) hlt)

/-- What is only remarked fails on no device. -/
theorem Remarks.failure?_eq_none {events : List Event} (h : Remarks events) :
    events.findSome? flaws.failure? = none := by
  rw [List.findSome?_eq_none_iff]
  intro event hevent
  obtain ⟨hentry, hfailure⟩ := h event hevent
  cases event <;> first | exact hfailure | cases hentry

/-! ## Events of all sources -/

/-- The sources that were added last under their names are those that have come last. -/
def Tracks (host : Host) (added : Added) (before : List (Path × Node)) : Prop :=
  ∀ name, (added.lookup name).map Path.components = lastUnder host before name

theorem lastUnder_concat_of_nameless {before : List (Path × Node)} {found : Path × Node}
    (h : Copy.ofFound? host found = none) (name : String) :
    lastUnder host (before ++ [found]) name = lastUnder host before name := by
  rw [lastUnder, List.filterMap_append, List.filterMap_cons_none h, List.filterMap_nil,
    List.append_nil, lastUnder]

theorem lastUnder_concat {before : List (Path × Node)} {found : Path × Node} {copy : Copy}
    (h : Copy.ofFound? host found = some copy) (name : String) :
    lastUnder host (before ++ [found]) name =
      if copy.name = name then some copy.path.components else lastUnder host before name := by
  rw [lastUnder, List.filterMap_append, List.filterMap_cons_some h, List.filterMap_nil,
    keysNamed_append]
  split
  · rename_i hname
    subst hname
    rw [keysNamed_cons_self, List.getLast?_append]
    rfl
  · rename_i hname
    rw [keysNamed_cons_of_ne hname]
    show (keysNamed name (before.filterMap (Copy.ofFound? host)) ++ []).getLast? = _
    rw [List.append_nil, lastUnder]

theorem Tracks.repeats_iff {added : Added} {before : List (Path × Node)} (h : Tracks host added before)
    {copy : Copy} (hbase : baseName host copy.path = .ok (some copy.name)) :
    copy.repeats added = true ↔ Repeated host before copy.path := by
  rw [ImageRecipe.repeats_iff, lastKey, h copy.name, Repeated, hbase]
  constructor
  · intro hlast
    exact ⟨copy.name, rfl, by simpa using hlast⟩
  · rintro ⟨name, hname, hlast⟩
    cases hname
    rw [hlast]
    rfl

/-- **A source that is imported becomes the one that has come last under its name.** -/
theorem Tracks.importSource {added : Added} {before : List (Path × Node)}
    (h : Tracks host added before) (found : Path × Node) :
    Tracks host (importSource host added found.1 found.2).2 (before ++ [found]) := by
  intro name
  cases hcopy : Copy.ofFound? host found with
  | none =>
    rw [(importSource_of_nameless added hcopy).2, lastUnder_concat_of_nameless hcopy]
    exact h name
  | some copy =>
    obtain ⟨rfl, hbase⟩ := ofFound?_eq_some_iff.1 hcopy
    rw [importSource_copy hbase, lastUnder_concat hcopy]
    by_cases hrepeats : copy.repeats added = true
    · rw [if_pos hrepeats]
      split
      · rename_i hname
        obtain ⟨own, hown, hlast⟩ := (h.repeats_iff hbase).1 hrepeats
        rw [hbase] at hown
        cases hown
        rw [← hname, h copy.name, hlast]
      · exact h name
    · rw [if_neg hrepeats]
      split
      · rename_i hname
        subst hname
        rw [List.lookup_cons_self]
        rfl
      · rename_i hname
        rw [List.lookup_cons, beq_eq_false_iff_ne.2 (Ne.symm hname)]
        exact h name

theorem not_repeated_of_baseName {before : List (Path × Node)}
    (h : ∀ name, baseName host path ≠ .ok (some name)) : ¬Repeated host before path := by
  rintro ⟨name, hname, -⟩
  exact h name hname

/-- **What importing a source fails with**, after those that have come before. -/
theorem failure?_importSource (hwf : host.WellFormed) {added : Added} {before : List (Path × Node)}
    (htracks : Tracks host added before) (hfound : Found host path node place) :
    (importSource host added path node).1.findSome? flaws.failure? = some failure ↔
      ¬Repeated host before path ∧ FailsOn flaws host path failure := by
  cases hbase : baseName host path with
  | error fault =>
    have hnew : ¬Repeated host before path := not_repeated_of_baseName (by simp [hbase])
    rw [importSource, hbase, and_iff_right hnew, failsOn_of_unnamable hbase, eq_comm]
    exact Option.some_inj
  | ok result =>
    cases result with
    | none =>
      rw [importSource, hbase]
      constructor
      · intro h
        cases h
      · rintro ⟨-, hfails⟩
        exact absurd hfails (not_failsOn_of_nameless hbase)
    | some name =>
      let copy : Copy := ⟨name, path, node⟩
      have hstep : importSource host added path node =
          if copy.repeats added then (copy.remarks added, added)
          else (copy.remarks added ++ copy.additions host, (name, path) :: added) :=
        @importSource_copy host added copy hbase
      have hremarks : (copy.remarks added).findSome? flaws.failure? = none :=
        (remarks_remarks added copy).failure?_eq_none
      have hrepeats : copy.repeats added = true ↔ Repeated host before path :=
        @Tracks.repeats_iff host added before htracks copy hbase
      rw [hstep]
      by_cases hrepeated : Repeated host before path
      · rw [if_pos (hrepeats.2 hrepeated), hremarks]
        simp [hrepeated]
      · rw [if_neg fun h => hrepeated (hrepeats.1 h), List.findSome?_append, hremarks,
          Option.none_or, and_iff_right hrepeated]
        exact failure?_additions hwf hfound hbase

/-- The first failure of a row is that of its first source, or that of the rest of the row. -/
theorem failsFirst_cons {passes : List (Path × Node) → Path → Prop} {first : Path × Node}
    {rest : List (Path × Node)} :
    FailsFirst flaws host passes (first :: rest) failure ↔
      (¬passes [] first.1 ∧ FailsOn flaws host first.1 failure) ∨
      (¬passes [] first.1 → ∀ other, ¬FailsOn flaws host first.1 other) ∧
        FailsFirst flaws host (fun front => passes (first :: front)) rest failure := by
  constructor
  · rintro ⟨before, found, after, hsplit, hpasses, hfails, hfirst⟩
    cases before with
    | nil =>
      cases hsplit
      exact .inl ⟨hpasses, hfails⟩
    | cons head front =>
      obtain ⟨rfl, rfl⟩ := List.cons_eq_cons.1 hsplit
      refine .inr ⟨hfirst [] first front rfl, front, found, after, rfl, hpasses, hfails, ?_⟩
      intro inner earlier back heq
      exact hfirst (first :: inner) earlier back (heq ▸ rfl)
  · rintro (⟨hpasses, hfails⟩ | ⟨hhead, front, found, after, rfl, hpasses, hfails, hfirst⟩)
    · exact ⟨[], first, rest, rfl, hpasses, hfails, by simp⟩
    · refine ⟨first :: front, found, after, rfl, hpasses, hfails, ?_⟩
      intro inner earlier back heq hpass
      cases inner with
      | nil =>
        cases heq
        exact hhead hpass
      | cons head inner =>
        cases heq
        exact hfirst inner earlier back rfl hpass

/-- **What a run over sources fails with**, after those that have come before. -/
theorem failure?_importSources (hwf : host.WellFormed) {added : Added}
    {before sources : List (Path × Node)} (htracks : Tracks host added before)
    (hfound : ∀ source ∈ sources, ∃ place, Found host source.1 source.2 place) :
    (importSources host added sources).findSome? flaws.failure? = some failure ↔
      FailsFirst flaws host (fun front => Repeated host (before ++ front)) sources failure := by
  induction sources generalizing added before with
  | nil =>
    constructor
    · intro h
      cases h
    · rintro ⟨front, _, _, hsplit, -⟩
      cases front <;> cases hsplit
  | cons first rest ih =>
    obtain ⟨hhead, hrest⟩ := List.forall_mem_cons.1 hfound
    obtain ⟨place, hplace⟩ := hhead
    have hstep (failure : Failure) :
        (importSource host added first.1 first.2).1.findSome? flaws.failure? = some failure ↔
          ¬Repeated host before first.1 ∧ FailsOn flaws host first.1 failure :=
      failure?_importSource hwf htracks hplace
    have hlater := ih (htracks.importSource first) hrest
    simp only [List.append_assoc, List.singleton_append] at hlater
    show ((importSource host added first.1 first.2).1 ++
      importSources host (importSource host added first.1 first.2).2 rest).findSome? _ = _ ↔ _
    rw [List.findSome?_append, failsFirst_cons, List.append_nil, ← hstep failure, ← hlater]
    cases hhere : (importSource host added first.1 first.2).1.findSome? flaws.failure? with
    | some here =>
      obtain ⟨hpasses, hfails⟩ := (hstep here).1 hhere
      constructor
      · exact .inl
      · rintro (h | ⟨hnone, -⟩)
        · exact h
        · exact absurd hfails (hnone hpasses here)
    | none =>
      have hnone : ¬Repeated host before first.1 → ∀ other, ¬FailsOn flaws host first.1 other := by
        intro hpasses other hfails
        have hsome := (hstep other).2 ⟨hpasses, hfails⟩
        rw [hhere] at hsome
        cases hsome
      rw [Option.none_or]
      constructor
      · exact fun h => .inr ⟨hnone, h⟩
      · rintro (h | ⟨-, h⟩)
        · cases h
        · exact h

end

/-! ## Packaging -/

/-- The sources that lead somewhere. -/
def leadingSources (host : Host) (sources : List String) : List String :=
  sources.filter fun source => (host.resolve (.ofString source)).isOk

section

variable {flaws : Flaws} {host : Host} {options : Options} {file : Dockerfile} {failure : Failure}

/-- A source that leads nowhere is as good as none. -/
theorem foundSources_leadingSources (options : Options) (sources : List String) :
    foundSources host options (leadingSources host sources) = foundSources host options sources := by
  refine foundSources_filter fun source _ hnowhere => ?_
  rw [Option.eq_none_iff_forall_ne_some]
  intro node hnode
  obtain ⟨-, place, hfound⟩ := find_node?_iff.1 hnode
  rw [hfound.leads] at hnowhere
  cases hnowhere

/-- A device without flaws gives what the tree holds. -/
theorem packageBytesAmid_flawless :
    packageBytesAmid {} host options file = (packageBytes host options file).result := by
  have hfailure : ({} : Flaws).failure? = Event.failure? := by
    funext event
    cases event <;> rfl
  rw [packageBytesAmid, hfailure]
  rfl

theorem packageBytesAmid_eq_error_iff : packageBytesAmid flaws host options file = .error failure ↔
    (importsOf host options file).findSome? flaws.failure? = some failure := by
  unfold packageBytesAmid
  simp only
  cases (importsOf host options file).findSome? flaws.failure? <;> simp

theorem packageBytesAmid_iff_failsFirst (hwf : host.WellFormed) :
    packageBytesAmid flaws host options file = .error failure ↔
      FailsFirst flaws host (Repeated host) (foundSources host options file.sources) failure := by
  obtain ⟨report, hremarks, hevents⟩ := importEvents_eq host options file.sources
  rw [packageBytesAmid_eq_error_iff, importsOf, hevents, List.findSome?_append,
    hremarks.failure?_eq_none, Option.none_or]
  have htracks : Tracks host [] [] := fun _ => rfl
  exact failure?_importSources hwf htracks fun _ => found_of_mem_foundSources

end

/-- **Packaging fails exactly with the first fault of its sources**, whatever flaws the device has. Sources
that lead nowhere do not matter. -/
theorem packageBytes_fails_iff (flaws : Flaws) {host : Host} (hwf : host.WellFormed) (options : Options)
    (file : Dockerfile) :
    packageBytesAmid {} host options file = (packageBytes host options file).result ∧
    (∀ failure, packageBytesAmid flaws host options file = .error failure ↔
      FailsFirst flaws host (Repeated host) (foundSources host options file.sources) failure) ∧
    ∀ other : Dockerfile, leadingSources host other.sources = leadingSources host file.sources →
      ∀ failure, packageBytesAmid flaws host options other = .error failure ↔
        packageBytesAmid flaws host options file = .error failure := by
  refine ⟨packageBytesAmid_flawless, fun failure => packageBytesAmid_iff_failsFirst hwf, ?_⟩
  intro other hleading failure
  rw [packageBytesAmid_iff_failsFirst hwf, packageBytesAmid_iff_failsFirst hwf,
    ← foundSources_leadingSources options other.sources, hleading,
    foundSources_leadingSources options file.sources]

/-- A directory with a link to itself. -/
def Host.tangled : Host := .single [([0x61], .link ⟨[0x61]⟩)]

/-- Copies of nothing, and of a directory. -/
def Dockerfile.strayCopy : Dockerfile :=
  ⟨[⟨Kind.copy.priority, [.step (.pair .copy "x" "/"), .step (.pair .copy "o" "/")]⟩]⟩

theorem packageBytes_fails_iff_tangled : Host.tangled.WellFormed ∧
    packageBytesAmid {} Host.tangled {} .strayCopy = (packageBytes Host.tangled {} .strayCopy).result ∧
    packageBytesAmid {} Host.tangled {} .strayCopy =
      .error (.archiving ⟨[0x6F, 0x2F, 0x61]⟩ .tooManyLinks) ∧
    FailsFirst {} Host.tangled (Repeated Host.tangled)
      (foundSources Host.tangled {} Dockerfile.strayCopy.sources)
      (.archiving ⟨[0x6F, 0x2F, 0x61]⟩ .tooManyLinks) ∧
    leadingSources Host.tangled Dockerfile.oneCopy.sources =
      leadingSources Host.tangled Dockerfile.strayCopy.sources ∧
    packageBytesAmid {} Host.tangled {} .oneCopy =
      .error (.archiving ⟨[0x6F, 0x2F, 0x61]⟩ .tooManyLinks) := by
  have hwf : Host.tangled.WellFormed := by decide
  have hfails : packageBytesAmid {} Host.tangled {} .strayCopy =
      .error (.archiving ⟨[0x6F, 0x2F, 0x61]⟩ .tooManyLinks) := rfl
  have hleading : leadingSources Host.tangled Dockerfile.oneCopy.sources =
      leadingSources Host.tangled Dockerfile.strayCopy.sources := rfl
  obtain ⟨hflawless, hfirst, hstray⟩ := packageBytes_fails_iff {} hwf {} Dockerfile.strayCopy
  exact ⟨hwf, hflawless, hfails, (hfirst _).1 hfails, hleading, (hstray _ hleading _).2 hfails⟩

/-! ## Sources that come back -/

/-- A source on its own fails exactly if importing it first does. -/
theorem failsOn_iff {flaws : Flaws} {host : Host} (hwf : host.WellFormed) {path : Path} {node : Node}
    {place : Place} (hfound : Found host path node place) {failure : Failure} :
    FailsOn flaws host path failure ↔
      (importSource host [] path node).1.findSome? flaws.failure? = some failure := by
  have htracks : Tracks host [] [] := fun _ => rfl
  have hnew : ¬Repeated host [] path := by
    rintro ⟨name, -, hlast⟩
    cases hlast
  rw [failure?_importSource hwf htracks hfound, and_iff_right hnew]

/-- A directory that holds one of its own name. -/
def Host.nested : Host := .single [([0x6F], .directory [])]

/-- Copies of a directory, of one of its name in it, and of the first again, by a path with slashes at its
end. -/
def Dockerfile.returning (n : Nat) : Dockerfile :=
  ⟨[⟨Kind.copy.priority, [.step (.pair .copy "o" "/p"), .step (.pair .copy "o/o" "/q"),
    .step (.pair .copy (String.ofList ('o' :: List.replicate n '/')) "/r")]⟩]⟩

/-- The sources before the one that comes back. -/
def beforeReturn : List (Path × Node) :=
  [(⟨[0x6F]⟩, .directory [([0x6F], .directory [])]), (⟨[0x6F, 0x2F, 0x6F]⟩, .directory [])]

theorem foundSources_returning {n : Nat} (hn : n + 2 ≤ Host.maxPath) :
    foundSources .nested {} (Dockerfile.returning (n + 1)).sources =
      beforeReturn ++ [(slashed (n + 1), .directory [([0x6F], .directory [])])] := by
  have hsources : (Dockerfile.returning (n + 1)).sources =
      ["o", "o/o", String.ofList ('o' :: List.replicate (n + 1) '/')] := rfl
  have hfind : Source.find .nested {} (slashed (n + 1)) = .directory [([0x6F], .directory [])] :=
    find_slashed hn _ rfl
  rw [foundSources, hsources]
  simp only [List.map_cons, List.map_nil, ofString_slashed, hfind]
  rfl

theorem not_failsOn_beforeReturn {found : Path × Node} (hmem : found ∈ beforeReturn)
    (failure : Failure) : ¬FailsOn {} .nested found.1 failure := by
  have hwf : Host.nested.WellFormed := by decide
  intro hfails
  simp only [beforeReturn, List.mem_cons, List.not_mem_nil, or_false] at hmem
  rcases hmem with rfl | rfl <;>
  · rw [failsOn_iff hwf ⟨rfl, rfl, .inr ⟨_, rfl⟩⟩] at hfails
    cases hfails

/-- The source that comes back fails in the directory if paths into it are too long. -/
theorem failsOn_slashed {n : Nat} (hn : n + 2 ≤ Host.maxPath) (hlong : Host.maxPath < n + 3) :
    FailsOn {} .nested (slashed (n + 1))
      (.archiving (entryPath (slashed (n + 1)) [0x6F]) .nameTooLong) := by
  have hwf : Host.nested.WellFormed := by decide
  have hleads := resolve_slashed hn [([0x6F], .directory [])]
  have hover := resolve_overlong (by decide : Node.properName [0x6F] = true) hn hlong .nested
  have hevents : addTree .nested (slashed (n + 1)) "o" (.directory [([0x6F], .directory [])]) =
      [.directory (slashed (n + 1)) "o", .unreadableDirectory (entryPath (slashed (n + 1)) [0x6F])
        (entryName "o" [0x6F]) .nameTooLong] := by
    have hself : addDirectory .nested (slashed (n + 1)) "o" = .directory (slashed (n + 1)) "o" :=
      addDirectory_slashed hn _
    have hbelow : addDirectory .nested (entryPath (slashed (n + 1)) [0x6F]) (entryName "o" [0x6F]) =
        .unreadableDirectory (entryPath (slashed (n + 1)) [0x6F]) (entryName "o" [0x6F])
          .nameTooLong := by
      rw [addDirectory, hover]
    rw [← hself, ← hbelow]
    rfl
  have hfound : Found .nested (slashed (n + 1)) (.directory [([0x6F], .directory [])]) _ :=
    ⟨hleads, rfl, .inr ⟨_, rfl⟩⟩
  rw [failsOn_iff hwf hfound, importSource_slashed, hevents]
  rfl

/-- **A source that comes back can fail though it has been imported**: what the import passes over is less
than what it has come to before. -/
theorem alreadyImported_returning : Host.nested.WellFormed ∧ ∃ path fault,
    (packageBytes .nested {} (.returning 4094)).result = .error (.archiving path fault) ∧
    ¬∃ failure, FailsFirst {} .nested AlreadyImported
      (foundSources .nested {} (Dockerfile.returning 4094).sources) failure := by
  have hwf : Host.nested.WellFormed := by decide
  have hroom : 4093 + 2 ≤ Host.maxPath := by decide
  have hfails := failsOn_slashed hroom (by decide)
  refine ⟨hwf, entryPath (slashed 4094) [0x6F], .nameTooLong, ?_, ?_⟩
  · have hnew : ¬Repeated .nested beforeReturn (slashed 4094) := by
      rintro ⟨name, hname, hlast⟩
      rw [baseName_slashed] at hname
      cases hname
      rw [components_slashed] at hlast
      cases hlast
    rw [← packageBytesAmid_flawless, packageBytesAmid_iff_failsFirst hwf, foundSources_returning hroom]
    refine ⟨beforeReturn, _, [], rfl, hnew, hfails, ?_⟩
    intro front earlier back hsplit _
    exact not_failsOn_beforeReturn (hsplit ▸ List.mem_append_right front List.mem_cons_self)
  · rintro ⟨failure, before, found, after, hsplit, hnew, hfails, -⟩
    rw [foundSources_returning hroom] at hsplit
    have hmem : found ∈ beforeReturn ++ [(slashed 4094, .directory [([0x6F], .directory [])])] :=
      hsplit ▸ List.mem_append_right before List.mem_cons_self
    rcases List.mem_append.1 hmem with hmem | hmem
    · exact not_failsOn_beforeReturn hmem _ hfails
    · obtain rfl := List.mem_singleton.1 hmem
      -- its path, as components, is that of the first of all sources
      cases before with
      | nil =>
        obtain ⟨heq, -⟩ := List.cons_eq_cons.1 hsplit
        exact not_failsOn_beforeReturn (heq ▸ List.mem_cons_self) _ hfails
      | cons head rest =>
        obtain ⟨rfl, -⟩ := List.cons_eq_cons.1 hsplit
        refine hnew ⟨_, List.mem_cons_self, Path.same_iff.2 ?_⟩
        rw [components_slashed]
        rfl

end ImageRecipe
