import ImageRecipe.Proofs.Context.Copies
import ImageRecipe.Proofs.Dockerfile.History

/-!
# An import depends on nothing but its sources

What is imported, in which order, and what an import fails with are settled by the sources that are not
excluded, in the order in which their copies were added. Everything else that a Dockerfile or the options
say — destinations, other instructions, what waits for a later build, what is excluded, where output goes —
leaves no trace before the script.

* `keptSources` — the sources that are not excluded;
* `foundSources_keptSources` — an excluded source is as good as none, so the options do not matter beyond;
* `SameImports` — two runs that fail alike, or hold the same entries in the same order before their scripts;
* `sameImports_of_keptSources` — runs on the same kept sources are such a pair.

Principal result: `packageBytes_noninterference`, over the histories of two Dockerfiles.
-/

set_option autoImplicit false

namespace ImageRecipe

variable {host : Host}

/-- The sources that the options do not exclude. -/
def keptSources (options : Options) (sources : List String) : List String :=
  sources.filter fun source => !options.excludes (.ofString source)

/-! ## Excluded sources -/

theorem find_of_excluded {options : Options} {path : Path} (h : options.excludes path = true) :
    Source.find host options path = .excluded := by
  rw [Source.find, if_pos h]

/-- What is not excluded is found as if nothing were. -/
theorem find_of_kept {options : Options} {path : Path} (h : options.excludes path = false) :
    Source.find host options path = Source.find host {} path := by
  have free : ¬({} : Options).excludes path = true := by simp [Options.excludes]
  rw [Source.find, Source.find, if_neg (by simp [h]), if_neg free]

/-- The sources that are added are those that would be if the excluded ones were not there. -/
theorem foundSources_keptSources (options : Options) (sources : List String) :
    foundSources host options sources = foundSources host {} (keptSources options sources) := by
  have hdrop : foundSources host options (keptSources options sources) =
      foundSources host options sources := by
    refine foundSources_filter fun source _ hexcluded => ?_
    rw [Bool.not_eq_false'] at hexcluded
    rw [find_of_excluded hexcluded]
    rfl
  have hkept : (keptSources options sources).map (fun source =>
        (Path.ofString source, Source.find host options (.ofString source))) =
      (keptSources options sources).map (fun source =>
        (Path.ofString source, Source.find host {} (.ofString source))) := by
    refine List.map_congr_left fun source hsource => ?_
    have hfree := (List.mem_filter.1 hsource).2
    rw [Bool.not_eq_true'] at hfree
    rw [find_of_kept hfree]
  rw [← hdrop, foundSources, hkept, foundSources]

/-! ## Two runs -/

/-- Two runs fail with one failure, or hold the same entries in the same order before their scripts. -/
inductive SameImports (a b : Report (List UInt8)) : Prop
  | failed {failure : Failure} (ha : a.result = .error failure) (hb : b.result = .error failure)
  | packaged {entries : List Tar.Entry} {scriptA scriptB : List UInt8}
    (ha : a.result = .ok (Tar.write (entries ++ [⟨"Dockerfile", .generated scriptA⟩])))
    (hb : b.result = .ok (Tar.write (entries ++ [⟨"Dockerfile", .generated scriptB⟩])))

theorem importEvents_eq (host : Host) (options : Options) (sources : List String) :
    ∃ report, Remarks report ∧
      importEvents host options sources
        = report ++ importSources host [] (foundSources host options sources) :=
  ⟨_, remarks_sortingEvents _, rfl⟩

theorem Remarks.never_fails {events : List Event} (h : Remarks events) :
    firstFailure? events = none :=
  firstFailure?_eq_none_iff.2 fun event hevent => (h event hevent).2

/-- What an import fails with, and its entries, come from the kept sources. -/
theorem importEvents_keptSources (host : Host) (options : Options) (sources : List String) :
    let events := importSources host [] (foundSources host {} (keptSources options sources))
    firstFailure? (importEvents host options sources) = firstFailure? events
    ∧ (importEvents host options sources).filterMap Event.entry? = events.filterMap Event.entry? := by
  obtain ⟨report, remarks, split⟩ := importEvents_eq host options sources
  rw [split, ← foundSources_keptSources]
  constructor
  · have quiet : report.findSome? Event.failure? = none := remarks.never_fails
    rw [firstFailure?, List.findSome?_append, quiet, Option.none_or]
    rfl
  · rw [List.filterMap_append, remarks.adds_nothing, List.nil_append]

theorem sameImports_of_keptSources {a b : Dockerfile} {optionsA optionsB : Options}
    (h : keptSources optionsA a.sources = keptSources optionsB b.sources) :
    SameImports (packageBytes host optionsA a) (packageBytes host optionsB b) := by
  obtain ⟨failureA, entriesA⟩ := importEvents_keptSources host optionsA a.sources
  obtain ⟨failureB, entriesB⟩ := importEvents_keptSources host optionsB b.sources
  rw [h, ← failureB] at failureA
  rw [h, ← entriesB] at entriesA
  cases outcome : firstFailure? (importsOf host optionsB b) with
  | some failure =>
    have outcomeA : firstFailure? (importsOf host optionsA a) = some failure :=
      failureA.trans outcome
    exact .failed (packageBytes_eq_error_iff.2 outcomeA) (packageBytes_eq_error_iff.2 outcome)
  | none =>
    have outcomeA : firstFailure? (importsOf host optionsA a) = none := failureA.trans outcome
    have succeedsA := packageBytes_eq_ok_iff.2 ⟨outcomeA, rfl⟩
    rw [importsOf, entriesA] at succeedsA
    exact .packaged succeedsA (packageBytes_eq_ok_iff.2 ⟨outcome, rfl⟩)

/-! ## Histories -/

namespace Dockerfile

/-- The sources that a history copies, in the order in which the copies were added, without those that the
options exclude. -/
def History.keptSources (history : History) (options : Options) : List String :=
  ImageRecipe.keptSources options ((history.added.filterMap Instruction.copy?).map Prod.fst)

theorem keptSources_dockerfile (history : History) (options : Options) :
    ImageRecipe.keptSources options history.dockerfile.sources = history.keptSources options := by
  rw [history.dockerfile_eq_ofList, sources, copies_ofList, History.keptSources]

end Dockerfile

/-- Whether an instruction copies, now, from one of the paths. -/
def Instruction.copiesFrom (paths : List Path) (instruction : Instruction) : Bool :=
  instruction.copy?.any fun pair => paths.any (·.same (.ofString pair.1))

/-- Excluding paths keeps the sources that stay if the copies from them are dropped. -/
theorem keptSources_drop (options : Options) (paths : List Path) (added : List Instruction) :
    keptSources { options with excluded := options.excluded ++ paths }
        ((added.filterMap Instruction.copy?).map Prod.fst)
      = keptSources options
        (((added.filter (!·.copiesFrom paths)).filterMap Instruction.copy?).map Prod.fst) := by
  have excludes (path : Path) :
      ({ options with excluded := options.excluded ++ paths } : Options).excludes path
        = (options.excludes path || paths.any (·.same path)) := by
    rw [Options.excludes, Options.excludes, List.any_append]
  simp only [keptSources, List.map_filterMap, List.filter_filterMap, List.filterMap_filter, excludes]
  refine List.filterMap_congr fun instruction _ => ?_
  rw [Instruction.copiesFrom]
  cases instruction.copy? with
  | none => simp
  | some pair =>
    rw [Option.any_some, Option.map_some, Option.filter_some]
    cases dropped : paths.any (·.same (.ofString pair.1)) with
    | true => rw [Bool.or_true]; rfl
    | false => rw [Bool.or_false]; rfl

/-- **An import depends on nothing but its sources.** Two Dockerfiles of any histories, with any options,
are packaged alike if the sources of their copies, the excluded ones left out, are the same in the order in
which they were added. So excluding paths imports what is imported when the copies from them are dropped. -/
theorem packageBytes_noninterference (host : Host) :
    (∀ (a b : Dockerfile.History) (optionsA optionsB : Options),
      a.keptSources optionsA = b.keptSources optionsB →
      SameImports (packageBytes host optionsA a.dockerfile) (packageBytes host optionsB b.dockerfile))
    ∧ ∀ (history : Dockerfile.History) (options : Options) (paths : List Path),
      SameImports
        (packageBytes host { options with excluded := options.excluded ++ paths } history.dockerfile)
        (packageBytes host options
          (Dockerfile.ofList (history.added.filter (!·.copiesFrom paths)))) := by
  refine ⟨fun a b optionsA optionsB h => sameImports_of_keptSources ?_,
    fun history options paths => sameImports_of_keptSources ?_⟩
  · rw [Dockerfile.keptSources_dockerfile, Dockerfile.keptSources_dockerfile, h]
  · rw [Dockerfile.keptSources_dockerfile, Dockerfile.History.keptSources, keptSources_drop,
      Dockerfile.sources, Dockerfile.copies_ofList]

/-- A copy, and an addition of the same source that stands among other things: an excluded source, an
instruction that waits, and another destination. -/
theorem packageBytes_noninterference_among :
    let copying : Dockerfile.History := ⟨none, [.call (.step (.pair .copy "a" "/"))]⟩
    let adding : Dockerfile.History := ⟨some [.step (.pair .copy "x" "/x"), .step (.pair .env "A" "1")],
      [.chain (.onbuild (.step (.pair .copy "b" "/") (by decide))) [.step (.pair .add "a" "/b")]]⟩
    let elsewhere : Options :=
      { excluded := [.ofString "x/.", .ofString "y"], buildDirectory := some (.ofString "o") }
    copying.keptSources {} = adding.keptSources elsewhere
    ∧ (packageBytes Host.looped {} copying.dockerfile).result.isOk = true
    ∧ SameImports (packageBytes Host.looped {} copying.dockerfile)
      (packageBytes Host.looped elsewhere adding.dockerfile) := by
  intro copying adding elsewhere
  have kept : copying.keptSources {} = adding.keptSources elsewhere := by decide +kernel
  exact ⟨kept, by decide +kernel, (packageBytes_noninterference Host.looped).1 _ _ _ _ kept⟩

end ImageRecipe
