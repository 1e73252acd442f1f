import ImageRecipe.Context.Package
import ImageRecipe.Proofs.Context.Listing
import ImageRecipe.Proofs.Host.Paths
import ImageRecipe.Proofs.Host.Respelling

/-!
# Copies by a path with slashes at its end

Slashes at the end of a path do not count, neither where paths are compared nor for where they lead. They do
count for its length, and an entry of a directory is looked up by the path of the directory with its own name
at the end: of a directory that can be copied, some entries can be looked up and others not.

* `slashed` — a path of one name, with slashes after it;
* `Host.single` — a host with one directory of that name, and `Dockerfile.slashedCopy`, a copy of it.

Principal results: `resolve_slashed` — where such a path leads; `resolve_overlong` — entries that cannot be
looked up by it; `importsOf_slashedCopy` — importing the directory is adding it.
-/

set_option autoImplicit false

namespace ImageRecipe

/-! ## The path -/

theorem pieces_slashes (n : Nat) :
    Path.pieces (List.replicate n Path.slash) = List.replicate (n + 1) [] := by
  induction n with
  | zero => rfl
  | succ n ih =>
    rw [List.replicate_succ, Path.pieces, if_pos rfl, ih]
    rfl

/-- A path of one name, with slashes after it. -/
def slashed (n : Nat) : Path := ⟨0x6F :: List.replicate n Path.slash⟩

theorem slashed_succ (n : Nat) : slashed (n + 1) = ⟨(slashed n).bytes ++ [Path.slash]⟩ := by
  rw [slashed, List.replicate_succ']
  rfl

theorem slashed_ne_nil (n : Nat) : (slashed n).bytes ≠ [] := List.cons_ne_nil _ _

theorem length_slashed (n : Nat) : (slashed n).bytes.length = n + 1 := by
  rw [slashed, List.length_cons, List.length_replicate]

theorem plainSteps_slashed (n : Nat) : (slashed n).plainSteps = [[0x6F]] := by
  have hother : (0x6F : UInt8) ≠ Path.slash := by decide
  rw [Path.plainSteps, slashed, Path.pieces, if_neg hother, pieces_slashes, List.replicate_succ,
    List.filter_cons_of_pos (by decide)]
  simp

theorem endsInSlash_slashed (n : Nat) : (slashed (n + 1)).endsInSlash = true := by
  rw [slashed_succ, Path.endsInSlash, List.getLast?_concat]
  rfl

/-- Paths are compared by components, to which slashes at the end add nothing. -/
theorem components_slashed (n : Nat) : (slashed n).components = [.name [0x6F]] := by
  induction n with
  | zero => rfl
  | succ n ih =>
    rw [slashed_succ, ← Path.components_of_respelling (.ended _ (slashed_ne_nil n)), ← ih]

theorem baseName_slashed (n : Nat) (host : Host) : baseName host (slashed n) = .ok (some "o") := by
  have hname : (slashed n).fileName? = some [0x6F] := by
    rw [Path.fileName?, components_slashed]
    rfl
  have hlossy : Utf8.lossy [0x6F] = "o" := by decide
  rw [baseName, hname]
  simp only [hlossy]

theorem refuses?_slashed {n : Nat} (hn : n + 1 ≤ Host.maxPath) : Host.refuses? (slashed n) = none := by
  have hzero : 0 ∉ (slashed n).bytes := by
    simp [slashed, Path.slash]
  exact Host.refuses?_eq_none_iff.2 ⟨hzero, slashed_ne_nil n, length_slashed n ▸ hn⟩

theorem ofString_slashed (n : Nat) :
    Path.ofString (String.ofList ('o' :: List.replicate n '/')) = slashed n := by
  have hslash : String.utf8EncodeChar '/' = [Path.slash] := by decide
  have hname : String.utf8EncodeChar 'o' = [0x6F] := by decide
  rw [Path.ofString, String.toList_ofList, Utf8.encode, List.flatMap_cons, hname,
    List.flatMap_replicate, hslash]
  simp [slashed]

/-! ## Paths to entries -/

section Entry

variable {n : Nat} {name : Name} (hproper : Node.properName name = true)

include hproper

theorem entryPath_slashed :
    entryPath (slashed (n + 1)) name = ⟨(slashed n).bytes ++ Path.slash :: name⟩ := by
  have hbytes := Path.bytes_join (slashed_ne_nil (n + 1)) hproper
  rw [endsInSlash_slashed, if_pos rfl, List.append_nil, slashed_succ, List.append_assoc,
    List.singleton_append] at hbytes
  rw [entryPath, slashed_succ, ← hbytes]

theorem components_entryPath_slashed :
    (entryPath (slashed (n + 1)) name).components = [.name [0x6F], .name name] := by
  obtain ⟨hnil, hhere, habove, hslash, -⟩ := Node.properName_iff.1 hproper
  have hname : Path.component? name = some (.name name) := by
    rw [Path.component?, if_neg hnil, if_neg hhere, if_neg habove]
  rw [entryPath_slashed hproper, Path.components_append_slash, if_neg (slashed_ne_nil n),
    Path.namesOf_of_slash_not_mem hslash, hname]
  exact congrArg (· ++ _) (components_slashed n)

theorem length_entryPath_slashed :
    (entryPath (slashed (n + 1)) name).bytes.length = n + 2 + name.length := by
  rw [entryPath_slashed hproper, List.length_append, length_slashed, List.length_cons]
  omega

/-- An entry cannot be looked up if that takes a path too long, whatever the host holds. -/
theorem resolve_overlong (hn : n + 2 ≤ Host.maxPath) (hlong : Host.maxPath < n + 2 + name.length)
    (host : Host) : host.resolve (entryPath (slashed (n + 1)) name) = .error .nameTooLong := by
  have hrefuses := Host.refuses?_join (refuses?_slashed hn) hproper
  rw [← entryPath, length_entryPath_slashed hproper, if_pos hlong] at hrefuses
  exact Host.resolve_of_refuses? hrefuses

end Entry

/-! ## A host with one directory -/

/-- A host with one directory. -/
def Host.single (entries : List (Name × Node)) : Host :=
  { tree := .directory [([0x6F], .directory entries)], workdir := [] }

/-- A path of one name leads into the directory of that name, however many slashes follow. -/
theorem resolve_slashed {n : Nat} (hn : n + 2 ≤ Host.maxPath) (entries : List (Name × Node)) :
    (Host.single entries).resolve (slashed (n + 1)) =
      .ok (Place.enter (.root (Host.single entries).tree) [0x6F] (.directory entries)) := by
  refine Host.resolve_of_walks (refuses?_slashed hn) ?_
  have hsteps : (Host.single entries).stepsOf (slashed (n + 1)) = [[0x6F], Path.here] := by
    have hrelative : (slashed (n + 1)).isAbsolute = false := rfl
    have hplain := plainSteps_slashed (n + 1)
    rw [Path.plainSteps] at hplain
    rw [Host.stepsOf, hrelative, Path.steps, endsInSlash_slashed, hplain]
    rfl
  rw [hsteps]
  have hname : Ordinary [0x6F] := ⟨by decide, by decide, by decide⟩
  exact .entered rfl hname rfl (fun _ => Node.noConfusion) (.here rfl .arrived)

/-- A copy of that directory, by a path with slashes at its end. -/
def Dockerfile.slashedCopy (n : Nat) : Dockerfile :=
  ⟨[⟨Kind.copy.priority, [.step (.pair .copy (String.ofList ('o' :: List.replicate n '/')) "/")]⟩]⟩

theorem sources_slashedCopy (n : Nat) : (Dockerfile.slashedCopy n).sources =
    [String.ofList ('o' :: List.replicate n '/')] := rfl

theorem find_slashed {n : Nat} (hn : n + 2 ≤ Host.maxPath) (entries : List (Name × Node))
    {options : Options} (hkept : options.excluded = []) :
    Source.find (.single entries) options (slashed (n + 1)) = .directory entries := by
  have hexcludes : options.excludes (slashed (n + 1)) = false := by
    rw [Options.excludes, hkept]
    rfl
  rw [Source.find, hexcludes, resolve_slashed hn entries]
  rfl

/-- Importing it first is adding it. -/
theorem importSource_slashed (n : Nat) (host : Host) (entries : List (Name × Node)) :
    importSource host [] (slashed n) (.directory entries) =
      (addTree host (slashed n) "o" (.directory entries), [("o", slashed n)]) := by
  have hscript : "o" ≠ scriptName := by decide
  rw [importSource, baseName_slashed]
  simp only [if_neg hscript]
  rfl

theorem addDirectory_slashed {n : Nat} (hn : n + 2 ≤ Host.maxPath) (entries : List (Name × Node)) :
    addDirectory (.single entries) (slashed (n + 1)) "o" = .directory (slashed (n + 1)) "o" := by
  rw [addDirectory, resolve_slashed hn]

/-- **Importing that directory is adding it**: itself, then what it holds, in the order of the names. -/
theorem importsOf_slashedCopy {n : Nat} (hn : n + 2 ≤ Host.maxPath) {entries : List (Name × Node)}
    (hnd : (entries.map Prod.fst).Nodup) {options : Options} (hkept : options.excluded = []) :
    importsOf (.single entries) options (.slashedCopy (n + 1)) =
      .directory (slashed (n + 1)) "o" ::
        ((inByteOrder entries).flatMap (metAt (.single entries) (slashed (n + 1)) "o" entries) ++
          (inByteOrder entries).flatMap (belowAt (.single entries) (slashed (n + 1)) "o" entries)) := by
  rw [← addDirectory_slashed hn entries, ← addTree_directory _ _ _ hnd, importsOf, sources_slashedCopy,
    importEvents]
  simp only [List.map_cons, List.map_nil, ofString_slashed, find_slashed hn entries hkept]
  simp [sortingEvent?, fileSource?, directorySource?, importSources, importSource_slashed]

end ImageRecipe
