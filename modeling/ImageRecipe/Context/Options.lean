import ImageRecipe.Path

/-!
# Options of packaging

Options say which sources stay out of the archive, where output is written, how it is named, and whether
the script that is written beside the archive stays.

* `Options.ofEnvironment` (`from_env_with`, with `load` of `Config`) — the defaults, as two variables of the
  environment change them;
* `Options.Setting`, `Options.set` (`with_no_import`, `with_build_dir`, …) — a setting as data, and its effect;
* `Options.outputDirectory` (`build_dir`) — where output goes;
* `Options.excludes` (`is_excluded`) — whether a source stays out; paths count by their components;
* `Options.same` — equality of options, paths again by components.

Principal fact: `excludes_iff` — a source stays out exactly if it has the components of an excluded path.
-/

set_option autoImplicit false

namespace ImageRecipe

/-- Options of packaging. Without a build directory, output goes to the temporary directory. -/
structure Options where
  excluded : List Path := []
  buildDirectory : Option Path := none
  archiveStem : String := "docker_build_archive_"
  scriptStem : String := "dockerfile_"
  removeScript : Bool := true
  deriving DecidableEq, Repr

namespace Options

/-- The options when nothing is set. -/
def default : Options := {}

/-- The variable that names the build directory. -/
def buildDirectoryVariable : String := "DOCKERFILE_CONTEXT_BUILD_DIR"

/-- The variable that asks for the script to stay. -/
def keepScriptVariable : String := "DOCKERFILE_CONTEXT_KEEP_DOCKERFILE"

/-- The values of `keepScriptVariable`, in lower case, that ask for the script to stay. -/
def affirmative : List String := ["1", "true"]

/-- The default options, as the variables of an environment change them. A build directory that is
empty counts as not set. -/
def ofEnvironment (environment : String → Option String) : Options :=
  { buildDirectory := ((environment buildDirectoryVariable).filter (· ≠ "")).map Path.ofString
    removeScript := match environment keepScriptVariable with
      | some value => value.toLower ∉ affirmative
      | none => true }

/-- The temporary directory, if `TMPDIR` has the given value. -/
def temporaryDirectory (tmpdir : Option String) : Path :=
  Path.ofString (tmpdir.getD "/tmp")

/-- The directory that output goes to. -/
def outputDirectory (options : Options) (temporary : Path) : Path :=
  options.buildDirectory.getD temporary

/-- Whether the source at a path stays out of the archive. -/
def excludes (options : Options) (path : Path) : Bool :=
  options.excluded.any (·.same path)

/-- A value given for one of the options. -/
inductive Setting where
  | exclude (path : Path)
  | excludeOnly (paths : List Path)
  | buildDirectory (path : Path)
  | archiveStem (stem : String)
  | scriptStem (stem : String)
  | removeScript (remove : Bool)
  deriving DecidableEq, Repr

/-- The options with one value given. -/
def set (options : Options) : Setting → Options
  | .exclude path => { options with excluded := options.excluded ++ [path] }
  | .excludeOnly paths => { options with excluded := paths }
  | .buildDirectory path => { options with buildDirectory := some path }
  | .archiveStem stem => { options with archiveStem := stem }
  | .scriptStem stem => { options with scriptStem := stem }
  | .removeScript remove => { options with removeScript := remove }

/-- The options after all settings, in order. -/
def configure (options : Options) (settings : List Setting) : Options :=
  settings.foldl set options

/-- Whether two choices of a build directory are the same. -/
def sameDirectory : Option Path → Option Path → Bool
  | none, none => true
  | some a, some b => a.same b
  | _, _ => false

/-- Whether two options are equal, order and repeats of exclusions aside. -/
def same (a b : Options) : Bool :=
  a.excluded.all b.excludes && b.excluded.all a.excludes
    && sameDirectory a.buildDirectory b.buildDirectory
    && a.archiveStem == b.archiveStem && a.scriptStem == b.scriptStem
    && a.removeScript == b.removeScript

theorem excludes_iff {options : Options} {path : Path} :
    options.excludes path = true
      ↔ ∃ excluded ∈ options.excluded, excluded.components = path.components := by
  simp [excludes, Path.same_iff]

end Options

end ImageRecipe
