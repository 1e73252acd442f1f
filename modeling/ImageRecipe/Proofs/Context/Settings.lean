import Mathlib.Data.List.Forall2
import ImageRecipe.Context.Options
import ImageRecipe.Proofs.Host.Respelling
import ImageRecipe.Proofs.LastWrite

/-!
# Options are what was set last

Options start from defaults, or from what an environment says, and are set one by one. The last value given for a
part stands. Exclusions are collected from the last setting that replaces them all on, and a path stays out if one
of them is the same path in any spelling.

* `Affirmative` — the values of a variable that ask for the script to stay;
* `Origin` — where options start from, with what it says about the build directory and the script;
* `ExcludedBy` — the paths that settings keep out.

Principal results:

* `affirmative_iff` — letters of either case ask for the script to stay;
* `mem_excluded_configure` — the exclusions that are left, by induction on the settings;
* `same_iff` — when options are equal;
* `configured_as_last_given` — every part of options, and their equality, after any settings.
-/

set_option autoImplicit false

namespace ImageRecipe.Options

/-! ## Letters of either case -/

theorem toNat_toLower (c : Char) :
    c.toLower.toNat = if 65 ≤ c.toNat ∧ c.toNat ≤ 90 then c.toNat + 32 else c.toNat := by
  delta Char.toLower
  simp only [Char.toNat, UInt32.le_iff_toNat_le, ge_iff_le]
  split <;> grind [UInt32.toNat_add]

theorem toNat_toUpper (c : Char) :
    c.toUpper.toNat = if 97 ≤ c.toNat ∧ c.toNat ≤ 122 then c.toNat - 32 else c.toNat := by
  delta Char.toUpper
  simp only [Char.toNat, UInt32.le_iff_toNat_le]
  split <;> grind [UInt32.toNat_add]

/-- What is no letter of upper case comes from itself and from its upper case, which is itself if it is no
letter at all. -/
theorem toLower_eq_iff {c low : Char} (h : low.isUpper = false) :
    c.toLower = low ↔ c = low ∨ c = low.toUpper := by
  have hlow : ¬(65 ≤ low.toNat ∧ low.toNat ≤ 90) := by
    delta Char.isUpper at h
    simpa [UInt32.le_iff_toNat_le] using h
  rw [← Char.toNat_inj, ← Char.toNat_inj, ← Char.toNat_inj, toNat_toLower, toNat_toUpper]
  split <;> split <;> omega

theorem map_toLower_eq_iff {text lows : List Char} (h : ∀ low ∈ lows, low.isUpper = false) :
    text.map Char.toLower = lows
      ↔ List.Forall₂ (· ∈ ·) text (lows.map fun low => [low, low.toUpper]) := by
  induction lows generalizing text with
  | nil => simp
  | cons low lows ih =>
    cases text with
    | nil => simp
    | cons c text =>
      rw [List.map_cons, List.cons.injEq, ih fun other hother => h other (List.mem_cons_of_mem _ hother),
        List.map_cons, List.forall₂_cons, toLower_eq_iff (h low List.mem_cons_self), List.mem_pair]

/-- A text that asks for the script to stay: `1`, or `true` in letters of either case. -/
def Affirmative (value : String) : Prop :=
  value = "1" ∨ List.Forall₂ (· ∈ ·) value.toList [['t', 'T'], ['r', 'R'], ['u', 'U'], ['e', 'E']]

theorem affirmative_iff (value : String) : value.toLower ∈ affirmative ↔ Affirmative value := by
  have hlower : value.toLower.toList = value.toList.map Char.toLower := String.toList_map
  rw [affirmative, List.mem_pair, Affirmative]
  refine or_congr ?_ ?_
  · rw [← String.toList_inj, ← String.toList_inj, hlower, show "1".toList = ['1'] from rfl,
      map_toLower_eq_iff (by simp)]
    simp [List.forall₂_cons_right_iff]
  · rw [← String.toList_inj, hlower, show "true".toList = ['t', 'r', 'u', 'e'] from rfl,
      map_toLower_eq_iff (by simp)]
    simp only [List.map_cons, List.map_nil, Char.reduceToUpper]

/-! ## Where options start from -/

/-- Where options start from: the defaults, or the defaults as the variables of an environment change them. -/
inductive Origin where
  | defaults
  | environment (values : String → Option String)

namespace Origin

/-- The options to start from. -/
def options : Origin → Options
  | defaults => .default
  | environment values => .ofEnvironment values

/-- The build directory that an environment names. A variable that is empty names none. -/
def buildDirectory? : Origin → Option Path
  | defaults => none
  | environment values =>
    match values buildDirectoryVariable with
    | some text => if text = "" then none else some (.ofString text)
    | none => none

/-- The environment asks for the script to stay. -/
def KeepsScript : Origin → Prop
  | defaults => False
  | environment values => ∃ value, values keepScriptVariable = some value ∧ Affirmative value

theorem buildDirectory_options (origin : Origin) : origin.options.buildDirectory = origin.buildDirectory? := by
  cases origin with
  | defaults => rfl
  | environment values =>
    change ((values buildDirectoryVariable).filter _).map _ = _
    rw [buildDirectory?]
    cases values buildDirectoryVariable with
    | none => rfl
    | some text =>
      by_cases h : text = "" <;> simp [h]

theorem removeScript_options (origin : Origin) : origin.options.removeScript = true ↔ ¬origin.KeepsScript := by
  cases origin with
  | defaults => simp [options, default, KeepsScript]
  | environment values =>
    simp only [options, ofEnvironment, KeepsScript]
    cases values keepScriptVariable with
    | none => simp
    | some value => simp [affirmative_iff]

theorem excluded_options (origin : Origin) : origin.options.excluded = [] := by
  cases origin <;> rfl

theorem stems_options (origin : Origin) :
    origin.options.archiveStem = "docker_build_archive_" ∧ origin.options.scriptStem = "dockerfile_" := by
  cases origin <;> exact ⟨rfl, rfl⟩

end Origin

/-! ## What settings give -/

namespace Setting

/-- The build directory, if it is what is set. -/
def buildDirectory? : Setting → Option Path
  | buildDirectory path => some path
  | _ => none

/-- The stem of archive names, if it is what is set. -/
def archiveStem? : Setting → Option String
  | archiveStem stem => some stem
  | _ => none

/-- The stem of script names, if it is what is set. -/
def scriptStem? : Setting → Option String
  | scriptStem stem => some stem
  | _ => none

/-- Whether the script goes, if that is what is set. -/
def removeScript? : Setting → Option Bool
  | removeScript remove => some remove
  | _ => none

/-- The paths that are kept out by this setting. -/
def paths : Setting → List Path
  | exclude path => [path]
  | excludeOnly paths => paths
  | _ => []

/-- Whether all earlier exclusions are dropped. -/
def replaces : Setting → Bool
  | excludeOnly _ => true
  | _ => false

end Setting

section

variable (options : Options) (settings : List Setting)

theorem buildDirectory_configure : (options.configure settings).buildDirectory
    = (lastGiven Setting.buildDirectory? settings).or options.buildDirectory :=
  or_foldl buildDirectory Setting.buildDirectory? (fun _ setting => by cases setting <;> rfl) options settings

theorem archiveStem_configure : (options.configure settings).archiveStem
    = (lastGiven Setting.archiveStem? settings).getD options.archiveStem :=
  getD_foldl archiveStem Setting.archiveStem? (fun _ setting => by cases setting <;> rfl) options settings

theorem scriptStem_configure : (options.configure settings).scriptStem
    = (lastGiven Setting.scriptStem? settings).getD options.scriptStem :=
  getD_foldl scriptStem Setting.scriptStem? (fun _ setting => by cases setting <;> rfl) options settings

theorem removeScript_configure : (options.configure settings).removeScript
    = (lastGiven Setting.removeScript? settings).getD options.removeScript :=
  getD_foldl removeScript Setting.removeScript? (fun _ setting => by cases setting <;> rfl) options settings

end

/-! ## Exclusions -/

/-- The path is given by the last setting that replaces all exclusions, or by one behind it. -/
def ExcludedBy (settings : List Setting) (path : Path) : Prop :=
  ∃ before setting after, settings = before ++ setting :: after ∧ path ∈ setting.paths ∧
    ∀ later ∈ after, later.replaces = false

theorem excludedBy_cons_iff {setting : Setting} {rest : List Setting} {path : Path} :
    ExcludedBy (setting :: rest) path
      ↔ ExcludedBy rest path ∨ (path ∈ setting.paths ∧ ∀ later ∈ rest, later.replaces = false) := by
  constructor
  · rintro ⟨before, given, after, same, member, kept⟩
    cases before with
    | nil =>
      obtain ⟨rfl, rfl⟩ := List.cons.inj same
      exact .inr ⟨member, kept⟩
    | cons _ before => exact .inl ⟨before, given, after, (List.cons.inj same).2, member, kept⟩
  · rintro (⟨before, given, after, rfl, member, kept⟩ | ⟨member, kept⟩)
    · exact ⟨setting :: before, given, after, rfl, member, kept⟩
    · exact ⟨[], setting, rest, rfl, member, kept⟩

/-- One setting leaves the exclusions that it does not replace, and gives its own. -/
theorem mem_excluded_set {options : Options} {setting : Setting} {path : Path} :
    path ∈ (options.set setting).excluded
      ↔ path ∈ setting.paths ∨ (setting.replaces = false ∧ path ∈ options.excluded) := by
  cases setting <;> simp [set, Setting.paths, Setting.replaces, or_comm]

/-- **Exclusions are collected from the last setting that replaces them all on.** -/
theorem mem_excluded_configure {options : Options} {settings : List Setting} {path : Path} :
    path ∈ (options.configure settings).excluded ↔ ExcludedBy settings path ∨
      (path ∈ options.excluded ∧ ∀ setting ∈ settings, setting.replaces = false) := by
  induction settings generalizing options with
  | nil => simp [configure, ExcludedBy]
  | cons setting rest ih =>
    change path ∈ ((options.set setting).configure rest).excluded ↔ _
    rw [ih, mem_excluded_set, excludedBy_cons_iff, List.forall_mem_cons]
    tauto

theorem excludes_configure {origin : Origin} {settings : List Setting} {path : Path} :
    (origin.options.configure settings).excludes path = true
      ↔ ∃ given, ExcludedBy settings given ∧ given.components = path.components := by
  simp only [excludes_iff, mem_excluded_configure, origin.excluded_options, List.not_mem_nil, false_and,
    or_false]

/-! ## Equality -/

theorem sameDirectory_iff {a b : Option Path} :
    sameDirectory a b = true ↔ Option.Rel (fun a b : Path => a.components = b.components) a b := by
  cases a with
  | none => cases b <;> simp [sameDirectory]
  | some a => cases b <;> simp [sameDirectory, Path.same_iff]

/-- **Options are equal if all parts are**, where paths count by their components, and exclusions by the paths that
they keep out. -/
theorem same_iff {a b : Options} : a.same b = true ↔
    (∀ path, a.excludes path = b.excludes path)
    ∧ Option.Rel (fun a b : Path => a.components = b.components) a.buildDirectory b.buildDirectory
    ∧ a.archiveStem = b.archiveStem ∧ a.scriptStem = b.scriptStem ∧ a.removeScript = b.removeScript := by
  have exclusions : (a.excluded.all b.excludes && b.excluded.all a.excludes) = true
      ↔ ∀ path, a.excludes path = b.excludes path := by
    rw [Bool.and_eq_true, List.all_eq_true, List.all_eq_true]
    constructor
    · rintro ⟨forth, back⟩ path
      rw [Bool.eq_iff_iff, excludes_iff, excludes_iff]
      constructor
      · rintro ⟨given, hgiven, hsame⟩
        obtain ⟨other, hother, hsame'⟩ := excludes_iff.1 (forth given hgiven)
        exact ⟨other, hother, hsame'.trans hsame⟩
      · rintro ⟨given, hgiven, hsame⟩
        obtain ⟨other, hother, hsame'⟩ := excludes_iff.1 (back given hgiven)
        exact ⟨other, hother, hsame'.trans hsame⟩
    · intro same
      exact ⟨fun path h => same path ▸ excludes_iff.2 ⟨path, h, rfl⟩,
        fun path h => same path ▸ excludes_iff.2 ⟨path, h, rfl⟩⟩
  rw [same, Bool.and_eq_true, Bool.and_eq_true, Bool.and_eq_true, Bool.and_eq_true, exclusions,
    sameDirectory_iff, beq_iff_eq, beq_iff_eq, beq_iff_eq]
  simp only [and_assoc]

/-- **Options are what was set last.** After any settings, wherever the options start from: output goes to the last
build directory given, else to the one that the environment names, else to the temporary directory; the last word
on the script counts, else that of the environment, and if there is none it goes; each stem is the last one given,
or its default; and a path stays out exactly if it is the same path as one that was given to the last setting that
replaces all exclusions, or to one behind it. Options are equal exactly if stems and the word on the script are,
both have no build directory or the same one, and the same paths are kept out, in any order and any number. Paths
are the same if one is the other in another spelling. -/
theorem configured_as_last_given (origin : Origin) (settings : List Setting) :
    let options := origin.options.configure settings
    (options.buildDirectory = (lastGiven Setting.buildDirectory? settings).or origin.buildDirectory?
      ∧ ∀ temporary, options.outputDirectory temporary
        = ((lastGiven Setting.buildDirectory? settings).or origin.buildDirectory?).getD temporary)
    ∧ (options.removeScript = true ↔ lastGiven Setting.removeScript? settings = some true
      ∨ (lastGiven Setting.removeScript? settings = none ∧ ¬origin.KeepsScript))
    ∧ options.archiveStem = (lastGiven Setting.archiveStem? settings).getD "docker_build_archive_"
    ∧ options.scriptStem = (lastGiven Setting.scriptStem? settings).getD "dockerfile_"
    ∧ (∀ path, options.excludes path = true
      ↔ ∃ given, ExcludedBy settings given ∧ given.components = path.components)
    ∧ (∀ (other : Origin) (others : List Setting),
      let second := other.options.configure others
      options.same second = true ↔
        options.archiveStem = second.archiveStem ∧ options.scriptStem = second.scriptStem
        ∧ options.removeScript = second.removeScript
        ∧ Option.Rel (fun a b : Path => a.components = b.components) options.buildDirectory
          second.buildDirectory
        ∧ ∀ components, (∃ given, ExcludedBy settings given ∧ given.components = components)
          ↔ ∃ given, ExcludedBy others given ∧ given.components = components)
    ∧ ∀ a b : Path, a.components = b.components ↔ Relation.EqvGen Path.Respelling a.bytes b.bytes := by
  intro options
  have directory : options.buildDirectory
      = (lastGiven Setting.buildDirectory? settings).or origin.buildDirectory? := by
    rw [buildDirectory_configure, origin.buildDirectory_options]
  refine ⟨⟨directory, fun temporary => ?_⟩, ?_, ?_, ?_, fun path => excludes_configure, ?_,
    fun a b => Path.respelt_iff.symm⟩
  · rw [outputDirectory, directory]
  · rw [removeScript_configure, ← origin.removeScript_options]
    cases lastGiven Setting.removeScript? settings <;> simp
  · rw [archiveStem_configure, origin.stems_options.1]
  · rw [scriptStem_configure, origin.stems_options.2]
  · intro other others second
    -- A list of components that no path has is given by neither.
    have exclusions : (∀ path, options.excludes path = second.excludes path)
        ↔ ∀ components, (∃ given, ExcludedBy settings given ∧ given.components = components)
          ↔ ∃ given, ExcludedBy others given ∧ given.components = components := by
      have each (path : Path) : options.excludes path = second.excludes path
          ↔ ((∃ given, ExcludedBy settings given ∧ given.components = path.components)
            ↔ ∃ given, ExcludedBy others given ∧ given.components = path.components) := by
        rw [Bool.eq_iff_iff, excludes_configure, excludes_configure]
      constructor
      · intro same components
        constructor
        · rintro ⟨given, hgiven, rfl⟩
          exact ((each given).1 (same given)).1 ⟨given, hgiven, rfl⟩
        · rintro ⟨given, hgiven, rfl⟩
          exact ((each given).1 (same given)).2 ⟨given, hgiven, rfl⟩
      · exact fun same path => (each path).2 (same path.components)
    rw [same_iff, exclusions]
    tauto

end ImageRecipe.Options
