import ImageRecipe.Kind
import ImageRecipe.ValueList
import ImageRecipe.Text.Json

/-!
# Instructions that wrap no other

A step carries one of five payloads: a text (`Scalar`), a command with its arguments (`ExecForm`), a key with
its value (`KeyValue`), a name with an optional value, or a list of words (`ValueList`). Each payload is
written in its own way:

* texts and the values of `ENV`, `FROM` and `ARG` stand as given;
* commands with arguments, copies and volumes are JSON arrays, labels two JSON strings;
* ports are parted by blanks.

Principal definitions, with what they transcribe in brackets:

* `Step.kind` (`kind`) — the kind of an instruction by its payload and the role that this plays;
* `Step.render` (`fmt` of each instruction, `render` of `ExecForm`) — its line;
* `Step.copy?` (`filesystem_copy`) — its source and destination, if it copies files.

Principal result: `Step.copy?_isSome` — exactly the kinds that copy files have a source and a destination.
-/

set_option autoImplicit false

namespace ImageRecipe

/-- The kinds that carry one text. -/
inductive TextKind where
  | escape
  | maintainer
  | shellRun
  | shellCmd
  | shellEntrypoint
  | user
  | workdir
  | stopSignal
  deriving DecidableEq, Repr

/-- The kinds that carry a command and its arguments, with no shell between. -/
inductive ExecKind where
  | shell
  | run
  | cmd
  | entrypoint
  deriving DecidableEq, Repr

/-- The kinds that carry a key and a value, or a source and a destination. -/
inductive PairKind where
  | env
  | label
  | add
  | copy
  deriving DecidableEq, Repr

/-- The kinds that carry a name and perhaps a value for it. -/
inductive NamedKind where
  | baseImage
  | arg
  deriving DecidableEq, Repr

/-- The kinds that carry a list of words. -/
inductive ListKind where
  | volume
  | expose
  deriving DecidableEq, Repr

/-- The kind of instruction that carries a text in this role. -/
def TextKind.kind : TextKind → Kind
  | escape => .escape
  | maintainer => .maintainer
  | shellRun => .shellRun
  | shellCmd => .shellCmd
  | shellEntrypoint => .shellEntrypoint
  | user => .user
  | workdir => .workdir
  | stopSignal => .stopSignal

/-- The kind of instruction that carries a command in this role. -/
def ExecKind.kind : ExecKind → Kind
  | shell => .shell
  | run => .execRun
  | cmd => .execCmd
  | entrypoint => .execEntrypoint

/-- The kind of instruction that carries a pair in this role. -/
def PairKind.kind : PairKind → Kind
  | env => .env
  | label => .label
  | add => .add
  | copy => .copy

/-- The kind of instruction that carries a name in this role. -/
def NamedKind.kind : NamedKind → Kind
  | baseImage => .baseImage
  | arg => .arg

/-- The kind of instruction that carries a list in this role. -/
def ListKind.kind : ListKind → Kind
  | volume => .volume
  | expose => .expose

/-- A command and its arguments, run without a shell. -/
structure ExecForm where
  command : String
  arguments : ValueList
  deriving DecidableEq, Repr

/-- The command followed by its arguments. -/
def ExecForm.words (form : ExecForm) : List String :=
  form.command :: form.arguments.values

/-- An instruction that wraps no other. -/
inductive Step where
  | text (role : TextKind) (value : String)
  | exec (role : ExecKind) (form : ExecForm)
  | pair (role : PairKind) (key value : String)
  | named (role : NamedKind) (name : String) (value : Option String)
  | list (role : ListKind) (values : ValueList)
  deriving DecidableEq, Repr

namespace Step

/-- The kind of a step. -/
def kind : Step → Kind
  | text role _ => role.kind
  | exec role _ => role.kind
  | pair role _ _ => role.kind
  | named role _ _ => role.kind
  | list role _ => role.kind

/-- What parts the keyword from the payload. The escape directive has it in its keyword. -/
def gap (kind : Kind) : String :=
  if kind = .escape then "" else " "

/-- The payload as it stands on the line. -/
def payload : Step → String
  | text _ value => value
  | exec _ form => Json.array form.words
  | pair .env key value => key ++ "=" ++ value
  | pair .label key value => Json.quote key ++ "=" ++ Json.quote value
  | pair .add source destination => Json.array [source, destination]
  | pair .copy source destination => Json.array [source, destination]
  | named _ name none => name
  | named .baseImage image (some tag) => image ++ ":" ++ tag
  | named .arg name (some default) => name ++ "=" ++ default
  | list .volume paths => Json.array paths.values
  | list .expose ports => " ".intercalate ports.values

/-- The line of a step. -/
def render (step : Step) : String :=
  step.kind.keyword ++ gap step.kind ++ step.payload

/-- The source and the destination of a step that copies files. -/
def copy? : Step → Option (String × String)
  | pair .add source destination => some (source, destination)
  | pair .copy source destination => some (source, destination)
  | _ => none

/-- The step with its source, if it has one, replaced by its image under `rename`. -/
def mapSource (rename : String → String) : Step → Step
  | pair .add source destination => pair .add (rename source) destination
  | pair .copy source destination => pair .copy (rename source) destination
  | step => step

theorem copy?_isSome (step : Step) : step.copy?.isSome = step.kind.copiesFiles := by
  cases step with
  | text role _ => cases role <;> rfl
  | exec role _ => cases role <;> rfl
  | pair role _ _ => cases role <;> rfl
  | named role _ _ => cases role <;> rfl
  | list role _ => cases role <;> rfl

theorem kind_mapSource (rename : String → String) (step : Step) :
    (step.mapSource rename).kind = step.kind := by
  fun_cases mapSource rename step <;> rfl

theorem copy?_mapSource (rename : String → String) (step : Step) :
    (step.mapSource rename).copy? = step.copy?.map (fun pair => (rename pair.1, pair.2)) := by
  fun_cases mapSource rename step with
  | case1 => rfl
  | case2 => rfl
  | case3 => simp_all [copy?]

theorem mapSource_mapSource (f g : String → String) (step : Step) :
    (step.mapSource g).mapSource f = step.mapSource (f ∘ g) := by
  fun_cases mapSource g step with
  | case1 => rfl
  | case2 => rfl
  | case3 => simp_all [mapSource]

/-- Only the image of the source counts, if there is one. -/
theorem mapSource_congr {f g : String → String} {step : Step} (h : ∀ pair ∈ step.copy?, f pair.1 = g pair.1) :
    step.mapSource f = step.mapSource g := by
  fun_cases mapSource f step with
  | case1 source destination => rw [mapSource, h (source, destination) rfl]
  | case2 source destination => rw [mapSource, h (source, destination) rfl]
  | case3 => simp_all [mapSource]

theorem mapSource_eq_self {rename : String → String} {step : Step}
    (h : ∀ pair ∈ step.copy?, rename pair.1 = pair.1) : step.mapSource rename = step := by
  fun_cases mapSource rename step with
  | case1 source destination => rw [h (source, destination) rfl]
  | case2 source destination => rw [h (source, destination) rfl]
  | case3 => rfl

end Step

end ImageRecipe
