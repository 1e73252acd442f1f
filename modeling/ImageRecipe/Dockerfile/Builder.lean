import ImageRecipe.Dockerfile.Basic
import ImageRecipe.Instruction.Blueprint

/-!
# Building a Dockerfile call by call

A builder has a method for each kind of instruction; every method adds one instruction. Only the methods
that take an instruction from outside can fail, and then the builder stays as it was.

* `Builder.copy`, `Builder.env`, … — the methods (those of `DockerfileBuilder`);
* `Builder.Call` — a call of a method as data, `Builder.perform` — its effect;
* `Builder.run` — a history of calls, in which failing ones are passed over.
-/

set_option autoImplicit false

namespace ImageRecipe

/-- A Dockerfile under construction. -/
structure Builder where
  dockerfile : Dockerfile
  deriving DecidableEq

namespace Builder

/-- A builder that has added nothing yet. -/
def new : Builder := ⟨.empty⟩

/-- Adds a given instruction. -/
def command (builder : Builder) (instruction : Instruction) : Builder :=
  ⟨builder.dockerfile.add instruction⟩

/-- Adds a step. -/
def step (builder : Builder) (step : Step) : Builder :=
  builder.command (.step step)

/-- Starts from an image. -/
def baseImage (builder : Builder) (image : String) : Builder :=
  builder.step (.named .baseImage image none)

/-- Starts from an image of a given tag. -/
def taggedImage (builder : Builder) (image tag : String) : Builder :=
  builder.step (.named .baseImage image (some tag))

/-- Sets the escape character. -/
def escape (builder : Builder) (character : Char) : Builder :=
  builder.step (.text .escape (String.singleton character))

/-- Declares a build argument. -/
def arg (builder : Builder) (name : String) : Builder :=
  builder.step (.named .arg name none)

/-- Declares a build argument with a default. -/
def argWithDefault (builder : Builder) (name default : String) : Builder :=
  builder.step (.named .arg name (some default))

/-- Sets a variable of the environment. -/
def env (builder : Builder) (key value : String) : Builder :=
  builder.step (.pair .env key value)

/-- Adds a file or a directory of the host, unpacking archives. -/
def add (builder : Builder) (source destination : String) : Builder :=
  builder.step (.pair .add source destination)

/-- Copies a file or a directory of the host. -/
def copy (builder : Builder) (source destination : String) : Builder :=
  builder.step (.pair .copy source destination)

/-- Runs a command during the build. -/
def execRun (builder : Builder) (command : String) (arguments : List String) : Builder :=
  builder.step (.exec .run ⟨command, .ofList arguments⟩)

/-- Runs a shell text during the build. -/
def shellRun (builder : Builder) (command : String) : Builder :=
  builder.step (.text .shellRun command)

/-- Sets the command of a container. -/
def execCmd (builder : Builder) (command : String) (arguments : List String) : Builder :=
  builder.step (.exec .cmd ⟨command, .ofList arguments⟩)

/-- Sets the command of a container as a shell text. -/
def shellCmd (builder : Builder) (command : String) : Builder :=
  builder.step (.text .shellCmd command)

/-- Sets the entry point of a container. -/
def execEntrypoint (builder : Builder) (command : String) (arguments : List String) : Builder :=
  builder.step (.exec .entrypoint ⟨command, .ofList arguments⟩)

/-- Sets the entry point of a container as a shell text. -/
def shellEntrypoint (builder : Builder) (command : String) : Builder :=
  builder.step (.text .shellEntrypoint command)

/-- Sets the shell that runs the shell texts. -/
def shell (builder : Builder) (executable : String) (parameters : List String) : Builder :=
  builder.step (.exec .shell ⟨executable, .ofList parameters⟩)

/-- Sets the user. -/
def user (builder : Builder) (name : String) : Builder :=
  builder.step (.text .user name)

/-- Sets the working directory. -/
def workdir (builder : Builder) (path : String) : Builder :=
  builder.step (.text .workdir path)

/-- Names the ports that are listened on. -/
def expose (builder : Builder) (ports : List String) : Builder :=
  builder.step (.list .expose (.ofList ports))

/-- Names the ports that are listened on, by number. -/
def exposeNumbers (builder : Builder) (ports : List Int) : Builder :=
  builder.expose (ports.map toString)

/-- Names the places for volumes. -/
def volume (builder : Builder) (paths : List String) : Builder :=
  builder.step (.list .volume (.ofList paths))

/-- Adds a label. -/
def label (builder : Builder) (key value : String) : Builder :=
  builder.step (.pair .label key value)

/-- Names the maintainer. -/
def maintainer (builder : Builder) (name : String) : Builder :=
  builder.step (.text .maintainer name)

/-- Sets the signal that stops a container. -/
def stopSignal (builder : Builder) (signal : String) : Builder :=
  builder.step (.text .stopSignal signal)

/-- Adds a health check. -/
def healthcheck (builder : Builder) (check : Healthcheck) : Builder :=
  builder.command (.healthcheck check)

/-- Adds an instruction that waits for a later build. -/
def onbuild (builder : Builder) (trigger : Instruction) : Except WrapError Builder :=
  trigger.defer.map builder.command

/-- A call of one of the methods. -/
inductive Call where
  | command (blueprint : Blueprint)
  | baseImage (image : String)
  | taggedImage (image tag : String)
  | escape (character : Char)
  | arg (name : String)
  | argWithDefault (name default : String)
  | env (key value : String)
  | add (source destination : String)
  | copy (source destination : String)
  | execRun (command : String) (arguments : List String)
  | shellRun (command : String)
  | execCmd (command : String) (arguments : List String)
  | shellCmd (command : String)
  | execEntrypoint (command : String) (arguments : List String)
  | shellEntrypoint (command : String)
  | shell (executable : String) (parameters : List String)
  | user (name : String)
  | workdir (path : String)
  | expose (ports : List String)
  | exposeNumbers (ports : List Int)
  | volume (paths : List String)
  | label (key value : String)
  | maintainer (name : String)
  | stopSignal (signal : String)
  | healthcheck (test : Option Blueprint) (settings : List Healthcheck.Setting)
  | onbuild (trigger : Blueprint)

/-- The builder after a call. -/
def perform (builder : Builder) : Call → Except WrapError Builder
  | .command blueprint => blueprint.build.map builder.command
  | .baseImage image => .ok (builder.baseImage image)
  | .taggedImage image tag => .ok (builder.taggedImage image tag)
  | .escape character => .ok (builder.escape character)
  | .arg name => .ok (builder.arg name)
  | .argWithDefault name default => .ok (builder.argWithDefault name default)
  | .env key value => .ok (builder.env key value)
  | .add source destination => .ok (builder.add source destination)
  | .copy source destination => .ok (builder.copy source destination)
  | .execRun command arguments => .ok (builder.execRun command arguments)
  | .shellRun command => .ok (builder.shellRun command)
  | .execCmd command arguments => .ok (builder.execCmd command arguments)
  | .shellCmd command => .ok (builder.shellCmd command)
  | .execEntrypoint command arguments => .ok (builder.execEntrypoint command arguments)
  | .shellEntrypoint command => .ok (builder.shellEntrypoint command)
  | .shell executable parameters => .ok (builder.shell executable parameters)
  | .user name => .ok (builder.user name)
  | .workdir path => .ok (builder.workdir path)
  | .expose ports => .ok (builder.expose ports)
  | .exposeNumbers ports => .ok (builder.exposeNumbers ports)
  | .volume paths => .ok (builder.volume paths)
  | .label key value => .ok (builder.label key value)
  | .maintainer name => .ok (builder.maintainer name)
  | .stopSignal signal => .ok (builder.stopSignal signal)
  | .healthcheck none settings =>
    .ok (builder.healthcheck (Healthcheck.configure { test := none } settings))
  | .healthcheck (some test) settings =>
    (test.build.bind Healthcheck.running).map (fun check =>
      builder.healthcheck (check.configure settings))
  | .onbuild trigger => trigger.build.bind builder.onbuild

/-- The builder after a call that may fail; if it does, the builder stays as it was. -/
def attempt (builder : Builder) (call : Call) : Builder :=
  (builder.perform call).toOption.getD builder

/-- The builder after a history of calls, failing ones passed over. -/
def run (builder : Builder) (calls : List Call) : Builder :=
  calls.foldl attempt builder

end Builder

end ImageRecipe
