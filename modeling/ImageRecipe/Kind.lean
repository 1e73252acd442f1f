/-!
# Kinds of instruction

A recipe for an image is made of instructions of twenty-two kinds (`CommandKind`). The kind alone decides

* `Kind.name` — how messages call the instruction;
* `Kind.keyword` (`keyword`) — the word its line starts with;
* `Kind.priority` (`priority`) — where the line stands among the others, lower numbers first;
* `Kind.copiesFiles` (`is_filesystem_copy`) — whether the instruction takes content from the host;
* `Kind.healthcheckTriggers` (`HEALTHCHECK_TRIGGERS`), `Kind.onbuildForbidden` (`ONBUILD_FORBIDDEN`) — whether
  another instruction may wrap it.

What a definition transcribes is named in brackets, here and in the other modules.
-/

set_option autoImplicit false

namespace ImageRecipe

/-- The kind of an instruction. A command that can be given as a list of words or as one shell text
counts as two kinds. -/
inductive Kind where
  | escape
  | baseImage
  | shell
  | maintainer
  | arg
  | env
  | add
  | copy
  | execRun
  | shellRun
  | execCmd
  | shellCmd
  | user
  | workdir
  | volume
  | expose
  | execEntrypoint
  | shellEntrypoint
  | label
  | stopSignal
  | healthcheck
  | onbuild
  deriving DecidableEq, Repr

namespace Kind

/-- Every kind once, in the order of the table above. -/
def all : List Kind :=
  [.escape, .baseImage, .shell, .maintainer, .arg, .env, .add, .copy, .execRun, .shellRun, .execCmd,
    .shellCmd, .user, .workdir, .volume, .expose, .execEntrypoint, .shellEntrypoint, .label,
    .stopSignal, .healthcheck, .onbuild]

/-- The name that messages use: lower-case words joined by hyphens. -/
def name : Kind → String
  | escape => "escape"
  | baseImage => "from"
  | shell => "shell"
  | maintainer => "maintainer"
  | arg => "arg"
  | env => "env"
  | add => "add"
  | copy => "copy"
  | execRun => "exec-run"
  | shellRun => "shell-run"
  | execCmd => "exec-cmd"
  | shellCmd => "shell-cmd"
  | user => "user"
  | workdir => "workdir"
  | volume => "volume"
  | expose => "expose"
  | execEntrypoint => "exec-entrypoint"
  | shellEntrypoint => "shell-entrypoint"
  | label => "label"
  | stopSignal => "stop-signal"
  | healthcheck => "healthcheck"
  | onbuild => "onbuild"

/-- The kind of a given name. -/
def ofName? (name : String) : Option Kind :=
  all.find? (fun kind => kind.name == name)

/-- The word that the line of an instruction starts with. The escape directive is written as a
comment. -/
def keyword : Kind → String
  | escape => "# escape="
  | baseImage => "FROM"
  | shell => "SHELL"
  | maintainer => "MAINTAINER"
  | arg => "ARG"
  | env => "ENV"
  | add => "ADD"
  | copy => "COPY"
  | execRun | shellRun => "RUN"
  | execCmd | shellCmd => "CMD"
  | user => "USER"
  | workdir => "WORKDIR"
  | volume => "VOLUME"
  | expose => "EXPOSE"
  | execEntrypoint | shellEntrypoint => "ENTRYPOINT"
  | label => "LABEL"
  | stopSignal => "STOPSIGNAL"
  | healthcheck => "HEALTHCHECK"
  | onbuild => "ONBUILD"

/-- The place of a line among the others. The steps of a build share one priority, since their
order is the author's to choose. -/
def priority : Kind → Nat
  | escape => 1
  | baseImage => 2
  | shell => 3
  | maintainer => 4
  | arg => 5
  | env => 6
  | add | copy | execRun | shellRun | execCmd | shellCmd | user | workdir => 10
  | volume => 18
  | expose => 19
  | execEntrypoint | shellEntrypoint => 20
  | label => 21
  | stopSignal | healthcheck => 22
  | onbuild => 23

/-- Only `ADD` and `COPY` take files from the host. -/
def copiesFiles : Kind → Bool
  | add | copy => true
  | _ => false

/-- The kinds that a health check may run. -/
def healthcheckTriggers : List Kind := [execCmd, shellCmd]

/-- The kinds that may not wait for a later build. -/
def onbuildForbidden : List Kind := [onbuild, baseImage, maintainer, escape]

end Kind

end ImageRecipe
