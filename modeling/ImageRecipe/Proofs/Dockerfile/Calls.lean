import ImageRecipe.Dockerfile.Builder
import ImageRecipe.Proofs.Text.Decimal
import ImageRecipe.Proofs.Instruction.Wrapping
import ImageRecipe.Proofs.Dockerfile.History

/-!
# A builder and the instructions of its calls

A builder has a method for each kind of instruction, and some kinds have two. Most calls cannot fail; those that
are given an instruction from outside fail if it cannot be made, or not be wrapped. A history of calls, the failing
ones passed over, is nothing but a list of instructions.

* `Step.texts` — the texts of a step; `Call.plain?` — the kind that a method names, and the texts of the call;
* `Call.StandsFor` — the instruction that a call stands for;
* `Call.blueprint?` — what a call that may fail is given from outside, in its wrapper;
* `succeeding` — the calls of a history that succeed, each at the builder that the calls before it have left.

Principal results:

* `perform_eq_ok_iff`, `perform_eq_error_iff` — the step: what a call adds, and when and how it fails;
* `run_eq_extend` — the run: by induction on the calls, the instructions are added in turn;
* `run_collects` — the Dockerfile of a history of calls, its length and its text.
-/

set_option autoImplicit false

namespace ImageRecipe

/-! ## The texts of a step -/

namespace Step

/-- The texts that a step carries, in turn. -/
def texts : Step → List String
  | text _ value => [value]
  | exec _ form => form.words
  | pair _ key value => [key, value]
  | named _ name value => name :: value.toList
  | list _ values => values.values

/-- The step of a kind with the given texts. -/
def ofTexts? : Kind → List String → Option Step
  | .escape, [value] => some (.text .escape value)
  | .maintainer, [value] => some (.text .maintainer value)
  | .shellRun, [value] => some (.text .shellRun value)
  | .shellCmd, [value] => some (.text .shellCmd value)
  | .shellEntrypoint, [value] => some (.text .shellEntrypoint value)
  | .user, [value] => some (.text .user value)
  | .workdir, [value] => some (.text .workdir value)
  | .stopSignal, [value] => some (.text .stopSignal value)
  | .shell, command :: arguments => some (.exec .shell ⟨command, ⟨arguments⟩⟩)
  | .execRun, command :: arguments => some (.exec .run ⟨command, ⟨arguments⟩⟩)
  | .execCmd, command :: arguments => some (.exec .cmd ⟨command, ⟨arguments⟩⟩)
  | .execEntrypoint, command :: arguments => some (.exec .entrypoint ⟨command, ⟨arguments⟩⟩)
  | .env, [key, value] => some (.pair .env key value)
  | .label, [key, value] => some (.pair .label key value)
  | .add, [source, destination] => some (.pair .add source destination)
  | .copy, [source, destination] => some (.pair .copy source destination)
  | .baseImage, name :: value => some (.named .baseImage name value.head?)
  | .arg, name :: value => some (.named .arg name value.head?)
  | .volume, values => some (.list .volume ⟨values⟩)
  | .expose, values => some (.list .expose ⟨values⟩)
  | _, _ => none

theorem ofTexts?_texts (s : Step) : ofTexts? s.kind s.texts = some s := by
  cases s with
  | text role _ | exec role _ | pair role _ _ | list role _ => cases role <;> rfl
  | named role _ value => cases role <;> cases value <;> rfl

/-- A step holds nothing but its kind and its texts. -/
theorem eq_of_texts {a b : Step} (hkind : a.kind = b.kind) (htexts : a.texts = b.texts) : a = b := by
  have back := a.ofTexts?_texts
  rw [hkind, htexts, b.ofTexts?_texts] at back
  exact (Option.some.inj back).symm

end Step

/-! ## Instructions from outside -/

section

variable {ε α β : Type} {x : Except ε α}

theorem bind_eq_ok_iff {f : α → Except ε β} {b : β} : x.bind f = .ok b ↔ ∃ a, x = .ok a ∧ f a = .ok b := by
  cases x <;> simp [Except.bind]

theorem map_eq_ok_iff {f : α → β} {b : β} : x.map f = .ok b ↔ ∃ a, x = .ok a ∧ f a = b := by
  cases x <;> simp [Except.map]

theorem map_eq_error_iff {f : α → β} {e : ε} : x.map f = .error e ↔ x = .error e := by
  cases x <;> simp [Except.map]

end

/-- A check runs what is a command. -/
theorem Healthcheck.running_eq_ok_iff {given : Instruction} {check : Healthcheck} :
    running given = .ok check ↔
      ∃ test : CheckCommand, given = .step test.step ∧ check = { test := some test } := by
  unfold running
  constructor
  · intro h
    split at h <;> cases h
    next test accepted => exact ⟨test, (Instruction.step_of_checkCommand? accepted).symm, rfl⟩
  · rintro ⟨test, rfl, rfl⟩
    cases test <;> rfl

/-- What may wait for a later build waits as it is. -/
theorem Instruction.defer_eq_ok_iff {given i : Instruction} :
    given.defer = .ok i ↔ ∃ trigger : Trigger, given = trigger.instruction ∧ i = .onbuild trigger := by
  unfold defer
  constructor
  · intro h
    split at h <;> cases h
    next trigger accepted =>
      exact ⟨trigger, (Option.some.inj (Instruction.wrapped?_of_trigger? accepted)).symm, rfl⟩
  · rintro ⟨trigger, rfl, rfl⟩
    cases trigger with
    | step s allowed => simp [Trigger.instruction, trigger?, allowed]
    | healthcheck _ => rfl

namespace Builder

/-! ## What a call stands for -/

namespace Call

/-- The kind that a method names and the texts of the call, unless the method takes numbers, a check, or an
instruction. -/
def plain? : Call → Option (Kind × List String)
  | baseImage image => some (.baseImage, [image])
  | taggedImage image tag => some (.baseImage, [image, tag])
  | escape character => some (.escape, [String.singleton character])
  | arg name => some (.arg, [name])
  | argWithDefault name default => some (.arg, [name, default])
  | env key value => some (.env, [key, value])
  | add source destination => some (.add, [source, destination])
  | copy source destination => some (.copy, [source, destination])
  | execRun program arguments => some (.execRun, program :: arguments)
  | shellRun text => some (.shellRun, [text])
  | execCmd program arguments => some (.execCmd, program :: arguments)
  | shellCmd text => some (.shellCmd, [text])
  | execEntrypoint program arguments => some (.execEntrypoint, program :: arguments)
  | shellEntrypoint text => some (.shellEntrypoint, [text])
  | shell executable parameters => some (.shell, executable :: parameters)
  | user name => some (.user, [name])
  | workdir path => some (.workdir, [path])
  | expose ports => some (.expose, ports)
  | volume paths => some (.volume, paths)
  | label key value => some (.label, [key, value])
  | maintainer name => some (.maintainer, [name])
  | stopSignal signal => some (.stopSignal, [signal])
  | command _ | exposeNumbers _ | healthcheck _ _ | onbuild _ => none

/-- The call stands for the instruction. -/
inductive StandsFor : Call → Instruction → Prop
  /-- A step of the kind that the method names, with the texts of the call. -/
  | plain {call : Call} {s : Step} (h : call.plain? = some (s.kind, s.texts)) : StandsFor call (.step s)
  /-- Ports, each with its number in decimal. -/
  | numbers {ports : List Int} {texts : List String} (h : List.Forall₂ IsInteger texts ports) :
    StandsFor (exposeNumbers ports) (.step (.list .expose (.ofList texts)))
  /-- The given instruction itself. -/
  | command {given : Blueprint} {i : Instruction} (h : given.build = .ok i) : StandsFor (command given) i
  /-- A check that takes back an inherited one. -/
  | takenBack (settings : List Healthcheck.Setting) :
    StandsFor (healthcheck none settings) (.healthcheck (Healthcheck.configure { test := none } settings))
  /-- A check that runs the given command. -/
  | check {given : Blueprint} {test : CheckCommand} {settings : List Healthcheck.Setting}
    (h : given.build = .ok (.step test.step)) :
    StandsFor (healthcheck (some given) settings)
      (.healthcheck (Healthcheck.configure { test := some test } settings))
  /-- A trigger: the given instruction waits for a later build. -/
  | onbuild {given : Blueprint} {trigger : Trigger} (h : given.build = .ok trigger.instruction) :
    StandsFor (onbuild given) (.onbuild trigger)

/-- What a call is given from outside, in the wrapper that the method names. -/
def blueprint? : Call → Option Blueprint
  | command given => some given
  | healthcheck (some given) settings => some (.check given settings)
  | onbuild given => some (.onbuild given)
  | _ => none

variable {call : Call} {i : Instruction}

/-- A call with texts only adds the step of the kind with these texts. -/
theorem exists_step_of_plain? {kind : Kind} {texts : List String} (h : call.plain? = some (kind, texts)) :
    ∃ s : Step, s.kind = kind ∧ s.texts = texts ∧
      ∀ builder : Builder, builder.perform call = .ok (builder.step s) := by
  cases call with
  | command _ | exposeNumbers _ | healthcheck _ _ | onbuild _ => cases h
  | _ =>
    cases h
    exact ⟨_, rfl, rfl, fun _ => rfl⟩

/-- A call with an instruction from outside stands for what is built of it in its wrapper. -/
theorem standsFor_iff_of_blueprint? {b : Blueprint} (h : call.blueprint? = some b) :
    call.StandsFor i ↔ b.build = .ok i := by
  cases call with
  | command given =>
    cases h
    constructor
    · intro stands
      cases stands with
      | plain h => cases h
      | command h => exact h
    · exact .command
  | healthcheck test settings =>
    cases test with
    | none => cases h
    | some given =>
      cases h
      simp only [Blueprint.build, map_eq_ok_iff, bind_eq_ok_iff, Healthcheck.running_eq_ok_iff]
      constructor
      · intro stands
        cases stands with
        | plain h => cases h
        | check h => exact ⟨_, ⟨_, h, _, rfl, rfl⟩, rfl⟩
      · rintro ⟨_, ⟨_, h, test, rfl, rfl⟩, rfl⟩
        exact .check h
  | onbuild given =>
    cases h
    simp only [Blueprint.build, bind_eq_ok_iff, Instruction.defer_eq_ok_iff]
    constructor
    · intro stands
      cases stands with
      | plain h => cases h
      | onbuild h => exact ⟨_, h, _, rfl, rfl⟩
    · rintro ⟨_, h, trigger, rfl, rfl⟩
      exact .onbuild h
  | _ => cases h

end Call

/-! ## The step -/

variable {builder next : Builder} {call : Call} {i : Instruction}

theorem perform_of_blueprint? {b : Blueprint} (h : call.blueprint? = some b) (builder : Builder) :
    builder.perform call = b.build.map builder.command := by
  cases call with
  | command given =>
    cases h
    rfl
  | healthcheck test settings =>
    cases test with
    | none => cases h
    | some given =>
      cases h
      rw [perform, Blueprint.build]
      cases given.build.bind Healthcheck.running <;> rfl
  | onbuild given =>
    cases h
    rw [perform, Blueprint.build]
    cases given.build <;> rfl
  | _ => cases h

/-- A call with nothing from outside adds the instruction that it stands for. -/
theorem exists_standsFor_of_own (h : call.blueprint? = none) :
    ∃ i, call.StandsFor i ∧ (∀ j, call.StandsFor j → j = i) ∧
      ∀ builder : Builder, builder.perform call = .ok (builder.command i) := by
  cases hplain : call.plain? with
  | some pair =>
    obtain ⟨kind, texts⟩ := pair
    obtain ⟨s, rfl, rfl, performs⟩ := Call.exists_step_of_plain? hplain
    refine ⟨.step s, .plain hplain, fun j hj => ?_, performs⟩
    cases hj with
    | plain other =>
      rw [hplain] at other
      obtain ⟨hkind, htexts⟩ := Prod.mk.inj (Option.some.inj other)
      rw [Step.eq_of_texts hkind htexts]
    | numbers _ | takenBack _ => cases hplain
    | command _ | check _ | onbuild _ => cases h
  | none =>
    cases call with
    | exposeNumbers ports =>
      refine ⟨_, .numbers (forall₂_isInteger_iff.2 rfl), fun j hj => ?_, fun _ => rfl⟩
      cases hj with
      | plain h => cases h
      | numbers h => rw [forall₂_isInteger_iff.1 h]
    | healthcheck test settings =>
      cases test with
      | some _ => cases h
      | none =>
        refine ⟨_, .takenBack settings, fun j hj => ?_, fun _ => rfl⟩
        cases hj with
        | plain h => cases h
        | takenBack _ => rfl
    | command _ | onbuild _ => cases h
    | _ => cases hplain

/-- A call stands for at most one instruction. -/
theorem Call.StandsFor.unique {j : Instruction} (hi : call.StandsFor i) (hj : call.StandsFor j) : i = j := by
  cases outside : call.blueprint? with
  | some b =>
    have made := (Call.standsFor_iff_of_blueprint? outside).1 hi
    rw [(Call.standsFor_iff_of_blueprint? outside).1 hj] at made
    exact (Except.ok.inj made).symm
  | none =>
    obtain ⟨k, -, only, -⟩ := exists_standsFor_of_own outside
    rw [only i hi, only j hj]

/-- **A call that succeeds adds the one instruction that it stands for**, whatever the builder has added before. -/
theorem perform_eq_ok_iff :
    builder.perform call = .ok next ↔ ∃ i, call.StandsFor i ∧ next = builder.command i := by
  cases outside : call.blueprint? with
  | some b =>
    rw [perform_of_blueprint? outside, map_eq_ok_iff]
    exact exists_congr fun i => and_congr (Call.standsFor_iff_of_blueprint? outside).symm eq_comm
  | none =>
    obtain ⟨j, stands, only, performs⟩ := exists_standsFor_of_own outside
    rw [performs, Except.ok.injEq]
    constructor
    · rintro rfl
      exact ⟨j, stands, rfl⟩
    · rintro ⟨i, hi, rfl⟩
      rw [only i hi]

/-- **A call fails with what was wrong with an instruction from outside**, whatever the builder has added before. -/
theorem perform_eq_error_iff {error : WrapError} :
    builder.perform call = .error error ↔ ∃ b, call.blueprint? = some b ∧ b.Offends error := by
  cases outside : call.blueprint? with
  | some b =>
    rw [perform_of_blueprint? outside, map_eq_error_iff, Blueprint.build_eq_error_iff]
    simp
  | none =>
    obtain ⟨_, -, -, performs⟩ := exists_standsFor_of_own outside
    simp [performs]

/-! ## The run -/

/-- The calls of a history that succeed, each at the builder that the calls before it have left. -/
def succeeding (builder : Builder) : List Call → List Call
  | [] => []
  | call :: rest =>
    match builder.perform call with
    | .ok next => call :: next.succeeding rest
    | .error _ => builder.succeeding rest

/-- **The instructions of the calls that succeed are added in turn, and nothing else.** -/
theorem run_eq_extend (builder : Builder) (calls : List Call) :
    ∃ instructions, List.Forall₂ Call.StandsFor (builder.succeeding calls) instructions ∧
      (builder.run calls).dockerfile = builder.dockerfile.extend instructions := by
  induction calls generalizing builder with
  | nil => exact ⟨[], .nil, rfl⟩
  | cons call rest ih =>
    rw [succeeding, run, List.foldl_cons, attempt]
    cases performed : builder.perform call with
    | ok next =>
      obtain ⟨i, stands, rfl⟩ := perform_eq_ok_iff.1 performed
      obtain ⟨later, each, file⟩ := ih (builder.command i)
      exact ⟨i :: later, .cons stands each, file⟩
    | error _ => exact ih builder

/-- **A history of calls is a list of instructions.** A call that succeeds adds the one instruction that it stands
for; a call fails only with an instruction from outside that cannot be made or wrapped. After any calls, the failing
ones passed over, the Dockerfile is the one collected from the instructions that the succeeding calls stand for, in
turn; it has as many instructions as there are such calls; and it is the Dockerfile, and has the text, that these
instructions give when they are added in any other way. -/
theorem run_collects :
    (∀ (builder : Builder) (call : Call),
      (∀ next, builder.perform call = .ok next ↔
        ∃ i, call.StandsFor i ∧ next = ⟨builder.dockerfile.add i⟩) ∧
      (∀ error, builder.perform call = .error error ↔ ∃ b, call.blueprint? = some b ∧ b.Offends error) ∧
      ∀ i j, call.StandsFor i → call.StandsFor j → i = j) ∧
    ∀ calls : List Call, ∃ instructions : List Instruction,
      (∀ others, List.Forall₂ Call.StandsFor (new.succeeding calls) others ↔ others = instructions) ∧
      (new.run calls).dockerfile = Dockerfile.ofList instructions ∧
      (new.run calls).dockerfile.length = (new.succeeding calls).length ∧
      ∀ history : Dockerfile.History, history.added = instructions →
        history.dockerfile = (new.run calls).dockerfile ∧
        history.dockerfile.render = (new.run calls).dockerfile.render := by
  refine ⟨fun builder call => ⟨fun _ => perform_eq_ok_iff, fun _ => perform_eq_error_iff,
    fun _ _ => Call.StandsFor.unique⟩, fun calls => ?_⟩
  have unique : Relator.RightUnique Call.StandsFor := fun _ _ _ => Call.StandsFor.unique
  obtain ⟨instructions, each, file⟩ := new.run_eq_extend calls
  have collected : (new.run calls).dockerfile = Dockerfile.ofList instructions := file
  refine ⟨instructions, fun others => ⟨fun other => ?_, fun same => same ▸ each⟩, collected, ?_, ?_⟩
  · exact List.right_unique_forall₂' unique other each
  · rw [collected, Dockerfile.length_eq, (Dockerfile.stableSort_commands instructions).perm.length_eq,
      each.length_eq]
  · rintro history rfl
    have same := history.dockerfile_eq_ofList.trans collected.symm
    exact ⟨same, congrArg Dockerfile.render same⟩

/-- Calls of which two fail, and the same instructions in a chain and out of a sequence. -/
theorem run_collects_mixed :
    let calls := [.exposeNumbers [80, -1], .onbuild (.step (.named .baseImage "alpine" none)),
      .baseImage "alpine", .command (.check (.step (.text .shellRun "probe")) []),
      .onbuild (.step (.pair .copy "." "/app")), .execRun "make" ["all"]]
    let image := Instruction.step (.named .baseImage "alpine" none)
    let made := Instruction.step (.exec .run ⟨"make", .ofList ["all"]⟩)
    let ports := Instruction.step (.list .expose (.ofList ["80", "-1"]))
    let later := Instruction.onbuild (.step (.pair .copy "." "/app") (by decide))
    let history : Dockerfile.History := ⟨some [ports], [.chain image [later], .sequence [made]]⟩
    (new.run calls).dockerfile = Dockerfile.ofList [ports, image, later, made] ∧
    (new.run calls).dockerfile.length = 4 ∧
    (new.run calls).dockerfile.render = history.dockerfile.render := by
  intro calls image made ports later history
  obtain ⟨instructions, only, file, length, same⟩ := run_collects.2 calls
  have found : [ports, image, later, made] = instructions := by
    refine (only _).1 (.cons (.numbers ?_) (.cons (.plain rfl) (.cons (.onbuild rfl) (.cons (.plain rfl) .nil))))
    exact forall₂_isInteger_iff.2 (by decide)
  subst found
  exact ⟨file, length, (same history rfl).2.symm⟩

end Builder

end ImageRecipe
