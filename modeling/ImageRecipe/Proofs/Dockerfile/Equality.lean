import Mathlib.Logic.Function.Basic
import ImageRecipe.Context.Package
import ImageRecipe.Proofs.Dockerfile.History

/-!
# When two Dockerfiles are equal

A Dockerfile forgets how instructions of different priorities were interleaved, and nothing else. Its groups are
told by its lines, since no group is empty and none holds a foreign priority; and its lines are told by the
instructions of each priority, in the order they were added.

* `Instruction.withSources`, `Dockerfile.withSources` — other sources, in turn, in the place of those that the
  copies have;
* `Statement`, `Shelf.perform` — a program that works on named Dockerfiles: it adds to them, replaces their sources,
  and takes snapshots;
* `Record.perform` — the instructions that each name stands for, in the order they were added.

Principal results:

* `Grouped.eq_of_commands` — two Dockerfiles with the same lines are one;
* `withSources_ofList` — the step: replacing sources is the same before the instructions are added and after;
* `shelfAfter_eq_recordAfter` — the run: every Dockerfile of a program is collected from what its name stands for;
* `eq_iff_within_priorities` — equality of Dockerfiles, of their lines, and of the instructions of each priority.
-/

set_option autoImplicit false

namespace ImageRecipe

/-! ## Other sources -/

namespace Instruction

/-- The instructions with the given sources, in turn, in the place of those that the copies among them have.
Copies for which no source is left keep their own. -/
def withSources : List String → List Instruction → List Instruction
  | [], instructions => instructions
  | _, [] => []
  | source :: sources, i :: rest =>
    if i.copy?.isSome then i.mapSource (fun _ => source) :: withSources sources rest
    else i :: withSources (source :: sources) rest

variable {sources : List String} {instructions : List Instruction}

@[simp]
theorem withSources_nil (sources : List String) : withSources sources [] = [] := by
  cases sources <;> rfl

/-- Other sources change neither the number of the instructions nor their priorities. -/
theorem map_priority_withSources (sources : List String) (instructions : List Instruction) :
    (withSources sources instructions).map priority = instructions.map priority := by
  fun_induction withSources sources instructions with
  | case1 => rfl
  | case2 => rfl
  | case3 source sources i rest _ ih => rw [List.map_cons, List.map_cons, priority_mapSource, ih]
  | case4 source sources i rest _ ih => rw [List.map_cons, List.map_cons, ih]

theorem withSources_of_no_copies (h : ∀ i ∈ instructions, i.copy? = none) :
    withSources sources instructions = instructions := by
  fun_induction withSources sources instructions with
  | case1 => rfl
  | case2 => rfl
  | case3 source sources i rest copies _ =>
    rw [h i List.mem_cons_self] at copies
    cases copies
  | case4 source sources i rest _ ih => rw [ih fun j hj => h j (List.mem_cons_of_mem _ hj)]

/-- The copies in front use up as many sources as there are of them. -/
theorem withSources_append (sources : List String) (front back : List Instruction) :
    withSources sources (front ++ back) = withSources sources front
      ++ withSources (sources.drop (front.filterMap copy?).length) back := by
  fun_induction withSources sources front with
  | case1 front => simp [withSources]
  | case2 => simp
  | case3 source sources i rest copies ih =>
    obtain ⟨pair, hpair⟩ := Option.isSome_iff_exists.1 copies
    rw [List.cons_append, withSources, if_pos copies, ih, List.filterMap_cons_some hpair,
      List.length_cons, List.drop_succ_cons, List.cons_append]
  | case4 source sources i rest other ih =>
    rw [List.cons_append, withSources, if_neg other, ih,
      List.filterMap_cons_none (Option.not_isSome_iff_eq_none.1 other), List.cons_append]

/-- **Other sources stay within their priority.** All copies have one priority, so the sources go to the same
copies whether or not the instructions of other priorities stand between them. -/
theorem filter_withSources (sources : List String) (instructions : List Instruction) (k : Nat) :
    (withSources sources instructions).filter (·.priority == k)
      = withSources sources (instructions.filter (·.priority == k)) := by
  fun_induction withSources sources instructions with
  | case1 => rw [withSources]
  | case2 => simp
  | case3 source sources i rest copies ih =>
    by_cases here : i.priority = k
    · rw [List.filter_cons_of_pos (by simpa [priority_mapSource] using here), ih,
        List.filter_cons_of_pos (by simpa using here), withSources, if_pos copies]
    · -- No copy has the priority `k`, so neither list of sources changes anything.
      have none : ∀ j ∈ rest.filter (·.priority == k), j.copy? = none := by
        intro j hj
        obtain ⟨pair, hpair⟩ := Option.isSome_iff_exists.1 copies
        rw [Dockerfile.priority_of_copy? hpair] at here
        refine Option.eq_none_iff_forall_ne_some.2 fun other hother => here ?_
        rw [← Dockerfile.priority_of_copy? hother]
        simpa using (List.mem_filter.1 hj).2
      rw [List.filter_cons_of_neg (by simpa [priority_mapSource] using here), ih,
        List.filter_cons_of_neg (by simpa using here), withSources_of_no_copies none,
        withSources_of_no_copies none]
  | case4 source sources i rest other ih =>
    by_cases here : i.priority = k
    · rw [List.filter_cons_of_pos (by simpa using here), ih,
        List.filter_cons_of_pos (by simpa using here), withSources, if_neg other]
    · rw [List.filter_cons_of_neg (by simpa using here), ih,
        List.filter_cons_of_neg (by simpa using here)]

/-- Renaming every source is giving each copy the new name of its own. -/
theorem map_mapSource_eq_withSources (rename : String → String) (more : List String)
    (instructions : List Instruction) :
    instructions.map (·.mapSource rename)
      = withSources ((instructions.filterMap copy?).map (rename ·.1) ++ more) instructions := by
  induction instructions with
  | nil => simp
  | cons i rest ih =>
    cases hcopy : i.copy? with
    | none =>
      have kept : i.mapSource rename = i := mapSource_eq_self (by simp [hcopy])
      have apart : ¬i.copy?.isSome := by simp [hcopy]
      rw [List.map_cons, kept, ih, List.filterMap_cons_none hcopy]
      generalize (rest.filterMap copy?).map (rename ·.1) ++ more = sources
      cases sources with
      | nil => rw [withSources, withSources]
      | cons source sources => rw [withSources, if_neg apart]
    | some pair =>
      have copies : i.copy?.isSome := by simp [hcopy]
      have given : i.mapSource rename = i.mapSource (fun _ => rename pair.1) :=
        mapSource_congr fun other hother => by rw [Option.some.inj (hcopy.symm.trans hother)]
      rw [List.map_cons, ih, given, List.filterMap_cons_some hcopy, List.map_cons, List.cons_append,
        withSources, if_pos copies]

end Instruction

namespace Dockerfile

/-- The groups with other sources, those that one group leaves going to the next. -/
def regroup (sources : List String) : List PriorityGroup → List PriorityGroup
  | [] => []
  | group :: rest =>
    { group with members := Instruction.withSources sources group.members }
      :: regroup (sources.drop (group.members.filterMap Instruction.copy?).length) rest

/-- The Dockerfile with the given sources, in turn, in the place of those that its copies have. -/
def withSources (sources : List String) (file : Dockerfile) : Dockerfile :=
  ⟨regroup sources file.groups⟩

theorem commands_withSources (sources : List String) (file : Dockerfile) :
    (file.withSources sources).commands = Instruction.withSources sources file.commands := by
  obtain ⟨groups⟩ := file
  change (regroup sources groups).flatMap _ = Instruction.withSources sources (groups.flatMap _)
  induction groups generalizing sources with
  | nil => simp [regroup]
  | cons group rest ih =>
    rw [regroup, List.flatMap_cons, ih, List.flatMap_cons, Instruction.withSources_append]

theorem mem_regroup {sources : List String} {groups : List PriorityGroup} {group : PriorityGroup}
    (h : group ∈ regroup sources groups) :
    ∃ old ∈ groups, group.priority = old.priority
      ∧ group.members.map Instruction.priority = old.members.map Instruction.priority := by
  induction groups generalizing sources with
  | nil => cases h
  | cons first rest ih =>
    rcases List.mem_cons.1 h with rfl | later
    · exact ⟨first, List.mem_cons_self, rfl, Instruction.map_priority_withSources _ _⟩
    · obtain ⟨old, hold, same⟩ := ih later
      exact ⟨old, List.mem_cons_of_mem _ hold, same⟩

theorem Grouped.withSources {file : Dockerfile} (h : file.Grouped) (sources : List String) :
    (file.withSources sources).Grouped where
  nonempty group hgroup empty := by
    obtain ⟨old, hold, -, members⟩ := mem_regroup hgroup
    rw [empty, List.map_nil, eq_comm, List.map_eq_nil_iff] at members
    exact h.nonempty old hold members
  own group hgroup i hi := by
    obtain ⟨old, hold, priority, members⟩ := mem_regroup hgroup
    have found : i.priority ∈ old.members.map Instruction.priority :=
      members ▸ List.mem_map_of_mem hi
    obtain ⟨j, hj, same⟩ := List.mem_map.1 found
    rw [priority, ← same]
    exact h.own old hold j hj
  ascending := by
    obtain ⟨groups⟩ := file
    have ascending := h.ascending
    change (regroup sources groups).Pairwise _
    clear h
    induction groups generalizing sources with
    | nil => exact .nil
    | cons first rest ih =>
      obtain ⟨below, ascending⟩ := List.pairwise_cons.1 ascending
      refine List.pairwise_cons.2 ⟨fun group hgroup => ?_, ih _ ascending⟩
      obtain ⟨old, hold, priority, -⟩ := mem_regroup hgroup
      rw [priority]
      exact below old hold

/-- What renaming all sources does, as packaging does it, other sources do. -/
theorem mapSources_eq_withSources (rename : String → String) (file : Dockerfile) :
    file.mapSources rename = file.withSources (file.copies.map (rename ·.1)) := by
  have each (groups : List PriorityGroup) (more : List String) :
      groups.map (fun group => { group with members := group.members.map (·.mapSource rename) })
        = regroup (((groups.flatMap PriorityGroup.members).filterMap Instruction.copy?).map (rename ·.1)
          ++ more) groups := by
    induction groups with
    | nil => rfl
    | cons group rest ih =>
      rw [List.map_cons, regroup, List.flatMap_cons, List.filterMap_append, List.map_append,
        List.append_assoc, ← Instruction.map_mapSource_eq_withSources, ih]
      congr 2
      exact (List.drop_left' (List.length_map _)).symm
  rw [mapSources, each file.groups [], List.append_nil]
  rfl

/-! ## Lines tell the groups -/

/-- The instructions behind a group have larger priorities. -/
theorem Grouped.lt_of_mem_commands {first : PriorityGroup} {rest : List PriorityGroup}
    (h : Grouped ⟨first :: rest⟩) {i : Instruction} (hi : i ∈ commands ⟨rest⟩) :
    first.priority < i.priority := by
  obtain ⟨group, hgroup, member⟩ := List.mem_flatMap.1 hi
  rw [h.tail.own group hgroup i member]
  exact (List.pairwise_cons.1 h.ascending).1 group hgroup

/-- The first group is what has the priority of the first line. -/
theorem Grouped.members_eq_filter {first : PriorityGroup} {rest : List PriorityGroup}
    (h : Grouped ⟨first :: rest⟩) :
    (commands ⟨first :: rest⟩).filter (·.priority == first.priority) = first.members := by
  have here : first.members.filter (·.priority == first.priority) = first.members :=
    List.filter_eq_self.2 fun i hi => beq_iff_eq.2 (h.own first List.mem_cons_self i hi)
  have later : (commands ⟨rest⟩).filter (·.priority == first.priority) = [] :=
    List.filter_eq_nil_iff.2 fun i hi same =>
      absurd (h.lt_of_mem_commands hi) (by rw [beq_iff_eq.1 same]; exact Nat.lt_irrefl _)
  change (first.members ++ commands ⟨rest⟩).filter _ = _
  rw [List.filter_append, here, later, List.append_nil]

/-- **Two Dockerfiles with the same lines are one.** -/
theorem Grouped.eq_of_commands {file other : Dockerfile} (h : file.Grouped) (h' : other.Grouped)
    (same : file.commands = other.commands) : file = other := by
  obtain ⟨groups⟩ := file
  obtain ⟨others⟩ := other
  congr 1
  induction groups generalizing others with
  | nil =>
    cases others with
    | nil => rfl
    | cons second _ => exact absurd same (by simp [commands, h'.nonempty second List.mem_cons_self])
  | cons first rest ih =>
    cases others with
    | nil => exact absurd same (by simp [commands, h.nonempty first List.mem_cons_self])
    | cons second others =>
      -- The first line has the priority of the first group on either side.
      have priorities : first.priority = second.priority := by
        obtain ⟨i, members, hfirst⟩ := List.exists_cons_of_ne_nil (h.nonempty first List.mem_cons_self)
        obtain ⟨j, members', hsecond⟩ :=
          List.exists_cons_of_ne_nil (h'.nonempty second List.mem_cons_self)
        have heads : i = j := by
          simp only [commands, List.flatMap_cons, hfirst, hsecond, List.cons_append] at same
          exact (List.cons.inj same).1
        rw [← h.own first List.mem_cons_self i (by simp [hfirst]), heads,
          h'.own second List.mem_cons_self j (by simp [hsecond])]
      have members : first.members = second.members := by
        rw [← h.members_eq_filter, same, priorities, h'.members_eq_filter]
      obtain rfl : first = second := by
        cases first
        cases second
        simp_all
      rw [ih h.tail others h'.tail (List.append_cancel_left same)]

theorem ofList_eq_iff_commands (added others : List Instruction) :
    ofList added = ofList others ↔ (ofList added).commands = (ofList others).commands :=
  ⟨congrArg commands, (grouped_ofList added).eq_of_commands (grouped_ofList others)⟩

/-- **The lines are told by the instructions of each priority.** -/
theorem commands_eq_iff (added others : List Instruction) :
    (ofList added).commands = (ofList others).commands
      ↔ ∀ k, added.filter (·.priority == k) = others.filter (·.priority == k) := by
  have sorted := stableSort_commands added
  have sorted' := stableSort_commands others
  constructor
  · intro same k
    rw [← sorted.ties k, same, sorted'.ties k]
  · intro same
    exact eq_of_ascending sorted.ascending sorted'.ascending fun k => by
      rw [sorted.ties k, same k, sorted'.ties k]

/-! ## The step -/

/-- **Sources may be replaced before the instructions are added or after.** -/
theorem withSources_ofList (sources : List String) (added : List Instruction) :
    (ofList added).withSources sources = ofList (Instruction.withSources sources added) := by
  refine ((grouped_ofList added).withSources sources).eq_of_commands (grouped_ofList _) ?_
  have sorted := stableSort_commands added
  have sorted' := stableSort_commands (Instruction.withSources sources added)
  rw [commands_withSources]
  refine eq_of_ascending ?_ sorted'.ascending fun k => ?_
  · have ascending := List.pairwise_map.2 sorted.ascending
    rw [← Instruction.map_priority_withSources sources] at ascending
    exact List.pairwise_map.1 ascending
  · rw [Instruction.filter_withSources, sorted.ties k, ← Instruction.filter_withSources, sorted'.ties k]

theorem after_ofList (added : List Instruction) (addition : Addition) :
    (ofList added).after addition = ofList (added ++ addition.instructions) := by
  rw [after_eq_extend, ofList, ofList, extend_append]

/-! ## The run -/

/-- One statement of a program that works on named Dockerfiles. -/
inductive Statement where
  /-- A Dockerfile without instructions. -/
  | create (name : String)
  /-- A Dockerfile that is collected from a sequence. -/
  | collect (name : String) (instructions : List Instruction)
  /-- An addition to a Dockerfile. -/
  | add (name : String) (addition : Addition)
  /-- Other sources for the copies of a Dockerfile. -/
  | replace (name : String) (sources : List String)
  /-- A snapshot of another Dockerfile. -/
  | snapshot (name original : String)

/-- Dockerfiles by their names. -/
abbrev Shelf := String → Option Dockerfile

/-- The Dockerfiles after a statement. -/
def Shelf.perform (shelf : Shelf) : Statement → Shelf
  | .create name => Function.update shelf name (some empty)
  | .collect name instructions => Function.update shelf name (some (ofList instructions))
  | .add name addition => Function.update shelf name ((shelf name).map (·.after addition))
  | .replace name sources => Function.update shelf name ((shelf name).map (·.withSources sources))
  | .snapshot name original => Function.update shelf name (shelf original)

/-- The Dockerfiles that a program leaves. -/
def shelfAfter (program : List Statement) : Shelf :=
  program.foldl Shelf.perform fun _ => none

/-- The sequences of instructions that names stand for. -/
abbrev Record := String → Option (List Instruction)

/-- The sequences after a statement, sources replaced where they stand. -/
def Record.perform (record : Record) : Statement → Record
  | .create name => Function.update record name (some [])
  | .collect name instructions => Function.update record name (some instructions)
  | .add name addition => Function.update record name ((record name).map (· ++ addition.instructions))
  | .replace name sources =>
    Function.update record name ((record name).map (Instruction.withSources sources))
  | .snapshot name original => Function.update record name (record original)

/-- The sequences that a program leaves. -/
def recordAfter (program : List Statement) : Record :=
  program.foldl Record.perform fun _ => none

/-- The Dockerfiles that are collected from recorded sequences. -/
def Record.shelf (record : Record) : Shelf := fun name => (record name).map ofList

theorem shelf_update (record : Record) (name : String) (sequence : Option (List Instruction)) :
    Record.shelf (Function.update record name sequence)
      = Function.update record.shelf name (sequence.map ofList) := by
  funext other
  by_cases same : other = name
  · subst same
    simp [Record.shelf]
  · simp [Record.shelf, same]

theorem perform_shelf (record : Record) (statement : Statement) :
    record.shelf.perform statement = (record.perform statement).shelf := by
  cases statement with
  | create name => exact (shelf_update record name (some [])).symm
  | collect name instructions => exact (shelf_update record name (some instructions)).symm
  | add name addition =>
    rw [Record.perform, shelf_update, Shelf.perform, Record.shelf, Option.map_map, Option.map_map]
    simp only [Function.comp_def, after_ofList]
  | replace name sources =>
    rw [Record.perform, shelf_update, Shelf.perform, Record.shelf, Option.map_map, Option.map_map]
    simp only [Function.comp_def, withSources_ofList]
  | snapshot name original => exact (shelf_update record name (record original)).symm

/-- **Every Dockerfile of a program is collected from the sequence that its name stands for.** -/
theorem shelfAfter_eq_recordAfter (program : List Statement) :
    shelfAfter program = (recordAfter program).shelf := by
  have each (record : Record) : program.foldl Shelf.perform record.shelf
      = (program.foldl Record.perform record).shelf := by
    induction program generalizing record with
    | nil => rfl
    | cons statement rest ih => rw [List.foldl_cons, perform_shelf, ih, List.foldl_cons]
  exact each fun _ => none

/-- **The order of additions matters only within a priority.** Dockerfiles that are collected from two sequences
are equal exactly if their lines are, and exactly if for every priority the two sequences hold the same
instructions of it in the same order. So it is with the Dockerfiles of any programs that add to them, replace the
sources of their copies, and take snapshots: no group of theirs is empty or holds a foreign priority, and what
counts is the sequence that each name stands for. Packaging replaces sources in this way. -/
theorem eq_iff_within_priorities :
    (∀ added others : List Instruction,
      (ofList added = ofList others
        ↔ ∀ k, added.filter (·.priority == k) = others.filter (·.priority == k)) ∧
      (ofList added = ofList others ↔ (ofList added).commands = (ofList others).commands)) ∧
    (∀ (program second : List Statement) (name other : String) (file otherFile : Dockerfile),
      shelfAfter program name = some file → shelfAfter second other = some otherFile →
      file.Grouped ∧ ∃ added others,
        recordAfter program name = some added ∧ recordAfter second other = some others ∧
        (file = otherFile
          ↔ ∀ k, added.filter (·.priority == k) = others.filter (·.priority == k)) ∧
        (file = otherFile ↔ file.commands = otherFile.commands)) ∧
    ∀ (host : Host) (options : Options) (file : Dockerfile),
      packaged host options file = file.withSources (file.sources.map (renamed host options)) := by
  have collected (added others : List Instruction) :=
    And.intro ((ofList_eq_iff_commands added others).trans (commands_eq_iff added others))
      (ofList_eq_iff_commands added others)
  refine ⟨collected, ?_, fun host options file => ?_⟩
  · intro program second name other file otherFile hfile hother
    rw [shelfAfter_eq_recordAfter] at hfile hother
    obtain ⟨added, hadded, rfl⟩ := Option.map_eq_some_iff.1 hfile
    obtain ⟨others, hothers, rfl⟩ := Option.map_eq_some_iff.1 hother
    exact ⟨grouped_ofList added, added, others, hadded, hothers, collected added others⟩
  · rw [packaged, mapSources_eq_withSources, sources, List.map_map]
    rfl

/-- A program that replaces a source and takes a snapshot, and one that adds in another order what the first
one is left with; the snapshot is then added to, and the original is not. -/
theorem eq_iff_within_priorities_interleaved :
    let run := Instruction.step (.text .shellRun "make")
    let env := Instruction.step (.pair .env "A" "1")
    let copy (source : String) := Instruction.step (.pair .copy source "/app")
    let program := [.collect "a" [run, copy "/tmp/app", env], .replace "a" ["app"], .snapshot "b" "a",
      .add "b" (.call env)]
    let second := [.create "c", .add "c" (.chain env [run]), Statement.add "c" (.sequence [copy "app"])]
    ∃ file snapshot other, shelfAfter program "a" = some file ∧ shelfAfter program "b" = some snapshot ∧
      shelfAfter second "c" = some other ∧ file.Grouped ∧ file = other ∧ snapshot ≠ other := by
  intro run env copy program second
  refine ⟨ofList [run, copy "app", env], ofList [run, copy "app", env, env], ofList [env, run, copy "app"],
    by decide, by decide, by decide, ?_⟩
  have same := eq_iff_within_priorities.2.1 program second "a" "c" (ofList [run, copy "app", env])
    (ofList [env, run, copy "app"]) (by decide) (by decide)
  have apart := eq_iff_within_priorities.2.1 program second "b" "c" (ofList [run, copy "app", env, env])
    (ofList [env, run, copy "app"]) (by decide) (by decide)
  obtain ⟨grouped, _, _, -, -, -, same⟩ := same
  obtain ⟨-, _, _, -, -, -, apart⟩ := apart
  exact ⟨grouped, same.2 (by decide), fun equal => absurd (apart.1 equal) (by decide)⟩

end Dockerfile

end ImageRecipe
