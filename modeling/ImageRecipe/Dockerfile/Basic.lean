import ImageRecipe.Instruction.Basic

/-!
# Dockerfiles

A Dockerfile keeps its instructions in groups, one for each priority in use, in ascending order; within a
group they stand in the order they were added. Its text is one line for each instruction.

* `Dockerfile.add` (`add_command`), `Dockerfile.extend` (`extend`), `Dockerfile.ofList` (`from_iter`) — adding
  instructions;
* `Dockerfile.commands` (`commands`), `Dockerfile.length` (`len`), `Dockerfile.isEmpty` (`is_empty`),
  `Dockerfile.render` (`render`) — looking at them;
* `Dockerfile.copies`, `Dockerfile.mapSources` (`filesystem_copies_mut`) — the instructions that copy files.

Principal results:

* `grouped_ofList` — every group has an instruction, holds its own priority only, and comes after all
  groups of lower priority;
* `isEmpty_iff` — looking at the groups tells whether there is an instruction;
* `commands_mapSources`, `copies_mapSources` — renaming sources changes nothing else.
-/

set_option autoImplicit false

namespace ImageRecipe

/-- The instructions of one priority, in the order they were added. -/
structure PriorityGroup where
  priority : Nat
  members : List Instruction
  deriving DecidableEq

/-- Instructions grouped by priority. -/
structure Dockerfile where
  groups : List PriorityGroup
  deriving DecidableEq

namespace Dockerfile

/-- The Dockerfile without instructions. -/
def empty : Dockerfile := ⟨[]⟩

/-- The groups with `instruction` at the end of its own, which is opened if need be. -/
def place (instruction : Instruction) : List PriorityGroup → List PriorityGroup
  | [] => [⟨instruction.priority, [instruction]⟩]
  | group :: rest =>
    if instruction.priority < group.priority then
      ⟨instruction.priority, [instruction]⟩ :: group :: rest
    else if instruction.priority = group.priority then
      ⟨group.priority, group.members ++ [instruction]⟩ :: rest
    else group :: place instruction rest

/-- The Dockerfile with one more instruction. -/
def add (file : Dockerfile) (instruction : Instruction) : Dockerfile :=
  ⟨place instruction file.groups⟩

/-- The Dockerfile with more instructions, added in turn. -/
def extend (file : Dockerfile) (instructions : List Instruction) : Dockerfile :=
  instructions.foldl add file

/-- The Dockerfile of the given instructions, added in turn. -/
def ofList (instructions : List Instruction) : Dockerfile :=
  empty.extend instructions

/-- The instructions in the order of their lines. -/
def commands (file : Dockerfile) : List Instruction :=
  file.groups.flatMap PriorityGroup.members

/-- The number of instructions. -/
def length (file : Dockerfile) : Nat :=
  file.groups.foldr (fun group total => group.members.length + total) 0

/-- Whether there is no instruction. -/
def isEmpty (file : Dockerfile) : Bool :=
  file.groups.isEmpty

/-- The sources and destinations of the instructions that copy files now, in the order of their
lines. -/
def copies (file : Dockerfile) : List (String × String) :=
  file.commands.filterMap Instruction.copy?

/-- The text: each line with its end. -/
def render (file : Dockerfile) : String :=
  String.join (file.commands.map (·.render ++ "\n"))

/-- The Dockerfile with the source of every instruction that copies files now replaced by its image
under `rename`. -/
def mapSources (rename : String → String) (file : Dockerfile) : Dockerfile :=
  ⟨file.groups.map fun group => { group with members := group.members.map (·.mapSource rename) }⟩

/-- The order that the groups keep: no group is empty or holds a foreign priority, and priorities
ascend. -/
structure Grouped (file : Dockerfile) : Prop where
  nonempty : ∀ group ∈ file.groups, group.members ≠ []
  own : ∀ group ∈ file.groups, ∀ i ∈ group.members, i.priority = group.priority
  ascending : file.groups.Pairwise (·.priority < ·.priority)

theorem mem_place {instruction : Instruction} {groups : List PriorityGroup} {group : PriorityGroup}
    (h : group ∈ place instruction groups) :
    group ∈ groups ∨ group.priority = instruction.priority := by
  induction groups with
  | nil => simp_all [place]
  | cons first rest ih =>
    unfold place at h
    split at h
    · rcases List.mem_cons.1 h with rfl | old
      · exact .inr rfl
      · exact .inl old
    · split at h
      · next same =>
        rcases List.mem_cons.1 h with rfl | old
        · exact .inr same.symm
        · exact .inl (List.mem_cons_of_mem _ old)
      · rcases List.mem_cons.1 h with rfl | later
        · exact .inl List.mem_cons_self
        · exact (ih later).imp_left (List.mem_cons_of_mem _)

theorem grouped_empty : empty.Grouped where
  nonempty := by simp [empty]
  own := by simp [empty]
  ascending := .nil

/-- The groups behind the first keep the order. -/
theorem Grouped.tail {first : PriorityGroup} {rest : List PriorityGroup}
    (h : Grouped ⟨first :: rest⟩) : Grouped ⟨rest⟩ where
  nonempty group hgroup := h.nonempty group (List.mem_cons_of_mem _ hgroup)
  own group hgroup := h.own group (List.mem_cons_of_mem _ hgroup)
  ascending := (List.pairwise_cons.1 h.ascending).2

theorem grouped_add {file : Dockerfile} (h : file.Grouped) (instruction : Instruction) :
    (file.add instruction).Grouped := by
  obtain ⟨groups⟩ := file
  induction groups with
  | nil => exact ⟨by simp [add, place], by simp [add, place], by simp [add, place]⟩
  | cons first rest ih =>
    have tail : Grouped ⟨rest⟩ := h.tail
    obtain ⟨nonempty, own, ascending⟩ := h
    obtain ⟨below, ascending⟩ := List.pairwise_cons.1 ascending
    by_cases before : instruction.priority < first.priority
    · have step : Dockerfile.add ⟨first :: rest⟩ instruction
          = ⟨⟨instruction.priority, [instruction]⟩ :: first :: rest⟩ := by
        simp [add, place, before]
      rw [step]
      refine ⟨?_, ?_, ?_⟩
      · exact List.forall_mem_cons.2 ⟨by simp, nonempty⟩
      · exact List.forall_mem_cons.2 ⟨by simp, own⟩
      · refine List.pairwise_cons.2 ⟨List.forall_mem_cons.2 ⟨before, fun g hg => ?_⟩, ?_⟩
        · exact Nat.lt_trans before (below g hg)
        · exact List.pairwise_cons.2 ⟨below, ascending⟩
    · by_cases same : instruction.priority = first.priority
      · have step : Dockerfile.add ⟨first :: rest⟩ instruction
            = ⟨⟨first.priority, first.members ++ [instruction]⟩ :: rest⟩ := by
          simp [add, place, same]
        rw [step]
        refine ⟨?_, ?_, ?_⟩
        · exact List.forall_mem_cons.2 ⟨by simp, tail.nonempty⟩
        · refine List.forall_mem_cons.2 ⟨fun i hi => ?_, tail.own⟩
          rcases List.mem_append.1 hi with old | new
          · exact own first List.mem_cons_self i old
          · rw [List.mem_singleton.1 new]
            exact same
        · exact List.pairwise_cons.2 ⟨below, ascending⟩
      · have step : Dockerfile.add ⟨first :: rest⟩ instruction
            = ⟨first :: place instruction rest⟩ := by
          simp [add, place, before, same]
        obtain ⟨nonempty', own', ascending'⟩ := ih tail
        rw [step]
        refine ⟨?_, ?_, ?_⟩
        · exact List.forall_mem_cons.2 ⟨nonempty first List.mem_cons_self, nonempty'⟩
        · exact List.forall_mem_cons.2 ⟨own first List.mem_cons_self, own'⟩
        · refine List.pairwise_cons.2 ⟨fun g hg => ?_, ascending'⟩
          rcases mem_place hg with old | new
          · exact below g old
          · omega

theorem grouped_extend {file : Dockerfile} (h : file.Grouped) (instructions : List Instruction) :
    (file.extend instructions).Grouped := by
  induction instructions generalizing file with
  | nil => exact h
  | cons instruction rest ih => exact ih (grouped_add h instruction)

theorem grouped_ofList (instructions : List Instruction) : (ofList instructions).Grouped :=
  grouped_extend grouped_empty instructions

theorem length_eq (file : Dockerfile) : file.length = file.commands.length := by
  obtain ⟨groups⟩ := file
  simp only [length, commands]
  induction groups with
  | nil => rfl
  | cons group rest ih => rw [List.foldr_cons, ih, List.flatMap_cons, List.length_append]

theorem isEmpty_iff {file : Dockerfile} (h : file.Grouped) :
    file.isEmpty = true ↔ file.commands = [] := by
  obtain ⟨groups⟩ := file
  cases groups with
  | nil => simp [isEmpty, commands]
  | cons first rest =>
    have := h.nonempty first List.mem_cons_self
    simp [isEmpty, commands, this]

theorem commands_mapSources (rename : String → String) (file : Dockerfile) :
    (file.mapSources rename).commands = file.commands.map (·.mapSource rename) := by
  simp [mapSources, commands, List.flatMap_map, List.map_flatMap]

theorem copies_mapSources (rename : String → String) (file : Dockerfile) :
    (file.mapSources rename).copies = file.copies.map (fun pair => (rename pair.1, pair.2)) := by
  simp only [copies, commands_mapSources, List.filterMap_map, List.map_filterMap]
  congr 1
  funext i
  exact i.copy?_mapSource rename

theorem mapSources_mapSources (f g : String → String) (file : Dockerfile) :
    (file.mapSources g).mapSources f = file.mapSources (f ∘ g) := by
  simp [mapSources, Instruction.mapSource_mapSource]

end Dockerfile

end ImageRecipe
