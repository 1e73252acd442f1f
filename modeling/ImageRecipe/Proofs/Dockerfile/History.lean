import Mathlib.Data.List.Basic
import ImageRecipe.Dockerfile.Basic

/-!
# A Dockerfile is the sorted history of its additions

Instructions come into a Dockerfile one by one, in chains of calls, out of sequences, or as the sequence it
is collected from. How they came leaves no trace: only the order in which they were added counts.

* `StableSort` — what it means to sort a list by a key and to keep the order of ties; `StableSort.unique`,
  there is one way to do so, and `stableSort_mergeSort`, which one;
* `History` — the additions to a Dockerfile, with the instructions they add and the Dockerfile they leave;
* `exists_split_add` — the step: an instruction goes behind all of lower or equal priority and before all
  of higher;
* `stableSort_commands` — the run: after any history the lines are the stable sort of what was added.

Principal result: `History.sorts` — the lines, their number, whether there are any, the copies and the text
are all read off the sorted history.
-/

set_option autoImplicit false

namespace ImageRecipe

/-! ## Stable sorts -/

section StableSort

variable {α : Type} {key : α → Nat}

/-- The second list holds what the first one holds, by ascending key; what shares a key keeps its order. -/
structure StableSort (key : α → Nat) (items sorted : List α) : Prop where
  perm : sorted.Perm items
  ascending : sorted.Pairwise (key · ≤ key ·)
  ties : ∀ k, sorted.filter (key · == k) = items.filter (key · == k)

theorem stableSort_nil : StableSort key [] [] :=
  ⟨.refl _, .nil, fun _ => rfl⟩

/-- One more item at the end of the list goes behind all whose keys are no larger. -/
theorem StableSort.insert {items before after : List α} {item : α}
    (h : StableSort key items (before ++ after)) (hbefore : ∀ a ∈ before, key a ≤ key item)
    (hafter : ∀ a ∈ after, key item < key a) :
    StableSort key (items ++ [item]) (before ++ item :: after) where
  perm := by
    calc before ++ item :: after
      List.Perm _ (item :: (before ++ after)) := List.perm_middle
      List.Perm _ (item :: items) := h.perm.cons item
      List.Perm _ (items ++ [item]) := (List.perm_append_singleton item items).symm
  ascending := by
    obtain ⟨low, high, across⟩ := List.pairwise_append.1 h.ascending
    refine List.pairwise_append.2 ⟨low, List.pairwise_cons.2 ⟨?_, high⟩, fun a ha b hb => ?_⟩
    · exact fun b hb => Nat.le_of_lt (hafter b hb)
    · rcases List.mem_cons.1 hb with rfl | old
      · exact hbefore a ha
      · exact across a ha b old
  ties k := by
    have old : before.filter (key · == k) ++ after.filter (key · == k)
        = items.filter (key · == k) := by
      rw [← List.filter_append]
      exact h.ties k
    rw [List.filter_append, List.filter_append, ← old]
    by_cases same : key item = k
    · -- Nothing behind the item has its key.
      have none : after.filter (key · == k) = [] := by
        refine List.filter_eq_nil_iff.2 fun a ha => ?_
        have := hafter a ha
        simp only [beq_iff_eq]
        omega
      simp [same, none]
    · simp [same]

/-- Two sorted lists that agree on every key are one. -/
theorem eq_of_ascending {a b : List α} (ha : a.Pairwise (key · ≤ key ·))
    (hb : b.Pairwise (key · ≤ key ·))
    (h : ∀ k, a.filter (key · == k) = b.filter (key · == k)) : a = b := by
  -- The smaller of the two first keys must be found in the other list, and nowhere but in front.
  have front : ∀ {x : α} {rest other : List α}, other.Pairwise (key · ≤ key ·) →
      (x :: rest).filter (key · == key x) = other.filter (key · == key x) →
      ∃ y others, other = y :: others ∧ key y ≤ key x := by
    intro x rest other sorted same
    have found : x ∈ other := by
      have : x ∈ other.filter (key · == key x) := same ▸ by simp
      exact (List.mem_filter.1 this).1
    cases other with
    | nil => simp at found
    | cons y others =>
      refine ⟨y, others, rfl, ?_⟩
      rcases List.mem_cons.1 found with rfl | later
      · exact Nat.le_refl _
      · exact (List.pairwise_cons.1 sorted).1 x later
  induction a generalizing b with
  | nil =>
    cases b with
    | nil => rfl
    | cons y others =>
      obtain ⟨x, rest, found, -⟩ := front ha (h (key y)).symm
      simp at found
  | cons x rest ih =>
    obtain ⟨y, others, rfl, le⟩ := front hb (h (key x))
    obtain ⟨x', rest', same, ge⟩ := front ha (h (key y)).symm
    obtain ⟨rfl, rfl⟩ : x = x' ∧ rest = rest' := by simpa using same
    have keys : key x = key y := Nat.le_antisymm ge le
    have heads := h (key x)
    rw [List.filter_cons_of_pos (by simp), List.filter_cons_of_pos (by simp [keys])] at heads
    obtain rfl : x = y := (List.cons.inj heads).1
    rw [ih (List.pairwise_cons.1 ha).2 (List.pairwise_cons.1 hb).2 fun k => ?_]
    have tails := h k
    by_cases here : key x = k
    · rw [List.filter_cons_of_pos (by simp [here]), List.filter_cons_of_pos (by simp [here])] at tails
      exact (List.cons.inj tails).2
    · rwa [List.filter_cons_of_neg (by simp [here]), List.filter_cons_of_neg (by simp [here])] at tails

theorem StableSort.unique {items a b : List α} (ha : StableSort key items a)
    (hb : StableSort key items b) : a = b :=
  eq_of_ascending ha.ascending hb.ascending fun k => (ha.ties k).trans (hb.ties k).symm

theorem stableSort_mergeSort (key : α → Nat) (items : List α) :
    StableSort key items (items.mergeSort (fun a b => key a ≤ key b)) where
  perm := List.mergeSort_perm items _
  ascending := by
    have sorted : (items.mergeSort (fun a b => key a ≤ key b)).Pairwise
        (fun a b => decide (key a ≤ key b)) :=
      List.pairwise_mergeSort (by simp only [decide_eq_true_eq]; omega) (by simp; omega) items
    exact sorted.imp (by simp)
  ties k := by
    -- Items of one key are sorted as they stand, so merging keeps them in their order.
    have tied : (items.filter (key · == k)).Pairwise (fun a b => decide (key a ≤ key b)) := by
      refine List.pairwise_of_forall_mem_list fun a ha b hb => ?_
      simp only [List.mem_filter, beq_iff_eq] at ha hb
      simp [ha.2, hb.2]
    have kept : (items.filter (key · == k)).Sublist
        (items.mergeSort (fun a b => key a ≤ key b)) :=
      List.sublist_mergeSort (by simp only [decide_eq_true_eq]; omega) (by simp; omega) tied
        List.filter_sublist
    have within := kept.filter (key · == k)
    rw [List.filter_filter] at within
    simp only [Bool.and_self] at within
    refine (within.eq_of_length ?_).symm
    exact ((List.mergeSort_perm items _).filter _).length_eq.symm

end StableSort

/-! ## Additions -/

namespace Dockerfile

/-- One statement that adds to a Dockerfile. -/
inductive Addition where
  /-- A single call. -/
  | call (instruction : Instruction)
  /-- Calls chained one to the other. -/
  | chain (first : Instruction) (rest : List Instruction)
  /-- All of a sequence. -/
  | sequence (instructions : List Instruction)

/-- The instructions that an addition adds, in turn. -/
def Addition.instructions : Addition → List Instruction
  | call instruction => [instruction]
  | chain first rest => first :: rest
  | sequence instructions => instructions

/-- The Dockerfile after an addition. -/
def after (file : Dockerfile) : Addition → Dockerfile
  | .call instruction => file.add instruction
  | .chain first rest => rest.foldl add (file.add first)
  | .sequence instructions => file.extend instructions

/-- The additions to a Dockerfile, from the sequence that it was collected from, if any, on. -/
structure History where
  collected : Option (List Instruction)
  additions : List Addition

/-- Everything that was added, in the order in which it was. -/
def History.added (history : History) : List Instruction :=
  history.collected.getD [] ++ history.additions.flatMap Addition.instructions

/-- The Dockerfile that a history leaves. -/
def History.dockerfile (history : History) : Dockerfile :=
  history.additions.foldl after (history.collected.elim empty ofList)

theorem after_eq_extend (file : Dockerfile) (addition : Addition) :
    file.after addition = file.extend addition.instructions := by
  cases addition <;> rfl

theorem extend_append (file : Dockerfile) (a b : List Instruction) :
    file.extend (a ++ b) = (file.extend a).extend b :=
  List.foldl_append

/-- Only the order of the instructions counts, not how they came. -/
theorem History.dockerfile_eq_ofList (history : History) :
    history.dockerfile = ofList history.added := by
  have each (additions : List Addition) (file : Dockerfile) :
      additions.foldl after file = file.extend (additions.flatMap Addition.instructions) := by
    induction additions generalizing file with
    | nil => rfl
    | cons addition rest ih =>
      rw [List.foldl_cons, ih, after_eq_extend, List.flatMap_cons, extend_append]
  obtain ⟨collected, additions⟩ := history
  have start : collected.elim empty ofList = ofList (collected.getD []) := by
    cases collected <;> rfl
  rw [dockerfile, each, start, added, ofList, ofList, extend_append]

/-! ## The step -/

theorem exists_split_place {groups : List PriorityGroup} (instruction : Instruction)
    (h : Grouped ⟨groups⟩) :
    ∃ before after, groups.flatMap PriorityGroup.members = before ++ after
      ∧ (place instruction groups).flatMap PriorityGroup.members = before ++ instruction :: after
      ∧ (∀ i ∈ before, i.priority ≤ instruction.priority)
      ∧ ∀ i ∈ after, instruction.priority < i.priority := by
  induction groups with
  | nil => exact ⟨[], [], rfl, rfl, by simp, by simp⟩
  | cons first rest ih =>
    have tail : Grouped ⟨rest⟩ := h.tail
    have below := (List.pairwise_cons.1 h.ascending).1
    have here : ∀ i ∈ first.members, i.priority = first.priority := h.own first List.mem_cons_self
    have later : ∀ i ∈ rest.flatMap PriorityGroup.members, first.priority < i.priority := by
      intro i hi
      obtain ⟨group, hgroup, member⟩ := List.mem_flatMap.1 hi
      rw [tail.own group hgroup i member]
      exact below group hgroup
    by_cases before : instruction.priority < first.priority
    · refine ⟨[], first.members ++ rest.flatMap PriorityGroup.members, rfl, ?_, by simp, ?_⟩
      · simp [place, before]
      · intro i hi
        rcases List.mem_append.1 hi with own | other
        · rw [here i own]
          exact before
        · exact Nat.lt_trans before (later i other)
    · by_cases same : instruction.priority = first.priority
      · refine ⟨first.members, rest.flatMap PriorityGroup.members, rfl, ?_, ?_, ?_⟩
        · simp [place, same]
        · exact fun i hi => Nat.le_of_eq ((here i hi).trans same.symm)
        · exact fun i hi => same ▸ later i hi
      · obtain ⟨low, high, split, placed, hlow, hhigh⟩ := ih tail
        refine ⟨first.members ++ low, high, ?_, ?_, ?_, hhigh⟩
        · rw [List.flatMap_cons, split, List.append_assoc]
        · rw [place, if_neg before, if_neg same, List.flatMap_cons, placed, List.append_assoc]
        · intro i hi
          rcases List.mem_append.1 hi with own | other
          · rw [here i own]
            omega
          · exact hlow i other

/-- Adding an instruction puts it behind all of lower or equal priority, and before all of higher. -/
theorem exists_split_add {file : Dockerfile} (h : file.Grouped) (instruction : Instruction) :
    ∃ before after, file.commands = before ++ after
      ∧ (file.add instruction).commands = before ++ instruction :: after
      ∧ (∀ i ∈ before, i.priority ≤ instruction.priority)
      ∧ ∀ i ∈ after, instruction.priority < i.priority :=
  exists_split_place instruction h

theorem stableSort_add {file : Dockerfile} {added : List Instruction} (hgrouped : file.Grouped)
    (h : StableSort Instruction.priority added file.commands) (instruction : Instruction) :
    StableSort Instruction.priority (added ++ [instruction]) (file.add instruction).commands := by
  obtain ⟨before, after, split, placed, low, high⟩ := exists_split_add hgrouped instruction
  rw [placed]
  rw [split] at h
  exact h.insert low high

/-! ## The run -/

theorem stableSort_extend {file : Dockerfile} {added : List Instruction} (hgrouped : file.Grouped)
    (h : StableSort Instruction.priority added file.commands) (instructions : List Instruction) :
    StableSort Instruction.priority (added ++ instructions) (file.extend instructions).commands := by
  induction instructions generalizing file added with
  | nil => rwa [List.append_nil]
  | cons instruction rest ih =>
    rw [List.append_cons]
    exact ih (grouped_add hgrouped instruction) (stableSort_add hgrouped h instruction)

theorem stableSort_commands (instructions : List Instruction) :
    StableSort Instruction.priority instructions (ofList instructions).commands :=
  stableSort_extend grouped_empty stableSort_nil instructions

/-! ## Copies -/

/-- All that copies files has one priority. -/
theorem priority_of_copy? {instruction : Instruction} {pair : String × String}
    (h : instruction.copy? = some pair) : instruction.priority = Kind.copy.priority := by
  have copies := instruction.copy?_isSome
  rw [h] at copies
  unfold Instruction.priority
  generalize instruction.kind = kind at copies
  cases kind <;> first | rfl | contradiction

/-- Sorting leaves the copies in the order they were added. -/
theorem filterMap_copy?_of_stableSort {added sorted : List Instruction}
    (h : StableSort Instruction.priority added sorted) :
    sorted.filterMap Instruction.copy? = added.filterMap Instruction.copy? := by
  have narrow (items : List Instruction) : items.filterMap Instruction.copy?
      = (items.filter (·.priority == Kind.copy.priority)).filterMap Instruction.copy? := by
    rw [List.filterMap_filter]
    refine List.filterMap_congr fun i _ => ?_
    cases copied : i.copy? with
    | none => simp
    | some pair => simp [priority_of_copy? copied]
  rw [narrow sorted, narrow added, h.ties]

theorem copies_ofList (instructions : List Instruction) :
    (ofList instructions).copies = instructions.filterMap Instruction.copy? :=
  filterMap_copy?_of_stableSort (stableSort_commands instructions)

/-- **A Dockerfile is the sorted history of its additions.** However the instructions came, the lines are
those that were added, sorted by priority and in the order of their addition among equals; so sorting by
merging gives the lines. Their number, whether there are any, the copies that stand among them — which are
in the order of their addition, all of one priority — and the text follow. -/
theorem History.sorts (history : History) :
    let sorted := history.added.mergeSort (fun a b => a.priority ≤ b.priority)
    StableSort Instruction.priority history.added history.dockerfile.commands
    ∧ history.dockerfile.commands = sorted
    ∧ history.dockerfile.length = history.added.length
    ∧ (history.dockerfile.isEmpty = true ↔ history.added = [])
    ∧ history.dockerfile.copies = sorted.filterMap Instruction.copy?
    ∧ history.dockerfile.copies = history.added.filterMap Instruction.copy?
    ∧ history.dockerfile.render = String.join (sorted.map (fun i => i.render ++ "\n")) := by
  intro sorted
  have stable : StableSort Instruction.priority history.added history.dockerfile.commands := by
    rw [history.dockerfile_eq_ofList]
    exact stableSort_commands history.added
  have lines : history.dockerfile.commands = sorted :=
    stable.unique (stableSort_mergeSort Instruction.priority history.added)
  have grouped : history.dockerfile.Grouped := by
    rw [history.dockerfile_eq_ofList]
    exact grouped_ofList history.added
  refine ⟨stable, lines, ?_, ?_, ?_, ?_, ?_⟩
  · rw [length_eq]
    exact stable.perm.length_eq
  · rw [isEmpty_iff grouped, ← List.length_eq_zero_iff, stable.perm.length_eq,
      List.length_eq_zero_iff]
  · rw [copies, lines]
  · exact filterMap_copy?_of_stableSort stable
  · rw [render, lines]

example :
    let history : History := ⟨some [.step (.text .shellRun "first"), .step (.pair .label "k" "v")],
      [.chain (.step (.pair .env "A" "1")) [.step (.pair .copy "app" "/app")],
        .call (.step (.named .baseImage "alpine" none)),
        .sequence [.step (.text .shellRun "second"), .step (.pair .env "B" "2")]]⟩
    history.dockerfile.render = "FROM alpine\nENV A=1\nENV B=2\nRUN first\n"
      ++ "COPY [\"app\", \"/app\"]\nRUN second\nLABEL \"k\"=\"v\"\n" := by
  decide +kernel

end Dockerfile

end ImageRecipe
