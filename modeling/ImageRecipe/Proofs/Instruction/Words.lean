import Mathlib.Data.List.DropRight
import ImageRecipe.Instruction.Edit
import ImageRecipe.Proofs.LastWrite
import ImageRecipe.Proofs.Instruction.Quoting

/-!
# Words after any edits

The arguments of a command, the paths of volumes and the ports of a container are lists of words that are edited
one after the other, for as long as the instruction lasts. A word that is taken out and added again moves to the
end, and a word that is there is not added again; so what a list holds depends on all that was done to it since it
was made.

* `Edit.verdict?` — what an edit says about a word: it is there now, it is not, or nothing;
* `base`, `since` — the words a list had when it was last made anew, and the edits since, one word at a time;
* `brought` — the words that adds have brought in for good, in the order of these adds;
* `Settled` — what a list is after any edits.

Principal results:

* `mem_editAll_iff` — the last edit that says anything about a word counts;
* `values_editAll_of_single` — by induction on the edits, what is left of the words and what was brought in;
* `settled_editAll` — all of it, for any list and any edits;
* `words_settled` — the same for the words of an instruction.
-/

set_option autoImplicit false

namespace ImageRecipe

namespace ValueList

/-- The list after all edits, in order. -/
def editAll (list : ValueList) (changes : List Edit) : ValueList := changes.foldl edit list

/-! ## What an edit says about a word -/

/-- What an edit says about a word: that it is there now, that it is not, or nothing. -/
def Edit.verdict? (value : String) : Edit → Option Bool
  | add other => if other = value then some true else none
  | addAll values => if value ∈ values then some true else none
  | remove other => if other = value then some false else none
  | replace values => some (decide (value ∈ values))

theorem mem_edit (list : ValueList) (change : Edit) (value : String) :
    decide (value ∈ list.edit change) = (change.verdict? value).getD (decide (value ∈ list)) := by
  cases change with
  | add other =>
    by_cases same : other = value
    · simp [edit, Edit.verdict?, mem_add, same]
    · simp [edit, Edit.verdict?, mem_add, same, Ne.symm same]
  | addAll values => by_cases named : value ∈ values <;> simp [edit, Edit.verdict?, mem_addAll, named]
  | remove other =>
    by_cases same : other = value
    · simp [edit, Edit.verdict?, mem_remove, same]
    · simp [edit, Edit.verdict?, mem_remove, same, Ne.symm same]
  | replace values => rfl

/-- **The last edit that says anything about a word counts.** -/
theorem mem_editAll_iff {list : ValueList} {changes : List Edit} {value : String} :
    value ∈ list.editAll changes ↔ lastGiven (Edit.verdict? value) changes = some true
      ∨ (lastGiven (Edit.verdict? value) changes = none ∧ value ∈ list) := by
  have last := getD_foldl (fun list : ValueList => decide (value ∈ list)) (Edit.verdict? value)
    (fun list change => mem_edit list change value) list changes
  refine decide_eq_true_iff.symm.trans ?_
  rw [editAll, last]
  cases lastGiven (Edit.verdict? value) changes <;> simp

/-! ## Since the list was made -/

/-- The words that replace all others, if that is what the edit does. -/
def Edit.replacement? : Edit → Option (List String)
  | replace values => some values
  | _ => none

/-- The edit, one word at a time: several words are added one by one. -/
def Edit.single : Edit → List Edit
  | addAll values => values.map add
  | change => [change]

/-- The words that the list had when it was last made anew. -/
def base (list : ValueList) (changes : List Edit) : List String :=
  (lastGiven Edit.replacement? changes).getD list.values

/-- The edits since the list was last made anew, one word at a time. -/
def since (changes : List Edit) : List Edit :=
  (changes.rtakeWhile (·.replacement? = none)).flatMap Edit.single

theorem editAll_single (list : ValueList) (change : Edit) :
    list.editAll change.single = list.edit change := by
  cases change with
  | addAll values => exact List.foldl_map
  | add _ | remove _ | replace _ => rfl

theorem editAll_flatMap_single (list : ValueList) (changes : List Edit) :
    list.editAll (changes.flatMap Edit.single) = list.editAll changes := by
  induction changes generalizing list with
  | nil => rfl
  | cons change rest ih =>
    rw [List.flatMap_cons, editAll, List.foldl_append]
    change editAll (list.editAll change.single) _ = _
    rw [ih, editAll_single]
    rfl

/-- Of all edits only those since the list was last made anew count. -/
theorem editAll_eq_since (list : ValueList) (changes : List Edit) :
    list.editAll changes = (ofList (list.base changes)).editAll (since changes) := by
  rw [since, editAll_flatMap_single, base]
  cases h : lastGiven Edit.replacement? changes with
  | none =>
    have kept : changes.rtakeWhile (·.replacement? = none) = changes :=
      List.rtakeWhile_eq_self_iff.2 fun change hchange =>
        decide_eq_true (lastGiven_eq_none_iff.1 h change hchange)
    rw [kept]
    rfl
  | some values =>
    obtain ⟨before, change, after, rfl, hchange, hafter⟩ := lastGiven_eq_some_iff.1 h
    have dropped : (before ++ change :: after).rtakeWhile (·.replacement? = none) = after := by
      rw [List.rtakeWhile, List.reverse_append, List.reverse_cons, List.append_assoc,
        List.takeWhile_append_of_pos fun later hlater =>
          decide_eq_true (hafter later (List.mem_reverse.1 hlater)),
        List.singleton_append, List.takeWhile_cons_of_neg (by simp [hchange]), List.append_nil,
        List.reverse_reverse]
    cases change with
    | add _ | addAll _ | remove _ => cases hchange
    | replace _ =>
      cases hchange
      rw [dropped, editAll, List.foldl_append]
      rfl

/-- Neither replaces the list nor adds several words. -/
def Edit.isSingle : Edit → Prop
  | add _ | remove _ => True
  | addAll _ | replace _ => False

theorem isSingle_of_mem_since {changes : List Edit} {change : Edit} (h : change ∈ since changes) :
    change.isSingle := by
  obtain ⟨whole, hwhole, hchange⟩ := List.mem_flatMap.1 h
  have kept : whole.replacement? = none := by simpa using List.mem_rtakeWhile_imp hwhole
  cases whole with
  | addAll values =>
    obtain ⟨value, -, rfl⟩ := List.mem_map.1 hchange
    trivial
  | add _ | remove _ =>
    rw [List.mem_singleton.1 hchange]
    trivial
  | replace _ => cases kept

/-! ## The order of the words -/

/-- The word that the edit at a place brings in for good: it is an add, the word is not there yet, and no later
edit takes it out. -/
def broughtAt? (list : ValueList) (changes : List Edit) (place : Nat) : Option String :=
  match changes[place]? with
  | some (.add value) =>
    if value ∉ list.editAll (changes.take place) ∧ .remove value ∉ changes.drop (place + 1) then
      some value
    else none
  | _ => none

/-- The words that adds have brought in for good, in the order of these adds. -/
def brought (list : ValueList) (changes : List Edit) : List String :=
  (List.range changes.length).filterMap (list.broughtAt? changes)

theorem brought_cons (list : ValueList) (change : Edit) (rest : List Edit) :
    list.brought (change :: rest)
      = (list.broughtAt? (change :: rest) 0).toList ++ (list.edit change).brought rest := by
  have later (place : Nat) :
      list.broughtAt? (change :: rest) (place + 1) = (list.edit change).broughtAt? rest place := rfl
  rw [brought, List.length_cons, List.range_succ_eq_map, brought]
  cases h : list.broughtAt? (change :: rest) 0 with
  | none =>
    rw [List.filterMap_cons_none h, List.filterMap_map]
    rfl
  | some value =>
    rw [List.filterMap_cons_some h, List.filterMap_map]
    rfl

/-- **What is left of the words, and then what was brought in.** -/
theorem values_editAll_of_single {list : ValueList} {changes : List Edit}
    (h : ∀ change ∈ changes, change.isSingle) :
    (list.editAll changes).values
      = list.values.filter (.remove · ∉ changes) ++ list.brought changes := by
  induction changes generalizing list with
  | nil => simp [editAll, brought]
  | cons change rest ih =>
    change ((list.edit change).editAll rest).values = _
    rw [ih fun later hlater => h later (List.mem_cons_of_mem _ hlater), brought_cons, ← List.append_assoc]
    congr 1
    cases change with
    | add value =>
      have same : list.values.filter (Edit.remove · ∉ Edit.add value :: rest)
          = list.values.filter (Edit.remove · ∉ rest) := by simp
      rw [same, edit, values_add]
      by_cases present : value ∈ list
      · -- The word is there, and nothing happens.
        simp [present, broughtAt?, editAll]
      · by_cases undone : Edit.remove value ∈ rest <;> simp [present, broughtAt?, editAll, undone]
    | remove value =>
      simp [edit, remove, broughtAt?, List.filter_filter, Bool.and_comm]
    | addAll _ | replace _ => exact absurd (h _ List.mem_cons_self) id

/-! ## How often a word occurs -/

/-- Adding a word leaves the number of occurrences of every word that is there. -/
theorem count_add_of_mem {list : ValueList} {value other : String} (h : other ∈ list) :
    (list.add value).values.count other = list.values.count other := by
  rw [values_add]
  split
  · rfl
  · next absent =>
    have apart : value ≠ other := fun same => absent (same ▸ h)
    rw [List.count_append, List.count_singleton, if_neg (by simpa using apart), Nat.add_zero]

theorem nodup_edit_of_isSingle {list : ValueList} (h : list.values.Nodup) {change : Edit}
    (hchange : change.isSingle) : (list.edit change).values.Nodup := by
  cases change with
  | add value =>
    rw [edit, values_add]
    split
    · exact h
    · next absent =>
      exact List.nodup_append.2 ⟨h, by simp, fun a ha b hb same =>
        absent (List.mem_singleton.1 hb ▸ same ▸ ha)⟩
  | remove value => exact h.filter _
  | addAll _ | replace _ => exact hchange.elim

theorem nodup_editAll_of_single {list : ValueList} (h : list.values.Nodup) {changes : List Edit}
    (hchanges : ∀ change ∈ changes, change.isSingle) : (list.editAll changes).values.Nodup := by
  induction changes generalizing list with
  | nil => exact h
  | cons change rest ih =>
    exact ih (nodup_edit_of_isSingle h (hchanges change List.mem_cons_self))
      fun later hlater => hchanges later (List.mem_cons_of_mem _ hlater)

/-- A word stands first where it stands and does not stand before. -/
theorem indexOf?_eq_some_iff {list : ValueList} {value : String} {place : Nat} :
    list.indexOf? value = some place
      ↔ list.values[place]? = some value ∧ ∀ earlier < place, list.values[earlier]? ≠ some value := by
  rw [indexOf?, List.idxOf?_eq_some_iff]
  constructor
  · rintro ⟨hplace, here, before⟩
    refine ⟨List.getElem?_eq_some_iff.2 ⟨hplace, here⟩, fun earlier hearlier found => ?_⟩
    exact before earlier hearlier (List.getElem?_eq_some_iff.1 found).2
  · rintro ⟨here, before⟩
    obtain ⟨hplace, here⟩ := List.getElem?_eq_some_iff.1 here
    refine ⟨hplace, here, fun earlier hearlier found => ?_⟩
    exact before earlier hearlier (List.getElem?_eq_some_iff.2 ⟨hearlier.trans hplace, found⟩)

/-! ## After any edits -/

/-- What a list is after edits. -/
structure Settled (list : ValueList) (changes : List Edit) (final : ValueList) : Prop where
  /-- A word is there if the last edit that says anything about it says so, or none does and it was there. -/
  membership : ∀ value, value ∈ final ↔ lastGiven (Edit.verdict? value) changes = some true
    ∨ (lastGiven (Edit.verdict? value) changes = none ∧ value ∈ list)
  /-- The words of the list as it was last made stand in their order, but for those taken out since; then come
  the words brought in since, in the order of the adds. -/
  order : final.values = (list.base changes).filter (.remove · ∉ since changes)
    ++ (ofList (list.base changes)).brought (since changes)
  /-- One more add does not make a word that is there more frequent. -/
  frequency : ∀ value other, other ∈ final →
    (final.add value).values.count other = final.values.count other
  /-- Without repeats when it was last made, the list is without repeats. -/
  nodup : (list.base changes).Nodup → final.values.Nodup
  /-- Taking a word out takes out every occurrence. -/
  absence : ∀ value, (final.remove value).values.count value = 0
  /-- Exactly the words that are there have a place. -/
  placed : ∀ value, (final.indexOf? value).isSome = true ↔ value ∈ final
  /-- The place of a word is the first one at which it stands. -/
  first : ∀ value place, final.indexOf? value = some place
    ↔ final.values[place]? = some value ∧ ∀ earlier < place, final.values[earlier]? ≠ some value

/-- **A list after any edits.** -/
theorem settled_editAll (list : ValueList) (changes : List Edit) :
    Settled list changes (list.editAll changes) where
  membership _ := mem_editAll_iff
  order := by
    rw [editAll_eq_since, values_editAll_of_single fun _ => isSingle_of_mem_since]
    rfl
  frequency _ _ := count_add_of_mem
  nodup h := by
    rw [editAll_eq_since]
    exact nodup_editAll_of_single h fun _ => isSingle_of_mem_since
  absence value := List.count_eq_zero.2 fun h => (mem_remove.1 h).2 rfl
  placed _ := indexOf?_isSome_iff
  first _ _ := indexOf?_eq_some_iff

end ValueList

/-! ## The words of an instruction -/

/-- The change to a list of words, if that is what the edit is. -/
def Edit.wordChange? : Edit → Option ValueList.Edit
  | words change => some change
  | _ => none

namespace Instruction

/-- The kinds that have a list of words: volumes, ports, and commands with arguments. -/
def worded : List Kind := [.volume, .expose, .shell, .execRun, .execCmd, .execEntrypoint]

theorem isSome_words?_iff (i : Instruction) : i.words?.isSome = true ↔ i.kind ∈ worded := by
  cases i with
  | step s =>
    cases s with
    | text role _ | exec role _ | pair role _ _ | named role _ _ | list role _ =>
      cases role <;> simp [words?, kind, Step.kind, worded, TextKind.kind, ExecKind.kind, PairKind.kind,
        NamedKind.kind, ListKind.kind]
  | healthcheck _ | onbuild _ => simp [words?, kind, worded]

/-- One edit changes the words as it says, or leaves them. -/
theorem words?_edit? {i j : Instruction} {list : ValueList} {change : Edit} (hwords : i.words? = some list)
    (h : i.edit? change = some j) :
    j.words? = some (list.editAll change.wordChange?.toList) := by
  cases i with
  | healthcheck _ | onbuild _ => cases hwords
  | step s =>
    cases s with
    | text _ _ | pair _ _ _ | named _ _ _ => cases hwords
    | exec role form =>
      cases hwords
      cases change <;> cases h <;> rfl
    | list role values =>
      cases hwords
      cases change <;> cases h
      rfl

/-- Any change to its words can be made to an instruction that has words. -/
theorem exists_edit?_words {i : Instruction} {list : ValueList} (h : i.words? = some list)
    (change : ValueList.Edit) :
    ∃ j, i.edit? (.words change) = some j ∧ j.words? = some (list.edit change) := by
  cases i with
  | healthcheck _ | onbuild _ => cases h
  | step s =>
    cases s with
    | text _ _ | pair _ _ _ | named _ _ _ => cases h
    | exec _ _ | list _ _ =>
      cases h
      exact ⟨_, rfl, rfl⟩

theorem words?_edits {i j : Instruction} {list : ValueList} {edits : List Edit}
    (hwords : i.words? = some list) (h : edits.foldlM edit? i = some j) :
    j.words? = some (list.editAll (edits.filterMap Edit.wordChange?)) := by
  induction edits generalizing i list with
  | nil =>
    cases h
    exact hwords
  | cons change rest ih =>
    rw [List.foldlM_cons] at h
    obtain ⟨next, changed, later⟩ := Option.bind_eq_some_iff.1 h
    rw [ih (words?_edit? hwords changed) later]
    cases hchange : change.wordChange? with
    | none => rw [List.filterMap_cons_none hchange]; rfl
    | some word => rw [List.filterMap_cons_some hchange]; rfl

theorem exists_edits_words {i : Instruction} {list : ValueList} (h : i.words? = some list)
    (changes : List ValueList.Edit) : ∃ j, (changes.map Edit.words).foldlM edit? i = some j := by
  induction changes generalizing i list with
  | nil => exact ⟨i, rfl⟩
  | cons change rest ih =>
    obtain ⟨next, changed, words⟩ := exists_edit?_words h change
    obtain ⟨j, hj⟩ := ih words
    refine ⟨j, ?_⟩
    rw [List.map_cons, List.foldlM_cons, changed]
    exact hj

/-- **Words after any edits.** The words of volumes, of ports and of the arguments of commands can be edited in
any way. After any edits of a list, and after any edits of an instruction that has one, its command included, a
word is there as the last edit about it left it; what is left of the list as it was last made stands in its order,
and what was added since stands behind it in the order of the adds that brought something in; no add makes a word
that is there more frequent, and a list that was made without repeats has none; taking a word out takes out every
occurrence; and the place of a word is the first at which it stands. -/
theorem words_settled :
    (∀ (list : ValueList) (changes : List ValueList.Edit), list.Settled changes (list.editAll changes)) ∧
    ∀ i : Instruction, (i.words?.isSome = true ↔ i.kind ∈ worded) ∧ ∀ list, i.words? = some list →
      (∀ changes : List ValueList.Edit, ∃ j, (changes.map Edit.words).foldlM edit? i = some j) ∧
      ∀ (edits : List Edit) (j : Instruction), edits.foldlM edit? i = some j → j.kind = i.kind ∧
        ∃ final, j.words? = some final ∧ list.Settled (edits.filterMap Edit.wordChange?) final := by
  refine ⟨ValueList.settled_editAll, fun i => ⟨i.isSome_words?_iff, fun list hwords => ?_⟩⟩
  exact ⟨exists_edits_words hwords, fun edits j hedits =>
    ⟨kind_edits hedits, _, words?_edits hwords hedits, ValueList.settled_editAll list _⟩⟩

/-- Arguments with a repeat that is taken out and added again, between edits of the command. -/
theorem words_settled_readded :
    let i := step (.exec .run ⟨"tool", .ofList ["-v", "a", "-v", "b"]⟩)
    let edits := [Edit.words (.remove "-v"), .command "other", .words (.addAll ["-v", "a", "c"]),
      .words (.remove "c"), .words (.add "d")]
    ∃ j final, edits.foldlM edit? i = some j ∧ j.words? = some final ∧
      final.values = ["a", "b", "-v", "d"] ∧ "a" ∈ final ∧ "c" ∉ final ∧
      final.indexOf? "-v" = some 2 := by
  intro i edits
  obtain ⟨-, rules⟩ := (words_settled.2 i).2 (.ofList ["-v", "a", "-v", "b"]) rfl
  obtain ⟨-, final, words, settled⟩ := rules edits
    (step (.exec .run ⟨"other", .ofList ["a", "b", "-v", "d"]⟩)) (by decide)
  have values : final.values = ["a", "b", "-v", "d"] := settled.order.trans (by decide)
  refine ⟨_, final, by decide, words, values, (settled.membership "a").2 (by decide), ?_, ?_⟩
  · rw [settled.membership]
    decide
  · rw [settled.first, values]
    decide

end Instruction

end ImageRecipe
