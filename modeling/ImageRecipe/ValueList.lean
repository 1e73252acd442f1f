/-!
# Editable lists of words

A list keeps the words it is made with, repeats included. Adding a word that is there already changes
nothing, and removing a word removes every occurrence.

* `ValueList.add` (`add_value`), `ValueList.remove` (`remove_value`) — the edits of one word;
* `ValueList.Edit` — a change as data, `ValueList.edit` — its effect;
* `ValueList.indexOf?` (`index_of`) — the first place of a word.

Principal facts: `mem_add`, `mem_remove`, `mem_addAll` say which words an edit leaves;
`indexOf?_isSome_iff` — a word has a place exactly if it occurs.
-/

set_option autoImplicit false

namespace ImageRecipe

/-- A list of words that is edited by value. -/
structure ValueList where
  values : List String
  deriving DecidableEq, Repr

namespace ValueList

/-- The list without words. -/
def empty : ValueList := ⟨[]⟩

/-- The list of the given words, repeats included. -/
def ofList (values : List String) : ValueList := ⟨values⟩

instance : Membership String ValueList := ⟨fun list value => value ∈ list.values⟩

instance (value : String) (list : ValueList) : Decidable (value ∈ list) :=
  inferInstanceAs (Decidable (value ∈ list.values))

/-- The list with `value` at its end, unless it occurs already. -/
def add (list : ValueList) (value : String) : ValueList :=
  if value ∈ list then list else ⟨list.values ++ [value]⟩

/-- The list after adding each word in turn. -/
def addAll (list : ValueList) (values : List String) : ValueList :=
  values.foldl add list

/-- The list without any occurrence of `value`. -/
def remove (list : ValueList) (value : String) : ValueList :=
  ⟨list.values.filter (· ≠ value)⟩

/-- The first place at which `value` stands. -/
def indexOf? (list : ValueList) (value : String) : Option Nat :=
  list.values.idxOf? value

/-- The number of words, repeats counted. -/
def length (list : ValueList) : Nat := list.values.length

/-- Whether there is no word. -/
def isEmpty (list : ValueList) : Bool := list.values.isEmpty

/-- A change to a list. -/
inductive Edit where
  | add (value : String)
  | addAll (values : List String)
  | remove (value : String)
  | replace (values : List String)
  deriving DecidableEq, Repr

/-- The list after a change. -/
def edit (list : ValueList) : Edit → ValueList
  | .add value => list.add value
  | .addAll values => list.addAll values
  | .remove value => list.remove value
  | .replace values => ofList values

theorem mem_def {value : String} {list : ValueList} : value ∈ list ↔ value ∈ list.values := Iff.rfl

theorem values_add (list : ValueList) (value : String) :
    (list.add value).values = if value ∈ list then list.values else list.values ++ [value] := by
  unfold add
  split <;> rfl

theorem mem_add {list : ValueList} {value other : String} :
    other ∈ list.add value ↔ other ∈ list ∨ other = value := by
  rw [mem_def, values_add]
  split
  · next present => exact ⟨.inl, fun h => h.elim id (· ▸ present)⟩
  · simp [mem_def]

theorem mem_addAll {list : ValueList} {values : List String} {other : String} :
    other ∈ list.addAll values ↔ other ∈ list ∨ other ∈ values := by
  induction values generalizing list with
  | nil => simp [addAll]
  | cons value rest ih =>
    rw [show list.addAll (value :: rest) = (list.add value).addAll rest from rfl, ih, mem_add,
      List.mem_cons, or_assoc]

theorem mem_remove {list : ValueList} {value other : String} :
    other ∈ list.remove value ↔ other ∈ list ∧ other ≠ value := by
  simp [mem_def, remove]

theorem indexOf?_isSome_iff {list : ValueList} {value : String} :
    (list.indexOf? value).isSome ↔ value ∈ list := by
  simp [indexOf?, mem_def]

end ValueList

end ImageRecipe
