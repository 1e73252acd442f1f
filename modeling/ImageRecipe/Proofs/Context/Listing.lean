import ImageRecipe.Context.Import
import ImageRecipe.Proofs.Host.Tree
import Mathlib.Data.List.Sort

/-!
# Directories in byte order

Adding a directory sorts what its entries come to. Since no two entries share a name, the events are
those of the names in byte order, each name looked up in the directory.

* `inByteOrder` — the names of a directory, sorted;
* `metAt`, `belowAt` — the events of meeting the entry of a name, and of adding it if it is a directory.

Principal results: `addTree_directory` — the events of adding a directory, name by name;
`inByteOrder_sorted` — the names ascend strictly; `firstFailure?_eq_none_iff` — nothing fails exactly if
no event does.
-/

set_option autoImplicit false

namespace ImageRecipe

/-! ## Events that fail -/

theorem firstFailure?_eq_none_iff {events : List Event} :
    firstFailure? events = none ↔ ∀ event ∈ events, event.failure? = none := by
  rw [firstFailure?, List.findSome?_eq_none_iff]

theorem firstFailure?_append_eq_none {a b : List Event} :
    firstFailure? (a ++ b) = none ↔ firstFailure? a = none ∧ firstFailure? b = none := by
  simp only [firstFailure?_eq_none_iff, List.mem_append]
  exact ⟨fun h => ⟨fun e he => h e (.inl he), fun e he => h e (.inr he)⟩,
    fun h e he => he.elim (h.1 e) (h.2 e)⟩

theorem firstFailure?_flatMap_eq_none {α : Type} {items : List α} {f : α → List Event} :
    firstFailure? (items.flatMap f) = none ↔ ∀ item ∈ items, firstFailure? (f item) = none := by
  simp only [firstFailure?_eq_none_iff, List.mem_flatMap]
  exact ⟨fun h item hitem e he => h e ⟨item, hitem, he⟩,
    fun h e ⟨item, hitem, he⟩ => h item hitem e he⟩

/-! ## Sorting -/

/-- The names of a directory in byte order. -/
def inByteOrder (entries : List (Name × Node)) : List Name :=
  (entries.map Prod.fst).insertionSort (· ≤ ·)

theorem mem_inByteOrder {entries : List (Name × Node)} {name : Name} :
    name ∈ inByteOrder entries ↔ name ∈ entries.map Prod.fst :=
  List.mem_insertionSort _

instance : IsTrans Name (· ≤ ·) := ⟨fun _ _ _ => List.le_trans⟩

instance : Std.Total (α := Name) (· ≤ ·) := ⟨List.le_total⟩

instance : Std.Irrefl (α := Name) (· < ·) := ⟨List.lt_irrefl⟩

instance : Std.Antisymm (α := Name) (· < ·) := ⟨fun _ _ h hback => absurd hback (List.lt_asymm h)⟩

/-- **The names ascend strictly.** -/
theorem inByteOrder_sorted {entries : List (Name × Node)} (h : (entries.map Prod.fst).Nodup) :
    (inByteOrder entries).Pairwise (· < ·) := by
  have hle := List.pairwise_insertionSort (· ≤ · : Name → Name → Prop) (entries.map Prod.fst)
  have hnd : (inByteOrder entries).Nodup := (List.perm_insertionSort _ _).nodup_iff.2 h
  refine hle.imp₂ (fun a b hab hne => ?_) hnd
  rcases Classical.em (a < b) with hlt | hlt
  · exact hlt
  · exact absurd (List.le_antisymm hab (List.not_lt.1 hlt)) hne

theorem inNameOrder_eq_insertionSort (branches : List Branch) :
    inNameOrder branches = branches.insertionSort (fun a b => a.name ≤ b.name) := by
  have hinsert : ∀ (b : Branch) (sorted : List Branch),
      b.insert sorted = sorted.orderedInsert (fun a b => a.name ≤ b.name) b := by
    intro b sorted
    induction sorted with
    | nil => rfl
    | cons first rest ih => rw [Branch.insert, List.orderedInsert_cons, ih]
  induction branches with
  | nil => rfl
  | cons b rest ih =>
    rw [List.insertionSort_cons, ← ih, ← hinsert]
    rfl

/-! ## Adding a directory name by name -/

/-- The path of an entry of a directory. -/
def entryPath (path : Path) (entry : Name) : Path := path.join ⟨entry⟩

/-- What an entry of a directory is called in the archive. -/
def entryName (name : String) (entry : Name) : String := name ++ "/" ++ Utf8.lossy entry

/-- The events of meeting the entry of a name. -/
def metAt (host : Host) (path : Path) (name : String) (entries : List (Name × Node))
    (entry : Name) : List Event :=
  match entries.lookup entry with
  | some node => meet host (entryPath path entry) (entryName name entry) node
  | none => []

/-- The events of adding the directory that the entry of a name is. -/
def belowAt (host : Host) (path : Path) (name : String) (entries : List (Name × Node))
    (entry : Name) : List Event :=
  match entries.lookup entry with
  | some node => addTree host (entryPath path entry) (entryName name entry) node
  | none => []

/-- What the entry of a name comes to. -/
def branchAt (host : Host) (path : Path) (name : String) (entries : List (Name × Node))
    (entry : Name) : Branch :=
  ⟨entry, metAt host path name entries entry, belowAt host path name entries entry⟩

theorem addEntries_eq_map (host : Host) (path : Path) (name : String)
    {entries some : List (Name × Node)} (hnd : (entries.map Prod.fst).Nodup) (h : some ⊆ entries) :
    addEntries host path name some = (some.map Prod.fst).map (branchAt host path name entries) := by
  induction some with
  | nil => rfl
  | cons first rest ih =>
    obtain ⟨entry, node⟩ := first
    have hl := Node.lookup_of_mem hnd (h List.mem_cons_self)
    rw [addEntries, ih (fun e he => h (List.mem_cons_of_mem _ he)), List.map_cons, List.map_cons]
    simp only [branchAt, metAt, belowAt, hl, entryPath, entryName]

/-- **The events of adding a directory, name by name.** -/
theorem addTree_directory (host : Host) (path : Path) (name : String)
    {entries : List (Name × Node)} (hnd : (entries.map Prod.fst).Nodup) :
    addTree host path name (.directory entries) =
      addDirectory host path name ::
        ((inByteOrder entries).flatMap (metAt host path name entries) ++
          (inByteOrder entries).flatMap (belowAt host path name entries)) := by
  have hsorted : inNameOrder (addEntries host path name entries) =
      (inByteOrder entries).map (branchAt host path name entries) := by
    rw [addEntries_eq_map host path name hnd (List.Subset.refl _), inNameOrder_eq_insertionSort,
      inByteOrder]
    refine (List.map_insertionSort (· ≤ · : Name → Name → Prop)
      (fun a b : Branch => a.name ≤ b.name) _ _ ?_).symm
    exact fun _ _ _ _ => Iff.rfl
  rw [addTree]
  simp only [hsorted, List.flatMap_map]
  rfl

theorem addTree_of_not_directory (host : Host) (path : Path) (name : String) {node : Node}
    (h : node.isDirectory = false) : addTree host path name node = [] := by
  cases node with
  | directory _ => cases h
  | file _ _ => rw [addTree]; simp
  | link _ => rw [addTree]; simp
  | special => rw [addTree]; simp

end ImageRecipe
