import ImageRecipe.Context.Trouble
import ImageRecipe.Proofs.Host.Created
import Mathlib.Logic.Function.Basic

/-!
# What is seen of a host

All that is seen of a host is what stands at each place. A file that comes, is written or goes changes that
at its own place, and a file that comes and goes leaves no trace at all.

* `Host.view` — what stands at a place, as a function of the place;
* `AlikeBut.view_eq_update` — a change that is seen nowhere else, as an update of that function.

Principal results:

* `Created.view`, `view_write`, `view_remove` — a new file, its content and its removal as updates;
* `remove_insert` — what is put at a free spot and taken away again leaves the host as it was;
* `Gives.unlink` — a path names the file at the spot it gives;
* `Created.unlink` — unlinking a new file by its path leaves the host as it was.
-/

set_option autoImplicit false

namespace ImageRecipe

namespace Host

/-- What is seen at a place. -/
def view (host : Host) (place : List Name) : Option Face := (host.tree.at? place).map Node.face

variable {host other made : Host} {spot : Spot} {path : Path} {place : List Name}

/-! ## Changes at one place -/

/-- **A change at a place with nothing below it is an update of the view**, before the change and after. -/
theorem AlikeBut.view_eq_update (halike : host.AlikeBut other place)
    (hbefore : ∀ node, host.tree.at? place = some node → node.isDirectory = false)
    (hafter : ∀ node, other.tree.at? place = some node → node.isDirectory = false) :
    other.view = Function.update host.view place (other.view place) := by
  have hnothing : ∀ {h : Host}, (∀ node, h.tree.at? place = some node → node.isDirectory = false) →
      ∀ {below : List Name}, place <+: below → below ≠ place → h.tree.at? below = none := by
    intro h hleaf below hprefix hne
    by_contra hsome
    obtain ⟨node, hnode⟩ := Option.ne_none_iff_exists'.1 hsome
    exact not_prefix_of_at? hleaf hnode hne.symm hprefix
  funext below
  by_cases hsame : below = place
  · rw [hsame, Function.update_self]
  rw [Function.update_of_ne hsame]
  by_cases hprefix : place <+: below
  · rw [view, view, hnothing hbefore hprefix hsame, hnothing hafter hprefix hsame]
  · exact (halike.tree below hprefix).symm

/-- **A new file is seen at its place.** -/
theorem Created.view {content : List UInt8} {mode : Nat}
    (h : host.Created path (.file content mode) made spot) :
    made.view = Function.update host.view spot.location (some (.file content mode)) := by
  have halike := alikeBut_insert host spot (.file content mode)
  rw [← h.made_eq] at halike
  rw [halike.view_eq_update]
  · rw [Host.view, h.at?]
    rfl
  · intro node hnode
    rw [h.free] at hnode
    cases hnode
  · intro node hnode
    rw [h.at?] at hnode
    cases hnode
    rfl

/-- **A file that is written is seen with its new content.** -/
theorem view_write {old : List UInt8} {mode : Nat}
    (h : host.tree.at? spot.location = some (.file old mode)) (content : List UInt8) :
    (host.write spot content).view =
      Function.update host.view spot.location (some (.file content mode)) := by
  have hwritten := at?_location_write h content
  rw [(alikeBut_write host spot content).view_eq_update]
  · rw [view, hwritten]
    rfl
  · intro node hnode
    rw [h] at hnode
    cases hnode
    rfl
  · intro node hnode
    rw [hwritten] at hnode
    cases hnode
    rfl

/-- What was removed is not there. -/
theorem at?_location_remove {node : Node} (h : host.tree.at? spot.location = some node) :
    (host.remove spot).tree.at? spot.location = none := by
  obtain ⟨entries, hat, -⟩ := directory_of_at?_location h
  rw [remove, Spot.location, Node.at?_concat (Node.at?_changeAt hat), List.lookup_eq_none_iff]
  intro entry hentry
  have hkept : entry.1 ≠ spot.name := of_decide_eq_true (List.mem_filter.1 hentry).2
  exact bne_iff_ne.2 hkept.symm

/-- **A file that is removed is seen no more.** -/
theorem view_remove {content : List UInt8} {mode : Nat}
    (h : host.tree.at? spot.location = some (.file content mode)) :
    (host.remove spot).view = Function.update host.view spot.location none := by
  have hremoved := at?_location_remove h
  rw [(alikeBut_remove host spot).view_eq_update]
  · rw [view, hremoved]
    rfl
  · intro node hnode
    rw [h] at hnode
    cases hnode
    rfl
  · intro node hnode
    rw [hremoved] at hnode
    cases hnode

/-! ## A file that comes and goes -/

theorem changeEntry_changeEntry (name : Name) (first second : Node → Node)
    (entries : List (Name × Node)) :
    Node.changeEntry name second (Node.changeEntry name first entries) =
      Node.changeEntry name (fun node => second (first node)) entries := by
  induction entries with
  | nil => rfl
  | cons entry rest ih =>
    obtain ⟨own, node⟩ := entry
    by_cases hsame : name = own
    · simp only [Node.changeEntry, if_pos hsame]
    · simp only [Node.changeEntry, if_neg hsame, ih]

theorem changeEntry_eq_self {name : Name} {change : Node → Node} {entries : List (Name × Node)}
    (h : ∀ node, entries.lookup name = some node → change node = node) :
    Node.changeEntry name change entries = entries := by
  induction entries with
  | nil => rfl
  | cons entry rest ih =>
    obtain ⟨own, node⟩ := entry
    rw [Node.changeEntry]
    split
    · rename_i hsame
      rw [h node (by simp [hsame])]
    · rename_i hdiffer
      have hne : (name == own) = false := by simpa using hdiffer
      rw [ih fun found hfound => h found (by rw [List.lookup_cons, hne, hfound])]

/-- Two changes of one directory are one change. -/
theorem changeAt_changeAt (first second : List (Name × Node) → List (Name × Node))
    (place : List Name) (tree : Node) :
    (tree.changeAt first place).changeAt second place =
      tree.changeAt (fun entries => second (first entries)) place := by
  induction place generalizing tree with
  | nil => cases tree <;> rfl
  | cons name rest ih =>
    cases tree with
    | directory entries =>
      simp only [Node.changeAt]
      rw [changeEntry_changeEntry]
      simp only [ih]
    | file _ _ | link _ | special => rfl

/-- A change that leaves the directory it is made in leaves the tree. -/
theorem changeAt_eq_self {change : List (Name × Node) → List (Name × Node)} {place : List Name}
    {tree : Node} {entries : List (Name × Node)} (hat : tree.at? place = some (.directory entries))
    (hchange : change entries = entries) : tree.changeAt change place = tree := by
  induction place generalizing tree with
  | nil =>
    rw [Node.at?_nil, Option.some.injEq] at hat
    rw [hat, Node.changeAt, hchange]
  | cons name rest ih =>
    cases tree with
    | directory held =>
      rw [Node.at?_directory_cons] at hat
      obtain ⟨child, hl, hbelow⟩ := Option.bind_eq_some_iff.1 hat
      rw [Node.changeAt, changeEntry_eq_self]
      intro node hnode
      rw [hl, Option.some.injEq] at hnode
      exact hnode ▸ ih hbelow
    | file _ _ | link _ | special => cases hat

/-- **What is put at a free spot and taken away again leaves the host as it was.** -/
theorem remove_insert {entries : List (Name × Node)}
    (hat : host.tree.at? spot.directory = some (.directory entries))
    (hfree : entries.lookup spot.name = none) (node : Node) :
    (host.insert spot node).remove spot = host := by
  have hothers : entries.filter (·.1 ≠ spot.name) = entries := by
    rw [List.filter_eq_self]
    intro entry hentry
    have hname : spot.name ≠ entry.1 := bne_iff_ne.1 (List.lookup_eq_none_iff.1 hfree entry hentry)
    exact decide_eq_true hname.symm
  have htree : (host.insert spot node).tree.changeAt (·.filter (·.1 ≠ spot.name)) spot.directory =
      host.tree := by
    rw [insert, changeAt_changeAt]
    refine changeAt_eq_self hat ?_
    rw [List.filter_append, hothers]
    simp
  rw [remove, htree]
  rfl

/-- **A path names the file at the spot it gives.** -/
theorem Gives.unlink (h : host.Gives path spot) {content : List UInt8} {mode : Nat}
    (hat : host.tree.at? spot.location = some (.file content mode)) :
    host.unlink path = host.remove spot := by
  obtain ⟨place, hwalk, hnames, hdir⟩ := h.outer
  have houter := outerPlace_eq_ok_iff.2 ⟨hwalk, hdir⟩
  obtain ⟨entries, hnode⟩ := isDirectory_iff.1 hdir
  have hplace := (hwalk.reached .root).at?_names
  rw [hnode, hnames] at hplace
  rw [Spot.location, Node.at?_concat hplace] at hat
  have hchild : place.node.child? spot.name = some (.file content mode) := by
    rw [Node.child?, hnode]
    exact hat
  rw [Host.unlink, h.accepted, h.last, houter]
  simp only [hchild, hnames]

/-- **Unlinking a new file by its path leaves the host as it was.** -/
theorem Created.unlink {content : List UInt8} {mode : Nat}
    (h : host.Created path (.file content mode) made spot) : made.unlink path = host := by
  obtain ⟨place, hwalk, hnames, hdir⟩ := h.gives.outer
  obtain ⟨entries, hnode⟩ := isDirectory_iff.1 hdir
  have hplace := (hwalk.reached .root).at?_names
  rw [hnode, hnames] at hplace
  have hfree := h.free
  rw [Spot.location, Node.at?_concat hplace] at hfree
  rw [h.gives_made.unlink h.at?, h.made_eq]
  exact remove_insert hplace hfree _

end Host

end ImageRecipe
