import ImageRecipe.Proofs.Context.Mirror

/-!
# The tour of a directory

Adding a directory goes to every place below it once, in an order that a key of the place settles: first the
directory itself, then what it holds beside directories, and then each of its directories with what that
holds, both in byte order of their names. What happens at a place depends on what stands there and on the
path and the name under which it is reached.

* `Stop` — a place of a tour: the names that lead to it, and what stands there;
* `Stop.key` — its place in the order;
* `visit` — what happens at a place;
* `Tours` — the stops of a node, all of them, each once and in order.

Principal results: `exists_tour` — adding a directory visits the stops of its tour, whatever host, path and
name it is added with; `Tours.first_iff` — what a tour meets first is what stands at the least of the keys.
-/

set_option autoImplicit false

namespace ImageRecipe

/-- A place of a tour: the names that lead to it over directories, and what stands there. -/
structure Stop where
  names : List Name
  node : Node

/-- What happens at a place that is reached by a path, under a name. -/
def visit (host : Host) (path : Path) (name : String) : Node → List Event
  | .directory _ => [addDirectory host path name]
  | node => meet host path name node

namespace Stop

/-- The place of a stop in the order of its tour. -/
def key (stop : Stop) : List Name :=
  Item.marked (if stop.node.isDirectory then 1 else 0) stop.names

/-- The path of a stop of a tour that starts at one. -/
def path (start : Path) (stop : Stop) : Path := stop.names.foldl entryPath start

/-- What happens at a stop of a tour that starts at a path, under a name. -/
def events (host : Host) (start : Path) (name : String) (stop : Stop) : List Event :=
  visit host (stop.path start) (stop.names.foldl entryName name) stop.node

/-- The stop seen from the directory above, which holds the start of the tour as `name`. -/
def under (name : Name) (stop : Stop) : Stop := ⟨name :: stop.names, stop.node⟩

/-- A stop without names is a directory. -/
def Rooted (stop : Stop) : Prop := stop.names = [] → stop.node.isDirectory = true

theorem key_under (name : Name) {stop : Stop} (h : stop.Rooted) :
    (stop.under name).key = (1 :: name) :: stop.key :=
  Item.marked_cons (fun hnames => if_pos (h hnames)) name

theorem key_of_not_directory {name : Name} {node : Node} (h : node.isDirectory = false) :
    key ⟨[name], node⟩ = [0 :: name] := by
  simp [key, h, Item.marked]

end Stop

/-- The stops of a node, all of them, each once and in order. -/
structure Tours (node : Node) (stops : List Stop) : Prop where
  all : ∀ stop, stop ∈ stops ↔ node.at? stop.names = some stop.node
  ordered : stops.Pairwise (·.key < ·.key)

/-- **What a tour meets first is what stands at the least of the keys.** -/
theorem Tours.first_iff {node : Node} {stops : List Stop} (h : Tours node stops) {α : Type}
    {meets : Stop → Option α} {met : α} :
    stops.findSome? meets = some met ↔
      ∃ stop : Stop, node.at? stop.names = some stop.node ∧ meets stop = some met ∧
        ∀ earlier : Stop, node.at? earlier.names = some earlier.node → earlier.key < stop.key →
          meets earlier = none := by
  rw [List.findSome?_eq_some_iff]
  constructor
  · rintro ⟨before, stop, after, rfl, hmeets, hbefore⟩
    refine ⟨stop, (h.all stop).1 (by simp), hmeets, fun earlier hat hlt => ?_⟩
    have hordered := h.ordered
    rw [List.pairwise_append, List.pairwise_cons] at hordered
    have hmem := (h.all earlier).2 hat
    rcases List.mem_append.1 hmem with hmem | hmem
    · exact hbefore earlier hmem
    · rcases List.mem_cons.1 hmem with rfl | hmem
      · exact absurd hlt (List.lt_irrefl _)
      · exact absurd hlt (List.lt_asymm (hordered.2.1.1 earlier hmem))
  · rintro ⟨stop, hat, hmeets, hearlier⟩
    obtain ⟨before, after, rfl⟩ := List.append_of_mem ((h.all stop).2 hat)
    refine ⟨before, stop, after, rfl, hmeets, fun earlier hmem => ?_⟩
    have hordered := h.ordered
    rw [List.pairwise_append] at hordered
    exact hearlier earlier ((h.all earlier).1 (List.mem_append_left _ hmem))
      (hordered.2.2 earlier hmem stop List.mem_cons_self)

/-! ## The tour of a directory -/

/-- The stop under one name of a directory, unless it is a directory itself. -/
def stopAt (entries : List (Name × Node)) (entry : Name) : List Stop :=
  match entries.lookup entry with
  | none | some (.directory _) => []
  | some node => [⟨[entry], node⟩]

theorem mem_stopAt {entries : List (Name × Node)} {entry : Name} {stop : Stop} :
    stop ∈ stopAt entries entry ↔ stop.names = [entry] ∧ stop.node.isDirectory = false ∧
      entries.lookup entry = some stop.node := by
  obtain ⟨names, node⟩ := stop
  unfold stopAt
  cases hl : entries.lookup entry with
  | none => simp
  | some child =>
    cases child with
    | directory held =>
      simp only [List.not_mem_nil, Option.some.injEq, false_iff, not_and]
      rintro - hnot rfl
      cases hnot
    | file _ _ | link _ | special =>
      simp only [List.mem_singleton, Stop.mk.injEq, Option.some.injEq]
      constructor
      · rintro ⟨rfl, rfl⟩
        exact ⟨rfl, rfl, rfl⟩
      · rintro ⟨rfl, -, rfl⟩
        exact ⟨rfl, rfl⟩

/-- Meeting an entry visits it, unless it is a directory. -/
theorem metAt_eq (host : Host) (path : Path) (name : String) (entries : List (Name × Node))
    (entry : Name) : metAt host path name entries entry =
      (stopAt entries entry).flatMap (Stop.events host path name) := by
  unfold metAt stopAt
  cases entries.lookup entry with
  | none => rfl
  | some child =>
    cases child with
    | directory held => simp [meet]
    | file _ _ | link _ | special => simp [Stop.events, Stop.path, visit]

/-- The stops below a directory that stands under a name. -/
def StopsBelow (entries : List (Name × Node)) (entry : Name) (stops : List Stop) : Prop :=
  (∀ stop, stop ∈ stops ↔ ∃ inner : Stop, stop = inner.under entry ∧ ∃ held,
    entries.lookup entry = some (.directory held) ∧
      (Node.directory held).at? inner.names = some inner.node) ∧
    stops.Pairwise (·.key < ·.key) ∧
    ∀ host path name, belowAt host path name entries entry =
      stops.flatMap (Stop.events host path name)

/-- What stands at the start of a tour is a directory. -/
theorem rooted_of_at? {held : List (Name × Node)} {stop : Stop}
    (h : (Node.directory held).at? stop.names = some stop.node) : stop.Rooted := by
  intro hnames
  rw [hnames, Node.at?_nil, Option.some.injEq] at h
  rw [← h]
  rfl

theorem exists_stopsBelow {entries : List (Name × Node)} {entry : Name} {child : Node}
    (hl : entries.lookup entry = some child)
    (h : child.isDirectory = true → ∃ stops, Tours child stops ∧ ∀ host path name,
      addTree host path name child = stops.flatMap (Stop.events host path name)) :
    ∃ stops, StopsBelow entries entry stops := by
  cases child with
  | directory held =>
    obtain ⟨stops, htours, hevents⟩ := h rfl
    refine ⟨stops.map (·.under entry), fun stop => ?_, ?_, fun host path name => ?_⟩
    · rw [List.mem_map]
      constructor
      · rintro ⟨inner, hinner, rfl⟩
        exact ⟨inner, rfl, held, hl, (htours.all inner).1 hinner⟩
      · rintro ⟨inner, rfl, other, hother, hat⟩
        cases hl.symm.trans hother
        exact ⟨inner, (htours.all inner).2 hat, rfl⟩
    · rw [List.pairwise_map]
      refine htours.ordered.imp_of_mem fun {a b} ha hb hlt => ?_
      rw [Stop.key_under entry (rooted_of_at? ((htours.all a).1 ha)),
        Stop.key_under entry (rooted_of_at? ((htours.all b).1 hb))]
      exact List.cons_lt_cons_self.2 hlt
    · rw [belowAt, hl, List.flatMap_map]
      exact hevents host (entryPath path entry) (entryName name entry)
  | file _ _ | link _ | special =>
    refine ⟨[], fun stop => ?_, .nil, fun host path name => ?_⟩
    · simp [hl]
    · rw [belowAt, hl]
      exact addTree_of_not_directory host _ _ rfl

/-- **Adding a directory visits the stops of its tour.** -/
theorem exists_tour {node : Node} (hwf : node.wellFormed = true) (hdir : node.isDirectory = true) :
    ∃ stops, Tours node stops ∧ ∀ host path name,
      addTree host path name node = stops.flatMap (Stop.events host path name) := by
  induction node using Node.induction_on_entries with
  | hfile _ _ | hlink _ | hspecial => cases hdir
  | hdirectory entries ih =>
    obtain ⟨hs, hentries⟩ := Node.wellFormed_directory.1 hwf
    have hbelow : ∀ entry ∈ inByteOrder entries, ∃ stops, StopsBelow entries entry stops := by
      intro entry hentry
      obtain ⟨child, hl⟩ := lookup_of_mem_inByteOrder hentry
      have hmem := Node.mem_of_lookup hl
      exact exists_stopsBelow hl fun hchild => ih entry child hmem (hentries _ hmem) hchild
    choose! below hall hordered hevents using hbelow
    refine ⟨⟨[], .directory entries⟩ :: ((inByteOrder entries).flatMap (stopAt entries) ++
      (inByteOrder entries).flatMap below), ⟨fun stop => ?_, ?_⟩, fun host path name => ?_⟩
    · rw [List.mem_cons, List.mem_append, List.mem_flatMap, List.mem_flatMap]
      constructor
      · rintro (rfl | ⟨entry, -, hstop⟩ | ⟨entry, hentry, hstop⟩)
        · rfl
        · obtain ⟨hnames, -, hl⟩ := mem_stopAt.1 hstop
          rw [hnames, Node.at?_directory_cons, hl]
          rfl
        · obtain ⟨inner, rfl, held, hl, hat⟩ := (hall entry hentry stop).1 hstop
          rw [Stop.under, Node.at?_directory_cons, hl]
          exact hat
      · intro hat
        obtain ⟨names, there⟩ := stop
        cases names with
        | nil =>
          rw [Node.at?_nil, Option.some.injEq] at hat
          exact .inl (hat ▸ rfl)
        | cons entry rest =>
          rw [Node.at?_directory_cons] at hat
          obtain ⟨child, hl, hrest⟩ := Option.bind_eq_some_iff.1 hat
          have hentry : entry ∈ inByteOrder entries :=
            mem_inByteOrder.2 (List.mem_map_of_mem (Node.mem_of_lookup hl))
          -- a directory has a tour of its own, anything else is one stop
          cases hchild : child.isDirectory with
          | true =>
            cases child with
            | directory held =>
              exact .inr (.inr ⟨entry, hentry,
                (hall entry hentry _).2 ⟨⟨rest, there⟩, rfl, held, hl, hrest⟩⟩)
            | file _ _ | link _ | special => cases hchild
          | false =>
            obtain ⟨rfl, rfl⟩ := (Node.at?_eq_some_iff hchild).1 hrest
            exact .inr (.inl ⟨entry, hentry, mem_stopAt.2 ⟨rfl, hchild, hl⟩⟩)
    · refine pairwise_rows (inByteOrder_sorted hs.distinct) rfl (fun entry _ stop hstop => ?_)
        (fun entry _ => ?_) (fun entry hentry stop hstop => ?_) hordered
      · obtain ⟨names, there⟩ := stop
        obtain ⟨rfl, hnot, -⟩ := mem_stopAt.1 hstop
        exact Stop.key_of_not_directory hnot
      · unfold stopAt
        split <;> simp
      · obtain ⟨inner, rfl, held, -, hat⟩ := (hall entry hentry stop).1 hstop
        exact ⟨_, Stop.key_under entry (rooted_of_at? hat)⟩
    · have hmet := funext (metAt_eq host path name entries)
      rw [addTree_directory host path name hs.distinct, List.flatMap_cons, List.flatMap_append,
        List.flatMap_assoc, List.flatMap_assoc, hmet,
        List.flatMap_congr fun entry hentry => hevents entry hentry host path name]
      rfl

end ImageRecipe
