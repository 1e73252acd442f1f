import ImageRecipe.Host.Change
import ImageRecipe.Proofs.Host.Alike

/-!
# Files that are created

A new file stands at a spot that was free, and its path leads to it. Both stay so when other files come and
go, or when the file is written.

* `Host.Spot.location` — the names that lead to a spot;
* `Host.Gives` — a path that gives a spot to a new entry;
* `Host.Created` — what the creation of a file does;
* `Host.Pair` — two files beside each other, each led to by its path.

Principal results:

* `created_of_create` — creating a file does just that;
* `alikeBut_insert`, `alikeBut_remove`, `alikeBut_write` — what happens at a spot is seen nowhere else;
* `Gives.alikeBut` — a path keeps giving its spot when a file comes or goes elsewhere;
* `Gives.leads` — a path leads to the file at the spot it gives;
* `pair_of_created_twice` — two files that are created stand beside each other.
-/

set_option autoImplicit false

namespace ImageRecipe

namespace Host

/-- The names that lead to a spot. -/
def Spot.location (spot : Spot) : List Name := spot.directory ++ [spot.name]

/-- A path gives a spot to a new entry: it is not refused, its last name is that of the spot, and the names
before lead to the directory of the spot. -/
structure Gives (host : Host) (path : Path) (spot : Spot) : Prop where
  accepted : refuses? path = none
  last : (host.stepsOf path).getLast? = some spot.name
  ordinary : Ordinary spot.name
  outer : ∃ place, Walks host.tree maxLinks (.root host.tree) (host.stepsOf path).dropLast
    (.ok place) ∧ place.names = spot.directory ∧ place.node.isDirectory = true

/-- What the creation of a file does. -/
structure Created (host : Host) (path : Path) (node : Node) (made : Host) (spot : Spot) : Prop where
  gives : host.Gives path spot
  free : host.tree.at? spot.location = none
  made_eq : made = host.insert spot node

/-! ## Creation -/

theorem isDirectory_iff {node : Node} :
    node.isDirectory = true ↔ ∃ entries, node = .directory entries := by
  cases node <;> simp [Node.isDirectory]

theorem outerPlace_eq_ok_iff {host : Host} {path : Path} {place : Place} :
    host.outerPlace path = .ok place ↔
      Walks host.tree maxLinks (.root host.tree) (host.stepsOf path).dropLast (.ok place) ∧
        place.node.isDirectory = true := by
  rw [walks_iff, outerPlace, walkFromRoot]
  cases walk .plain host.tree maxLinks (.root host.tree) (host.stepsOf path).dropLast with
  | error fault => simp
  | ok q =>
    simp only [Except.ok.injEq]
    split
    · rename_i hdir
      rw [Except.ok.injEq]
      exact ⟨fun h => ⟨h, h ▸ hdir⟩, fun h => h.1⟩
    · rename_i hdir
      simp only [reduceCtorEq, false_iff, not_and]
      exact fun h hplace => hdir (h ▸ hplace)

/-- **Creating a file puts it at a free spot that the path gives.** -/
theorem created_of_create {host made : Host} {path : Path} {content : List UInt8} {mode : Nat}
    {spot : Spot} (h : host.create path content mode = .ok (made, spot)) :
    host.Created path (.file content mode) made spot := by
  unfold create at h
  cases hspot : host.locateParent path with
  | error fault =>
    rw [hspot] at h
    cases h
  | ok own =>
    rw [hspot] at h
    cases h
    unfold locateParent at hspot
    cases hrefuses : refuses? path with
    | some fault =>
      rw [hrefuses] at hspot
      cases hspot
    | none =>
      cases hlast : (host.stepsOf path).getLast? with
      | none =>
        rw [hrefuses, hlast] at hspot
        cases hspot
      | some name =>
        rw [hrefuses, hlast] at hspot
        simp only at hspot
        cases houter : host.outerPlace path with
        | error fault =>
          rw [houter] at hspot
          cases hspot
        | ok place =>
          rw [houter] at hspot
          simp only at hspot
          split at hspot
          · cases hspot
          rename_i hspecial
          rw [not_or] at hspecial
          split at hspot
          · cases hspot
          rename_i hshort
          split at hspot
          · cases hspot
          rename_i hfree
          cases hspot
          obtain ⟨hwalk, hdir⟩ := outerPlace_eq_ok_iff.1 houter
          obtain ⟨entries, hnode⟩ := isDirectory_iff.1 hdir
          refine ⟨⟨hrefuses, hlast, ⟨hspecial.1, hspecial.2, Nat.not_lt.1 hshort⟩,
            place, hwalk, rfl, hdir⟩, ?_, rfl⟩
          have hat := (hwalk.reached .root).at?_names
          rw [hnode] at hat hfree
          rw [Spot.location, Node.at?_concat hat]
          exact Option.not_isSome_iff_eq_none.1 hfree

/-! ## What is seen elsewhere -/

theorem lookup_append_of_ne {name other : Name} (h : other ≠ name) (node : Node)
    (entries : List (Name × Node)) :
    (entries ++ [(name, node)]).lookup other = entries.lookup other := by
  have hdiffer : (other == name) = false := by simpa using h
  rw [List.lookup_append]
  cases entries.lookup other with
  | none => simp [List.lookup_cons, hdiffer]
  | some _ => rfl

theorem lookup_filter_of_ne {name other : Name} (h : other ≠ name) (entries : List (Name × Node)) :
    (entries.filter (·.1 ≠ name)).lookup other = entries.lookup other := by
  induction entries with
  | nil => rfl
  | cons first rest ih =>
    obtain ⟨own, node⟩ := first
    by_cases hown : own = name
    · have hdiffer : (other == own) = false := by simpa [hown] using h
      rw [List.filter_cons_of_neg (by simpa using hown), ih, List.lookup_cons, hdiffer]
    · rw [List.filter_cons_of_pos (by simpa using hown), List.lookup_cons, List.lookup_cons, ih]

theorem lookup_map_of_fst {fill : Name × Node → Name × Node} (hfst : ∀ entry, (fill entry).1 = entry.1)
    (name : Name) (entries : List (Name × Node)) :
    (entries.map fill).lookup name = (entries.lookup name).map (fun node => (fill (name, node)).2) := by
  induction entries with
  | nil => rfl
  | cons first rest ih =>
    obtain ⟨own, node⟩ := first
    have hsplit : fill (own, node) = (own, (fill (own, node)).2) := Prod.ext (hfst _) rfl
    rw [List.map_cons, hsplit, List.lookup_cons, List.lookup_cons, ih]
    by_cases h : name = own
    · subst h
      simp
    · have hdiffer : (name == own) = false := by simpa using h
      simp [hdiffer]

variable {host : Host} {spot : Spot}

theorem Spot.location_ne (spot : Spot) : spot.location ≠ [] := by simp [Spot.location]

/-- **A new entry is seen nowhere else.** -/
theorem alikeBut_insert (host : Host) (spot : Spot) (node : Node) :
    host.AlikeBut (host.insert spot node) spot.location :=
  ⟨rfl, alikeOff_changeAt (fun entries _ h => lookup_append_of_ne h node entries) _ _,
    spot.location_ne⟩

theorem alikeBut_remove (host : Host) (spot : Spot) :
    host.AlikeBut (host.remove spot) spot.location :=
  ⟨rfl, alikeOff_changeAt (fun entries _ h => lookup_filter_of_ne h entries) _ _,
    spot.location_ne⟩

/-- What writing a file makes of an entry of its directory. -/
def filled (name : Name) (content : List UInt8) : Name × Node → Name × Node
  | (own, .file old mode) => (own, .file (if own = name then content else old) mode)
  | entry => entry

theorem fst_filled (name : Name) (content : List UInt8) (entry : Name × Node) :
    (filled name content entry).1 = entry.1 := by
  obtain ⟨own, node⟩ := entry
  cases node <;> rfl

theorem write_eq (host : Host) (spot : Spot) (content : List UInt8) :
    host.write spot content =
      { host with tree := host.tree.changeAt (·.map (filled spot.name content)) spot.directory } := by
  have hfill : filled spot.name content = fun
      | (own, .file old mode) => (own, .file (if own = spot.name then content else old) mode)
      | entry => entry := by
    funext entry
    obtain ⟨own, node⟩ := entry
    cases node <;> rfl
  rw [hfill]
  rfl

theorem alikeBut_write (host : Host) (spot : Spot) (content : List UInt8) :
    host.AlikeBut (host.write spot content) spot.location := by
  rw [write_eq]
  refine ⟨rfl, alikeOff_changeAt (fun entries other h => ?_) _ _, spot.location_ne⟩
  rw [lookup_map_of_fst (fst_filled _ _)]
  have hsame : ∀ node : Node, (filled spot.name content (other, node)).2 = node := by
    intro node
    cases node with
    | file old mode =>
      rw [filled, if_neg h]
    | directory _ | link _ | special => rfl
  simp only [hsame, Option.map_id']

/-! ## What stands at the spot -/

theorem at?_location_insert {entries : List (Name × Node)}
    (hat : host.tree.at? spot.directory = some (.directory entries))
    (hfree : entries.lookup spot.name = none) (node : Node) :
    (host.insert spot node).tree.at? spot.location = some node := by
  rw [insert, Spot.location, Node.at?_concat (Node.at?_changeAt hat), List.lookup_append, hfree]
  simp

/-- **A file that is created stands at its spot.** -/
theorem Created.at? {path : Path} {node : Node} {made : Host}
    (h : host.Created path node made spot) : made.tree.at? spot.location = some node := by
  obtain ⟨place, hwalk, hnames, hdir⟩ := h.gives.outer
  obtain ⟨entries, hnode⟩ := isDirectory_iff.1 hdir
  have hat := (hwalk.reached .root).at?_names
  rw [hnode, hnames] at hat
  have hfree := h.free
  rw [Spot.location, Node.at?_concat hat] at hfree
  rw [h.made_eq]
  exact at?_location_insert hat hfree node

/-- What stands at a spot stands in a directory. -/
theorem directory_of_at?_location {node : Node} (h : host.tree.at? spot.location = some node) :
    ∃ entries, host.tree.at? spot.directory = some (.directory entries) ∧
      entries.lookup spot.name = some node := by
  rw [Spot.location, Node.at?_append] at h
  obtain ⟨outer, hat, hchild⟩ := Option.bind_eq_some_iff.1 h
  cases outer with
  | directory entries => exact ⟨entries, hat, by rwa [← Node.at?_concat hat, Node.at?_append, hat]⟩
  | file _ _ | link _ | special => cases hchild

/-- **A file that is written has its new content.** -/
theorem at?_location_write {old : List UInt8} {mode : Nat}
    (h : host.tree.at? spot.location = some (.file old mode)) (content : List UInt8) :
    (host.write spot content).tree.at? spot.location = some (.file content mode) := by
  obtain ⟨entries, hat, hl⟩ := directory_of_at?_location h
  rw [write_eq, Spot.location, Node.at?_concat (Node.at?_changeAt hat),
    lookup_map_of_fst (fst_filled _ _), hl]
  simp [filled]

/-! ## Paths to spots -/

theorem Gives.stepsOf {path : Path} (h : host.Gives path spot) :
    host.stepsOf path = (host.stepsOf path).dropLast ++ [spot.name] := by
  obtain ⟨init, hinit⟩ := List.getLast?_eq_some_iff.1 h.last
  rw [hinit, List.dropLast_concat]

/-- **A path leads to the file at the spot it gives.** -/
theorem Gives.leads {path : Path} (h : host.Gives path spot) {content : List UInt8} {mode : Nat}
    (hat : host.tree.at? spot.location = some (.file content mode)) :
    ∃ place, host.resolve path = .ok place ∧ place.node = .file content mode ∧
      place.names = spot.location := by
  obtain ⟨place, hwalk, hnames, hdir⟩ := h.outer
  obtain ⟨entries, hnode⟩ := isDirectory_iff.1 hdir
  have hplace := (hwalk.reached .root).at?_names
  rw [hnode, hnames] at hplace
  rw [Spot.location, Node.at?_concat hplace] at hat
  obtain ⟨k, -, hgo⟩ := hwalk.append
  have hlast : Walks host.tree k place [spot.name] (.ok (place.enter spot.name (.file content mode))) :=
    .entered hnode h.ordinary hat (fun _ => Node.noConfusion) .arrived
  have hpath := hgo _ _ hlast
  rw [← h.stepsOf] at hpath
  refine ⟨_, resolve_of_walks h.accepted hpath, rfl, ?_⟩
  rw [Place.names_enter, hnames, Spot.location]

theorem Gives.resolve {path : Path} (h : host.Gives path spot) {content : List UInt8} {mode : Nat}
    (hat : host.tree.at? spot.location = some (.file content mode)) :
    ∃ way, host.resolve path = .ok ⟨.file content mode, way⟩ := by
  obtain ⟨⟨node, way⟩, hp, hnode, -⟩ := h.leads hat
  cases hnode
  exact ⟨way, hp⟩

theorem Gives.read? {path : Path} (h : host.Gives path spot) {content : List UInt8} {mode : Nat}
    (hat : host.tree.at? spot.location = some (.file content mode)) :
    host.read? path = some content := by
  obtain ⟨way, hp⟩ := h.resolve hat
  rw [Host.read?, hp]

/-- **A path keeps giving its spot** when a file comes or goes elsewhere. -/
theorem Gives.alikeBut {path : Path} (h : host.Gives path spot) {other : Host} {changed : List Name}
    (halike : host.AlikeBut other changed)
    (hchanged : ∀ node, host.tree.at? changed = some node → ∃ content mode, node = .file content mode) :
    other.Gives path spot := by
  obtain ⟨place, hwalk, hnames, hdir⟩ := h.outer
  have hsteps := halike.stepsOf path
  have helsewhere : place.names ≠ changed := by
    intro heq
    obtain ⟨_, _, hfile⟩ := hchanged _ (heq ▸ (hwalk.reached .root).at?_names)
    rw [hfile] at hdir
    cases hdir
  refine ⟨h.accepted, hsteps ▸ h.last, h.ordinary, ?_⟩
  have hend := sameEnd_walk halike.spot_ne halike.tree byNames_plain maxLinks _ _ _
    (Beside.root halike.spot_ne) (not_mem_looked hwalk .root hchanged helsewhere)
  rw [hwalk.eq] at hend
  rw [← hsteps]
  generalize hq : walk .plain other.tree maxLinks (.root other.tree)
    (host.stepsOf path).dropLast = result at hend
  cases hend with
  | ok hbeside =>
    refine ⟨_, walks_iff.2 hq, hbeside.names ▸ hnames, ?_⟩
    have hface := hbeside.face halike.tree
    obtain ⟨entries, hnode⟩ := isDirectory_iff.1 hdir
    rw [hnode] at hface
    obtain ⟨entries', hnode'⟩ := Node.face_eq_directory hface.symm
    rw [hnode']
    rfl

/-- A file keeps standing at its spot when something happens at another. -/
theorem AlikeBut.file_at? {other : Host} {changed place : List Name}
    (halike : host.AlikeBut other changed) {content : List UInt8} {mode : Nat}
    (h : host.tree.at? place = some (.file content mode)) (hoff : ¬changed <+: place) :
    other.tree.at? place = some (.file content mode) := by
  have hface := halike.tree place hoff
  rw [h, Option.map_some, eq_comm, Option.map_eq_some_iff] at hface
  obtain ⟨node, hnode, hfile⟩ := hface
  rw [hnode, Node.face_eq_file hfile]

/-- Nothing stands below a file, nor below what is missing. -/
theorem not_prefix_of_at? {tree node : Node} {place below : List Name}
    (hplace : ∀ node, tree.at? place = some node → node.isDirectory = false)
    (hbelow : tree.at? below = some node) (hne : place ≠ below) : ¬place <+: below := by
  rintro ⟨rest, rfl⟩
  rw [Node.at?_append] at hbelow
  obtain ⟨outer, hat, hrest⟩ := Option.bind_eq_some_iff.1 hbelow
  have hnil : rest ≠ [] := fun h => hne (by rw [h, List.append_nil])
  rw [Node.at?_of_not_directory (hplace outer hat) hnil] at hrest
  cases hrest

/-! ## One file after another -/

/-- Nothing but a file stands at the spot of a new file, before it is created and after. -/
theorem Created.gives_made {path : Path} {node : Node} {made : Host}
    (h : host.Created path node made spot) : made.Gives path spot := by
  have halike := alikeBut_insert host spot node
  rw [← h.made_eq] at halike
  apply h.gives.alikeBut halike
  intro other hother
  rw [h.free] at hother
  cases hother

/-- **A path leads to the file that was created at it.** -/
theorem Created.resolve {path : Path} {content : List UInt8} {mode : Nat} {made : Host}
    (h : host.Created path (.file content mode) made spot) :
    ∃ way, made.resolve path = .ok ⟨.file content mode, way⟩ :=
  h.gives_made.resolve h.at?

/-- Two files that stand at spots of their own, each led to by its path. -/
structure Pair (host : Host) (first second : Path) (firstSpot secondSpot : Spot) (a b : Node) : Prop where
  gives_first : host.Gives first firstSpot
  gives_second : host.Gives second secondSpot
  at_first : host.tree.at? firstSpot.location = some a
  at_second : host.tree.at? secondSpot.location = some b
  apart : ¬secondSpot.location <+: firstSpot.location

/-- **Two files that are created one after the other stand beside each other** when the first is
written. -/
theorem pair_of_created_twice {started scripted : Host} {first second : Path}
    {firstSpot secondSpot : Spot} {old content : List UInt8} {oldMode mode : Nat}
    (hfirst : host.Created first (.file old oldMode) started firstSpot)
    (hsecond : started.Created second (.file content mode) scripted secondSpot)
    (bytes : List UInt8) :
    (scripted.write firstSpot bytes).Pair first second firstSpot secondSpot (.file bytes oldMode)
      (.file content mode) := by
  have hinsert := alikeBut_insert started secondSpot (.file content mode)
  rw [← hsecond.made_eq] at hinsert
  have hwrite := alikeBut_write scripted firstSpot bytes
  have hne : secondSpot.location ≠ firstSpot.location := by
    intro heq
    have hfree := hsecond.free
    rw [heq, hfirst.at?] at hfree
    cases hfree
  have habove : ¬secondSpot.location <+: firstSpot.location := by
    refine not_prefix_of_at? (fun node hnode => ?_) hfirst.at? hne
    rw [hsecond.free] at hnode
    cases hnode
  have hfirstAt := hinsert.file_at? hfirst.at? habove
  have hbelow : ¬firstSpot.location <+: secondSpot.location := by
    refine not_prefix_of_at? (fun node hnode => ?_) hsecond.at? hne.symm
    rw [hfirstAt] at hnode
    cases hnode
    rfl
  have hgivesFirst : scripted.Gives first firstSpot := by
    apply hfirst.gives_made.alikeBut hinsert
    intro node hnode
    rw [hsecond.free] at hnode
    cases hnode
  have hfile : ∀ node, scripted.tree.at? firstSpot.location = some node →
      ∃ content mode, node = .file content mode := by
    intro node hnode
    rw [hfirstAt, Option.some.injEq] at hnode
    exact ⟨_, _, hnode.symm⟩
  exact ⟨hgivesFirst.alikeBut hwrite hfile, hsecond.gives_made.alikeBut hwrite hfile,
    at?_location_write hfirstAt bytes, hwrite.file_at? hsecond.at? hbelow, habove⟩

/-- The first of two files stays when the second is removed. -/
theorem Pair.remove {first second : Path} {firstSpot secondSpot : Spot}
    {bytes content : List UInt8} {oldMode mode : Nat}
    (h : host.Pair first second firstSpot secondSpot (.file bytes oldMode) (.file content mode)) :
    (host.remove secondSpot).Gives first firstSpot ∧
      (host.remove secondSpot).tree.at? firstSpot.location = some (.file bytes oldMode) := by
  have hremove := alikeBut_remove host secondSpot
  refine ⟨h.gives_first.alikeBut hremove fun node hnode => ?_, hremove.file_at? h.at_first h.apart⟩
  rw [h.at_second, Option.some.injEq] at hnode
  exact ⟨_, _, hnode.symm⟩

/-- A file and then another one are created, and the first is written: both can be read, and the first also
when the second is removed. -/
theorem read?_of_created_twice {started scripted : Host} {first second : Path}
    {firstSpot secondSpot : Spot} {old content : List UInt8} {oldMode mode : Nat}
    (hfirst : host.Created first (.file old oldMode) started firstSpot)
    (hsecond : started.Created second (.file content mode) scripted secondSpot)
    (bytes : List UInt8) :
    (scripted.write firstSpot bytes).read? first = some bytes ∧
      (scripted.write firstSpot bytes).read? second = some content ∧
      ((scripted.write firstSpot bytes).remove secondSpot).read? first = some bytes := by
  have hpair := pair_of_created_twice hfirst hsecond bytes
  obtain ⟨hgives, hat⟩ := hpair.remove
  exact ⟨hpair.gives_first.read? hpair.at_first, hpair.gives_second.read? hpair.at_second,
    hgives.read? hat⟩

/-! ## Trees stay well-formed -/

/-- A path gives only names that a directory can list. -/
theorem Gives.properName {path : Path} (h : host.Gives path spot) :
    Node.properName spot.name = true := by
  obtain ⟨hzero, hne, -⟩ := refuses?_eq_none_iff.1 h.accepted
  have hlast : path.steps.getLast? = some spot.name := by
    have hsteps := h.last
    unfold Host.stepsOf at hsteps
    split at hsteps
    · exact hsteps
    · rename_i hrelative
      have hsome := Path.steps_ne_nil hne (Bool.not_eq_true _ ▸ hrelative)
      rw [List.getLast?_append, List.getLast?_eq_some_getLast hsome, Option.some_or] at hsteps
      rw [List.getLast?_eq_some_getLast hsome, hsteps]
  have hpiece : spot.name ∈ (Path.pieces path.bytes).filter (· ≠ []) := by
    unfold Path.steps at hlast
    simp only at hlast
    split at hlast
    · rw [List.getLast?_concat, Option.some.injEq] at hlast
      exact absurd hlast.symm h.ordinary.not_here
    · exact List.mem_of_getLast? hlast
  obtain ⟨hmem, hnil⟩ := List.mem_filter.1 hpiece
  have hsub := Path.sublist_of_mem_pieces hmem
  exact Node.properName_iff.2 ⟨of_decide_eq_true hnil, h.ordinary.not_here, h.ordinary.not_above,
    Path.slash_not_mem_of_mem_pieces hmem, fun h0 => hzero (hsub.subset h0), h.ordinary.short⟩

theorem map_fst_changeEntry (name : Name) (change : Node → Node) (entries : List (Name × Node)) :
    (Node.changeEntry name change entries).map Prod.fst = entries.map Prod.fst := by
  induction entries with
  | nil => rfl
  | cons first rest ih =>
    obtain ⟨own, node⟩ := first
    rw [Node.changeEntry]
    split
    · rfl
    · rw [List.map_cons, List.map_cons, ih]

theorem mem_changeEntry {name : Name} {change : Node → Node} {entries : List (Name × Node)}
    {entry : Name × Node} (h : entry ∈ Node.changeEntry name change entries) :
    entry ∈ entries ∨ ∃ child, entries.lookup name = some child ∧ entry = (name, change child) := by
  induction entries with
  | nil => cases h
  | cons first rest ih =>
    obtain ⟨own, node⟩ := first
    rw [Node.changeEntry] at h
    split at h
    · rename_i hsame
      subst hsame
      rcases List.mem_cons.1 h with rfl | h
      · exact .inr ⟨node, by simp, rfl⟩
      · exact .inl (List.mem_cons_of_mem _ h)
    · rename_i hdiffer
      rcases List.mem_cons.1 h with rfl | h
      · exact .inl List.mem_cons_self
      · rcases ih h with h | ⟨child, hl, rfl⟩
        · exact .inl (List.mem_cons_of_mem _ h)
        · have hne : (name == own) = false := by simpa using hdiffer
          exact .inr ⟨child, by rw [List.lookup_cons, hne, hl], rfl⟩

/-- **What holds throughout a tree goes on to hold** if it holds of the directory that is changed. -/
theorem every_changeAt {fits : List UInt8 → Nat → Bool} {lists : List Name → Bool}
    {change : List (Name × Node) → List (Name × Node)} {place : List Name} {tree : Node}
    {entries : List (Name × Node)} (htree : tree.every fits lists = true)
    (hat : tree.at? place = some (.directory entries))
    (hchange : (Node.directory (change entries)).every fits lists = true) :
    (tree.changeAt change place).every fits lists = true := by
  induction place generalizing tree with
  | nil =>
    rw [Node.at?_nil, Option.some.injEq] at hat
    rw [hat]
    exact hchange
  | cons name rest ih =>
    cases tree with
    | directory held =>
      rw [Node.at?_directory_cons] at hat
      obtain ⟨child, hl, hbelow⟩ := Option.bind_eq_some_iff.1 hat
      obtain ⟨hlists, hheld⟩ := Node.every_directory.1 htree
      rw [Node.changeAt, Node.every_directory, map_fst_changeEntry]
      refine ⟨hlists, fun entry hentry => ?_⟩
      rcases mem_changeEntry hentry with hentry | ⟨own, hown, rfl⟩
      · exact hheld entry hentry
      · rw [hl, Option.some.injEq] at hown
        subst hown
        exact ih (hheld _ (Node.mem_of_lookup hl)) hbelow
    | file _ _ | link _ | special => cases hat

/-- **A host with a new file is well-formed.** -/
theorem Created.wellFormed {path : Path} {content : List UInt8} {mode : Nat} {made : Host}
    (h : host.Created path (.file content mode) made spot) (hwf : host.WellFormed) :
    made.WellFormed := by
  obtain ⟨place, hwalk, hnames, hdir⟩ := h.gives.outer
  obtain ⟨entries, hnode⟩ := isDirectory_iff.1 hdir
  have hat := (hwalk.reached .root).at?_names
  rw [hnode, hnames] at hat
  have hfree := h.free
  rw [Spot.location, Node.at?_concat hat] at hfree
  obtain ⟨hlisting, hentries⟩ := Node.wellFormed_directory.1 (hwf.at? hat)
  have hnew : spot.name ∉ entries.map Prod.fst := by
    intro hmem
    obtain ⟨node, hl⟩ := Node.lookup_isSome_of_mem hmem
    rw [hfree] at hl
    cases hl
  rw [h.made_eq]
  refine every_changeAt hwf hat (Node.wellFormed_directory.2 ⟨⟨?_, ?_⟩, ?_⟩)
  · rw [List.map_append, List.nodup_append]
    refine ⟨hlisting.distinct, List.pairwise_singleton _ _, fun a ha b hb hab => ?_⟩
    rw [List.map_singleton, List.mem_singleton] at hb
    have hsame : a = spot.name := hab.trans hb
    exact hnew (hsame ▸ ha)
  · intro name hname
    rw [List.map_append, List.mem_append, List.map_singleton, List.mem_singleton] at hname
    rcases hname with hname | rfl
    · exact hlisting.proper name hname
    · exact h.gives.properName
  · intro entry hentry
    rcases List.mem_append.1 hentry with hentry | hentry
    · exact hentries entry hentry
    · rw [List.mem_singleton] at hentry
      subst hentry
      rfl

end Host

end ImageRecipe
