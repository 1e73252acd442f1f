import ImageRecipe.Proofs.Context.Entries
import ImageRecipe.Proofs.Host.Created

/-!
# Imports that a file does not disturb

An import looks at paths only. If none of them leads to a certain file, it makes no difference whether the
file is there: the import does the same. It may yet fail at the file without being led to it, on a path
that is too long or that goes on behind the file; that too must not happen.

* `Lacks` — a host, and another one that lacks one file of it;
* `Event.path?` — the path that an event is about;
* `Clear` — an event that is not about the file;
* `Agrees` — two lists of events of which the same happen, unless one of the first is about the file;
* `visited` — the paths that an import visits; `Unmet` — an import that does not meet the file.

Agreement goes along with the structure of an import: `Agrees.append` and `agrees_flatMap_filter` put it
together, so that the file may even be listed in a directory that is added.

Principal results: `agrees_addTree` — adding a directory; `performed_importsOf_eq` — importing the sources
of a Dockerfile; `packaged_eq` — the Dockerfile as it is packaged.
-/

set_option autoImplicit false

namespace ImageRecipe

/-! ## Events that happen -/

theorem performed_append_of_ok {a : List Event} (h : firstFailure? a = none) (b : List Event) :
    performed (a ++ b) = a ++ performed b := by
  induction a with
  | nil => rfl
  | cons event rest ih =>
    rw [← List.singleton_append, firstFailure?_append_eq_none] at h
    have hevent : event.failure? = none := firstFailure?_eq_none_iff.1 h.1 event List.mem_cons_self
    rw [List.cons_append, performed, hevent, ih h.2]
    rfl

theorem performed_append_of_failure {a : List Event} (h : firstFailure? a ≠ none)
    (b : List Event) : performed (a ++ b) = performed a := by
  induction a with
  | nil => exact absurd rfl h
  | cons event rest ih =>
    rw [List.cons_append, performed, performed]
    split
    · rfl
    · rename_i hevent
      have hrest : firstFailure? rest ≠ none := by
        intro hnone
        have hone : event.failure? = none := by simpa using hevent
        refine h (firstFailure?_eq_none_iff.2 ?_)
        rw [List.forall_mem_cons]
        exact ⟨hone, firstFailure?_eq_none_iff.1 hnone⟩
      rw [ih hrest]

/-- The events that happen fail as all of them do. -/
theorem firstFailure?_performed (events : List Event) :
    firstFailure? (performed events) = firstFailure? events := by
  induction events with
  | nil => rfl
  | cons event rest ih =>
    rw [performed]
    unfold firstFailure? at ih ⊢
    split
    · rename_i hfails
      obtain ⟨failure, hfailure⟩ := Option.isSome_iff_exists.1 hfails
      rw [List.findSome?_cons, List.findSome?_cons, hfailure]
    · rw [List.findSome?_cons, List.findSome?_cons, ih]

/-- The first event always happens. -/
theorem mem_performed_cons (event : Event) (rest : List Event) :
    event ∈ performed (event :: rest) := by
  rw [performed]
  split <;> exact List.mem_cons_self

/-- An event that happens and fails is the first one that does. -/
theorem firstFailure?_of_mem_performed {events : List Event} {event : Event} {failure : Failure}
    (hmem : event ∈ performed events) (h : event.failure? = some failure) :
    firstFailure? events = some failure := by
  induction events with
  | nil => cases hmem
  | cons first rest ih =>
    rw [performed] at hmem
    rw [firstFailure?, List.findSome?_cons]
    cases hfirst : first.failure? with
    | some other =>
      rw [hfirst] at hmem
      have heq : event = first := List.mem_singleton.1 hmem
      rw [heq, hfirst] at h
      exact h
    | none =>
      rw [hfirst] at hmem
      rcases List.mem_cons.1 hmem with rfl | hmem
      · rw [hfirst] at h
        cases h
      · exact ih hmem

/-! ## A file more or less -/

/-- A host and another one that lacks one file of it. -/
structure Lacks (host other : Host) (spot : List Name) : Prop where
  wellFormed : host.WellFormed
  wellFormed' : other.WellFormed
  alike : host.AlikeBut other spot
  file : ∃ content mode, host.tree.at? spot = some (.file content mode)
  missing : other.tree.at? spot = none

namespace Lacks

variable {host other : Host} {spot : List Name} {path : Path} {place : Place}

theorem only_file (h : Lacks host other spot) {node : Node} (hat : host.tree.at? spot = some node) :
    ∃ content mode, node = .file content mode := by
  obtain ⟨content, mode, hfile⟩ := h.file
  rw [hfile, Option.some.injEq] at hat
  exact ⟨content, mode, hat.symm⟩

/-- A path that leads elsewhere does not go by the file. -/
theorem not_mem_looked (h : Lacks host other spot) (hp : host.resolve path = .ok place)
    (helsewhere : place.names ≠ spot) : spot ∉ host.looked path :=
  ImageRecipe.not_mem_looked (Host.resolve_eq_ok_iff.1 hp).2 .root (fun _ => h.only_file) helsewhere

/-- Without the file, a path that leads anywhere does not go by where it would be. -/
theorem not_mem_looked' (h : Lacks host other spot) (hp : other.resolve path = .ok place) :
    spot ∉ other.looked path := by
  have hat := (Host.reached_of_resolve hp).at?_names
  refine ImageRecipe.not_mem_looked (Host.resolve_eq_ok_iff.1 hp).2 .root (fun node hnode => ?_) ?_
  · rw [h.missing] at hnode
    cases hnode
  · rintro rfl
    rw [h.missing] at hat
    cases hat

/-- Nothing is missing on a path that goes by the file. -/
theorem not_mem_looked_of_notFound (h : Lacks host other spot) (hne : path.bytes ≠ [])
    (hp : host.resolve path = .error .notFound) : spot ∉ host.looked path := by
  intro hmem
  unfold Host.resolve Host.resolveWith at hp
  split at hp
  · rename_i fault hrefused
    unfold Host.refuses? at hrefused
    rw [if_neg hne] at hrefused
    split at hrefused
    · cases hrefused
      cases hp
    · split at hrefused
      · cases hrefused
        cases hp
      · cases hrefused
  · have hwalk := walks_walk host.tree Host.maxLinks (.root host.tree) (host.stepsOf path)
    rw [Host.walkFromRoot] at hp
    rw [hp] at hwalk
    rcases walks_of_mem_looked hwalk .root (fun _ => h.only_file) hmem with ⟨-, hnone⟩ | hfails | hends
    · obtain ⟨_, _, hfile⟩ := h.file
      rw [hfile] at hnone
      cases hnone
    · cases hfails
    · obtain ⟨_, harrives, -⟩ := hends
      cases harrives

end Lacks

/-! ## What events are about -/

/-- The path that an event is about. An excluded source is not looked at. -/
def Event.path? : Event → Option Path
  | .excluded _ => none
  | .unimportable path => some path
  | .nameless path => some path
  | .unnamable path _ => some path
  | .shadowed path _ => some path
  | .clash _ path _ => some path
  | .file path _ _ _ => some path
  | .unreadableFile path _ _ => some path
  | .directory path _ => some path
  | .unreadableDirectory path _ _ => some path
  | .danglingLink path => some path
  | .linkedDirectory path => some path
  | .special path => some path
  | .unreadableLink path _ => some path

/-- What an event fails with tells its path. -/
theorem Event.path?_of_failure? {event : Event} {failure : Failure}
    (h : event.failure? = some failure) :
    ∃ path fault, failure = .archiving path fault ∧ event.path? = some path := by
  cases event <;> cases h <;> exact ⟨_, _, rfl, rfl⟩

/-- The event is not about what stands at the spot: its path does not lead there, and if it fails, its path
does not go by there either. -/
def Clear (host : Host) (spot : List Name) (event : Event) : Prop :=
  ∀ path, event.path? = some path →
    (∀ place, host.resolve path = .ok place → place.names ≠ spot) ∧
      (event.failure? ≠ none → spot ∉ host.looked path)

/-- An event that fails if its path does, and is not about the file, has a path that does not go by it. -/
theorem Clear.not_mem_looked {host other : Host} {spot : List Name} {event : Event} {path : Path}
    (h : Clear host spot event) (hlacks : Lacks host other spot) (hpath : event.path? = some path)
    (hfails : ∀ fault, host.resolve path = .error fault → event.failure? ≠ none) :
    spot ∉ host.looked path := by
  obtain ⟨hleads, hlooked⟩ := h path hpath
  cases hp : host.resolve path with
  | ok place => exact hlacks.not_mem_looked hp (hleads place hp)
  | error fault => exact hlooked (hfails fault hp)

/-! ## Agreement -/

/-- The same events happen, unless one of the first list is about the spot. -/
def Agrees (host : Host) (spot : List Name) (a b : List Event) : Prop :=
  (∀ event ∈ performed a, Clear host spot event) → performed b = performed a

section Agrees

variable {host : Host} {spot : List Name} {a b a' b' : List Event}

theorem agrees_refl (a : List Event) : Agrees host spot a a := fun _ => rfl

/-- **Agreement is kept when events follow one another.** -/
theorem Agrees.append (ha : Agrees host spot a a') (hb : Agrees host spot b b') :
    Agrees host spot (a ++ b) (a' ++ b') := by
  intro hclear
  by_cases hok : firstFailure? a = none
  · rw [performed_append_of_ok hok] at hclear ⊢
    have hperformed := performed_of_firstFailure?_eq_none hok
    have hsame : performed a' = a := by
      rw [ha fun event hevent => hclear event (List.mem_append_left _ (hperformed ▸ hevent)),
        hperformed]
    have hok' : firstFailure? a' = none := by
      rw [← firstFailure?_performed, hsame, hok]
    rw [performed_of_firstFailure?_eq_none hok'] at hsame
    rw [performed_append_of_ok hok', hsame,
      hb fun event hevent => hclear event (List.mem_append_right _ hevent)]
  · rw [performed_append_of_failure hok] at hclear ⊢
    have hsame := ha hclear
    have hfails : firstFailure? a' ≠ none := by
      rwa [← firstFailure?_performed, hsame, firstFailure?_performed]
    rw [performed_append_of_failure hfails, hsame]

/-- A single event agrees with what it is unless it is about the spot. -/
theorem agrees_of_clear {event : Event} (h : Clear host spot event → b = [event]) :
    Agrees host spot [event] b := by
  intro hclear
  rw [h (hclear event (mem_performed_cons event []))]

/-- The list begins with an event that is about the spot. -/
def Disturbed (host : Host) (spot : List Name) (events : List Event) : Prop :=
  ∃ event rest, events = event :: rest ∧ ¬Clear host spot event

theorem Disturbed.append (h : Disturbed host spot a) (more : List Event) :
    Disturbed host spot (a ++ more) := by
  obtain ⟨event, rest, rfl, hclear⟩ := h
  exact ⟨event, rest ++ more, rfl, hclear⟩

theorem Disturbed.agrees (h : Disturbed host spot a) (b : List Event) : Agrees host spot a b := by
  obtain ⟨event, rest, rfl, hevent⟩ := h
  intro hclear
  exact absurd (hclear event (mem_performed_cons event rest)) hevent

/-- **Agreement along a list, of which the second run lacks some items**: those add nothing in the first
run, or are about the spot. -/
theorem agrees_flatMap_filter {α : Type} {keep : α → Bool} {f g : α → List Event} {items : List α}
    (hkeep : ∀ item ∈ items, keep item = true → Agrees host spot (f item) (g item))
    (hdrop : ∀ item ∈ items, keep item = false → f item = [] ∨ Disturbed host spot (f item)) :
    Agrees host spot (items.flatMap f) ((items.filter keep).flatMap g) := by
  induction items with
  | nil => exact agrees_refl _
  | cons item rest ih =>
    have hrest := ih (fun i hi => hkeep i (List.mem_cons_of_mem _ hi))
      (fun i hi => hdrop i (List.mem_cons_of_mem _ hi))
    rw [List.flatMap_cons]
    cases hitem : keep item with
    | true =>
      rw [List.filter_cons_of_pos hitem, List.flatMap_cons]
      exact (hkeep item List.mem_cons_self hitem).append hrest
    | false =>
      rw [List.filter_cons_of_neg (by simp [hitem])]
      rcases hdrop item List.mem_cons_self hitem with hnil | hdisturbed
      · rw [hnil, List.nil_append]
        exact hrest
      · exact (hdisturbed.append _).agrees _

end Agrees

/-! ## Single additions -/

section Additions

variable {host other : Host} {spot : List Name} {path : Path} {name : String}

theorem path?_addFile (content : List UInt8) (mode : Nat) :
    (addFile host path name content mode).path? = some path := by
  unfold addFile
  split
  · rfl
  · split <;> rfl

theorem path?_addDirectory : (addDirectory host path name).path? = some path := by
  unfold addDirectory
  split <;> rfl

theorem failure?_addFile {fault : Fault} (hp : host.resolve path = .error fault)
    (content : List UInt8) (mode : Nat) : (addFile host path name content mode).failure? ≠ none := by
  rw [addFile, hp]
  exact Option.some_ne_none _

theorem failure?_addDirectory {fault : Fault} (hp : host.resolve path = .error fault) :
    (addDirectory host path name).failure? ≠ none := by
  rw [addDirectory, hp]
  exact Option.some_ne_none _

/-- A link makes one event, which fails unless the link leads somewhere or to what is missing. -/
theorem meet_link (host : Host) (path : Path) (name : String) (target : Path) :
    ∃ event, meet host path name (.link target) = [event] ∧ event.path? = some path ∧
      ∀ fault, host.resolve path = .error fault → fault ≠ .notFound → event.failure? ≠ none := by
  rw [meet]
  cases hp : host.resolve path with
  | ok place =>
    obtain ⟨there, way⟩ := place
    cases there with
    | file content mode => exact ⟨_, rfl, path?_addFile content mode, fun _ h => by cases h⟩
    | directory _ | link _ | special => exact ⟨_, rfl, rfl, fun _ h => by cases h⟩
  | error own =>
    simp only
    split
    · rename_i hmissing
      refine ⟨_, rfl, rfl, fun fault h hother => ?_⟩
      cases h
      exact absurd hmissing hother
    · exact ⟨_, rfl, rfl, fun _ _ _ => Option.some_ne_none _⟩

theorem addFile_eq (halike : host.AlikeBut other spot) (hclear : spot ∉ host.looked path)
    (content : List UInt8) (mode : Nat) :
    addFile other path name content mode = addFile host path name content mode := by
  have hend := halike.sameEnd_resolve hclear
  unfold addFile
  generalize host.resolve path = a at hend
  generalize other.resolve path = b at hend
  cases hend <;> rfl

theorem addDirectory_eq (halike : host.AlikeBut other spot) (hclear : spot ∉ host.looked path) :
    addDirectory other path name = addDirectory host path name := by
  have hend := halike.sameEnd_resolve hclear
  unfold addDirectory
  generalize host.resolve path = a at hend
  generalize other.resolve path = b at hend
  cases hend <;> rfl

theorem agrees_addFile (hlacks : Lacks host other spot) (content : List UInt8) (mode : Nat) :
    Agrees host spot [addFile host path name content mode] [addFile other path name content mode] := by
  apply agrees_of_clear
  intro hclear
  have hspot := hclear.not_mem_looked hlacks (path?_addFile content mode) fun _ hp =>
    failure?_addFile hp content mode
  rw [addFile_eq hlacks.alike hspot]

theorem agrees_addDirectory (hlacks : Lacks host other spot) :
    Agrees host spot [addDirectory host path name] [addDirectory other path name] := by
  apply agrees_of_clear
  intro hclear
  have hspot := hclear.not_mem_looked hlacks path?_addDirectory fun _ hp => failure?_addDirectory hp
  rw [addDirectory_eq hlacks.alike hspot]

theorem meet_link_eq (halike : host.AlikeBut other spot) (hclear : spot ∉ host.looked path)
    (target : Path) : meet other path name (.link target) = meet host path name (.link target) := by
  rw [meet, meet]
  have hfile : ∀ content mode, addFile other path name content mode =
      addFile host path name content mode := addFile_eq halike hclear
  have hend := halike.sameEnd_resolve hclear
  generalize host.resolve path = a at hend
  generalize other.resolve path = b at hend
  cases hend with
  | error fault => rfl
  | @ok place beside hbeside =>
    have hsame := hbeside.face halike.tree
    obtain ⟨there, way⟩ := place
    obtain ⟨there', way'⟩ := beside
    cases there with
    | file content mode =>
      have heq : there' = .file content mode := Node.face_eq_file hsame.symm
      subst heq
      simp only [hfile]
    | directory _ =>
      obtain ⟨_, heq⟩ := Node.face_eq_directory hsame.symm
      simp only at heq
      subst heq
      rfl
    | special =>
      have heq : there' = .special := Node.face_eq_special hsame.symm
      subst heq
      rfl
    | link target =>
      have heq : there' = .link target := Node.face_eq_link hsame.symm
      subst heq
      rfl

/-- **Nodes of the same face are met alike.** -/
theorem agrees_meet (hlacks : Lacks host other spot) (hne : path.bytes ≠ []) {node node' : Node}
    (hface : node.face = node'.face) :
    Agrees host spot (meet host path name node) (meet other path name node') := by
  cases node with
  | file content mode =>
    rw [Node.face_eq_file hface.symm, meet, meet]
    exact agrees_addFile hlacks content mode
  | directory _ =>
    obtain ⟨_, rfl⟩ := Node.face_eq_directory hface.symm
    rw [meet, meet]
    exact agrees_refl _
  | special =>
    rw [Node.face_eq_special hface.symm, meet, meet]
    exact agrees_refl _
  | link target =>
    obtain ⟨event, heq, hpath, hfails⟩ := meet_link host path name target
    rw [Node.face_eq_link hface.symm, heq]
    apply agrees_of_clear
    intro hclear
    rw [← heq]
    refine meet_link_eq hlacks.alike ?_ target
    by_cases hmissing : host.resolve path = .error .notFound
    · exact hlacks.not_mem_looked_of_notFound hne hmissing
    · exact hclear.not_mem_looked hlacks hpath fun fault hp =>
        hfails fault hp fun heq => hmissing (heq ▸ hp)

end Additions

/-! ## Directories -/

section Directory

variable {host other : Host} {spot : List Name} {place beside : Place}
  {entries entries' : List (Name × Node)}

/-- The other directory lists the same names, but for that of the file. -/
theorem inByteOrder_eq_filter (hlacks : Lacks host other spot)
    (h : Beside spot host.tree other.tree place beside) (hnode : place.node = .directory entries)
    (hnode' : beside.node = .directory entries') :
    inByteOrder entries' =
      (inByteOrder entries).filter (fun name => place.names ++ [name] ≠ spot) := by
  have hat := h.reached.at?_names
  have hat' := h.reached'.at?_names
  rw [hnode] at hat
  rw [hnode', ← h.names] at hat'
  have hsorted := inByteOrder_sorted (hlacks.wellFormed.listing hat).distinct
  have hsorted' := inByteOrder_sorted (hlacks.wellFormed'.listing hat').distinct
  apply hsorted'.eq_of_mem_iff (hsorted.filter _)
  intro name
  have hlisted : ∀ held : List (Name × Node), name ∈ inByteOrder held ↔
      ((held.lookup name).map Node.face).isSome = true := by
    intro held
    rw [mem_inByteOrder, Option.isSome_map]
    constructor
    · intro hmem
      obtain ⟨node, hl⟩ := Node.lookup_isSome_of_mem hmem
      rw [hl]
      rfl
    · intro hsome
      obtain ⟨node, hl⟩ := Option.isSome_iff_exists.1 hsome
      exact List.mem_map_of_mem (Node.mem_of_lookup hl)
  rw [List.mem_filter, decide_eq_true_eq, hlisted, hlisted]
  by_cases hname : place.names ++ [name] = spot
  · have hmissing := hlacks.missing
    rw [← hname, Node.at?_concat hat'] at hmissing
    simp [hmissing, hname]
  · rw [h.face_lookup hlacks.alike.tree hnode hnode' hname]
    simp [hname]

/-- The entry of a name other than that of the file, in both directories. -/
theorem lookup_beside (hlacks : Lacks host other spot)
    (h : Beside spot host.tree other.tree place beside) (hnode : place.node = .directory entries)
    (hnode' : beside.node = .directory entries') {entry : Name}
    (hname : place.names ++ [entry] ≠ spot) {child : Node}
    (hl : entries.lookup entry = some child) :
    ∃ child', entries'.lookup entry = some child' ∧ child.face = child'.face := by
  have hfaces := h.face_lookup hlacks.alike.tree hnode hnode' hname
  rw [hl, Option.map_some, eq_comm, Option.map_eq_some_iff] at hfaces
  obtain ⟨child', hl', hface⟩ := hfaces
  exact ⟨child', hl', hface.symm⟩

/-- The entry at the spot is the file. -/
theorem lookup_spot (hlacks : Lacks host other spot) (hreached : Reached host.tree place)
    (hnode : place.node = .directory entries) {entry : Name}
    (hname : place.names ++ [entry] = spot) :
    ∃ content mode, entries.lookup entry = some (.file content mode) := by
  obtain ⟨content, mode, hfile⟩ := hlacks.file
  have hat := hreached.at?_names
  rw [hnode] at hat
  rw [← hname, Node.at?_concat hat] at hfile
  exact ⟨content, mode, hfile⟩

variable {path : Path} {name : String} {entry : Name}

theorem agrees_metAt (hlacks : Lacks host other spot) (hp : host.resolve path = .ok place)
    (h : Beside spot host.tree other.tree place beside) (hnode : place.node = .directory entries)
    (hnode' : beside.node = .directory entries') (hproper : Node.properName entry = true)
    (hmem : entry ∈ inByteOrder entries) (hname : place.names ++ [entry] ≠ spot) :
    Agrees host spot (metAt host path name entries entry) (metAt other path name entries' entry) := by
  obtain ⟨child, hl⟩ := lookup_of_mem_inByteOrder hmem
  obtain ⟨child', hl', hface⟩ := lookup_beside hlacks h hnode hnode' hname hl
  have hne := Path.join_ne_nil (length_of_resolve hp).1 hproper
  simp only [metAt, hl, hl']
  exact agrees_meet hlacks hne hface

theorem disturbed_metAt (hlacks : Lacks host other spot) (hp : host.resolve path = .ok place)
    (hnode : place.node = .directory entries) (hproper : Node.properName entry = true)
    (hname : place.names ++ [entry] = spot) :
    Disturbed host spot (metAt host path name entries entry) := by
  obtain ⟨content, mode, hl⟩ := lookup_spot hlacks (Host.reached_of_resolve hp) hnode hname
  simp only [metAt, hl, meet]
  refine ⟨_, _, rfl, fun hclear => ?_⟩
  have hlooked := Host.mem_looked_join hp hnode hproper
  rw [hname] at hlooked
  exact hclear.not_mem_looked hlacks (path?_addFile content mode)
    (fun _ hfails => failure?_addFile hfails content mode) hlooked

/-- A directory that cannot be looked up ends both imports alike. -/
theorem agrees_of_fault (hlacks : Lacks host other spot) {fault : Fault}
    (hp : host.resolve path = .error fault) (a b : List Event) :
    Agrees host spot (addDirectory host path name :: a) (addDirectory other path name :: b) := by
  have hfails : (addDirectory host path name).failure? = some (.archiving path fault) := by
    rw [addDirectory, hp]
    rfl
  intro hclear
  have hspot := (hclear _ (mem_performed_cons _ _)).not_mem_looked hlacks path?_addDirectory
    fun _ hp => failure?_addDirectory hp
  rw [addDirectory_eq hlacks.alike hspot, performed, performed, hfails]
  rfl

/-- What stands in a directory is added alike, if the directories among it are. -/
theorem agrees_belowAt (hlacks : Lacks host other spot) (hp : host.resolve path = .ok place)
    (h : Beside spot host.tree other.tree place beside) (hnode : place.node = .directory entries)
    (hnode' : beside.node = .directory entries') (hproper : Node.properName entry = true)
    (hmem : entry ∈ inByteOrder entries) (hname : place.names ++ [entry] ≠ spot)
    (hdirectory : ∀ inner q q', entries.lookup entry = some (.directory inner) →
      host.resolve (entryPath path entry) = .ok q → q.node = .directory inner →
        Beside spot host.tree other.tree q q' →
          Agrees host spot
            (addTree host (entryPath path entry) (entryName name entry) (.directory inner))
            (addTree other (entryPath path entry) (entryName name entry) q'.node)) :
    Agrees host spot (belowAt host path name entries entry)
      (belowAt other path name entries' entry) := by
  obtain ⟨child, hl⟩ := lookup_of_mem_inByteOrder hmem
  obtain ⟨child', hl', hchild⟩ := lookup_beside hlacks h hnode hnode' hname hl
  simp only [belowAt, hl, hl']
  by_cases hdir : child.isDirectory = true
  · obtain ⟨inner, rfl⟩ := Host.isDirectory_iff.1 hdir
    obtain ⟨inner', rfl⟩ := Node.face_eq_directory hchild.symm
    cases hq : host.resolve (entryPath path entry) with
    | error fault =>
      rw [addTree, addTree]
      exact agrees_of_fault hlacks hq _ _
    | ok q =>
      obtain ⟨-, hhere, habove, -, -, hshort⟩ := Node.properName_iff.1 hproper
      have hq' := Host.resolve_join_enter hp hnode hproper hl (fun _ => Node.noConfusion) hq
      have henter := h.enter hnode hnode' ⟨hhere, habove, hshort⟩ hname hl hl'
        (fun _ => Node.noConfusion) (fun _ => Node.noConfusion)
      exact hdirectory inner q _ hl hq (hq' ▸ rfl) (hq' ▸ henter)
  · have hdir' : child'.isDirectory = false := by
      rw [← Node.isDirectory_of_face hchild]
      exact Bool.not_eq_true _ ▸ hdir
    rw [addTree_of_not_directory _ _ _ (Bool.not_eq_true _ ▸ hdir),
      addTree_of_not_directory _ _ _ hdir']
    exact agrees_refl _

/-- **Adding a directory makes no difference**, unless the import meets the file. -/
theorem agrees_addTree (hlacks : Lacks host other spot) (node : Node) :
    ∀ (path : Path) (name : String) (place beside : Place), host.resolve path = .ok place →
      place.node = node → node.isDirectory = true →
      Beside spot host.tree other.tree place beside →
      Agrees host spot (addTree host path name node) (addTree other path name beside.node) := by
  induction node using Node.induction_on_entries with
  | hfile _ _ => exact fun _ _ _ _ _ _ hdir => by cases hdir
  | hlink _ => exact fun _ _ _ _ _ _ hdir => by cases hdir
  | hspecial => exact fun _ _ _ _ _ _ hdir => by cases hdir
  | hdirectory entries ih =>
    intro path name place beside hp hnode _ h
    have hface := h.face hlacks.alike.tree
    rw [hnode] at hface
    obtain ⟨entries', hnode'⟩ := Node.face_eq_directory hface.symm
    have hat := h.reached.at?_names
    have hat' := h.reached'.at?_names
    rw [hnode] at hat
    rw [hnode'] at hat'
    have hs := hlacks.wellFormed.listing hat
    have hs' := hlacks.wellFormed'.listing hat'
    rw [hnode', addTree_directory host path name hs.distinct,
      addTree_directory other path name hs'.distinct,
      inByteOrder_eq_filter hlacks h hnode hnode', ← List.singleton_append,
      ← List.singleton_append]
    refine (agrees_addDirectory hlacks).append (Agrees.append ?_ ?_)
    · refine agrees_flatMap_filter (fun entry hmem hkeep => ?_) (fun entry hmem hdrop => ?_)
      · exact agrees_metAt hlacks hp h hnode hnode' (hs.proper _ (mem_inByteOrder.1 hmem)) hmem
          (of_decide_eq_true hkeep)
      · have hname : place.names ++ [entry] = spot := by simpa using hdrop
        exact .inr (disturbed_metAt hlacks hp hnode (hs.proper _ (mem_inByteOrder.1 hmem)) hname)
    · refine agrees_flatMap_filter (fun entry hmem hkeep => ?_) (fun entry hmem hdrop => ?_)
      · refine agrees_belowAt hlacks hp h hnode hnode' (hs.proper _ (mem_inByteOrder.1 hmem)) hmem
          (of_decide_eq_true hkeep) fun inner q q' hl hq hinner hbeside => ?_
        exact ih entry _ (Node.mem_of_lookup hl) _ _ q q' hq hinner rfl hbeside
      · have hname : place.names ++ [entry] = spot := by simpa using hdrop
        obtain ⟨content, mode, hl⟩ := lookup_spot hlacks h.reached hnode hname
        simp only [belowAt, hl]
        exact .inl (addTree_of_not_directory _ _ _ rfl)

end Directory

/-! ## Sources -/

section Sources

variable {host other : Host} {spot : List Name} {options : Options} {path : Path}

/-- A source that the same thing is found at in both hosts, on a path that does not go by the file. -/
structure FoundBoth (host other : Host) (spot : List Name) (source source' : Path × Node) : Prop where
  path_eq : source.1 = source'.1
  clear : spot ∉ host.looked source.1
  found : ∃ place beside, Found host source.1 source.2 place ∧
    Found other source'.1 source'.2 beside ∧ Beside spot host.tree other.tree place beside

/-- What a source turns out to be in two hosts. -/
inductive FoundAlike (host other : Host) (spot : List Name) (path : Path) : Source → Source → Prop
  | excluded : FoundAlike host other spot path .excluded .excluded
  | unimportable : FoundAlike host other spot path .unimportable .unimportable
  | file {content : List UInt8} {mode : Nat}
      (h : FoundBoth host other spot (path, .file content mode) (path, .file content mode)) :
      FoundAlike host other spot path (.file content mode) (.file content mode)
  | directory {entries entries' : List (Name × Node)}
      (h : FoundBoth host other spot (path, .directory entries) (path, .directory entries')) :
      FoundAlike host other spot path (.directory entries) (.directory entries')

/-- **A source turns out to be the same** unless its path leads to the file. -/
theorem foundAlike_find (hlacks : Lacks host other spot)
    (hleads : options.excludes path = false →
      ∀ place, host.resolve path = .ok place → place.names ≠ spot) :
    FoundAlike host other spot path (Source.find host options path)
      (Source.find other options path) := by
  unfold Source.find
  split
  · exact .excluded
  · rename_i hkept
    have hplace := hleads (Bool.not_eq_true _ ▸ hkept)
    by_cases hspot : spot ∈ host.looked path
    · -- a path that goes on behind the file leads nowhere, be the file there or not
      cases ha : host.resolve path with
      | ok place => exact absurd hspot (hlacks.not_mem_looked ha (hplace place ha))
      | error _ =>
        cases hb : other.resolve path with
        | error _ => exact .unimportable
        | ok beside =>
          have hend := hlacks.alike.symm.sameEnd_resolve (hlacks.not_mem_looked' hb)
          rw [ha, hb] at hend
          cases hend
    · have hend := hlacks.alike.sameEnd_resolve hspot
      generalize ha : host.resolve path = a at hend
      generalize hb : other.resolve path = b at hend
      cases hend with
      | error fault => exact .unimportable
      | @ok place beside h =>
        have hface := h.face hlacks.alike.tree
        obtain ⟨there, way⟩ := place
        obtain ⟨there', way'⟩ := beside
        cases there with
        | file content mode =>
          have heq : there' = .file content mode := Node.face_eq_file hface.symm
          subst heq
          exact .file ⟨rfl, hspot, _, _, ⟨ha, rfl, .inl ⟨_, _, rfl⟩⟩, ⟨hb, rfl, .inl ⟨_, _, rfl⟩⟩, h⟩
        | directory _ =>
          obtain ⟨_, heq⟩ := Node.face_eq_directory hface.symm
          simp only at heq
          subst heq
          exact .directory ⟨rfl, hspot, _, _, ⟨ha, rfl, .inr ⟨_, rfl⟩⟩, ⟨hb, rfl, .inr ⟨_, rfl⟩⟩, h⟩
        | special =>
          have heq : there' = .special := Node.face_eq_special hface.symm
          subst heq
          exact .unimportable
        | link target =>
          have heq : there' = .link target := Node.face_eq_link hface.symm
          subst heq
          exact .unimportable

theorem baseName_eq (halike : host.AlikeBut other spot) (hclear : spot ∉ host.looked path) :
    baseName other path = baseName host path := by
  rw [baseName, baseName, halike.realLocation_eq hclear]

theorem agrees_additions (hlacks : Lacks host other spot) {node node' : Node} {own : String}
    (h : FoundBoth host other spot (path, node) (path, node')) :
    Agrees host spot (additions host path own node) (additions other path own node') := by
  obtain ⟨place, beside, hfound, hfound', hbeside⟩ := h.found
  have hface := hbeside.face hlacks.alike.tree
  have hnode' : beside.node = node' := hfound'.node_eq
  rw [hfound.node_eq] at hface
  rcases hfound.held with ⟨content, mode, heq⟩ | ⟨entries, heq⟩
  · simp only at heq
    subst heq
    rw [hnode'] at hface
    rw [Node.face_eq_file hface.symm]
    exact agrees_addFile hlacks content mode
  · simp only at heq
    subst heq
    have hagrees := agrees_addTree hlacks _ path own place beside hfound.leads hfound.node_eq rfl
      hbeside
    obtain ⟨entries', hdir⟩ := Node.face_eq_directory hface.symm
    rw [hdir] at hagrees hnode'
    rw [← hnode']
    exact hagrees

/-- The names given after one more source do not depend on what stands there. -/
theorem added_named {added : Added} {node : Node} {own : String}
    (hbase : baseName host path = .ok (some own)) :
    (importSource host added path node).2 =
      if (added.lookup own).any (·.same path) then added else (own, path) :: added := by
  rw [importSource_named hbase]
  cases added.lookup own with
  | none => rfl
  | some earlier =>
    rw [Option.any_some]
    by_cases hsame : earlier.same path = true
    · simp only [hsame, if_true]
    · simp only [hsame]
      rfl

/-- **One source makes no difference.** -/
theorem agrees_importSource (hlacks : Lacks host other spot) {node node' : Node}
    (h : FoundBoth host other spot (path, node) (path, node')) (added : Added) :
    Agrees host spot (importSource host added path node).1 (importSource other added path node').1 ∧
      (importSource other added path node').2 = (importSource host added path node).2 := by
  have hbase := baseName_eq hlacks.alike h.clear
  cases hown : baseName host path with
  | error fault =>
    rw [importSource, importSource, hbase, hown]
    exact ⟨agrees_refl _, rfl⟩
  | ok result =>
    cases result with
    | none =>
      rw [importSource, importSource, hbase, hown]
      exact ⟨agrees_refl _, rfl⟩
    | some own =>
      have hadditions : Agrees host spot (additions host path own node)
          (additions other path own node') := agrees_additions hlacks h
      refine ⟨?_, (added_named (hbase.trans hown)).trans (added_named hown).symm⟩
      rw [importSource_named hown, importSource_named (hbase.trans hown)]
      generalize (if own = scriptName then [Event.shadowed path own] else []) = shadow
      cases added.lookup own with
      | none => exact (agrees_refl shadow).append hadditions
      | some earlier =>
        by_cases hsame : earlier.same path = true
        · simp only [hsame, if_true]
          exact agrees_refl shadow
        · simp only [hsame]
          exact (agrees_refl shadow).append ((agrees_refl [_]).append hadditions)

theorem agrees_importSources (hlacks : Lacks host other spot) {sources sources' : List (Path × Node)}
    (h : List.Forall₂ (FoundBoth host other spot) sources sources') (added : Added) :
    Agrees host spot (importSources host added sources) (importSources other added sources') := by
  induction h generalizing added with
  | nil => exact agrees_refl _
  | @cons source source' rest rest' hfirst _ ih =>
    obtain ⟨path, node⟩ := source
    obtain ⟨path', node'⟩ := source'
    have hpath : path = path' := hfirst.path_eq
    subst hpath
    obtain ⟨hevents, hadded⟩ := agrees_importSource hlacks hfirst added
    have hrest := ih (importSource host added path node).2
    rw [importSources, importSources]
    simp only [hadded]
    exact hevents.append hrest

/-- No source leads to the spot, but for excluded ones. -/
def SourcesElsewhere (host : Host) (spot : List Name) (options : Options) (sources : List String) :
    Prop :=
  ∀ source ∈ sources, options.excludes (.ofString source) = false →
    ∀ place, host.resolve (.ofString source) = .ok place → place.names ≠ spot

/-- Lists of sources that turn out to be the same in two hosts. -/
def FoundLists (host other : Host) (spot : List Name) : List (Path × Source) → List (Path × Source) → Prop :=
  List.Forall₂ fun found found' => found.1 = found'.1 ∧
    FoundAlike host other spot found.1 found.2 found'.2

theorem foundLists_find (hlacks : Lacks host other spot) {sources : List String}
    (hleads : SourcesElsewhere host spot options sources) :
    FoundLists host other spot
      (sources.map fun source => (Path.ofString source, Source.find host options (.ofString source)))
      (sources.map fun source =>
        (Path.ofString source, Source.find other options (.ofString source))) := by
  rw [FoundLists, List.forall₂_map_left_iff, List.forall₂_map_right_iff, List.forall₂_same]
  intro source hsource
  exact ⟨rfl, foundAlike_find hlacks (hleads source hsource)⟩

/-- What is chosen of sources alike is alike. -/
theorem FoundLists.filterMap {α : Type} {R : α → α → Prop} {choose : Path → Source → Option α}
    {found found' : List (Path × Source)} (h : FoundLists host other spot found found')
    (hchoose : ∀ path source source', FoundAlike host other spot path source source' →
      Option.Rel R (choose path source) (choose path source')) :
    List.Forall₂ R (found.filterMap fun source => choose source.1 source.2)
      (found'.filterMap fun source => choose source.1 source.2) := by
  refine List.rel_filterMap ?_ h
  rintro ⟨path, source⟩ ⟨path', source'⟩ ⟨hpath, hfind⟩
  simp only at hpath hfind
  subst hpath
  exact hchoose path source source' hfind

/-- **An import makes no difference.** -/
theorem agrees_importEvents (hlacks : Lacks host other spot) {sources : List String}
    (hleads : SourcesElsewhere host spot options sources) :
    Agrees host spot (importEvents host options sources) (importEvents other options sources) := by
  have hfound := foundLists_find hlacks hleads
  unfold importEvents
  generalize (sources.map fun source =>
    (Path.ofString source, Source.find host options (.ofString source))) = found at hfound
  generalize (sources.map fun source =>
    (Path.ofString source, Source.find other options (.ofString source))) = found' at hfound
  have hfiles : List.Forall₂ (FoundBoth host other spot)
      (found.filterMap fun source => fileSource? source.1 source.2)
      (found'.filterMap fun source => fileSource? source.1 source.2) := by
    apply hfound.filterMap
    intro path source source' hfind
    cases hfind with
    | file h => exact .some h
    | excluded | unimportable | directory h => exact .none
  have hdirectories : List.Forall₂ (FoundBoth host other spot)
      (found.filterMap fun source => directorySource? source.1 source.2)
      (found'.filterMap fun source => directorySource? source.1 source.2) := by
    apply hfound.filterMap
    intro path source source' hfind
    cases hfind with
    | directory h => exact .some h
    | excluded | unimportable | file h => exact .none
  have hsorting : List.Forall₂ Eq (found.filterMap fun source => sortingEvent? source.1 source.2)
      (found'.filterMap fun source => sortingEvent? source.1 source.2) := by
    apply hfound.filterMap
    intro path source source' hfind
    cases hfind with
    | excluded | unimportable => exact .some rfl
    | file h | directory h => exact .none
  rw [List.forall₂_eq_eq_eq] at hsorting
  have htold : Agrees host spot (found.filterMap fun source => sortingEvent? source.1 source.2)
      (found'.filterMap fun source => sortingEvent? source.1 source.2) := by
    rw [hsorting]
    exact agrees_refl _
  exact htold.append (agrees_importSources hlacks (List.rel_append hfiles hdirectories) [])

/-! ## The import of a Dockerfile -/

/-- The paths that the import of a Dockerfile visits: those of its sources, but for the excluded ones, and
those that events are about. -/
def visited (host : Host) (options : Options) (file : Dockerfile) : List Path :=
  (file.sources.map Path.ofString).filter (fun path => !options.excludes path) ++
    (performed (importsOf host options file)).filterMap Event.path?

/-- The import of a Dockerfile does not meet what stands at a spot: no path that it visits leads there, and
it does not fail on a path that goes by there. -/
structure Unmet (host : Host) (spot : List Name) (options : Options) (file : Dockerfile) : Prop where
  leads : ∀ path ∈ visited host options file, (host.resolve path).map Place.names ≠ .ok spot
  fails : ∀ path fault, firstFailure? (importsOf host options file) = some (.archiving path fault) →
    spot ∉ host.looked path

variable {file : Dockerfile}

theorem Unmet.elsewhere (h : Unmet host spot options file) (hpath : path ∈ visited host options file)
    {place : Place} (hp : host.resolve path = .ok place) : place.names ≠ spot := by
  intro heq
  refine h.leads path hpath ?_
  rw [hp, ← heq]
  rfl

theorem Unmet.sourcesElsewhere (h : Unmet host spot options file) :
    SourcesElsewhere host spot options file.sources := by
  intro source hsource hkept place hp
  refine h.elsewhere (List.mem_append_left _ (List.mem_filter.2 ⟨List.mem_map_of_mem hsource, ?_⟩)) hp
  rw [hkept]
  rfl

/-- All that happens is about other files. -/
theorem Unmet.clear (h : Unmet host spot options file) {event : Event}
    (hevent : event ∈ performed (importsOf host options file)) : Clear host spot event := by
  refine fun path hpath => ⟨fun place hp => ?_, fun hfails => ?_⟩
  · exact h.elsewhere
      (List.mem_append_right _ (List.mem_filterMap.2 ⟨event, hevent, hpath⟩)) hp
  · obtain ⟨failure, hfailure⟩ := Option.ne_none_iff_exists'.1 hfails
    obtain ⟨own, fault, rfl, hown⟩ := Event.path?_of_failure? hfailure
    rw [hpath, Option.some.injEq] at hown
    subst hown
    exact h.fails path fault (firstFailure?_of_mem_performed hevent hfailure)

/-- **An import that does not meet a file does the same without it.** -/
theorem performed_importsOf_eq (hlacks : Lacks host other spot)
    (hunmet : Unmet host spot options file) :
    performed (importsOf other options file) = performed (importsOf host options file) :=
  agrees_importEvents hlacks hunmet.sourcesElsewhere fun _ => hunmet.clear

/-- A Dockerfile is the same under two renamings that agree on its sources. -/
theorem Dockerfile.mapSources_congr {rename rename' : String → String}
    (h : ∀ source ∈ file.sources, rename source = rename' source) :
    file.mapSources rename = file.mapSources rename' := by
  have heach : ∀ group ∈ file.groups, ∀ instruction ∈ group.members,
      instruction.mapSource rename = instruction.mapSource rename' := by
    intro group hgroup instruction hmem
    have hcommand : instruction ∈ file.commands := List.mem_flatMap.2 ⟨group, hgroup, hmem⟩
    exact Instruction.mapSource_congr fun _ hcopy => h _ (mem_sources_of_copy? hcommand hcopy)
  unfold Dockerfile.mapSources
  congr 1
  apply List.map_congr_left
  intro group hgroup
  rw [List.map_congr_left (heach group hgroup)]

/-- **And the Dockerfile is packaged as the same.** -/
theorem packaged_eq (hlacks : Lacks host other spot) (hunmet : Unmet host spot options file) :
    packaged other options file = packaged host options file := by
  apply Dockerfile.mapSources_congr
  intro source hsource
  have hfind := foundAlike_find hlacks (hunmet.sourcesElsewhere source hsource)
  unfold renamed archiveName?
  simp only
  generalize Source.find host options (.ofString source) = found at hfind
  generalize Source.find other options (.ofString source) = found' at hfind
  cases hfind with
  | excluded | unimportable => rfl
  | file h | directory h => simp only [baseName_eq hlacks.alike h.clear]

end Sources

end ImageRecipe
