import ImageRecipe.Proofs.Host.Paths

/-!
# Trees that differ at one place

When a file comes or goes, what a path leads to changes only if looking it up passes the place of the file.

* `Node.face` — what is seen of a node without looking into it;
* `AlikeOff` — two trees have the same faces everywhere but at one place and below it;
* `looked` — the places that a walk looks up; `Host.looked` — those of a path;
* `SameEnd` — two walks fail alike or come to places of the same names.

Principal results:

* `alikeOff_changeAt` — changing what stands under one name of a directory leaves all other faces;
* `sameEnd_walk` — a walk that does not look the place up ends alike in both trees;
* `walks_of_mem_looked` — a walk that looks up what is missing, or a file, does not go on from there.
-/

set_option autoImplicit false

namespace ImageRecipe

open Host

/-! ## Faces -/

/-- What is seen of a node without looking into it. -/
inductive Face where
  | file (content : List UInt8) (mode : Nat)
  | directory
  | link (target : Path)
  | special

namespace Node

/-- What is seen of a node. -/
def face : Node → Face
  | file content mode => .file content mode
  | directory _ => .directory
  | link target => .link target
  | special => .special

theorem face_eq_file {node : Node} {content : List UInt8} {mode : Nat}
    (h : node.face = .file content mode) : node = .file content mode := by
  cases node <;> cases h
  rfl

theorem face_eq_directory {node : Node} (h : node.face = .directory) :
    ∃ entries, node = .directory entries := by
  cases node <;> cases h
  exact ⟨_, rfl⟩

theorem face_eq_link {node : Node} {target : Path} (h : node.face = .link target) :
    node = .link target := by
  cases node <;> cases h
  rfl

theorem isDirectory_of_face {node other : Node} (h : node.face = other.face) :
    node.isDirectory = other.isDirectory := by
  cases node <;> cases other <;> first | rfl | cases h

theorem face_eq_special {node : Node} (h : node.face = .special) : node = .special := by
  cases node <;> cases h
  rfl

end Node

/-- Two trees have the same faces everywhere but at one place and below it. -/
def AlikeOff (spot : List Name) (tree other : Node) : Prop :=
  ∀ place, ¬spot <+: place → (tree.at? place).map Node.face = (other.at? place).map Node.face

theorem AlikeOff.symm {spot : List Name} {tree other : Node} (h : AlikeOff spot tree other) :
    AlikeOff spot other tree := fun place hoff => (h place hoff).symm

/-! ## Changes -/

theorem lookup_changeEntry_of_ne {name other : Name} (h : name ≠ other) (change : Node → Node)
    (entries : List (Name × Node)) :
    (Node.changeEntry other change entries).lookup name = entries.lookup name := by
  induction entries with
  | nil => rfl
  | cons first rest ih =>
    obtain ⟨own, node⟩ := first
    rw [Node.changeEntry]
    split
    · rename_i hsame
      have hdiffer : (name == own) = false := by simpa [← hsame] using h
      rw [List.lookup_cons, List.lookup_cons, hdiffer]
    · rw [List.lookup_cons, List.lookup_cons, ih]

/-- **Changing what stands under one name of a directory leaves all other faces.** -/
theorem alikeOff_changeAt {change : List (Name × Node) → List (Name × Node)} {name : Name}
    (hchange : ∀ entries other, other ≠ name → (change entries).lookup other = entries.lookup other)
    (place : List Name) (tree : Node) :
    AlikeOff (place ++ [name]) tree (Node.changeAt change place tree) := by
  induction place generalizing tree with
  | nil =>
    intro other hoff
    cases tree with
    | directory entries =>
      cases other with
      | nil => rfl
      | cons first rest =>
        have hne : first ≠ name := fun heq => hoff (heq ▸ by simp)
        rw [Node.changeAt, Node.at?_directory_cons, Node.at?_directory_cons,
          hchange entries first hne]
    | file _ _ | link _ | special => rfl
  | cons outer inner ih =>
    intro other hoff
    cases tree with
    | directory entries =>
      cases other with
      | nil => rfl
      | cons first rest =>
        rw [Node.changeAt, Node.at?_directory_cons, Node.at?_directory_cons]
        by_cases hsame : first = outer
        · subst hsame
          have hinner : ¬inner ++ [name] <+: rest := fun hpre => hoff (by simpa using hpre)
          rw [Node.lookup_changeEntry]
          cases entries.lookup first with
          | none => rfl
          | some child => exact ih child rest hinner
        · rw [lookup_changeEntry_of_ne hsame]
    | file _ _ | link _ | special => rfl

/-! ## Places looked up -/

/-- The places that a walk along names looks up. `follow` gives those that it looks up after a link. -/
def lookedNames (follow : Place → Path → List Name → List (List Name)) (place : Place) :
    List Name → List (List Name)
  | [] => []
  | name :: rest =>
    match place.node with
    | .directory entries =>
      if name = Path.here then lookedNames follow place rest
      else if name = Path.above then lookedNames follow place.up rest
      else if maxName < name.length then []
      else (place.names ++ [name]) :: match entries.lookup name with
        | none => []
        | some (.link target) => follow place target rest
        | some child => lookedNames follow (place.enter name child) rest
    | _ => []

/-- The places that a walk along names looks up, following at most `links` links. -/
def looked (tree : Node) : (links : Nat) → Place → List Name → List (List Name)
  | 0 => lookedNames fun _ _ _ => []
  | links + 1 => lookedNames fun place target rest =>
      looked tree links (linkStart tree place target) (target.steps ++ rest)

/-- The places that are looked up on a path, were it ever so long. -/
def Host.looked (host : Host) (path : Path) : List (List Name) :=
  ImageRecipe.looked host.tree maxLinks (.root host.tree) (host.stepsOf path)

/-! ## Walks in two trees -/

/-- Places of two trees that have the same names, not at `spot` or below it. -/
structure Beside (spot : List Name) (tree other : Node) (place beside : Place) : Prop where
  reached : Reached tree place
  reached' : Reached other beside
  names : place.names = beside.names
  off : ¬spot <+: place.names

/-- Two walks that fail alike or come to places of the same names. -/
inductive SameEnd (spot : List Name) (tree other : Node) :
    Except Fault Place → Except Fault Place → Prop
  | error (fault : Fault) : SameEnd spot tree other (.error fault) (.error fault)
  | ok {place beside : Place} (h : Beside spot tree other place beside) :
      SameEnd spot tree other (.ok place) (.ok beside)

section Beside

variable {spot : List Name} {tree other : Node} {place beside : Place}

theorem Beside.root (hspot : spot ≠ []) : Beside spot tree other (.root tree) (.root other) :=
  ⟨.root, .root, rfl, fun h => hspot (List.prefix_nil.1 h)⟩

theorem Place.names_up (place : Place) : place.up.names = place.names.dropLast := by
  unfold Place.up Place.names
  split
  · rename_i h
    rw [h]
    rfl
  · rename_i h
    rw [h, List.map_cons, List.reverse_cons, List.dropLast_concat]

theorem Beside.up (h : Beside spot tree other place beside) :
    Beside spot tree other place.up beside.up where
  reached := h.reached.up
  reached' := h.reached'.up
  names := by rw [Place.names_up, Place.names_up, h.names]
  off hpre := h.off (hpre.trans (Place.names_up place ▸ List.dropLast_prefix _))

theorem Beside.linkStart (hspot : spot ≠ []) (h : Beside spot tree other place beside)
    (target : Path) :
    Beside spot tree other (linkStart tree place target) (linkStart other beside target) := by
  unfold ImageRecipe.linkStart
  split
  · exact Beside.root hspot
  · exact h

/-- The faces of places with the same names are the same. -/
theorem Beside.face (halike : AlikeOff spot tree other) (h : Beside spot tree other place beside) :
    place.node.face = beside.node.face := by
  have hface := halike place.names h.off
  rw [h.reached.at?_names, h.names, h.reached'.at?_names] at hface
  exact Option.some.inj hface

/-- The entry of a name other than that of the spot has the same face in both directories. -/
theorem Beside.face_lookup (halike : AlikeOff spot tree other)
    (h : Beside spot tree other place beside) {entries entries' : List (Name × Node)}
    (hnode : place.node = .directory entries) (hnode' : beside.node = .directory entries')
    {name : Name} (hname : place.names ++ [name] ≠ spot) :
    (entries.lookup name).map Node.face = (entries'.lookup name).map Node.face := by
  have hoff : ¬spot <+: place.names ++ [name] := by
    intro hpre
    rcases List.prefix_concat_iff.1 hpre with heq | hpre
    · exact hname heq.symm
    · exact h.off hpre
  have hface := halike _ hoff
  have hat := h.reached.at?_names
  have hat' := h.reached'.at?_names
  rw [hnode] at hat
  rw [hnode'] at hat'
  rw [Node.at?_concat hat, h.names, Node.at?_concat hat'] at hface
  exact hface

theorem Beside.enter (h : Beside spot tree other place beside) {entries entries' : List (Name × Node)}
    (hnode : place.node = .directory entries) (hnode' : beside.node = .directory entries')
    {name : Name} (hordinary : Ordinary name) (hname : place.names ++ [name] ≠ spot)
    {child child' : Node} (hl : entries.lookup name = some child)
    (hl' : entries'.lookup name = some child') (hchild : ∀ target, child ≠ .link target)
    (hchild' : ∀ target, child' ≠ .link target) :
    Beside spot tree other (place.enter name child) (beside.enter name child') where
  reached := .enter h.reached hnode hordinary hl hchild
  reached' := .enter h.reached' hnode' hordinary hl' hchild'
  names := by rw [Place.names_enter, Place.names_enter, h.names]
  off hpre := by
    rw [Place.names_enter] at hpre
    rcases List.prefix_concat_iff.1 hpre with heq | hpre
    · exact hname heq.symm
    · exact h.off hpre

end Beside

/-- What a look-up admits depends on names only, and it takes nothing for a name that is missing. -/
structure Host.Lookup.ByNames (lookup : Lookup) : Prop where
  admits : ∀ {place beside : Place} (name : Name), place.names = beside.names →
    lookup.admits place name = lookup.admits beside name
  enters : ∀ {place beside : Place} (rest : List Name), place.names = beside.names →
    lookup.enters place rest = lookup.enters beside rest
  absent : ∀ place name rest, lookup.absent place name rest = .error .notFound

theorem byNames_plain : Host.Lookup.ByNames .plain := ⟨fun _ _ => rfl, fun _ _ => rfl, fun _ _ _ => rfl⟩

theorem byNames_byOwnPath : Host.Lookup.ByNames .byOwnPath where
  admits name h := by simp only [Lookup.byOwnPath, h]
  enters rest h := by simp only [Lookup.byOwnPath, h]
  absent _ _ _ := rfl

section Walk

variable {spot : List Name} {tree other : Node} {lookup : Lookup}

/-- The names are taken alike in both trees, if the links are. -/
theorem sameEnd_walkNames (halike : AlikeOff spot tree other) (hlookup : lookup.ByNames)
    {follow follow' : Place → Path → List Name → Except Fault Place}
    {after : Place → Path → List Name → List (List Name)}
    (hfollow : ∀ place beside target rest, Beside spot tree other place beside →
      spot ∉ after place target rest →
        SameEnd spot tree other (follow place target rest) (follow' beside target rest))
    (names : List Name) : ∀ place beside, Beside spot tree other place beside →
      spot ∉ lookedNames after place names →
        SameEnd spot tree other (walkNames lookup follow place names)
          (walkNames lookup follow' beside names) := by
  induction names with
  | nil =>
    intro place beside h _
    exact .ok h
  | cons name rest ih =>
    intro place beside h hlooked
    have hface := h.face halike
    rw [walkNames, walkNames]
    rw [lookedNames] at hlooked
    cases hnode : place.node with
    | directory entries =>
      rw [hnode] at hface hlooked
      obtain ⟨entries', hnode'⟩ := Node.face_eq_directory hface.symm
      simp only [hnode'] at hlooked ⊢
      by_cases hhere : name = Path.here
      · simp only [if_pos hhere] at hlooked ⊢
        exact ih place beside h hlooked
      by_cases habove : name = Path.above
      · simp only [if_neg hhere, if_pos habove] at hlooked ⊢
        exact ih place.up beside.up h.up hlooked
      simp only [if_neg hhere, if_neg habove] at hlooked ⊢
      rw [hlookup.admits name h.names]
      split
      · exact .error _
      · rename_i hadmitted
        have hshort : ¬maxName < name.length := fun hlong => hadmitted (.inl hlong)
        have hordinary : Ordinary name := ⟨hhere, habove, Nat.not_lt.1 hshort⟩
        rw [if_neg hshort, List.mem_cons, not_or] at hlooked
        have hname : place.names ++ [name] ≠ spot := fun heq => hlooked.1 heq.symm
        have hfaces := h.face_lookup halike hnode hnode' hname
        cases hl : entries.lookup name with
        | none =>
          rw [hl, Option.map_none, eq_comm, Option.map_eq_none_iff] at hfaces
          rw [hfaces]
          simp only [hlookup.absent]
          exact .error _
        | some child =>
          rw [hl, Option.map_some, eq_comm, Option.map_eq_some_iff] at hfaces
          obtain ⟨child', hl', hchild⟩ := hfaces
          rw [hl] at hlooked
          have hgo : (∀ target, child ≠ .link target) → (∀ target, child' ≠ .link target) →
              spot ∉ lookedNames after (place.enter name child) rest →
              SameEnd spot tree other
                (if lookup.enters (place.enter name child) rest then
                  walkNames lookup follow (place.enter name child) rest else .error .nameTooLong)
                (if lookup.enters (beside.enter name child') rest then
                  walkNames lookup follow' (beside.enter name child') rest
                  else .error .nameTooLong) := by
            intro hc hc' hrest
            have hbeside := h.enter hnode hnode' hordinary hname hl hl' hc hc'
            rw [hlookup.enters rest hbeside.names]
            split
            · exact ih _ _ hbeside hrest
            · exact .error _
          cases child with
          | link target =>
            rw [hl', Node.face_eq_link hchild]
            exact hfollow place beside target rest h hlooked.2
          | file content mode =>
            rw [Node.face_eq_file hchild] at hl' hgo
            rw [hl']
            exact hgo (fun _ => Node.noConfusion) (fun _ => Node.noConfusion) hlooked.2
          | special =>
            rw [Node.face_eq_special hchild] at hl' hgo
            rw [hl']
            exact hgo (fun _ => Node.noConfusion) (fun _ => Node.noConfusion) hlooked.2
          | directory _ =>
            obtain ⟨inner, heq⟩ := Node.face_eq_directory hchild
            rw [heq] at hl' hgo
            rw [hl']
            exact hgo (fun _ => Node.noConfusion) (fun _ => Node.noConfusion) hlooked.2
    | file _ _ =>
      rw [hnode] at hface
      rw [Node.face_eq_file hface.symm]
      exact .error _
    | link _ =>
      rw [hnode] at hface
      rw [Node.face_eq_link hface.symm]
      exact .error _
    | special =>
      rw [hnode] at hface
      rw [Node.face_eq_special hface.symm]
      exact .error _

/-- **A walk that does not look the spot up ends alike in both trees.** -/
theorem sameEnd_walk (hspot : spot ≠ []) (halike : AlikeOff spot tree other)
    (hlookup : lookup.ByNames) (links : Nat) (names : List Name) : ∀ place beside,
      Beside spot tree other place beside → spot ∉ ImageRecipe.looked tree links place names →
        SameEnd spot tree other (walk lookup tree links place names)
          (walk lookup other links beside names) := by
  induction links generalizing names with
  | zero => exact sameEnd_walkNames halike hlookup (fun _ _ _ _ _ _ => .error _) names
  | succ links ih =>
    refine sameEnd_walkNames halike hlookup (fun place beside target rest h hafter => ?_) names
    exact ih (target.steps ++ rest) _ _ (h.linkStart hspot target) hafter

end Walk

/-! ## What is looked up -/

/-- The places that a walk looks up after a link. -/
def lookedAfter (tree : Node) : Nat → Place → Path → List Name → List (List Name)
  | 0, _, _, _ => []
  | links + 1, place, target, rest =>
    ImageRecipe.looked tree links (linkStart tree place target) (target.steps ++ rest)

theorem looked_eq_lookedNames (tree : Node) (links : Nat) :
    ImageRecipe.looked tree links = lookedNames (lookedAfter tree links) := by
  cases links <;> rfl

section Looked

variable {tree : Node} {place : Place} {entries : List (Name × Node)}

theorem looked_here (links : Nat) (hnode : place.node = .directory entries) (rest : List Name) :
    ImageRecipe.looked tree links place (Path.here :: rest) =
      ImageRecipe.looked tree links place rest := by
  rw [looked_eq_lookedNames, lookedNames, hnode]
  rfl

theorem looked_above (links : Nat) (hnode : place.node = .directory entries) (rest : List Name) :
    ImageRecipe.looked tree links place (Path.above :: rest) =
      ImageRecipe.looked tree links place.up rest := by
  rw [looked_eq_lookedNames, lookedNames, hnode]
  rfl

theorem looked_ordinary (links : Nat) (hnode : place.node = .directory entries) {name : Name}
    (hname : Ordinary name) (rest : List Name) :
    ImageRecipe.looked tree links place (name :: rest) =
      (place.names ++ [name]) :: match entries.lookup name with
        | none => []
        | some (.link target) => lookedAfter tree links place target rest
        | some child => ImageRecipe.looked tree links (place.enter name child) rest := by
  rw [looked_eq_lookedNames, lookedNames, hnode]
  simp only [if_neg hname.not_here, if_neg hname.not_above, if_neg (Nat.not_lt.2 hname.short)]

theorem looked_entered (links : Nat) (hnode : place.node = .directory entries) {name : Name}
    (hname : Ordinary name) {child : Node} (hl : entries.lookup name = some child)
    (hchild : ∀ target, child ≠ .link target) (rest : List Name) :
    ImageRecipe.looked tree links place (name :: rest) =
      (place.names ++ [name]) :: ImageRecipe.looked tree links (place.enter name child) rest := by
  rw [looked_ordinary links hnode hname, hl]
  cases child with
  | link target => exact absurd rfl (hchild target)
  | file _ _ | directory _ | special => rfl

/-- **A walk that looks up what is missing, or a file, ends there**, or fails since a file holds nothing. -/
theorem walks_of_mem_looked {links : Nat} {names : List Name} {result : Except Fault Place}
    (h : Walks tree links place names result) (hp : Reached tree place) {spot : List Name}
    (hspot : ∀ node, tree.at? spot = some node → ∃ content mode, node = .file content mode)
    (hmem : spot ∈ ImageRecipe.looked tree links place names) :
    (result = .error .notFound ∧ tree.at? spot = none) ∨ result = .error .notDirectory ∨
      ∃ q, result = .ok q ∧ q.names = spot := by
  induction h with
  | arrived =>
    rw [looked_eq_lookedNames, lookedNames] at hmem
    cases hmem
  | blocked _ => exact .inr (.inl rfl)
  | here hnode _ ih =>
    rw [looked_here _ hnode] at hmem
    exact ih hp hmem
  | above hnode _ ih =>
    rw [looked_above _ hnode] at hmem
    exact ih hp.up hmem
  | tooLong hnode hhere habove hlong =>
    rw [looked_eq_lookedNames, lookedNames, hnode] at hmem
    simp only [if_neg hhere, if_neg habove, if_pos hlong] at hmem
    cases hmem
  | @absent links place entries name rest hnode hname hl =>
    rw [looked_ordinary _ hnode hname, hl, List.mem_singleton] at hmem
    have hat := Node.at?_concat (hnode ▸ hp.at?_names) name
    rw [hl, ← hmem] at hat
    exact .inl ⟨rfl, hat⟩
  | @exhausted place entries name rest target hnode hname hl =>
    rw [looked_ordinary _ hnode hname, hl, List.mem_cons] at hmem
    rcases hmem with heq | hlater
    · have hat := Node.at?_concat (hnode ▸ hp.at?_names) name
      rw [hl, ← heq] at hat
      obtain ⟨_, _, hfile⟩ := hspot _ hat
      cases hfile
    · cases hlater
  | @followed links place entries name rest target _ hnode hname hl _ ih =>
    rw [looked_ordinary _ hnode hname, hl, List.mem_cons] at hmem
    rcases hmem with heq | hlater
    · have hat := Node.at?_concat (hnode ▸ hp.at?_names) name
      rw [hl, ← heq] at hat
      obtain ⟨_, _, hfile⟩ := hspot _ hat
      cases hfile
    · exact ih (hp.linkStart target) hlater
  | @entered links place entries name rest child result hnode hname hl hchild hwalk ih =>
    rw [looked_entered _ hnode hname hl hchild, List.mem_cons] at hmem
    rcases hmem with heq | hlater
    · have hat := Node.at?_concat (hnode ▸ hp.at?_names) name
      rw [hl, ← heq] at hat
      obtain ⟨content, mode, rfl⟩ := hspot _ hat
      -- nothing but arriving or failing is left to a walk that stands at a file
      cases hwalk with
      | arrived => exact .inr (.inr ⟨_, rfl, (Place.names_enter _ _ _).trans heq.symm⟩)
      | blocked _ => exact .inr (.inl rfl)
      | here hfile _ | above hfile _ | tooLong hfile _ _ _ | absent hfile _ _ | exhausted hfile _ _ =>
        cases hfile
      | followed hfile _ _ _ | entered hfile _ _ _ _ => cases hfile
    · exact ih (.enter hp hnode hname hl hchild) hlater

/-- A walk that comes elsewhere has looked up neither what is missing nor a file. -/
theorem not_mem_looked {links : Nat} {names : List Name} {q : Place}
    (h : Walks tree links place names (.ok q)) (hp : Reached tree place) {spot : List Name}
    (hspot : ∀ node, tree.at? spot = some node → ∃ content mode, node = .file content mode)
    (hq : q.names ≠ spot) : spot ∉ ImageRecipe.looked tree links place names := by
  intro hmem
  rcases walks_of_mem_looked h hp hspot hmem with ⟨hfails, -⟩ | hfails | ⟨own, hown, hnames⟩
  · cases hfails
  · cases hfails
  · cases hown
    exact hq hnames

/-- What is looked up from where a walk comes to is looked up by the longer walk. -/
theorem looked_append {links : Nat} {names : List Name} {q : Place}
    (h : Walks tree links place names (.ok q)) :
    ∃ k, ∀ rest, ImageRecipe.looked tree k q rest ⊆
      ImageRecipe.looked tree links place (names ++ rest) := by
  generalize hr : (Except.ok q : Except Fault Place) = r at h
  induction h with
  | arrived =>
    cases hr
    exact ⟨_, fun rest => List.Subset.refl _⟩
  | blocked _ | tooLong _ _ _ _ | absent _ _ _ | exhausted _ _ _ => cases hr
  | here hnode _ ih =>
    obtain ⟨k, hk⟩ := ih hr
    refine ⟨k, fun rest => ?_⟩
    rw [List.cons_append, looked_here _ hnode]
    exact hk rest
  | above hnode _ ih =>
    obtain ⟨k, hk⟩ := ih hr
    refine ⟨k, fun rest => ?_⟩
    rw [List.cons_append, looked_above _ hnode]
    exact hk rest
  | followed hnode hname hl _ ih =>
    obtain ⟨k, hk⟩ := ih hr
    refine ⟨k, fun rest => ?_⟩
    rw [List.cons_append, looked_ordinary _ hnode hname, hl]
    have hlater := hk rest
    rw [List.append_assoc] at hlater
    exact List.subset_cons_of_subset _ hlater
  | entered hnode hname hl hchild _ ih =>
    obtain ⟨k, hk⟩ := ih hr
    refine ⟨k, fun rest => ?_⟩
    rw [List.cons_append, looked_entered _ hnode hname hl hchild]
    exact List.subset_cons_of_subset _ (hk rest)

end Looked

/-- **The place of an entry is looked up on the path to it.** -/
theorem Host.mem_looked_join {host : Host} {path : Path} {place : Place}
    (h : host.resolve path = .ok place) {entries : List (Name × Node)}
    (hnode : place.node = .directory entries) {name : Name}
    (hname : Node.properName name = true) :
    place.names ++ [name] ∈ host.looked (path.join ⟨name⟩) := by
  obtain ⟨hr, hw⟩ := resolve_eq_ok_iff.1 h
  obtain ⟨hne, hhere, habove, -, -, hshort⟩ := Node.properName_iff.1 hname
  obtain ⟨k, hk⟩ := looked_append (hw.thin (thinned_stepsOf host path))
  rw [Host.looked, stepsOf_join (refuses?_eq_none_iff.1 hr).2.1 hname]
  refine hk [name] ?_
  rw [looked_ordinary k hnode ⟨hhere, habove, hshort⟩]
  exact List.mem_cons_self

/-! ## Hosts -/

/-- Two hosts that work in the same directory and have the same faces everywhere but at one place and
below it. -/
structure Host.AlikeBut (host other : Host) (spot : List Name) : Prop where
  workdir : host.workdir = other.workdir
  tree : AlikeOff spot host.tree other.tree
  spot_ne : spot ≠ []

section Hosts

variable {host other : Host} {spot : List Name} {path : Path}

theorem Host.AlikeBut.symm (h : host.AlikeBut other spot) : other.AlikeBut host spot :=
  ⟨h.workdir.symm, h.tree.symm, h.spot_ne⟩

theorem Host.AlikeBut.stepsOf (h : host.AlikeBut other spot) (path : Path) :
    host.stepsOf path = other.stepsOf path := by
  rw [Host.stepsOf, Host.stepsOf, h.workdir]

theorem Host.AlikeBut.sameEnd_resolveWith (h : host.AlikeBut other spot)
    (hlooked : spot ∉ host.looked path) {lookup : Lookup} (hlookup : lookup.ByNames) :
    SameEnd spot host.tree other.tree (host.resolveWith lookup path)
      (other.resolveWith lookup path) := by
  unfold resolveWith
  split
  · exact .error _
  · unfold walkFromRoot
    rw [← h.stepsOf path]
    exact sameEnd_walk h.spot_ne h.tree hlookup maxLinks _ _ _ (Beside.root h.spot_ne) hlooked

/-- **A path on which the spot is not looked up leads to the same place.** -/
theorem Host.AlikeBut.sameEnd_resolve (h : host.AlikeBut other spot)
    (hlooked : spot ∉ host.looked path) :
    SameEnd spot host.tree other.tree (host.resolve path) (other.resolve path) :=
  h.sameEnd_resolveWith hlooked byNames_plain

/-- And its real location is the same. -/
theorem Host.AlikeBut.realLocation_eq (h : host.AlikeBut other spot)
    (hlooked : spot ∉ host.looked path) : host.realLocation path = other.realLocation path := by
  have hend := h.sameEnd_resolveWith hlooked byNames_byOwnPath
  unfold realLocation
  generalize host.resolveWith .byOwnPath path = a at hend
  generalize other.resolveWith .byOwnPath path = b at hend
  cases hend with
  | error fault => rfl
  | ok hbeside => exact congrArg Except.ok hbeside.names

end Hosts

end ImageRecipe
