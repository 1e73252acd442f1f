import ImageRecipe.Proofs.Host.Tree

/-!
# Walks as derivations

`Host.walk` is a recursion on the number of links inside which another one runs on the names. For proofs
by induction it is better seen as a derivation: a walk takes one name at a time, and each of nine rules says
what becomes of it.

* `Walks` — the rules, for walks on which every name must be there; `walks_walk`, `Walks.eq` — a walk is
  what the rules say;
* `Reached` — a place that a walk can come to: it is known by the names that lead to it;
* `Thinned` — names of which some dots are left out.

Principal results:

* `Walks.append` — a walk along more names goes on from where it came to, with the links it has left;
* `Walks.more_links` — unless links run out, their number does not matter;
* `Reached.walks` — the names of a place lead to it over no link;
* `Walks.thin` — dots do not matter to a walk that arrives.
-/

set_option autoImplicit false

namespace ImageRecipe

open Host

/-- A name that is looked up: neither special name, and not too long. -/
structure Ordinary (name : Name) : Prop where
  not_here : name ≠ Path.here
  not_above : name ≠ Path.above
  short : name.length ≤ maxName

/-- Where a walk goes on from a place that holds a link to `target`. -/
def linkStart (tree : Node) (place : Place) (target : Path) : Place :=
  if target.isAbsolute then .root tree else place

/-- What a walk along names from a place comes to, following at most so many links. -/
inductive Walks (tree : Node) : Nat → Place → List Name → Except Fault Place → Prop
  | arrived {links : Nat} {place : Place} : Walks tree links place [] (.ok place)
  | blocked {links : Nat} {place : Place} {name : Name} {rest : List Name}
      (hnode : place.node.isDirectory = false) :
      Walks tree links place (name :: rest) (.error .notDirectory)
  | here {links : Nat} {place : Place} {entries : List (Name × Node)} {rest : List Name}
      {result : Except Fault Place} (hnode : place.node = .directory entries)
      (h : Walks tree links place rest result) : Walks tree links place (Path.here :: rest) result
  | above {links : Nat} {place : Place} {entries : List (Name × Node)} {rest : List Name}
      {result : Except Fault Place} (hnode : place.node = .directory entries)
      (h : Walks tree links place.up rest result) :
      Walks tree links place (Path.above :: rest) result
  | tooLong {links : Nat} {place : Place} {entries : List (Name × Node)} {name : Name}
      {rest : List Name} (hnode : place.node = .directory entries) (hhere : name ≠ Path.here)
      (habove : name ≠ Path.above) (hlong : maxName < name.length) :
      Walks tree links place (name :: rest) (.error .nameTooLong)
  | absent {links : Nat} {place : Place} {entries : List (Name × Node)} {name : Name}
      {rest : List Name} (hnode : place.node = .directory entries) (hname : Ordinary name)
      (hl : entries.lookup name = none) : Walks tree links place (name :: rest) (.error .notFound)
  | exhausted {place : Place} {entries : List (Name × Node)} {name : Name} {rest : List Name}
      {target : Path} (hnode : place.node = .directory entries) (hname : Ordinary name)
      (hl : entries.lookup name = some (.link target)) :
      Walks tree 0 place (name :: rest) (.error .tooManyLinks)
  | followed {links : Nat} {place : Place} {entries : List (Name × Node)} {name : Name}
      {rest : List Name} {target : Path} {result : Except Fault Place}
      (hnode : place.node = .directory entries) (hname : Ordinary name)
      (hl : entries.lookup name = some (.link target))
      (h : Walks tree links (linkStart tree place target) (target.steps ++ rest) result) :
      Walks tree (links + 1) place (name :: rest) result
  | entered {links : Nat} {place : Place} {entries : List (Name × Node)} {name : Name}
      {rest : List Name} {child : Node} {result : Except Fault Place}
      (hnode : place.node = .directory entries) (hname : Ordinary name)
      (hl : entries.lookup name = some child) (hchild : ∀ target, child ≠ .link target)
      (h : Walks tree links (place.enter name child) rest result) :
      Walks tree links place (name :: rest) result

/-! ## The rules are those of `walk` -/

/-- The names are taken by the rules, if the links are. -/
theorem walks_walkNames {tree : Node} {links : Nat}
    {follow : Place → Path → List Name → Except Fault Place}
    (hfollow : ∀ place entries name rest target, place.node = .directory entries → Ordinary name →
      entries.lookup name = some (.link target) →
        Walks tree links place (name :: rest) (follow place target rest))
    (place : Place) (names : List Name) :
    Walks tree links place names (walkNames .plain follow place names) := by
  induction names generalizing place with
  | nil => exact .arrived
  | cons name rest ih =>
    rw [walkNames]
    split
    · rename_i entries hnode
      by_cases hhere : name = Path.here
      · rw [if_pos hhere, hhere]
        exact .here hnode (ih place)
      by_cases habove : name = Path.above
      · rw [if_neg hhere, if_pos habove, habove]
        exact .above hnode (ih place.up)
      rw [if_neg hhere, if_neg habove]
      by_cases hlong : maxName < name.length
      · rw [if_pos (.inl hlong)]
        exact .tooLong hnode hhere habove hlong
      have hname : Ordinary name := ⟨hhere, habove, by omega⟩
      rw [if_neg (by simp [hlong, Lookup.plain])]
      split
      · rename_i hl
        exact .absent hnode hname hl
      · rename_i target hl
        exact hfollow place entries name rest target hnode hname hl
      · rename_i child hchild hl
        simp only [Lookup.plain, if_true]
        exact .entered hnode hname hl (fun target heq => hchild target heq) (ih _)
    · rename_i hnode
      refine .blocked ?_
      cases hn : place.node with
      | directory entries => exact absurd hn (hnode entries)
      | file _ _ => rfl
      | link _ => rfl
      | special => rfl

/-- How a walk goes on from a link. -/
def followLink (tree : Node) : Nat → Place → Path → List Name → Except Fault Place
  | 0, _, _, _ => .error .tooManyLinks
  | links + 1, place, target, rest =>
    walk .plain tree links (linkStart tree place target) (target.steps ++ rest)

theorem walk_eq_walkNames (tree : Node) (links : Nat) :
    walk .plain tree links = walkNames .plain (followLink tree links) := by
  cases links <;> rfl

/-- A walk takes a name that is looked up. -/
theorem walk_ordinary (tree : Node) (links : Nat) {place : Place} {entries : List (Name × Node)}
    {name : Name} (hnode : place.node = .directory entries) (hname : Ordinary name)
    (rest : List Name) :
    walk .plain tree links place (name :: rest) =
      match entries.lookup name with
      | none => .error .notFound
      | some (.link target) => followLink tree links place target rest
      | some child => walk .plain tree links (place.enter name child) rest := by
  rw [walk_eq_walkNames, walkNames, hnode]
  have hshort : ¬(maxName < name.length ∨ Lookup.plain.admits place name = false) := by
    have := hname.short
    simp only [Lookup.plain, Bool.true_eq_false, or_false]
    omega
  simp only [if_neg hname.not_here, if_neg hname.not_above, if_neg hshort]
  cases entries.lookup name with
  | none => rfl
  | some child => cases child <;> rfl

/-- **A walk is what the rules say.** -/
theorem walks_walk (tree : Node) (links : Nat) (place : Place) (names : List Name) :
    Walks tree links place names (walk .plain tree links place names) := by
  induction links generalizing place names with
  | zero =>
    exact walks_walkNames
      (fun _ _ _ _ _ hnode hname hl => .exhausted hnode hname hl) place names
  | succ links ih =>
    exact walks_walkNames
      (fun _ _ _ _ _ hnode hname hl => .followed hnode hname hl (ih _ _)) place names

/-- The rules leave no choice. -/
theorem Walks.eq {tree : Node} {links : Nat} {place : Place} {names : List Name}
    {result : Except Fault Place} (h : Walks tree links place names result) :
    walk .plain tree links place names = result := by
  induction h with
  | arrived => rw [walk_eq_walkNames, walkNames]
  | blocked hnode =>
    rw [walk_eq_walkNames, walkNames]
    split
    · rename_i hdir
      rw [hdir] at hnode
      cases hnode
    · rfl
  | here hnode _ ih => rw [walk_eq_walkNames, walkNames_here hnode, ← walk_eq_walkNames, ih]
  | above hnode _ ih =>
    rw [walk_eq_walkNames, walkNames, hnode, ← walk_eq_walkNames]
    exact ih
  | tooLong hnode hhere habove hlong =>
    rw [walk_eq_walkNames, walkNames, hnode]
    simp only [if_neg hhere, if_neg habove, if_pos (Or.inl hlong)]
  | absent hnode hname hl => rw [walk_ordinary _ _ hnode hname, hl]
  | exhausted hnode hname hl =>
    rw [walk_ordinary _ _ hnode hname, hl]
    rfl
  | followed hnode hname hl _ ih =>
    rw [walk_ordinary _ _ hnode hname, hl]
    exact ih
  | entered hnode hname hl hchild _ ih =>
    rw [walk_ordinary _ _ hnode hname, hl]
    split
    · rename_i heq
      cases heq
    · rename_i target heq
      rw [Option.some.injEq] at heq
      exact absurd heq (hchild target)
    · rename_i heq
      rw [Option.some.injEq] at heq
      rw [← heq, ih]

theorem walks_iff {tree : Node} {links : Nat} {place : Place} {names : List Name}
    {result : Except Fault Place} :
    Walks tree links place names result ↔ walk .plain tree links place names = result :=
  ⟨Walks.eq, fun h => h ▸ walks_walk tree links place names⟩

/-! ## Longer walks, and more links -/

/-- **A walk along more names goes on from where it came to**, with the links it has left. -/
theorem Walks.append {tree : Node} {links : Nat} {place q : Place} {names : List Name}
    (h : Walks tree links place names (.ok q)) :
    ∃ k ≤ links, ∀ rest result, Walks tree k q rest result →
      Walks tree links place (names ++ rest) result := by
  generalize hr : (Except.ok q : Except Fault Place) = r at h
  induction h with
  | arrived =>
    cases hr
    exact ⟨_, Nat.le_refl _, fun _ _ hw => hw⟩
  | blocked _ | tooLong _ _ _ _ | absent _ _ _ | exhausted _ _ _ => cases hr
  | here hnode _ ih =>
    obtain ⟨k, hk, hgo⟩ := ih hr
    exact ⟨k, hk, fun rest result hw => .here hnode (hgo rest result hw)⟩
  | above hnode _ ih =>
    obtain ⟨k, hk, hgo⟩ := ih hr
    exact ⟨k, hk, fun rest result hw => .above hnode (hgo rest result hw)⟩
  | followed hnode hname hl _ ih =>
    obtain ⟨k, hk, hgo⟩ := ih hr
    refine ⟨k, Nat.le_succ_of_le hk, fun rest result hw => ?_⟩
    have hlonger := hgo rest result hw
    rw [List.append_assoc] at hlonger
    exact .followed hnode hname hl hlonger
  | entered hnode hname hl hchild _ ih =>
    obtain ⟨k, hk, hgo⟩ := ih hr
    exact ⟨k, hk, fun rest result hw => .entered hnode hname hl hchild (hgo rest result hw)⟩

/-- **Unless links run out, their number does not matter.** -/
theorem Walks.more_links {tree : Node} {k : Nat} {place : Place} {names : List Name}
    {result : Except Fault Place} (h : Walks tree k place names result)
    (hr : result ≠ .error .tooManyLinks) {links : Nat} (hk : k ≤ links) :
    Walks tree links place names result := by
  induction h generalizing links with
  | arrived => exact .arrived
  | blocked hnode => exact .blocked hnode
  | here hnode _ ih => exact .here hnode (ih hr hk)
  | above hnode _ ih => exact .above hnode (ih hr hk)
  | tooLong hnode hhere habove hlong => exact .tooLong hnode hhere habove hlong
  | absent hnode hname hl => exact .absent hnode hname hl
  | exhausted _ _ _ => exact absurd rfl hr
  | followed hnode hname hl _ ih =>
    obtain ⟨links, rfl⟩ : ∃ m, links = m + 1 := ⟨links - 1, by omega⟩
    exact .followed hnode hname hl (ih hr (by omega))
  | entered hnode hname hl hchild _ ih => exact .entered hnode hname hl hchild (ih hr hk)

/-! ## Places that walks come to -/

theorem Place.names_enter (place : Place) (name : Name) (child : Node) :
    (place.enter name child).names = place.names ++ [name] := by
  simp [Place.names, Place.enter]

/-- The root of a tree, or an entry of a directory that is reached; not a link. -/
inductive Reached (tree : Node) : Place → Prop
  | root : Reached tree (.root tree)
  | enter {place : Place} {entries : List (Name × Node)} {name : Name} {child : Node}
      (h : Reached tree place) (hnode : place.node = .directory entries) (hname : Ordinary name)
      (hl : entries.lookup name = some child) (hchild : ∀ target, child ≠ .link target) :
      Reached tree (place.enter name child)

namespace Reached

variable {tree : Node} {place : Place}

theorem up (h : Reached tree place) : Reached tree place.up := by
  cases h with
  | root => exact .root
  | enter h _ _ _ _ => exact h

theorem linkStart (h : Reached tree place) (target : Path) :
    Reached tree (linkStart tree place target) := by
  unfold ImageRecipe.linkStart
  split
  · exact .root
  · exact h

/-- What stands at the names of a place is its node. -/
theorem at?_names (h : Reached tree place) : tree.at? place.names = some place.node := by
  induction h with
  | root => rfl
  | enter _ hnode _ hl _ ih =>
    rw [hnode] at ih
    rw [Place.names_enter, Node.at?_concat ih, hl]
    rfl

theorem at?_append (h : Reached tree place) (names : List Name) :
    tree.at? (place.names ++ names) = place.node.at? names := by
  rw [Node.at?_append, h.at?_names]
  rfl

/-- **The names of a place lead to it over no link.** -/
theorem walks (h : Reached tree place) {links : Nat} {rest : List Name}
    {result : Except Fault Place} (hw : Walks tree links place rest result) :
    Walks tree links (.root tree) (place.names ++ rest) result := by
  induction h generalizing rest with
  | root => exact hw
  | enter _ hnode hname hl hchild ih =>
    rw [Place.names_enter, List.append_assoc]
    exact ih (.entered hnode hname hl hchild hw)

/-- Places are told apart by their names. -/
theorem eq_of_names (h : Reached tree place) {other : Place} (hother : Reached tree other)
    (heq : place.names = other.names) : place = other := by
  have ha : Walks tree 0 (.root tree) (place.names ++ []) (.ok place) := h.walks .arrived
  have hb : Walks tree 0 (.root tree) (other.names ++ []) (.ok other) := hother.walks .arrived
  rw [heq] at ha
  exact Except.ok.inj (ha.eq.symm.trans hb.eq)

end Reached

/-- A walk from a place that is reached comes to places that are reached. -/
theorem Walks.reached {tree : Node} {links : Nat} {place q : Place} {names : List Name}
    (h : Walks tree links place names (.ok q)) (hp : Reached tree place) : Reached tree q := by
  generalize hr : (Except.ok q : Except Fault Place) = r at h
  induction h with
  | arrived =>
    cases hr
    exact hp
  | blocked _ | tooLong _ _ _ _ | absent _ _ _ | exhausted _ _ _ => cases hr
  | here _ _ ih => exact ih hp hr
  | above _ _ ih => exact ih hp.up hr
  | followed _ _ _ _ ih => exact ih (hp.linkStart _) hr
  | entered hnode hname hl hchild _ ih => exact ih (.enter hp hnode hname hl hchild) hr

/-! ## Dots -/

/-- Names of which some dots are left out. -/
inductive Thinned : List Name → List Name → Prop
  | nil : Thinned [] []
  | keep {name : Name} {names fewer : List Name} (h : Thinned names fewer) :
      Thinned (name :: names) (name :: fewer)
  | drop {names fewer : List Name} (h : Thinned names fewer) : Thinned (Path.here :: names) fewer

theorem thinned_append (names : List Name) {rest fewer : List Name} (h : Thinned rest fewer) :
    Thinned (names ++ rest) (names ++ fewer) := by
  induction names with
  | nil => exact h
  | cons name names ih => exact .keep ih

theorem thinned_filter (names : List Name) : Thinned names (names.filter (· ≠ Path.here)) := by
  induction names with
  | nil => exact .nil
  | cons name names ih =>
    by_cases h : name = Path.here
    · subst h
      rw [List.filter_cons_of_neg (by simp)]
      exact .drop ih
    · rw [List.filter_cons_of_pos (by simpa using h)]
      exact .keep ih

/-- **Dots do not matter to a walk that arrives.** -/
theorem Walks.thin {tree : Node} {links : Nat} {place q : Place} {names fewer : List Name}
    (h : Walks tree links place names (.ok q)) (ht : Thinned names fewer) :
    Walks tree links place fewer (.ok q) := by
  generalize hr : (Except.ok q : Except Fault Place) = r at h
  induction h generalizing fewer with
  | arrived =>
    cases ht
    exact .arrived
  | blocked _ | tooLong _ _ _ _ | absent _ _ _ | exhausted _ _ _ => cases hr
  | here hnode _ ih =>
    cases ht with
    | keep ht => exact .here hnode (ih ht hr)
    | drop ht => exact ih ht hr
  | above hnode _ ih =>
    cases ht with
    | keep ht => exact .above hnode (ih ht hr)
  | followed hnode hname hl _ ih =>
    cases ht with
    | keep ht => exact .followed hnode hname hl (ih (thinned_append _ ht) hr)
    | drop _ => exact absurd rfl hname.not_here
  | entered hnode hname hl hchild _ ih =>
    cases ht with
    | keep ht => exact .entered hnode hname hl hchild (ih ht hr)
    | drop _ => exact absurd rfl hname.not_here

end ImageRecipe
