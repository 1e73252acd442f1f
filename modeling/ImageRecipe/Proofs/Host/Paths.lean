import ImageRecipe.Proofs.Host.Walk

/-!
# Where paths lead

* `resolve_eq_ok_iff` — a path leads to where a walk along its names comes to;
* `resolve_eq_of_components` — paths of equal components lead to one place, if they lead anywhere;
* `resolve_join` — a path to an entry of a directory leads on from the directory, unless it is too long;
* `walks_of_byOwnPath` — looking at each place by its own path comes to no other place.
-/

set_option autoImplicit false

namespace ImageRecipe

namespace Path

/-! ## Steps and components -/

/-- The name that a component adds to the steps of a path, dots left out. -/
def Component.step? : Component → Option Name
  | .root => none
  | .here => none
  | .above => some Path.above
  | .name bytes => some bytes

theorem filterMap_step? (pieces : List Name) :
    (pieces.filterMap component?).filterMap Component.step? =
      pieces.filter (fun piece => piece ≠ [] ∧ piece ≠ here) := by
  induction pieces with
  | nil => rfl
  | cons piece rest ih =>
    rw [List.filterMap_cons, component?, List.filter_cons]
    by_cases hnil : piece = []
    · simp [hnil, ih]
    by_cases hhere : piece = here
    · simp [hhere, ih]
    by_cases habove : piece = above
    · simp [habove, ih, Component.step?, show above ≠ [] by decide, show above ≠ here by decide]
    · simp [hnil, hhere, habove, ih, Component.step?]

theorem steps_filter (path : Path) : path.steps.filter (· ≠ here) =
    (pieces path.bytes).filter (fun piece => piece ≠ [] ∧ piece ≠ here) := by
  have hnames : ((pieces path.bytes).filter (· ≠ [])).filter (· ≠ here) =
      (pieces path.bytes).filter (fun piece => piece ≠ [] ∧ piece ≠ here) := by
    rw [List.filter_filter]
    congr 1
    funext piece
    simp [and_comm]
  unfold steps
  simp only
  split
  · rw [List.filter_append, hnames]
    simp
  · exact hnames

theorem steps_of_components (path : Path) :
    path.steps.filter (· ≠ here) = path.components.filterMap Component.step? := by
  rw [steps_filter, components, List.filterMap_append, filterMap_step?]
  unfold leading
  split
  · rfl
  · split <;> rfl

theorem component?_ne_root {piece : Name} {c : Component} (h : component? piece = some c) :
    c ≠ .root := by
  unfold component? at h
  split at h
  · cases h
  split at h
  · cases h
  split at h <;> cases h <;> simp

theorem isAbsolute_of_components (path : Path) :
    path.isAbsolute = (path.components.head? == some .root) := by
  unfold components leading
  split
  · rename_i habsolute
    simp [habsolute]
  · rename_i hrelative
    split
    · simp [hrelative]
    · cases hc : (pieces path.bytes).filterMap component? with
      | nil => simpa using hrelative
      | cons c rest =>
        obtain ⟨piece, -, hpiece⟩ := List.mem_filterMap.1 (hc ▸ List.mem_cons_self)
        have := component?_ne_root hpiece
        simp [hrelative, this]

/-! ## Pieces -/

/-- A piece of a path is made of its bytes. -/
theorem sublist_of_mem_pieces {bytes : List UInt8} {piece : Name}
    (h : piece ∈ pieces bytes) : piece.Sublist bytes := by
  induction bytes generalizing piece with
  | nil =>
    rw [pieces, List.mem_singleton] at h
    subst h
    exact List.nil_sublist _
  | cons byte rest ih =>
    rw [pieces] at h
    split at h
    · rcases List.mem_cons.1 h with rfl | h
      · exact List.nil_sublist _
      · exact (ih h).cons byte
    · cases hpieces : pieces rest with
      | nil => exact absurd hpieces (pieces_ne_nil rest)
      | cons first more =>
        rw [hpieces] at h ih
        rcases List.mem_cons.1 h with rfl | h
        · exact (ih List.mem_cons_self).cons_cons byte
        · exact (ih (List.mem_cons_of_mem _ h)).cons byte

theorem slash_not_mem_of_mem_pieces {bytes : List UInt8} {piece : Name}
    (h : piece ∈ pieces bytes) : slash ∉ piece := by
  induction bytes generalizing piece with
  | nil =>
    rw [pieces, List.mem_singleton] at h
    rw [h]
    exact List.not_mem_nil
  | cons byte rest ih =>
    rw [pieces] at h
    split at h
    · rcases List.mem_cons.1 h with rfl | h
      · exact List.not_mem_nil
      · exact ih h
    · rename_i hbyte
      cases hpieces : pieces rest with
      | nil => exact absurd hpieces (pieces_ne_nil rest)
      | cons first more =>
        rw [hpieces] at h ih
        rcases List.mem_cons.1 h with rfl | h
        · rw [List.mem_cons, not_or]
          exact ⟨fun heq => hbyte heq.symm, ih List.mem_cons_self⟩
        · exact ih (List.mem_cons_of_mem _ h)

/-- A relative path goes through some name. -/
theorem steps_ne_nil {path : Path} (hne : path.bytes ≠ []) (hrelative : path.isAbsolute = false) :
    path.steps ≠ [] := by
  obtain ⟨bytes⟩ := path
  cases bytes with
  | nil => exact absurd rfl hne
  | cons byte rest =>
    have hbyte : byte ≠ slash := by simpa [isAbsolute] using hrelative
    have hmem : ∃ first more, pieces (byte :: rest) = (byte :: first) :: more := by
      rw [pieces, if_neg hbyte]
      cases hpieces : pieces rest with
      | nil => exact absurd hpieces (pieces_ne_nil rest)
      | cons first more => exact ⟨first, more, rfl⟩
    obtain ⟨first, more, hpieces⟩ := hmem
    unfold steps
    rw [hpieces]
    split <;> simp

/-! ## Paths to entries -/

/-- The steps of a path, but for the dot that a trailing slash stands for. -/
def plainSteps (path : Path) : List Name := (pieces path.bytes).filter (· ≠ [])

theorem thinned_steps (path : Path) : Thinned path.steps path.plainSteps := by
  have hrefl : ∀ names : List Name, Thinned names names := fun names => by
    simpa using thinned_append names .nil
  unfold steps
  simp only
  split
  · have h := thinned_append path.plainSteps (.drop .nil)
    rwa [List.append_nil] at h
  · exact hrefl _

section Join

variable {path : Path} {name : Name}

theorem bytes_join (hne : path.bytes ≠ []) (hname : Node.properName name = true) :
    (path.join ⟨name⟩).bytes =
      path.bytes ++ (if path.endsInSlash then [] else [slash]) ++ name := by
  obtain ⟨hnil, -, -, hslash, -, -⟩ := Node.properName_iff.1 hname
  have hrelative : (⟨name⟩ : Path).isAbsolute = false := by
    cases name with
    | nil => exact absurd rfl hnil
    | cons byte rest =>
      simp only [List.mem_cons, not_or] at hslash
      simpa [isAbsolute] using fun h => hslash.1 h.symm
  obtain ⟨init, last, hlast⟩ : ∃ init last, path.bytes = init ++ [last] :=
    ⟨_, _, (List.dropLast_concat_getLast hne).symm⟩
  have hends : path.endsInSlash = decide (last = slash) := by
    simp only [endsInSlash, hlast, List.getLast?_append, List.getLast?_singleton, Option.some_or]
    by_cases h : last = slash <;> simp [h]
  unfold join
  rw [if_neg (by simp [hrelative]), hends, hlast]
  by_cases h : last = slash
  · simp [h]
  · simp [h]

theorem join_ne_nil (hne : path.bytes ≠ []) (hname : Node.properName name = true) :
    (path.join ⟨name⟩).bytes ≠ [] := by
  rw [bytes_join hne hname]
  simp [hne]

theorem pieces_join (hne : path.bytes ≠ []) (hname : Node.properName name = true) :
    (pieces (path.join ⟨name⟩).bytes).filter (· ≠ []) = path.plainSteps ++ [name] := by
  obtain ⟨hnil, -, -, hslash, -, -⟩ := Node.properName_iff.1 hname
  have hlast : [name].filter (· ≠ []) = [name] := by simp [hnil]
  rw [bytes_join hne hname, plainSteps]
  by_cases hends : path.endsInSlash = true
  · obtain ⟨init, hinit⟩ : ∃ init, path.bytes = init ++ [slash] := by
      obtain ⟨init, hinit⟩ := List.getLast?_eq_some_iff.1 (beq_iff_eq.1 hends)
      exact ⟨init, hinit⟩
    rw [if_pos hends, hinit, List.append_nil, List.append_assoc, List.singleton_append,
      pieces_append, pieces_append, pieces_of_not_mem hslash, List.filter_append, List.filter_append,
      hlast]
    simp [pieces]
  · rw [if_neg hends, List.append_assoc, List.singleton_append, pieces_append,
      pieces_of_not_mem hslash, List.filter_append, hlast]

theorem steps_join (hne : path.bytes ≠ []) (hname : Node.properName name = true) :
    (path.join ⟨name⟩).steps = path.plainSteps ++ [name] := by
  obtain ⟨hnil, -, -, hslash, -, -⟩ := Node.properName_iff.1 hname
  have hends : (path.join ⟨name⟩).endsInSlash = false := by
    obtain ⟨last, hl⟩ : ∃ last, name.getLast? = some last :=
      ⟨_, List.getLast?_eq_some_getLast hnil⟩
    have hmem := List.mem_of_getLast? hl
    have hlast : last ≠ slash := fun h => hslash (h ▸ hmem)
    rw [endsInSlash, bytes_join hne hname, List.getLast?_append, hl]
    simpa using hlast
  unfold steps
  rw [if_neg (by simp [hends])]
  exact pieces_join hne hname

theorem isAbsolute_join (hne : path.bytes ≠ []) (hname : Node.properName name = true) :
    (path.join ⟨name⟩).isAbsolute = path.isAbsolute := by
  rw [isAbsolute, bytes_join hne hname, isAbsolute, List.append_assoc, List.head?_append]
  cases hb : path.bytes with
  | nil => exact absurd hb hne
  | cons byte rest => rfl

/-- A path to an entry is longer by at least the name. -/
theorem length_join (hne : path.bytes ≠ []) (hname : Node.properName name = true) :
    path.bytes.length + name.length ≤ (path.join ⟨name⟩).bytes.length := by
  rw [bytes_join hne hname]
  simp only [List.length_append]
  omega

end Join

end Path

namespace Host

variable {host : Host} {path : Path} {place : Place}

/-! ## Resolving -/

/-- **A path leads to where a walk along its names comes to.** -/
theorem resolve_eq_ok_iff : host.resolve path = .ok place ↔ refuses? path = none ∧
    Walks host.tree maxLinks (.root host.tree) (host.stepsOf path) (.ok place) := by
  rw [walks_iff, resolve, resolveWith]
  cases hr : refuses? path with
  | none => simp [walkFromRoot]
  | some fault => simp

theorem resolve_of_walks {result : Except Fault Place} (hr : refuses? path = none)
    (hw : Walks host.tree maxLinks (.root host.tree) (host.stepsOf path) result) :
    host.resolve path = result := by
  rw [resolve, resolveWith, hr]
  exact hw.eq

theorem reached_of_resolve (h : host.resolve path = .ok place) : Reached host.tree place :=
  (resolve_eq_ok_iff.1 h).2.reached .root

theorem refuses?_eq_none_iff : refuses? path = none ↔
    0 ∉ path.bytes ∧ path.bytes ≠ [] ∧ path.bytes.length ≤ maxPath := by
  unfold refuses?
  split
  · simp_all
  split
  · simp_all
  split <;> simp_all

/-- **Paths of equal components lead to one place**, if they lead anywhere. -/
theorem resolve_eq_of_components {other : Path} {q : Place} (ha : host.resolve path = .ok place)
    (hb : host.resolve other = .ok q) (h : path.components = other.components) : place = q := by
  have hthin : ∀ p : Path, (host.stepsOf p).filter (· ≠ Path.here) =
      (if p.isAbsolute then [] else host.workdir.filter (· ≠ Path.here)) ++
        p.components.filterMap Path.Component.step? := by
    intro p
    rw [← Path.steps_of_components]
    unfold stepsOf
    split
    · rfl
    · rw [List.filter_append]
  have hwa := (resolve_eq_ok_iff.1 ha).2.thin (thinned_filter _)
  have hwb := (resolve_eq_ok_iff.1 hb).2.thin (thinned_filter _)
  rw [hthin, Path.isAbsolute_of_components] at hwa hwb
  rw [h] at hwa
  exact Except.ok.inj (hwa.eq.symm.trans hwb.eq)

/-- The names that a path goes through from the root, but for the dot that a trailing slash stands
for. -/
def plainStepsOf (host : Host) (path : Path) : List Name :=
  (if path.isAbsolute then [] else host.workdir) ++ path.plainSteps

theorem thinned_stepsOf (host : Host) (path : Path) :
    Thinned (host.stepsOf path) (host.plainStepsOf path) := by
  unfold stepsOf plainStepsOf
  split
  · exact path.thinned_steps
  · exact thinned_append _ path.thinned_steps

theorem stepsOf_join {name : Name} (hne : path.bytes ≠ []) (hname : Node.properName name = true) :
    host.stepsOf (path.join ⟨name⟩) = host.plainStepsOf path ++ [name] := by
  unfold stepsOf plainStepsOf
  rw [Path.isAbsolute_join hne hname, Path.steps_join hne hname]
  split
  · rfl
  · rw [List.append_assoc]

theorem refuses?_join {name : Name} (h : refuses? path = none) (hname : Node.properName name = true) :
    refuses? (path.join ⟨name⟩) =
      if maxPath < (path.join ⟨name⟩).bytes.length then some .nameTooLong else none := by
  obtain ⟨hzero, hne, -⟩ := refuses?_eq_none_iff.1 h
  obtain ⟨hnil, -, -, -, hnul, -⟩ := Node.properName_iff.1 hname
  unfold refuses?
  rw [if_neg, if_neg]
  · rw [Path.bytes_join hne hname]
    simp [hnil]
  · rw [Path.bytes_join hne hname]
    split <;> simp [hzero, hnul, show (0 : UInt8) ≠ Path.slash by decide]

/-- **A path to an entry leads on from the directory**, with fewer links to follow, unless it is too
long. -/
theorem resolve_join (h : host.resolve path = .ok place) :
    ∃ k ≤ maxLinks, ∀ (name : Name) (result : Except Fault Place), Node.properName name = true →
      Walks host.tree k place [name] result → host.resolve (path.join ⟨name⟩) =
        if maxPath < (path.join ⟨name⟩).bytes.length then .error .nameTooLong else result := by
  obtain ⟨hr, hw⟩ := resolve_eq_ok_iff.1 h
  have hne := (refuses?_eq_none_iff.1 hr).2.1
  obtain ⟨k, hk, hgo⟩ := (hw.thin (thinned_stepsOf host path)).append
  refine ⟨k, hk, fun name result hname hnext => ?_⟩
  have hjoin := refuses?_join hr hname
  split
  · rename_i hlong
    rw [if_pos hlong] at hjoin
    exact resolve_of_refuses? hjoin
  · rename_i hshort
    rw [if_neg hshort] at hjoin
    refine resolve_of_walks hjoin ?_
    rw [stepsOf_join hne hname]
    exact hgo [name] result hnext

/-- A path to an entry leads to where the entry's own place leads, unless it is too long or goes over too
many links. -/
theorem walkFromRoot_of_resolve_join (h : host.resolve path = .ok place) {name : Name}
    (hname : Node.properName name = true) {result : Except Fault Place}
    (hjoin : host.resolve (path.join ⟨name⟩) = result) (hlong : result ≠ .error .nameTooLong)
    (hlinks : result ≠ .error .tooManyLinks) :
    host.walkFromRoot .plain (place.names ++ [name]) = result := by
  obtain ⟨k, hk, hgo⟩ := resolve_join h
  have hentry := hgo name _ hname (walks_walk host.tree k place [name])
  rw [hjoin] at hentry
  split at hentry
  · exact absurd hentry hlong
  · have hwalk := walks_walk host.tree k place [name]
    rw [← hentry] at hwalk
    exact ((reached_of_resolve h).walks (hwalk.more_links hlinks hk)).eq

/-- A path to an entry that is no link leads to that entry, if it leads anywhere. -/
theorem resolve_join_enter (h : host.resolve path = .ok place) {entries : List (Name × Node)}
    (hnode : place.node = .directory entries) {name : Name} (hname : Node.properName name = true)
    {child : Node} (hl : entries.lookup name = some child) (hchild : ∀ target, child ≠ .link target)
    {q : Place} (hjoin : host.resolve (path.join ⟨name⟩) = .ok q) : q = place.enter name child := by
  obtain ⟨k, -, hgo⟩ := resolve_join h
  obtain ⟨-, hhere, habove, -, -, hshort⟩ := Node.properName_iff.1 hname
  have hentry := hgo name _ hname (.entered hnode ⟨hhere, habove, hshort⟩ hl hchild .arrived)
  rw [hjoin] at hentry
  split at hentry
  · cases hentry
  · exact Except.ok.inj hentry

/-! ## Real locations -/

/-- A walk that looks at each place by its own path takes names as the rules say, if the links are taken
so. -/
theorem walks_of_walkNames_byOwnPath {tree : Node} {links : Nat}
    {follow : Place → Path → List Name → Except Fault Place}
    {q : Place}
    (hfollow : ∀ place entries name rest target, place.node = .directory entries → Ordinary name →
      entries.lookup name = some (.link target) → follow place target rest = .ok q →
        Walks tree links place (name :: rest) (.ok q))
    {start : Place} {names : List Name} (h : walkNames .byOwnPath follow start names = .ok q) :
    Walks tree links start names (.ok q) := by
  induction names generalizing start with
  | nil =>
    rw [walkNames, Except.ok.injEq] at h
    exact h ▸ .arrived
  | cons name rest ih =>
    rw [walkNames] at h
    split at h
    · rename_i entries hnode
      by_cases hhere : name = Path.here
      · rw [if_pos hhere] at h
        exact hhere ▸ .here hnode (ih h)
      by_cases habove : name = Path.above
      · rw [if_neg hhere, if_pos habove] at h
        exact habove ▸ .above hnode (ih h)
      rw [if_neg hhere, if_neg habove] at h
      split at h
      · cases h
      · rename_i hadmitted
        have hname : Ordinary name :=
          ⟨hhere, habove, Nat.not_lt.1 fun hlong => hadmitted (.inl hlong)⟩
        split at h
        · cases h
        · rename_i target hl
          exact hfollow start entries name rest target hnode hname hl h
        · rename_i child hchild hl
          simp only at h
          split at h
          · exact .entered hnode hname hl (fun target heq => hchild target heq) (ih h)
          · cases h
    · cases h

/-- **Looking at each place by its own path comes to no other place.** -/
theorem walks_of_byOwnPath {tree : Node} {links : Nat} {start q : Place} {names : List Name}
    (h : walk .byOwnPath tree links start names = .ok q) : Walks tree links start names (.ok q) := by
  induction links generalizing start names with
  | zero =>
    rw [walk] at h
    refine walks_of_walkNames_byOwnPath (fun _ _ _ _ _ _ _ _ hf => ?_) h
    cases hf
  | succ links ih =>
    rw [walk] at h
    exact walks_of_walkNames_byOwnPath
      (fun _ _ _ _ _ hnode hname hl hf => .followed hnode hname hl (ih hf)) h

/-- The real location of a path is that of the place it leads to. -/
theorem names_of_realLocation {names : List Name} (h : host.realLocation path = .ok names)
    (hp : host.resolve path = .ok place) : place.names = names := by
  unfold realLocation at h
  cases hq : host.resolveWith .byOwnPath path with
  | error fault => rw [hq] at h; cases h
  | ok q =>
    rw [hq, Except.map, Except.ok.injEq] at h
    have hwalk : host.walkFromRoot .byOwnPath (host.stepsOf path) = .ok q := by
      rw [resolveWith, (resolve_eq_ok_iff.1 hp).1] at hq
      exact hq
    have hplain := walks_of_byOwnPath hwalk
    rw [← h, Except.ok.inj ((resolve_eq_ok_iff.1 hp).2.eq.symm.trans hplain.eq)]

end Host

end ImageRecipe
