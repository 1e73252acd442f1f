import ImageRecipe.Proofs.Context.FirstFault
import ImageRecipe.Proofs.Context.MessageReading
import Mathlib.Data.List.Perm.Basic

/-!
# The log of packaging

Packaging reports what it does while it does it, and what is reported accounts for the archive: every entry
is announced, in order and as what it is; every source that is left as it is written has one message that
says why; and so has everything that is met in a directory and not archived. A message that two sources have
one name stands before each copy whose name was given last to a source of another path, and nowhere else.

* `Left`, `Reasons` — why a source is left as it is written, and the reasons of a row of sources;
* `Skips`, `Told` — what is said of what stands at a place;
* `Warns`, `Rows` — what is said before a copy, and of a row of sources;
* `Accounts` — messages that account for entries.

Principal results:

* `exists_told` — what is said of a place that a copy comes to, one message for each;
* `rows_importSources` — a run over sources tells of its copies, one after another;
* `reasons_of_importEvents` — each source is in the archive or has its reason;
* `packageBytes_accounted` — the messages of packaging account for its archive.
-/

set_option autoImplicit false

namespace ImageRecipe

/-! ## What messages are about -/

namespace Message

/-- What a message says is added: its name, and whether it is a directory. -/
def addition? : Message → Option (String × Bool)
  | addingFile _ name => some (name, false)
  | addingDirectory _ name => some (name, true)
  | _ => none

/-- Whether a message says why a source is left as it is written. -/
def leavesSource : Message → Bool
  | excluded _ | unimportable _ | nameless _ => true
  | _ => false

/-- Whether a message is about a copy, or about something in one. -/
def ofCopy : Message → Bool
  | clash _ _ _ | addingFile _ _ | addingDirectory _ _ | danglingLink _ | linkedDirectory _
  | special _ => true
  | _ => false

/-- Whether a message warns of two things of one name. -/
def warns : Message → Bool
  | shadowed _ _ | clash _ _ _ => true
  | _ => false

/-- What every message of a run that succeeds is like: it is about a source that stays or about a copy, or it
warns of a source that the script shadows; its level says whether it warns; and its text says which message
it is. -/
structure Ordinary (message : Message) : Prop where
  topical : message.leavesSource = true ∨ message.ofCopy = true ∨
    ∃ path name, message = .shadowed path name
  level_eq : message.level = if message.warns then .warn else .debug
  eq_of_text : ∀ other : Message, other.text = message.text → other = message

/-- The message that something is added. -/
def adding (path : Path) (name : String) : Tar.Body → Message
  | .directory => .addingDirectory path name
  | _ => .addingFile path name

end Message

/-! ## Accounts -/

/-- Why a source is left as it is written, and the message that says so. -/
inductive Left (host : Host) (options : Options) (source : String) : Message → Prop
  | excluded {path : Path} (hmem : path ∈ options.excluded)
      (h : path.components = (Path.ofString source).components) :
      Left host options source (.excluded (.ofString source))
  | unimportable (hkept : options.excludes (.ofString source) = false)
      (h : ∀ node place, ¬Found host (.ofString source) node place) :
      Left host options source (.unimportable (.ofString source))
  | nameless {node : Node} {place : Place} (hkept : options.excludes (.ofString source) = false)
      (hfound : Found host (.ofString source) node place)
      (h : (Path.ofString source).fileName?.or place.names.getLast? = none) :
      Left host options source (.nameless (.ofString source))

/-- The reasons of a row of sources: what is to be imported is in the archive, and any other source has one
reason. -/
inductive Reasons (host : Host) (options : Options) (entries : List Tar.Entry) :
    List String → List Message → Prop
  | nothing : Reasons host options entries [] []
  | imported {source name : String} {place : Place} {sources : List String} {reasons : List Message}
      (himport : Importable host options source place name)
      (harchived : Archived host place name entries)
      (h : Reasons host options entries sources reasons) :
      Reasons host options entries (source :: sources) reasons
  | left {source : String} {reason : Message} {sources : List String} {reasons : List Message}
      (hleft : Left host options source reason)
      (h : Reasons host options entries sources reasons) :
      Reasons host options entries (source :: sources) (reason :: reasons)

/-- Why something that stands at a place of the tree is not archived, and the message that says so. -/
inductive Skips (host : Host) (place : List Name) (path : Path) : Node → Message → Prop
  | dangling {target : Path} (h : host.walkFromRoot .plain place = .error .notFound) :
      Skips host place path (.link target) (.danglingLink path)
  | linkedDirectory {target : Path} {entries : List (Name × Node)} {way : List (Name × Node)}
      (h : host.walkFromRoot .plain place = .ok ⟨.directory entries, way⟩) :
      Skips host place path (.link target) (.linkedDirectory path)
  | linkedSpecial {target : Path} {way : List (Name × Node)}
      (h : host.walkFromRoot .plain place = .ok ⟨.special, way⟩) :
      Skips host place path (.link target) (.special path)
  | special : Skips host place path .special (.special path)

/-- What is said of what stands at a place, when it is reached by a path and under a name: what the place
shows of itself is announced, and anything else is skipped. -/
inductive Told (host : Host) (place : List Name) (path : Path) (name : String) (node : Node) :
    Message → Prop
  | added {body : Tar.Body} (h : Shown host place ⟨[], body⟩) :
      Told host place path name node (.adding path name body)
  | skipped {message : Message} (hnot : ∀ body, ¬Shown host place ⟨[], body⟩)
      (h : Skips host place path node message) : Told host place path name node message

/-- What is said of a stop in the tour of a copy of what stands at a place. -/
def ToldAt (host : Host) (place : List Name) (copy : Copy) (stop : Stop) : Message → Prop :=
  Told host (place ++ stop.names) (stop.path copy.path) (stop.names.foldl entryName copy.name)
    stop.node

/-- The copy that was made last under a name. -/
def lastNamed (name : String) (made : List Copy) : Option Copy :=
  (made.filter (·.name = name)).getLast?

/-- What is said before a copy is made: that its name has been given to two sources, if the copy made last
under it was of another path. -/
inductive Warns (before : List Copy) (copy : Copy) : List Message → Prop
  | first (h : lastNamed copy.name before = none) : Warns before copy []
  | again {earlier : Copy} (h : lastNamed copy.name before = some earlier)
      (hother : earlier.path.components ≠ copy.path.components) :
      Warns before copy [.clash earlier.path copy.path copy.name]

/-- What is said of a row of sources, after the copies made before, and the copies that are made of them. A
source is passed over in silence if the copy made last under its name is of the same path. Of any other one
message is said for each stop of its tour, after what is said before it. -/
inductive Rows (host : Host) : List Copy → List Copy → List Copy → List Message → Prop
  | nothing {before : List Copy} : Rows host before [] [] []
  | repeated {before sources made : List Copy} {earlier source : Copy} {log : List Message}
      (hlast : lastNamed source.name before = some earlier)
      (hsame : earlier.path.components = source.path.components)
      (h : Rows host before sources made log) : Rows host before (source :: sources) made log
  | copied {before sources made : List Copy} {copy : Copy} {place : Place} {stops : List Stop}
      {warning told log : List Message} (hfound : Found host copy.path copy.node place)
      (hwarns : Warns before copy warning) (htours : Tours copy.node stops)
      (htold : List.Forall₂ (ToldAt host place.names copy) stops told)
      (h : Rows host (before ++ [copy]) sources made log) :
      Rows host before (copy :: sources) (copy :: made) (warning ++ told ++ log)

/-- The messages account for the entries of an archive: additions are announced in order, sources that are
not imported have their reasons, each copy is told of, and nothing else is said but warnings of what the
script shadows. -/
structure Accounts (host : Host) (options : Options) (file : Dockerfile) (entries : List Tar.Entry)
    (log : List Message) : Prop where
  additions : log.filterMap Message.addition? =
    entries.map fun entry => (entry.name, decide (entry.body = .directory))
  reasons : ∃ reasons, Reasons host options entries file.sources reasons ∧
    reasons.Perm (log.filter (·.leavesSource))
  copies : Rows host [] (importedSources host options file.sources) (copies host options file)
    (log.filter (·.ofCopy))
  ordinary : ∀ message ∈ log, message.Ordinary

/-! ## Additions -/

/-- **An event that does not fail announces what it adds**, and nothing else. -/
theorem Event.addition?_messages {event : Event} (h : event.failure? = none) :
    event.messages.filterMap Message.addition? =
      (event.entry?.map fun entry => (entry.name, decide (entry.body = .directory))).toList := by
  cases event <;> first | rfl | cases h

/-- **The announcements of events that do not fail are their entries**, in order. -/
theorem additions_messages {events : List Event} (hok : firstFailure? events = none) :
    (events.flatMap Event.messages).filterMap Message.addition? =
      (events.filterMap Event.entry?).map
        fun entry => (entry.name, decide (entry.body = .directory)) := by
  rw [List.filterMap_flatMap, List.map_filterMap, List.filterMap_eq_flatMap_toList]
  exact List.flatMap_congr fun event hevent =>
    event.addition?_messages (firstFailure?_eq_none_iff.1 hok event hevent)

theorem firstFailure?_singleton_eq_none {event : Event} :
    firstFailure? [event] = none ↔ event.failure? = none := by
  simp [firstFailure?_eq_none_iff]

/-! ## Places of a tour -/

section

variable {host : Host} {place : List Name}

/-- What stands at a place settles what it shows of itself. -/
theorem shown_self_iff {node : Node} {body : Tar.Body} (hat : host.tree.at? place = some node) :
    Shown host place ⟨[], body⟩ ↔
      (∃ entries, node = .directory entries ∧ body = .directory) ∨
      (∃ content mode, (node = .file content mode ∨ (∃ target, node = .link target) ∧
        ∃ way, host.walkFromRoot .plain place = .ok ⟨.file content mode, way⟩) ∧
          body = .file content (Node.ownerMayRun mode)) := by
  rw [← List.append_nil place] at hat
  have hself := @Shown.entry_iff host place [] node body hat
  rwa [List.append_nil] at hself

/-- Where something stands below it, the root is a directory. -/
theorem Node.isDirectory_of_at? {tree node : Node} {location : List Name}
    (h : tree.at? location = some node) (hne : location ≠ []) : tree.isDirectory = true := by
  by_contra hnot
  rw [Node.at?_of_not_directory (Bool.not_eq_true _ ▸ hnot) hne] at h
  cases h

/-- An entry stands in a directory. -/
theorem Node.exists_of_at?_concat {tree node : Node} {outer : List Name} {name : Name}
    (h : tree.at? (outer ++ [name]) = some node) :
    ∃ held, tree.at? outer = some (.directory held) ∧ held.lookup name = some node := by
  rw [Node.at?_append] at h
  obtain ⟨above, habove, hname⟩ := Option.bind_eq_some_iff.1 h
  cases above with
  | file _ _ | link _ | special => cases hname
  | directory held =>
    rw [Node.at?_directory_cons] at hname
    obtain ⟨child, hl, hchild⟩ := Option.bind_eq_some_iff.1 hname
    exact ⟨held, habove, hl.trans hchild⟩

/-- No path leads to a link. -/
theorem node_ne_link {path : Path} {there : Place} (hroot : host.tree.isDirectory = true)
    (hleads : host.resolve path = .ok there) (target : Path) : there.node ≠ .link target := by
  intro hlink
  cases Host.reached_of_resolve hleads with
  | root =>
    rw [show host.tree = .link target from hlink] at hroot
    cases hroot
  | enter _ _ _ _ hchild => exact hchild target hlink

end

/-! ## What is said of a copy -/

section

variable {host : Host} {copy : Copy} {place : Place}

/-- The paths of all directories below a source lead somewhere. -/
def Enterable (host : Host) (path : Path) (node : Node) : Prop :=
  ∀ names entries, node.at? names = some (.directory entries) →
    ∃ place, host.resolve (names.foldl entryPath path) = .ok place

/-- An entry of the directory that a path leads to has a proper name, and stands below the place. -/
theorem entry_of_resolve (hwf : host.WellFormed) {path : Path} (hleads : host.resolve path = .ok place)
    {held : List (Name × Node)} (hnode : place.node = .directory held) {name : Name} {child : Node}
    (hl : held.lookup name = some child) :
    Node.properName name = true ∧ host.tree.at? (place.names ++ [name]) = some child := by
  have hheld : host.tree.at? place.names = some (.directory held) :=
    hnode ▸ (Host.reached_of_resolve hleads).at?_names
  exact ⟨(hwf.listing hheld).proper name (List.mem_map_of_mem (Node.mem_of_lookup hl)),
    (Node.at?_concat hheld name).trans hl⟩

/-- **Every directory below a source is where its path leads**, if it can be entered. -/
theorem resolve_below (hwf : host.WellFormed) {path : Path} {node : Node}
    (hfound : Found host path node place) (henter : Enterable host path node) {names : List Name}
    {entries : List (Name × Node)} (hat : node.at? names = some (.directory entries)) :
    ∃ q, host.resolve (names.foldl entryPath path) = .ok q ∧ q.names = place.names ++ names ∧
      q.node = .directory entries := by
  -- from the outside in: the path of a directory leads there if that of the one above does
  induction names using List.reverseRecOn generalizing entries with
  | nil =>
    exact ⟨place, hfound.leads, (List.append_nil _).symm, hfound.node_eq.trans (Option.some.inj hat)⟩
  | append_singleton outer name ih =>
    obtain ⟨held, houter, hl⟩ := Node.exists_of_at?_concat hat
    obtain ⟨above, habove, hnames, hnode⟩ := ih houter
    have hproper := (entry_of_resolve hwf habove hnode hl).1
    obtain ⟨q, hq⟩ := henter _ _ hat
    rw [List.foldl_concat] at hq ⊢
    obtain rfl := Host.resolve_join_enter habove hnode hproper hl (fun _ => Node.noConfusion) hq
    exact ⟨_, hq, by rw [Place.names_enter, hnames, List.append_assoc], rfl⟩

/-- **One thing is said of a link in a directory**, by what it leads to. -/
theorem told_of_link {path : Path} {name : String} {entry : Name} {target : Path}
    (hleads : host.resolve path = .ok place) (hproper : Node.properName entry = true)
    (hat : host.tree.at? (place.names ++ [entry]) = some (.link target))
    (hok : firstFailure? (meet host (entryPath path entry) (entryName name entry) (.link target)) =
      none) :
    ∃ message, (meet host (entryPath path entry) (entryName name entry) (.link target)).flatMap
        Event.messages = [message] ∧
      Told host (place.names ++ [entry]) (entryPath path entry) (entryName name entry) (.link target)
        message := by
  have hwalk := link_of_succeeds hleads hproper hok
  have hshown := fun body : Tar.Body => @shown_self_iff host (place.names ++ [entry]) _ body hat
  rw [meet] at hok ⊢
  cases hr : host.resolve (entryPath path entry) with
  | ok q =>
    obtain ⟨there, way⟩ := q
    rw [hr] at hok hwalk
    cases there with
    | file content mode =>
      simp only [firstFailure?_singleton_eq_none] at hok
      simp only [addFile_of_succeeds hok]
      exact ⟨_, rfl, .added ((hshown _).2 (.inr ⟨content, mode, .inr ⟨⟨_, rfl⟩, way, hwalk⟩, rfl⟩))⟩
    | directory held =>
      exact ⟨_, rfl, .skipped (fun body hs => by simpa [hwalk] using (hshown body).1 hs)
        (.linkedDirectory hwalk)⟩
    | special =>
      exact ⟨_, rfl, .skipped (fun body hs => by simpa [hwalk] using (hshown body).1 hs)
        (.linkedSpecial hwalk)⟩
    | link other =>
      have hroot := Node.isDirectory_of_at? hat (List.append_ne_nil_of_right_ne_nil _ (by simp))
      exact absurd rfl (node_ne_link hroot hr other)
  | error fault =>
    rw [hr] at hok hwalk
    by_cases hfault : fault = .notFound
    · subst hfault
      exact ⟨_, rfl, .skipped (fun body hs => by simpa [hwalk] using (hshown body).1 hs)
        (.dangling hwalk)⟩
    · simp [hfault, firstFailure?, Event.failure?] at hok

/-- One thing is said of a link in the tour of a copy. -/
theorem told_of_linkStop (hwf : host.WellFormed) (hfound : Found host copy.path copy.node place)
    (henter : Enterable host copy.path copy.node) {names : List Name} {target : Path}
    (hat : copy.node.at? names = some (.link target))
    (hok : firstFailure? (Stop.events host copy.path copy.name ⟨names, .link target⟩) = none) :
    ∃ message, (Stop.events host copy.path copy.name ⟨names, .link target⟩).flatMap Event.messages =
        [message] ∧ ToldAt host place.names copy ⟨names, .link target⟩ message := by
  obtain rfl | ⟨outer, entry, rfl⟩ := List.eq_nil_or_concat' names
  · rcases hfound.held with ⟨_, _, hnode⟩ | ⟨_, hnode⟩ <;> rw [hnode] at hat <;> cases hat
  -- the directory that holds the link is where its own path leads
  obtain ⟨held, houter, hl⟩ := Node.exists_of_at?_concat hat
  obtain ⟨above, habove, hnames, hnode⟩ := resolve_below hwf hfound henter houter
  obtain ⟨hproper, hlink⟩ := entry_of_resolve hwf habove hnode hl
  simp only [ToldAt, Stop.events, visit, Stop.path, List.foldl_concat] at hok ⊢
  rw [← List.append_assoc, ← hnames]
  exact told_of_link habove hproper hlink hok

/-- **Of each stop in the tour of a copy one thing is said**, if nothing fails there. -/
theorem told_of_stop (hwf : host.WellFormed) (hfound : Found host copy.path copy.node place)
    (henter : Enterable host copy.path copy.node) {stop : Stop}
    (hat : copy.node.at? stop.names = some stop.node)
    (hok : firstFailure? (stop.events host copy.path copy.name) = none) :
    ∃ message, (stop.events host copy.path copy.name).flatMap Event.messages = [message] ∧
      ToldAt host place.names copy stop message := by
  obtain ⟨names, node⟩ := stop
  have hbelow : host.tree.at? (place.names ++ names) = some node := by
    rwa [(Host.reached_of_resolve hfound.leads).at?_append, hfound.node_eq]
  have hshown := fun body : Tar.Body => @shown_self_iff host (place.names ++ names) _ body hbelow
  cases node with
  | link target => exact told_of_linkStop hwf hfound henter hat hok
  | directory entries =>
    simp only [Stop.events, visit, firstFailure?_singleton_eq_none] at hok
    simp only [Stop.events, visit, (addDirectory_of_succeeds hok).1]
    exact ⟨_, rfl, .added ((hshown _).2 (.inl ⟨entries, rfl, rfl⟩))⟩
  | file content mode =>
    simp only [Stop.events, visit, meet, firstFailure?_singleton_eq_none] at hok
    simp only [Stop.events, visit, meet, addFile_of_succeeds hok]
    exact ⟨_, rfl, .added ((hshown _).2 (.inr ⟨content, mode, .inl rfl, rfl⟩))⟩
  | special =>
    simp only [Stop.events, visit, meet]
    exact ⟨_, rfl, .skipped (fun body hs => by simpa using (hshown body).1 hs) .special⟩

/-- Rows of one element each, all put together, go along with what they are the rows of. -/
theorem forall₂_flatMap {α β : Type} {row : α → List β} {R : α → β → Prop} {items : List α}
    (h : ∀ item ∈ items, ∃ b, row item = [b] ∧ R item b) :
    List.Forall₂ R items (items.flatMap row) := by
  induction items with
  | nil => exact .nil
  | cons item rest ih =>
    obtain ⟨⟨b, hrow, hb⟩, hrest⟩ := List.forall_mem_cons.1 h
    rw [List.flatMap_cons, hrow, List.singleton_append]
    exact .cons hb (ih hrest)

/-- **What is said of a copy**: one thing of each stop of its tour. -/
theorem exists_told (hwf : host.WellFormed) (hfound : Found host copy.path copy.node place)
    (hok : firstFailure? (copy.additions host) = none) :
    ∃ stops, Tours copy.node stops ∧
      List.Forall₂ (ToldAt host place.names copy) stops ((copy.additions host).flatMap Event.messages) := by
  obtain ⟨stops, htours, hevents⟩ := exists_tour_additions hwf hfound
  rw [Copy.additions, hevents, firstFailure?_flatMap_eq_none] at hok
  have henter : Enterable host copy.path copy.node := by
    intro names entries hat
    have hstop := hok ⟨names, .directory entries⟩ ((htours.all _).2 hat)
    rw [Stop.events, visit, firstFailure?_singleton_eq_none] at hstop
    exact (addDirectory_of_succeeds hstop).2
  refine ⟨stops, htours, ?_⟩
  rw [Copy.additions, hevents, List.flatMap_assoc]
  exact forall₂_flatMap fun stop hstop =>
    told_of_stop hwf hfound henter ((htours.all stop).1 hstop) (hok stop hstop)

end

/-! ## What is said of a row of copies -/

section

variable {host : Host} {added : Added} {before : List Copy} {copy : Copy} {place : Place}

/-- The sources added last under their names are those of the copies made last. -/
def Remembers (added : Added) (made : List Copy) : Prop :=
  ∀ name, added.lookup name = (lastNamed name made).map Copy.path

theorem lastNamed_concat (name : String) :
    lastNamed name (before ++ [copy]) =
      if copy.name = name then some copy else lastNamed name before := by
  rw [lastNamed, List.filter_append, List.filter_singleton]
  by_cases hname : copy.name = name <;> simp [hname, lastNamed]

theorem Remembers.concat (h : Remembers added before) :
    Remembers ((copy.name, copy.path) :: added) (before ++ [copy]) := by
  intro name
  rw [List.lookup_cons, lastNamed_concat, h name]
  by_cases hname : copy.name = name
  · simp [hname]
  · rw [if_neg hname, beq_eq_false_iff_ne.2 (Ne.symm hname)]

/-- A source is passed over after a copy of the same path. -/
theorem Remembers.last_of_repeats (h : Remembers added before) (hrepeats : copy.repeats added = true) :
    ∃ earlier, lastNamed copy.name before = some earlier ∧
      earlier.path.components = copy.path.components := by
  rw [Copy.repeats, h copy.name, Option.any_map] at hrepeats
  obtain ⟨earlier, hlast, hsame⟩ := (Option.any_eq_true _ _).1 hrepeats
  exact ⟨earlier, hlast, Path.same_iff.1 hsame⟩

theorem Told.ofCopy {location : List Name} {path : Path} {name : String} {node : Node}
    {message : Message} (h : Told host location path name node message) :
    message.ofCopy = true ∧ message.leavesSource = false := by
  cases h with
  | @added body _ => cases body <;> exact ⟨rfl, rfl⟩
  | skipped _ h => cases h <;> exact ⟨rfl, rfl⟩

/-- What is said of the stops of a copy is all about it. -/
theorem filter_of_told {stops : List Stop} {told : List Message}
    (h : List.Forall₂ (ToldAt host place.names copy) stops told) :
    told.filter (·.ofCopy) = told ∧ told.filter (·.leavesSource) = [] := by
  induction h with
  | nil => exact ⟨rfl, rfl⟩
  | cons hfirst _ ih =>
    obtain ⟨hcopy, hleaves⟩ := Told.ofCopy hfirst
    rw [List.filter_cons_of_pos hcopy, List.filter_cons_of_neg (by simp [hleaves]), ih.1, ih.2]
    exact ⟨rfl, rfl⟩

/-- What is said of a source before it is copied or passed over: of its name, if it is that of the script,
and of the source added last under it, if that has another path. -/
theorem messages_remarks : (copy.remarks added).flatMap Event.messages =
    (if copy.name = scriptName then [.shadowed copy.path copy.name] else []) ++
      ((added.lookup copy.name).toList.filter (!·.same copy.path)).map
        (.clash · copy.path copy.name) := by
  rw [Copy.remarks, List.flatMap_append, List.flatMap_map]
  congr 1
  · split <;> rfl
  · exact List.map_eq_flatMap.symm

theorem ofCopy_remarks : ((copy.remarks added).flatMap Event.messages).filter (·.ofCopy) =
    ((added.lookup copy.name).toList.filter (!·.same copy.path)).map
      (.clash · copy.path copy.name) := by
  have hshadow : (if copy.name = scriptName then [Message.shadowed copy.path copy.name] else []).filter
      (·.ofCopy) = [] := by
    split <;> rfl
  rw [messages_remarks, List.filter_append, hshadow, List.nil_append, List.filter_eq_self]
  intro message hmessage
  obtain ⟨earlier, -, rfl⟩ := List.mem_map.1 hmessage
  rfl

theorem leavesSource_remarks :
    ((copy.remarks added).flatMap Event.messages).filter (·.leavesSource) = [] := by
  rw [messages_remarks, List.filter_eq_nil_iff]
  intro message hmessage
  rcases List.mem_append.1 hmessage with hmessage | hmessage
  · split at hmessage
    · rw [List.mem_singleton.1 hmessage]
      exact Bool.false_ne_true
    · cases hmessage
  · obtain ⟨earlier, -, rfl⟩ := List.mem_map.1 hmessage
    exact Bool.false_ne_true

/-- Of a source that is passed over nothing is said as of a copy. -/
theorem ofCopy_remarks_of_repeats (h : copy.repeats added = true) :
    ((copy.remarks added).flatMap Event.messages).filter (·.ofCopy) = [] := by
  obtain ⟨earlier, hlookup, hsame⟩ := (Option.any_eq_true _ _).1 h
  rw [ofCopy_remarks, hlookup]
  simp [hsame]

/-- **What is said before a copy is made.** -/
theorem warns_remarks (hremembers : Remembers added before) (hnew : ¬copy.repeats added = true) :
    Warns before copy (((copy.remarks added).flatMap Event.messages).filter (·.ofCopy)) := by
  rw [ofCopy_remarks, hremembers copy.name]
  rw [Copy.repeats, hremembers copy.name] at hnew
  cases hlast : lastNamed copy.name before with
  | none => exact .first hlast
  | some earlier =>
    have hother : ¬earlier.path.same copy.path = true := by simpa [hlast] using hnew
    have hwarns := Warns.again hlast fun h => hother (Path.same_iff.2 h)
    simpa [hother] using hwarns

/-- What is said of a source that has no name. -/
def namelessMessage? (host : Host) (found : Path × Node) : Option Message :=
  match baseName host found.1 with
  | .ok none => some (.nameless found.1)
  | _ => none

/-- What is said of a source of which no copy can be made is only that it has no name. -/
theorem messages_of_nameless (added : Added) {found : Path × Node}
    (h : Copy.ofFound? host found = none) :
    (importSource host added found.1 found.2).1.flatMap Event.messages =
      (namelessMessage? host found).toList := by
  unfold Copy.ofFound? at h
  unfold namelessMessage?
  cases hbase : baseName host found.1 with
  | error fault =>
    rw [importSource, hbase]
    rfl
  | ok result =>
    cases result with
    | none =>
      rw [importSource, hbase]
      rfl
    | some name =>
      rw [hbase] at h
      cases h

theorem filter_namelessMessage? {found : Path × Node} :
    (namelessMessage? host found).toList.filter (·.ofCopy) = [] ∧
      (namelessMessage? host found).toList.filter (·.leavesSource) =
        (namelessMessage? host found).toList := by
  unfold namelessMessage?
  split <;> exact ⟨rfl, rfl⟩

theorem namelessMessage?_eq_none (hbase : baseName host copy.path = .ok (some copy.name)) :
    namelessMessage? host (copy.path, copy.node) = none := by
  rw [namelessMessage?, hbase]

/-- **A run over sources tells of its copies**, one after another, and says of which sources it makes none
because they have no name. -/
theorem rows_importSources (hwf : host.WellFormed) {found : List (Path × Node)}
    (hfound : ∀ source ∈ found, ∃ place, Found host source.1 source.2 place)
    (hremembers : Remembers added before)
    (hok : firstFailure? (importSources host added found) = none) :
    Rows host before (found.filterMap (Copy.ofFound? host))
        (copiesAfter added (found.filterMap (Copy.ofFound? host)))
        (((importSources host added found).flatMap Event.messages).filter (·.ofCopy)) ∧
      ((importSources host added found).flatMap Event.messages).filter (·.leavesSource) =
        found.filterMap (namelessMessage? host) := by
  induction found generalizing added before with
  | nil => exact ⟨.nothing, rfl⟩
  | cons first rest ih =>
    obtain ⟨⟨place, hplace⟩, hrest⟩ := List.forall_mem_cons.1 hfound
    have hsplit : importSources host added (first :: rest) =
        (importSource host added first.1 first.2).1 ++
          importSources host (importSource host added first.1 first.2).2 rest := rfl
    rw [hsplit, firstFailure?_append_eq_none] at hok
    rw [hsplit, List.flatMap_append, List.filter_append, List.filter_append]
    cases hfirst : Copy.ofFound? host first with
    | none =>
      rw [(importSource_of_nameless added hfirst).2] at hok ⊢
      obtain ⟨hrows, hleft⟩ := ih hrest hremembers hok.2
      rw [messages_of_nameless added hfirst, List.filterMap_cons_none hfirst,
        filter_namelessMessage?.1, filter_namelessMessage?.2, hleft]
      exact ⟨hrows, by cases h : namelessMessage? host first <;> simp [h]⟩
    | some copy =>
      obtain ⟨rfl, hbase⟩ := ofFound?_eq_some_iff.1 hfirst
      rw [List.filterMap_cons_some hfirst, copiesAfter,
        List.filterMap_cons_none (namelessMessage?_eq_none hbase)]
      rw [importSource_copy hbase] at hok ⊢
      by_cases hrepeats : copy.repeats added = true
      · rw [if_pos hrepeats] at hok ⊢
        obtain ⟨hrows, hleft⟩ := ih hrest hremembers hok.2
        -- nothing is said of the source, and the copies made stay those that are remembered
        obtain ⟨earlier, hlast, hsame⟩ := hremembers.last_of_repeats hrepeats
        rw [if_pos hrepeats, ofCopy_remarks_of_repeats hrepeats, leavesSource_remarks]
        exact ⟨.repeated hlast hsame hrows, hleft⟩
      · rw [if_neg hrepeats] at hok ⊢
        obtain ⟨hrows, hleft⟩ := ih hrest hremembers.concat hok.2
        obtain ⟨stops, htours, htold⟩ :=
          exists_told hwf hplace (firstFailure?_append_eq_none.1 hok.1).2
        obtain ⟨htoldCopy, htoldLeaves⟩ := filter_of_told htold
        rw [if_neg hrepeats, List.flatMap_append, List.filter_append, List.filter_append,
          leavesSource_remarks, htoldCopy, htoldLeaves]
        exact ⟨.copied hplace (warns_remarks hremembers hrepeats) htours htold hrows, hleft⟩

end

/-! ## Reasons -/

section

variable {host : Host} {options : Options}

/-- What is said of a source that is not imported. -/
def reason? (host : Host) (options : Options) (source : String) : Option Message :=
  match Source.find host options (.ofString source) with
  | .excluded => some (.excluded (.ofString source))
  | .unimportable => some (.unimportable (.ofString source))
  | .file content mode => namelessMessage? host (.ofString source, .file content mode)
  | .directory entries => namelessMessage? host (.ofString source, .directory entries)

/-- What is said of a source when the sources are told apart. -/
def sortingMessages (host : Host) (options : Options) (source : String) : List Message :=
  (sortingEvent? (.ofString source) (Source.find host options (.ofString source))).toList.flatMap
    Event.messages

/-- **The reason of a source is given in one of three places**: when the sources are told apart, or when it
is to be imported, with the files or with the directories. -/
theorem reason?_toList (source : String) :
    (sortingMessages host options source).filter (·.leavesSource) ++
      (((foundAs? host options false source).bind (namelessMessage? host)).toList ++
        ((foundAs? host options true source).bind (namelessMessage? host)).toList) =
      (reason? host options source).toList := by
  unfold reason? foundAs? sortingMessages
  cases Source.find host options (.ofString source) with
  | excluded | unimportable => rfl
  | file content mode => exact List.append_nil _
  | directory entries => rfl

/-- A source is told to be excluded exactly if it is. -/
theorem find_eq_excluded_iff {path : Path} :
    Source.find host options path = .excluded ↔ options.excludes path = true := by
  unfold Source.find
  by_cases hexcludes : options.excludes path = true
  · simp [hexcludes]
  · rw [if_neg hexcludes]
    split <;> simp [hexcludes]

/-- Nothing is found at a source that is told to be neither a file nor a directory. -/
theorem not_found_of_find {path : Path} (h : Source.find host options path = .unimportable)
    (node : Node) (place : Place) : ¬Found host path node place := by
  intro hfound
  have hkept : options.excludes path = false := by
    rw [← Bool.not_eq_true, ← find_eq_excluded_iff, h]
    exact Source.noConfusion
  have hnode := find_node?_iff.2 ⟨hkept, place, hfound⟩
  rw [h] at hnode
  cases hnode

theorem namelessMessage?_eq_some_iff {found : Path × Node} {message : Message} :
    namelessMessage? host found = some message ↔
      baseName host found.1 = .ok none ∧ message = .nameless found.1 := by
  unfold namelessMessage?
  split
  · rename_i hbase
    simp [hbase, eq_comm]
  · rename_i hbase
    simpa using fun h => absurd h hbase

/-- A source that is found and has no name is left as it is written. -/
theorem left_of_namelessMessage? {source : String} {node : Node} {reason : Message}
    (hnode : (Source.find host options (.ofString source)).node? = some node)
    (h : namelessMessage? host (.ofString source, node) = some reason) :
    Left host options source reason := by
  obtain ⟨hkept, place, hfound⟩ := find_node?_iff.1 hnode
  obtain ⟨hbase, rfl⟩ := namelessMessage?_eq_some_iff.1 h
  exact .nameless hkept hfound (Option.map_eq_none_iff.1 (baseName_of_resolve hfound.leads hbase).symm)

/-- **The reason of a source is why it is left as it is written.** -/
theorem left_of_reason? {source : String} {reason : Message}
    (h : reason? host options source = some reason) : Left host options source reason := by
  unfold reason? at h
  cases hfind : Source.find host options (.ofString source) with
  | excluded =>
    rw [hfind] at h
    cases h
    obtain ⟨path, hmem, hpath⟩ := Options.excludes_iff.1 (find_eq_excluded_iff.1 hfind)
    exact .excluded hmem hpath
  | unimportable =>
    rw [hfind] at h
    cases h
    refine .unimportable ?_ (not_found_of_find hfind)
    rw [← Bool.not_eq_true, ← find_eq_excluded_iff, hfind]
    exact Source.noConfusion
  | file _ _ | directory _ =>
    rw [hfind] at h
    exact left_of_namelessMessage? (by rw [hfind]; rfl) h

/-- A source that is found and has a name is to be imported. -/
theorem importable_of_namelessMessage? {source : String} {node : Node} {result : Option String}
    (hnode : (Source.find host options (.ofString source)).node? = some node)
    (hbase : baseName host (.ofString source) = .ok result)
    (h : namelessMessage? host (.ofString source, node) = none) :
    ∃ place name, Importable host options source place name := by
  cases result with
  | none =>
    rw [namelessMessage?, hbase] at h
    cases h
  | some name =>
    obtain ⟨place, -, himport⟩ := importable_of_find hnode hbase
    exact ⟨place, name, himport⟩

/-- **A source without a reason is to be imported**, if it can be named. -/
theorem importable_of_reason? {source : String}
    (hnamed : ∀ node, (Source.find host options (.ofString source)).node? = some node →
      ∃ result, baseName host (.ofString source) = .ok result)
    (h : reason? host options source = none) :
    ∃ place name, Importable host options source place name := by
  unfold reason? at h
  cases hfind : Source.find host options (.ofString source) with
  | excluded | unimportable =>
    rw [hfind] at h
    cases h
  | file _ _ | directory _ =>
    rw [hfind] at h hnamed
    obtain ⟨result, hbase⟩ := hnamed _ rfl
    exact importable_of_namelessMessage? (by rw [hfind]; rfl) hbase h

theorem reasons_of_archived {entries : List Tar.Entry} {sources : List String}
    (harchived : ∀ source ∈ sources, reason? host options source = none →
      ∃ place name, Importable host options source place name ∧ Archived host place name entries) :
    Reasons host options entries sources (sources.filterMap (reason? host options)) := by
  induction sources with
  | nil => exact .nothing
  | cons source rest ih =>
    obtain ⟨hsource, hrest⟩ := List.forall_mem_cons.1 harchived
    cases hreason : reason? host options source with
    | some reason =>
      rw [List.filterMap_cons_some hreason]
      exact .left (left_of_reason? hreason) (ih hrest)
    | none =>
      rw [List.filterMap_cons_none hreason]
      obtain ⟨place, name, himport, hentries⟩ := hsource hreason
      exact .imported himport hentries (ih hrest)

/-- **Each source of an import that succeeds is in the archive or has its reason.** -/
theorem reasons_of_importEvents (hwf : host.WellFormed) {sources : List String}
    (hok : firstFailure? (importEvents host options sources) = none) :
    Reasons host options ((importEvents host options sources).filterMap Event.entry?) sources
      (sources.filterMap (reason? host options)) := by
  refine reasons_of_archived fun source hsource hreason => ?_
  obtain ⟨place, name, himport⟩ := importable_of_reason? (fun node hnode => by
    obtain ⟨-, place, hfound⟩ := find_node?_iff.1 hnode
    have hmem := mem_foundSources.2 ⟨source, hsource, rfl, hnode⟩
    exact (settled_of_importEvents hwf hok hmem hfound).named) hreason
  exact ⟨place, name, himport, himport.archived hwf hok hsource⟩

/-- The messages of an import: those of telling the sources apart, and those of importing them. -/
theorem messages_importEvents (sources : List String) :
    (importEvents host options sources).flatMap Event.messages =
      sources.flatMap (sortingMessages host options) ++
        (importSources host [] (foundSources host options sources)).flatMap Event.messages := by
  have hsplit : importEvents host options sources =
      sources.flatMap (fun source =>
        (sortingEvent? (.ofString source) (Source.find host options (.ofString source))).toList) ++
        importSources host [] (foundSources host options sources) := by
    rw [← List.filterMap_eq_flatMap_toList]
    unfold importEvents foundSources
    simp only [List.filterMap_map]
    rfl
  rw [hsplit, List.flatMap_append, List.flatMap_assoc]
  rfl

/-- **What an import gives as reasons are those of its sources**, perhaps in another order. -/
theorem reasons_perm (sources : List String) :
    ((sources.flatMap (sortingMessages host options)).filter (·.leavesSource) ++
      (foundSources host options sources).filterMap (namelessMessage? host)).Perm
        (sources.filterMap (reason? host options)) := by
  rw [foundSources_eq_filterMap, List.filterMap_append, List.filterMap_filterMap,
    List.filterMap_filterMap, List.filterMap_eq_flatMap_toList, List.filterMap_eq_flatMap_toList,
    List.filterMap_eq_flatMap_toList, List.filter_flatMap,
    List.flatMap_congr fun source _ => (reason?_toList source).symm]
  refine .trans (.append_left _ (List.flatMap_append_perm sources _ _)) ?_
  exact List.flatMap_append_perm sources _ _

/-- Telling the sources apart says nothing of copies. -/
theorem ofCopy_sortingMessages (sources : List String) :
    (sources.flatMap (sortingMessages host options)).filter (·.ofCopy) = [] := by
  rw [List.filter_flatMap, List.flatMap_eq_nil_iff]
  intro source _
  unfold sortingMessages
  cases Source.find host options (.ofString source) <;> rfl

end

/-! ## The account -/

/-- What an event reports that does not fail is ordinary. -/
theorem Event.ordinary_of_mem_messages {event : Event} (h : event.failure? = none) {message : Message}
    (hmessage : message ∈ event.messages) : message.Ordinary := by
  have htext (htopic : message.topic ≠ .contextFailed) (other : Message)
      (heq : other.text = message.text) : other = message :=
    (Message.text_inj htopic heq.symm).symm
  cases event with
  | unnamable _ _ | unreadableFile _ _ _ | unreadableDirectory _ _ _ | unreadableLink _ _ => cases h
  | excluded _ | unimportable _ | nameless _ =>
    obtain rfl := List.mem_singleton.1 hmessage
    exact ⟨.inl rfl, rfl, htext Message.Topic.noConfusion⟩
  | shadowed path name =>
    obtain rfl := List.mem_singleton.1 hmessage
    exact ⟨.inr (.inr ⟨path, name, rfl⟩), rfl, htext Message.Topic.noConfusion⟩
  | clash _ _ _ | file _ _ _ _ | directory _ _ | danglingLink _ | linkedDirectory _ | special _ =>
    obtain rfl := List.mem_singleton.1 hmessage
    exact ⟨.inr (.inl rfl), rfl, htext Message.Topic.noConfusion⟩

/-- **The messages of packaging account for its archive.** If packaging succeeds, each entry before the
script has been announced, in order and as a file or a directory; each source that is not to be imported has
one message that gives the reason; whatever is met in a directory that is copied is announced or has one
message that it is skipped; and a message that two sources have one name stands before a copy exactly if its
name was last given to a copy of another path. Sources that are passed over as repeats have no message of
these kinds. -/
theorem packageBytes_accounted {host : Host} (hwf : host.WellFormed) {options : Options}
    {file : Dockerfile} {bytes : List UInt8}
    (hok : (packageBytes host options file).result = .ok bytes) :
    bytes = Tar.write ((copies host options file).flatMap (Copy.entries host) ++
        [⟨"Dockerfile", .generated (Utf8.encode (packaged host options file).render.toList)⟩]) ∧
      Accounts host options file ((copies host options file).flatMap (Copy.entries host))
        (packageBytes host options file).messages := by
  obtain ⟨hsucceeds, hbytes⟩ := packageBytes_eq_ok_iff.1 hok
  refine ⟨packagedEntries_eq host options file ▸ hbytes, ?_⟩
  have hmessages : (packageBytes host options file).messages =
      (importsOf host options file).flatMap Event.messages := by
    show (performed _).flatMap _ = _
    rw [performed_of_firstFailure?_eq_none hsucceeds]
  have hentries : (importsOf host options file).filterMap Event.entry? =
      (copies host options file).flatMap (Copy.entries host) :=
    (makes_importEvents host options file.sources).entries_eq
  have hparts : (importsOf host options file).flatMap Event.messages =
      file.sources.flatMap (sortingMessages host options) ++
        (importSources host [] (foundSources host options file.sources)).flatMap Event.messages :=
    messages_importEvents file.sources
  have hstart : Remembers [] [] := fun _ => rfl
  obtain ⟨hrows, hleft⟩ := rows_importSources hwf (fun _ => found_of_mem_foundSources) hstart
    (firstFailure?_append_eq_none.1 hsucceeds).2
  rw [hmessages, ← hentries]
  exact {
    additions := additions_messages hsucceeds
    reasons := by
      refine ⟨_, reasons_of_importEvents hwf hsucceeds, ?_⟩
      rw [hparts, List.filter_append, hleft]
      exact (reasons_perm file.sources).symm
    copies := by
      rw [hparts, List.filter_append, ofCopy_sortingMessages]
      exact hrows
    ordinary := by
      intro message hmessage
      obtain ⟨event, hevent, hmem⟩ := List.mem_flatMap.1 hmessage
      exact event.ordinary_of_mem_messages (firstFailure?_eq_none_iff.1 hsucceeds event hevent) hmem }

/-- A host with a file, another one of its name in a directory, and a directory that holds what is archived
and what is not. -/
def Host.cluttered : Host :=
  { tree := .directory [([0x61], .file [0x31] 0o644),
      ([0x78], .directory [([0x61], .file [0x32] 0o644)]),
      ([0x64], .directory [([0x61], .file [0x33] 0o644), ([0x62], .link ⟨[0x67]⟩),
        ([0x63], .link ⟨Path.here⟩), ([0x65], .special), ([0x66], .link ⟨[0x65]⟩),
        ([0x6F], .directory [])])]
    workdir := [] }

/-- Copies of sources that are imported, repeated, excluded, missing and without a name. -/
def Dockerfile.sundryCopies : Dockerfile :=
  ⟨[⟨Kind.copy.priority, ["d", "a", "x/a", "a", "g", "q", "/", "d/"].map fun source =>
    .step (.pair .copy source "/p")⟩]⟩

/-- The options that exclude one source. -/
def Options.oneExcluded : Options := { excluded := [.ofString "q"] }

theorem packageBytes_accounted_sundryCopies : Host.cluttered.WellFormed ∧ ∃ bytes,
    (packageBytes .cluttered .oneExcluded .sundryCopies).result = .ok bytes ∧
    bytes = Tar.write ((copies .cluttered .oneExcluded .sundryCopies).flatMap
        (Copy.entries .cluttered) ++ [⟨"Dockerfile", .generated
          (Utf8.encode (packaged .cluttered .oneExcluded .sundryCopies).render.toList)⟩]) ∧
      Accounts .cluttered .oneExcluded .sundryCopies
        ((copies .cluttered .oneExcluded .sundryCopies).flatMap (Copy.entries .cluttered))
        (packageBytes .cluttered .oneExcluded .sundryCopies).messages :=
  ⟨by decide, _, rfl, packageBytes_accounted (by decide) rfl⟩

example : (packageBytes .cluttered .oneExcluded .sundryCopies).messages.map Message.text =
    ["Source \"g\" is neither a file nor a directory, leaving it as is",
      "Not importing excluded source \"q\"", "Adding file \"a\" as 'a'",
      "Sources \"a\" and \"x/a\" are both archived as 'a'", "Adding file \"x/a\" as 'a'",
      "Sources \"x/a\" and \"a\" are both archived as 'a'", "Adding file \"a\" as 'a'",
      "Adding directory \"d\" as 'd'", "Adding file \"d/a\" as 'd/a'",
      "Skipping dangling symlink \"d/b\"", "Skipping symlinked directory \"d/c\"",
      "Skipping special file \"d/e\"", "Skipping special file \"d/f\"",
      "Adding directory \"d/o\" as 'd/o'", "Source \"/\" has no base name, leaving it as is"] := by
  decide +kernel

end ImageRecipe
