import ImageRecipe.Proofs.Context.Names
import ImageRecipe.Proofs.Text.Spelling

/-!
# Entries of the same name

An import that does not warn makes one copy under each name, and none under that of the script. Two of its
entries can then have the same name only within one copy, and there only if two names on the host show as
the same text.

* `Quiet` — events that do not warn;
* `DecodesApart` — what a directory shows under different names stays so when these are made texts;
* `Node.textual` — trees all of whose names are text.

Principal results:

* `Makes.quiet` — the copies of an import that does not warn have different names;
* `Mirrors.nodup_iff` — the entries of one copy have different names exactly if names decode apart;
* `decodesApart_of_textual` — names that are text decode apart;
* `packageBytes_distinct_iff` — without a warning this is all that can make two entries collide.
-/

set_option autoImplicit false

namespace ImageRecipe

/-! ## Imports that do not warn -/

/-- The events do not warn. -/
def Quiet (events : List Event) : Prop :=
  ∀ event ∈ events, ∀ message ∈ event.messages, message.level ≠ .warn

theorem quiet_append {a b : List Event} : Quiet (a ++ b) ↔ Quiet a ∧ Quiet b := by
  simp only [Quiet, List.mem_append, or_imp, forall_and]

/-- What is said of a source without a warning: it is not called as the script is, and unless it is passed
over, no source was added before under its name. -/
theorem quiet_remarks {added : Added} {copy : Copy} (h : Quiet (copy.remarks added)) :
    copy.name ≠ scriptName ∧ (¬copy.repeats added = true → added.lookup copy.name = none) := by
  rw [Copy.remarks, quiet_append] at h
  obtain ⟨hshadow, hclash⟩ := h
  constructor
  · intro hname
    rw [if_pos hname] at hshadow
    exact hshadow _ (List.mem_singleton_self _) _ (List.mem_singleton_self _) rfl
  · intro hrepeats
    rw [Copy.repeats] at hrepeats
    cases hlookup : added.lookup copy.name with
    | none => rfl
    | some earlier =>
      have hdiffer : ¬earlier.same copy.path = true := by simpa [hlookup] using hrepeats
      have hsays : .clash earlier copy.path copy.name ∈
          ((added.lookup copy.name).toList.filter (!·.same copy.path)).map
            (Event.clash · copy.path copy.name) := by
        simp [hlookup, hdiffer]
      exact absurd rfl (hclash _ hsays _ (List.mem_singleton_self _))

/-- **The copies of an import that does not warn have different names**, and none that was given before or
is that of the script. -/
theorem Makes.quiet {host : Host} {added : Added} {events : List Event} {made : List Copy}
    (h : Makes host added events made) (hquiet : Quiet events) :
    (∀ copy ∈ made, copy.name ≠ scriptName ∧ added.lookup copy.name = none) ∧
      made.Pairwise (·.name ≠ ·.name) := by
  induction h with
  | nothing => simp
  | reported _ _ ih => exact ih (quiet_append.1 hquiet).2
  | @copied added copy events made hnew _ ih =>
    rw [quiet_append, quiet_append] at hquiet
    obtain ⟨hscript, hfree⟩ := quiet_remarks hquiet.1.1
    obtain ⟨hlater, hpairwise⟩ := ih hquiet.2
    have hapart : ∀ later ∈ made, copy.name ≠ later.name ∧ added.lookup later.name = none := by
      intro later hmem
      have hlookup := (hlater later hmem).2
      rw [List.lookup_cons] at hlookup
      split at hlookup
      · cases hlookup
      · rename_i hbeq
        exact ⟨(beq_eq_false_iff_ne.1 hbeq).symm, hlookup⟩
    refine ⟨List.forall_mem_cons.2 ⟨⟨hscript, hfree hnew⟩, fun later hmem => ?_⟩, ?_⟩
    · exact ⟨(hlater later hmem).1, (hapart later hmem).2⟩
    · exact List.pairwise_cons.2 ⟨fun later hmem => (hapart later hmem).1, hpairwise⟩

section

variable {host : Host} {options : Options} {file : Dockerfile}

/-- Copies of a Dockerfile whose import does not warn. -/
theorem quiet_copies (hok : firstFailure? (importsOf host options file) = none)
    (hquiet : ∀ message ∈ (packageBytes host options file).messages, message.level ≠ .warn) :
    (∀ copy ∈ copies host options file, copy.name ≠ scriptName) ∧
      (copies host options file).Pairwise (·.name ≠ ·.name) := by
  have hevents : Quiet (importsOf host options file) := by
    intro event hevent message hmessage
    refine hquiet message (List.mem_flatMap.2 ⟨event, ?_, hmessage⟩)
    rwa [performed_of_firstFailure?_eq_none hok]
  have hcopies := (makes_importEvents host options file.sources).quiet hevents
  exact ⟨fun copy hcopy => (hcopies.1 copy hcopy).1, hcopies.2⟩

/-! ## Names within one copy -/

/-- What a directory shows under different names stays so when the names are made texts. -/
def DecodesApart (host : Host) (place : List Name) : Prop :=
  ∀ a b, Shown host place a → Shown host place b →
    a.names.map Utf8.lossy = b.names.map Utf8.lossy → a.names = b.names

/-- **The entries of one copy have different names exactly if names decode apart.** -/
theorem Mirrors.nodup_iff (hwf : host.WellFormed) {place : List Name} {name : String}
    {entries : List Tar.Entry} (h : Mirrors host place name entries) :
    (entries.map Tar.Entry.name).Nodup ↔ DecodesApart host place := by
  obtain ⟨items, rfl, hmem, hsorted⟩ := h
  rw [List.map_map, List.nodup_map_iff_inj_on (Item.nodup_of_sorted hsorted)]
  constructor
  · intro hinj a b ha hb htexts
    have hname := (foldl_entryName_inj name (ha.slash_not_mem hwf) (hb.slash_not_mem hwf)).2 htexts
    exact congrArg Item.names (hinj a ((hmem a).2 ha) b ((hmem b).2 hb) hname)
  · intro hapart a ha b hb hname
    have ha := (hmem a).1 ha
    have hb := (hmem b).1 hb
    exact ha.eq_of_names hb (hapart a b ha hb
      ((foldl_entryName_inj name (ha.slash_not_mem hwf) (hb.slash_not_mem hwf)).1 hname))

/-- Whether all names of a tree are text. -/
def Node.textual (node : Node) : Bool :=
  node.every (fun _ _ => true) (·.all Utf8.isText)

/-- **Names that are text decode apart.** -/
theorem decodesApart_of_textual (h : host.tree.textual = true) (place : List Name) :
    DecodesApart host place := by
  -- names that are text are read off what they show
  have hnames : ∀ item, Shown host place item →
      (item.names.map Utf8.lossy).map (fun text => Utf8.encode text.toList) = item.names := by
    intro item hshown
    obtain ⟨node, hat⟩ := hshown.at?
    have htext : ∀ own ∈ place ++ item.names, Utf8.isText own = true :=
      Node.forall_name_of_at? (fun names hnames => List.all_eq_true.1 hnames) h hat
    rw [List.map_map]
    refine (List.map_congr_left fun own hown => ?_).trans (List.map_id _)
    exact Utf8.encode_lossy (htext own (List.mem_append_right place hown))
  intro a b ha hb htexts
  rw [← hnames a ha, htexts, hnames b hb]

/-! ## Names of all entries -/

/-- Different copies have no name of an entry in common, and none with the script. -/
theorem nodup_packagedEntries_iff (hwf : host.WellFormed)
    (hok : firstFailure? (importsOf host options file) = none)
    (hscript : ∀ copy ∈ copies host options file, copy.name ≠ scriptName)
    (hnames : (copies host options file).Pairwise (·.name ≠ ·.name)) :
    ((packagedEntries host options file).map Tar.Entry.name).Nodup ↔
      ∀ copy ∈ copies host options file, ((copy.entries host).map Tar.Entry.name).Nodup := by
  have hfirst : ∀ copy ∈ copies host options file, ∀ entry ∈ copy.entries host,
      firstPart entry.name = copy.name.toList := fun _ => firstPart_of_mem_copies hwf hok
  have hapart : (copies host options file).Pairwise fun a b =>
      List.Disjoint ((a.entries host).map Tar.Entry.name) ((b.entries host).map Tar.Entry.name) := by
    refine hnames.imp_of_mem fun {a b} ha hb hne path hpathA hpathB => ?_
    obtain ⟨x, hx, rfl⟩ := List.mem_map.1 hpathA
    obtain ⟨y, hy, heq⟩ := List.mem_map.1 hpathB
    have hparts := hfirst b hb y hy
    rw [heq, hfirst a ha x hx] at hparts
    exact hne (String.toList_inj.1 hparts)
  have hlast : ∀ path ∈ ((copies host options file).flatMap (Copy.entries host)).map Tar.Entry.name,
      path ≠ scriptName := by
    intro path hpath
    obtain ⟨entry, hentry, rfl⟩ := List.mem_map.1 hpath
    obtain ⟨copy, hcopy, hmem⟩ := List.mem_flatMap.1 hentry
    exact ne_scriptName (hfirst copy hcopy entry hmem) (hscript copy hcopy)
  rw [packagedEntries_eq, List.map_append, List.nodup_append, List.map_flatMap, List.nodup_flatMap]
  constructor
  · exact fun h => h.1.1
  · intro h
    rw [List.map_flatMap] at hlast
    refine ⟨⟨h, hapart⟩, List.nodup_singleton _, fun path hpath other hother => ?_⟩
    rw [List.map_singleton, List.mem_singleton] at hother
    rw [hother]
    exact hlast path hpath

/-- **Copies decode apart exactly if the sources do that are to be imported.** -/
theorem decodesApart_iff (hwf : host.WellFormed)
    (hok : firstFailure? (importsOf host options file) = none) :
    (∀ copy ∈ copies host options file, ((copy.entries host).map Tar.Entry.name).Nodup) ↔
      ∀ source ∈ file.sources, ∀ place name, Importable host options source place name →
        DecodesApart host place.names := by
  constructor
  · intro h source hsource place name himport
    obtain ⟨copy, hcopy, hfound⟩ := (exists_copied_iff hwf hok).2 ⟨source, hsource, name, himport⟩
    exact ((mirrors_of_mem_copies hwf hok hcopy hfound).nodup_iff hwf).1 (h copy hcopy)
  · intro h copy hcopy
    obtain ⟨q, hq⟩ := found_of_mem_importedSources (mem_importedSources_of_mem_copies hcopy)
    obtain ⟨source, hsource, name, himport⟩ := (exists_copied_iff hwf hok).1 ⟨copy, hcopy, hq⟩
    exact ((mirrors_of_mem_copies hwf hok hcopy hq).nodup_iff hwf).2
      (h source hsource q name himport)

end

/-- **Without a warning, entries collide only if names do not decode apart.** The names of all entries of an
archive, the script among them, are different exactly if below each place that is imported names that are
shown stay apart when they are made texts. They do if all names of the host are text. -/
theorem packageBytes_distinct_iff {host : Host} (hwf : host.WellFormed) {options : Options}
    {file : Dockerfile} {bytes : List UInt8}
    (hok : (packageBytes host options file).result = .ok bytes)
    (hquiet : ∀ message ∈ (packageBytes host options file).messages, message.level ≠ .warn) :
    bytes = Tar.write (packagedEntries host options file) ∧
      (((packagedEntries host options file).map Tar.Entry.name).Nodup ↔
        ∀ source ∈ file.sources, ∀ place name, Importable host options source place name →
          DecodesApart host place.names) ∧
      (host.tree.textual = true →
        ((packagedEntries host options file).map Tar.Entry.name).Nodup) := by
  obtain ⟨hsucceeds, hbytes⟩ := packageBytes_eq_ok_iff.1 hok
  obtain ⟨hscript, hnames⟩ := quiet_copies hsucceeds hquiet
  rw [nodup_packagedEntries_iff hwf hsucceeds hscript hnames, decodesApart_iff hwf hsucceeds]
  exact ⟨hbytes, Iff.rfl, fun htext _ _ place _ _ => decodesApart_of_textual htext place.names⟩

theorem packageBytes_distinct_iff_looped : Host.looped.WellFormed ∧ ∃ bytes,
    (packageBytes Host.looped {} .threeCopies).result = .ok bytes ∧
    (∀ message ∈ (packageBytes Host.looped {} .threeCopies).messages, message.level ≠ .warn) ∧
    bytes = Tar.write (packagedEntries Host.looped {} .threeCopies) ∧
      (((packagedEntries Host.looped {} .threeCopies).map Tar.Entry.name).Nodup ↔
        ∀ source ∈ Dockerfile.threeCopies.sources, ∀ place name,
          Importable Host.looped {} source place name → DecodesApart Host.looped place.names) ∧
      (Host.looped.tree.textual = true →
        ((packagedEntries Host.looped {} .threeCopies).map Tar.Entry.name).Nodup) :=
  ⟨by decide, _, rfl, by decide, packageBytes_distinct_iff (by decide) rfl (by decide)⟩

/-- A host with a directory that holds two files whose names are no text. -/
def Host.textless : Host :=
  { tree := .directory [([0x6F], .directory [([0x80], .file [0x61] 0o644),
      ([0x81], .file [0x62] 0o644)])]
    workdir := [] }

/-- A copy of a directory. -/
def Dockerfile.oneCopy : Dockerfile :=
  ⟨[⟨Kind.copy.priority, [.step (.pair .copy "o" "/")]⟩]⟩

/-- Two names that are no text show alike, and nothing warns of it. -/
theorem collision_textless : Host.textless.WellFormed ∧
    (∃ bytes, (packageBytes Host.textless {} .oneCopy).result = .ok bytes ∧
      bytes = Tar.write (packagedEntries Host.textless {} .oneCopy)) ∧
    (∀ message ∈ (packageBytes Host.textless {} .oneCopy).messages, message.level ≠ .warn) ∧
    ¬((packagedEntries Host.textless {} .oneCopy).map Tar.Entry.name).Nodup :=
  ⟨by decide, ⟨_, rfl, rfl⟩, by decide, by decide⟩

end ImageRecipe
