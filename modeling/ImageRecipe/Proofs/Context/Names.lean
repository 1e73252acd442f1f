import ImageRecipe.Proofs.Context.Copies

/-!
# Names of entries

The name of an entry is that of its copy and, for each directory on the way, a slash and a name made a text.
No slash turns up in a name that is made a text, so the name of an entry can be taken apart again.

* `Slashless` — names of one part, as all sources have them;
* `firstPart` — what stands before the first slash;
* `Within` — paths at a name or below it.

Principal results:

* `foldl_entryName_inj` — the name of an entry says what each name on the way to it looks like;
* `Mirrors.firstPart` — all entries of a copy begin with its name;
* `name_of_within` — what stands at a name or below it belongs to copies of that name;
* `Shown.eq_of_names` — a directory shows one thing under the same names.
-/

set_option autoImplicit false

namespace ImageRecipe

/-! ## Parts of a text -/

/-- A text of one part. -/
def Slashless (text : String) : Prop := '/' ∉ text.toList

instance (text : String) : Decidable (Slashless text) :=
  inferInstanceAs (Decidable ('/' ∉ text.toList))

/-- What stands before the first slash. -/
def firstPart (text : String) : List Char := text.toList.takeWhile (· ≠ '/')

/-- Parts with a slash before each. -/
def afterSlashes (parts : List (List Char)) : List Char := parts.flatMap ('/' :: ·)

theorem ne_slash_of_mem {part : List Char} (h : '/' ∉ part) :
    ∀ c ∈ part, decide (c ≠ '/') = true := by
  intro c hc
  rw [decide_eq_true_eq]
  rintro rfl
  exact h hc

theorem takeWhile_afterSlashes {part : List Char} (h : '/' ∉ part) (parts : List (List Char)) :
    (part ++ afterSlashes parts).takeWhile (· ≠ '/') = part := by
  rw [List.takeWhile_append_of_pos (ne_slash_of_mem h)]
  cases parts <;> simp [afterSlashes]

theorem dropWhile_afterSlashes {part : List Char} (h : '/' ∉ part) (parts : List (List Char)) :
    (part ++ afterSlashes parts).dropWhile (· ≠ '/') = afterSlashes parts := by
  rw [List.dropWhile_append_of_pos (ne_slash_of_mem h)]
  cases parts <;> simp [afterSlashes]

/-- **Parts without slashes are told apart** by the slashes before them. -/
theorem afterSlashes_inj {a b : List (List Char)} (ha : ∀ part ∈ a, '/' ∉ part)
    (hb : ∀ part ∈ b, '/' ∉ part) (h : afterSlashes a = afterSlashes b) : a = b := by
  induction a generalizing b with
  | nil =>
    cases b with
    | nil => rfl
    | cons y more => simp [afterSlashes] at h
  | cons x rest ih =>
    cases b with
    | nil => simp [afterSlashes] at h
    | cons y more =>
      rw [List.forall_mem_cons] at ha hb
      have htail : x ++ afterSlashes rest = y ++ afterSlashes more := (List.cons_eq_cons.1 h).2
      have hfirst := congrArg (List.takeWhile (· ≠ '/')) htail
      have hlater := congrArg (List.dropWhile (· ≠ '/')) htail
      rw [takeWhile_afterSlashes ha.1, takeWhile_afterSlashes hb.1] at hfirst
      rw [dropWhile_afterSlashes ha.1, dropWhile_afterSlashes hb.1] at hlater
      rw [hfirst, ih ha.2 hb.2 hlater]

/-- A name without a slash shows without one. -/
theorem slashless_lossy {bytes : List UInt8} (h : Path.slash ∉ bytes) :
    Slashless (Utf8.lossy bytes) := by
  have hascii : Path.slash < 0x80 := by decide
  exact fun hmem => h (Utf8.mem_of_mem_lossy hascii hmem)

/-! ## Names below a name -/

theorem toList_foldl_entryName (name : String) (names : List Name) :
    (names.foldl entryName name).toList =
      name.toList ++ afterSlashes (names.map fun own => (Utf8.lossy own).toList) := by
  induction names generalizing name with
  | nil => simp [afterSlashes]
  | cons own rest ih =>
    rw [List.foldl_cons, ih, entryName]
    simp [afterSlashes]

theorem firstPart_foldl_entryName {name : String} (h : Slashless name) (names : List Name) :
    firstPart (names.foldl entryName name) = name.toList := by
  rw [firstPart, toList_foldl_entryName, takeWhile_afterSlashes h]

/-- **The name of an entry says what each name on the way to it looks like.** -/
theorem foldl_entryName_inj (name : String) {a b : List Name} (ha : ∀ own ∈ a, Path.slash ∉ own)
    (hb : ∀ own ∈ b, Path.slash ∉ own) :
    a.foldl entryName name = b.foldl entryName name ↔ a.map Utf8.lossy = b.map Utf8.lossy := by
  have htexts : ∀ names : List Name, (∀ own ∈ names, Path.slash ∉ own) →
      ∀ part ∈ names.map fun own => (Utf8.lossy own).toList, '/' ∉ part := by
    intro names hnames part hpart
    obtain ⟨own, hown, rfl⟩ := List.mem_map.1 hpart
    exact slashless_lossy (hnames own hown)
  have hshown : ∀ names : List Name, (names.map fun own => (Utf8.lossy own).toList) =
      (names.map Utf8.lossy).map String.toList := fun names => by simp
  rw [← String.toList_inj, toList_foldl_entryName, toList_foldl_entryName, List.append_cancel_left_eq]
  constructor
  · intro h
    have hparts := afterSlashes_inj (htexts a ha) (htexts b hb) h
    rw [hshown, hshown] at hparts
    exact List.map_injective_iff.2 (fun _ _ => String.toList_inj.1) hparts
  · intro h
    rw [hshown, hshown, h]

/-- A path at a name or below it. -/
def Within (name path : String) : Prop := path = name ∨ ∃ rest, path = name ++ "/" ++ rest

theorem firstPart_of_within {name path : String} (hname : Slashless name) (h : Within name path) :
    firstPart path = name.toList := by
  rcases h with rfl | ⟨rest, rfl⟩
  · simpa [firstPart, afterSlashes] using takeWhile_afterSlashes hname []
  · simpa [firstPart, afterSlashes] using takeWhile_afterSlashes hname [rest.toList]

/-- What begins with another name is not the script. -/
theorem ne_scriptName {name path : String} (hpath : firstPart path = name.toList)
    (hname : name ≠ scriptName) : path ≠ scriptName := by
  rintro rfl
  have hself : firstPart scriptName = scriptName.toList := by decide
  rw [hself] at hpath
  exact hname (String.toList_inj.1 hpath).symm

/-! ## Names of what a directory shows -/

section

variable {host : Host} {place : List Name} {name : String}

theorem Shown.slash_not_mem (hwf : host.WellFormed) {item : Item} (h : Shown host place item) :
    ∀ own ∈ item.names, Path.slash ∉ own := by
  intro own hown
  obtain ⟨node, hat⟩ := h.at?
  have hproper := Node.properName_of_at? hwf hat own (List.mem_append_right place hown)
  exact (Node.properName_iff.1 hproper).2.2.2.1

/-- **A directory shows one thing under the same names.** -/
theorem Shown.eq_of_names {a b : Item} (ha : Shown host place a) (hb : Shown host place b)
    (h : a.names = b.names) : a = b := by
  obtain ⟨names, body⟩ := a
  obtain ⟨_, other⟩ := b
  subst h
  cases ha with
  | directory ha =>
    cases hb with
    | directory hb => rfl
    | file hb | link hb _ => exact Node.noConfusion (Option.some.inj (ha.symm.trans hb))
  | file ha =>
    cases hb with
    | file hb =>
      cases ha.symm.trans hb
      rfl
    | directory hb | link hb _ => exact Node.noConfusion (Option.some.inj (ha.symm.trans hb))
  | link ha hleads =>
    cases hb with
    | link hb hother =>
      cases hleads.symm.trans hother
      rfl
    | directory hb | file hb => exact Node.noConfusion (Option.some.inj (ha.symm.trans hb))

/-- All entries of a mirror begin with its name. -/
theorem Mirrors.firstPart {entries : List Tar.Entry} (h : Mirrors host place name entries)
    (hname : Slashless name) : ∀ entry ∈ entries, firstPart entry.name = name.toList := by
  obtain ⟨items, rfl, -, -⟩ := h
  intro entry hentry
  obtain ⟨item, -, rfl⟩ := List.mem_map.1 hentry
  exact firstPart_foldl_entryName hname item.names

/-! ## Names of copies -/

variable {options : Options}

/-- A source has a name of one part. -/
theorem slashless_of_mem_importedSources (hwf : host.WellFormed) {sources : List String}
    {copy : Copy} (h : copy ∈ importedSources host options sources) : Slashless copy.name := by
  obtain ⟨p, hfound⟩ := found_of_mem_importedSources h
  obtain ⟨own, hown, -, hslash, -⟩ :=
    exists_lossy_of_baseName hwf hfound.leads (mem_importedSources.1 h).2
  rw [hown]
  exact slashless_lossy hslash

variable {file : Dockerfile}

theorem firstPart_of_mem_copies (hwf : host.WellFormed)
    (hok : firstFailure? (importsOf host options file) = none) {copy : Copy}
    (h : copy ∈ copies host options file) :
    ∀ entry ∈ copy.entries host, firstPart entry.name = copy.name.toList := by
  have hsource := mem_importedSources_of_mem_copies h
  obtain ⟨p, hfound⟩ := found_of_mem_importedSources hsource
  exact (mirrors_of_mem_copies hwf hok h hfound).firstPart
    (slashless_of_mem_importedSources hwf hsource)

/-- **What stands at a name or below it belongs to copies of that name.** -/
theorem name_of_within (hwf : host.WellFormed)
    (hok : firstFailure? (importsOf host options file) = none) {copy : Copy}
    (h : copy ∈ copies host options file) (hname : Slashless name) {entry : Tar.Entry}
    (hentry : entry ∈ copy.entries host) (hwithin : Within name entry.name) : copy.name = name := by
  have hown := firstPart_of_mem_copies hwf hok h entry hentry
  rw [firstPart_of_within hname hwithin] at hown
  exact (String.toList_inj.1 hown).symm

end

end ImageRecipe
