import Mathlib.Data.List.Basic
import Mathlib.Logic.Relation
import ImageRecipe.Path

/-!
# One path in many spellings

Two byte strings are spellings of one path if the one can be turned into the other by writing slashes twice, by
a slash at the end, and by dots behind slashes. A dot in front of everything stays, and two dots are a component
like any name.

* `Respelling` — one such change; `Relation.EqvGen Respelling` — any number of them, back and forth;
* `written` — the shortest spelling of a list of components.

Principal results:

* `components_append_slash` — what stands behind a slash adds its own components;
* `components_of_respelling` — the step: no such change touches the components;
* `respelt_written` — every byte string comes down to the spelling of its components, by induction on its length;
* `respelt_iff` — paths are compared by what is not a matter of spelling.
-/

set_option autoImplicit false

namespace ImageRecipe.Path

/-- A change in the spelling of a path: more slashes in the place of one, a slash behind all, a dot behind a
slash. -/
inductive Respelling : List UInt8 → List UInt8 → Prop
  | doubled (front back : List UInt8) :
    Respelling (front ++ slash :: back) (front ++ slash :: slash :: back)
  | ended (front : List UInt8) (h : front ≠ []) : Respelling front (front ++ [slash])
  | dotted (front back : List UInt8) :
    Respelling (front ++ slash :: back) (front ++ slash :: dot :: slash :: back)
  | rested (front : List UInt8) : Respelling (front ++ [slash]) (front ++ [slash, dot])

/-! ## Components -/

/-- Only what is empty and a dot are no components. -/
theorem component?_eq_none_iff {piece : Name} : component? piece = none ↔ piece = [] ∨ piece = here := by
  unfold component?
  split
  · simp_all
  split
  · simp_all
  · split <;> simp_all

/-- The components that stand behind the first place of a path. -/
def namesOf (bytes : List UInt8) : List Component := (pieces bytes).filterMap component?

theorem namesOf_append_slash (front back : List UInt8) :
    namesOf (front ++ slash :: back) = namesOf front ++ namesOf back := by
  rw [namesOf, pieces_append, List.filterMap_append]
  rfl

theorem namesOf_of_slash_not_mem {bytes : List UInt8} (h : slash ∉ bytes) :
    namesOf bytes = (component? bytes).toList := by
  rw [namesOf, pieces_of_not_mem h]
  cases hc : component? bytes with
  | none => rw [List.filterMap_cons_none hc, List.filterMap_nil, Option.toList_none]
  | some c => rw [List.filterMap_cons_some hc, List.filterMap_nil, Option.toList_some]

/-- **What stands behind a slash adds its own components**, and a slash in front of everything is the root. -/
theorem components_append_slash (front back : List UInt8) :
    components ⟨front ++ slash :: back⟩
      = (if front = [] then [.root] else components ⟨front⟩) ++ namesOf back := by
  change leading _ ++ namesOf (front ++ slash :: back) = _
  rw [namesOf_append_slash]
  cases front with
  | nil => rfl
  | cons byte rest =>
    have same : leading ⟨byte :: rest ++ slash :: back⟩ = leading ⟨byte :: rest⟩ := by
      have head : (pieces (byte :: rest ++ slash :: back)).head? = (pieces (byte :: rest)).head? := by
        rw [pieces_append, List.head?_append_of_ne_nil _ (pieces_ne_nil _)]
      simp only [leading, isAbsolute, head]
      rfl
    rw [same, if_neg (List.cons_ne_nil _ _), ← List.append_assoc]
    rfl

theorem components_ne_nil {bytes : List UInt8} (h : bytes ≠ []) : components ⟨bytes⟩ ≠ [] := by
  cases bytes with
  | nil => exact absurd rfl h
  | cons byte rest =>
    by_cases root : byte = slash
    · simp [components, leading, isAbsolute, root]
    · obtain ⟨first, more, hpieces⟩ : ∃ first more, pieces (byte :: rest) = (byte :: first) :: more := by
        rw [pieces, if_neg root]
        cases pieces rest with
        | nil => exact ⟨[], [], rfl⟩
        | cons first more => exact ⟨first, more, rfl⟩
      by_cases dotted : byte :: first = here
      · simp [components, leading, isAbsolute, root, hpieces, dotted]
      · obtain ⟨c, hc⟩ := Option.ne_none_iff_exists'.1
          (mt component?_eq_none_iff.1 (not_or.2 ⟨List.cons_ne_nil _ _, dotted⟩))
        rw [components, hpieces, List.filterMap_cons_some hc]
        exact List.append_ne_nil_of_right_ne_nil _ (List.cons_ne_nil _ _)

/-- **No change of spelling touches the components.** -/
theorem components_of_respelling {a b : List UInt8} (h : Respelling a b) :
    components ⟨a⟩ = components ⟨b⟩ := by
  have behindDot (back : List UInt8) : namesOf (dot :: slash :: back) = namesOf back :=
    namesOf_append_slash [dot] back
  cases h with
  | doubled front back =>
    rw [components_append_slash, components_append_slash]
    exact congrArg _ (namesOf_append_slash [] back).symm
  | ended front h => rw [components_append_slash, if_neg h, show namesOf [] = [] from rfl, List.append_nil]
  | dotted front back => rw [components_append_slash, components_append_slash, behindDot]
  | rested front => rw [components_append_slash, components_append_slash]; rfl

/-! ## The shortest spelling -/

/-- The name that a component has on a path. -/
def Component.text : Component → Name
  | .root => []
  | .here => Path.here
  | .above => Path.above
  | .name bytes => bytes

/-- The shortest spelling of components. -/
def written : List Component → List UInt8
  | [] => []
  | [.root] => [slash]
  | first :: rest => first.text ++ rest.flatMap (slash :: ·.text)

theorem text_of_component? {piece : Name} {c : Component} (h : component? piece = some c) :
    c.text = piece := by
  unfold component? at h
  split at h
  · cases h
  split at h
  · cases h
  split at h
  · next same => cases h; exact same.symm
  · cases h; rfl

theorem written_cons_cons (first second : Component) (rest : List Component) :
    written (first :: second :: rest) = first.text ++ (second :: rest).flatMap (slash :: ·.text) := by
  cases first <;> rfl

theorem written_concat {components : List Component} (last : Component) (hne : components ≠ [])
    (hroot : components ≠ [.root]) :
    written (components ++ [last]) = written components ++ slash :: last.text := by
  cases components with
  | nil => exact absurd rfl hne
  | cons first rest =>
    cases rest with
    | nil => cases first <;> first | exact absurd rfl hroot | simp [written]
    | cons second rest =>
      rw [List.cons_append, List.cons_append, written_cons_cons, written_cons_cons, ← List.cons_append,
        List.flatMap_append, List.append_assoc]
      simp

/-- What is written without a slash is its only component, if it is not empty. -/
theorem written_of_slash_not_mem {bytes : List UInt8} (h : slash ∉ bytes) :
    written (components ⟨bytes⟩) = bytes := by
  cases bytes with
  | nil => rfl
  | cons byte rest =>
    have relative : byte ≠ slash := fun same => h (same ▸ List.mem_cons_self)
    have split : components ⟨byte :: rest⟩
        = leading ⟨byte :: rest⟩ ++ (component? (byte :: rest)).toList :=
      congrArg _ (namesOf_of_slash_not_mem h)
    rw [split, leading, pieces_of_not_mem h]
    have rootless : (⟨byte :: rest⟩ : Path).isAbsolute = false := by simpa [isAbsolute] using relative
    rw [rootless, List.head?_cons]
    by_cases dotted : byte :: rest = here
    · rw [dotted]
      rfl
    · obtain ⟨c, hc⟩ := Option.ne_none_iff_exists'.1
        (mt component?_eq_none_iff.1 (not_or.2 ⟨List.cons_ne_nil _ _, dotted⟩))
      have text := text_of_component? hc
      rw [hc, if_neg Bool.false_ne_true, if_neg (mt Option.some.inj dotted), ← text]
      cases c with
      | root => cases text
      | here | above | name _ => exact List.append_nil _

/-! ## Any number of changes -/

/-- A byte string in another spelling stays so with more behind a slash. -/
theorem respelt_append {a b : List UInt8} (h : Relation.EqvGen Respelling a b) (back : List UInt8) :
    Relation.EqvGen Respelling (a ++ slash :: back) (b ++ slash :: back) := by
  induction h with
  | refl a => exact .refl _
  | symm a b _ ih => exact ih.symm
  | trans a b c _ _ first second => exact first.trans _ _ _ second
  | rel a b h =>
    cases h with
    | doubled front more => simpa using .rel _ _ (.doubled front (more ++ slash :: back))
    | dotted front more => simpa using .rel _ _ (.dotted front (more ++ slash :: back))
    | ended _ _ => simpa using .rel _ _ (.doubled a back)
    | rested front =>
      -- Both come from the spelling with a single slash.
      have twice := Relation.EqvGen.rel _ _ (Respelling.doubled front back)
      have dotted := Relation.EqvGen.rel _ _ (Respelling.dotted front back)
      simpa using twice.symm.trans _ _ _ dotted

/-- What comes down to the spelling of its components does so with one more name behind a slash. -/
theorem respelt_written_append {front last : List UInt8}
    (h : Relation.EqvGen Respelling front (written (components ⟨front⟩))) (hlast : slash ∉ last) :
    Relation.EqvGen Respelling (front ++ slash :: last) (written (components ⟨front ++ slash :: last⟩)) := by
  rw [components_append_slash, namesOf_of_slash_not_mem hlast]
  cases hc : component? last with
  | none =>
    -- An empty name or a dot adds no component, and neither does the slash, but for the root.
    rw [Option.toList_none, List.append_nil]
    have bare : Relation.EqvGen Respelling (front ++ [slash])
        (written (if front = [] then [.root] else components ⟨front⟩)) := by
      split
      · next empty =>
        rw [empty]
        exact .refl _
      · next other => exact (Relation.EqvGen.rel _ _ (Respelling.ended front other)).symm.trans _ _ _ h
    rcases component?_eq_none_iff.1 hc with rfl | rfl
    · exact bare
    · exact (Relation.EqvGen.rel _ _ (Respelling.rested front)).symm.trans _ _ _ bare
  | some c =>
    rw [Option.toList_some]
    have text := text_of_component? hc
    have rooted : written ([.root] ++ [c]) = slash :: last := by
      rw [← text]
      exact List.append_nil _
    split
    · next empty =>
      rw [rooted, empty]
      exact .refl _
    · next other =>
      have behind := respelt_append h last
      by_cases root : components ⟨front⟩ = [.root]
      · rw [root] at behind ⊢
        rw [rooted]
        exact behind.trans _ _ _ (Relation.EqvGen.rel _ _ (Respelling.doubled [] last)).symm
      · rwa [written_concat c (components_ne_nil other) root, text]

/-- **Every byte string comes down to the spelling of its components.** -/
theorem respelt_written (bytes : List UInt8) :
    Relation.EqvGen Respelling bytes (written (components ⟨bytes⟩)) := by
  induction hlength : bytes.length using Nat.strongRecOn generalizing bytes with
  | ind _ ih =>
    by_cases hslash : slash ∈ bytes
    · -- The bytes are cut at the last slash.
      obtain ⟨last, front, hcut, hlast⟩ := List.eq_append_cons_of_mem (List.mem_reverse.2 hslash)
      obtain rfl : bytes = front.reverse ++ slash :: last.reverse := by
        rw [← List.reverse_reverse bytes, hcut]
        simp
      have shorter : front.reverse.length < (front.reverse ++ slash :: last.reverse).length := by
        rw [List.length_append, List.length_cons]
        omega
      exact respelt_written_append (ih _ (hlength ▸ shorter) _ rfl) (mt List.mem_reverse.1 hlast)
    · rw [written_of_slash_not_mem hslash]
      exact .refl _

/-- **Paths are compared by what is not a matter of spelling.** -/
theorem respelt_iff {a b : Path} :
    Relation.EqvGen Respelling a.bytes b.bytes ↔ a.components = b.components := by
  obtain ⟨a⟩ := a
  obtain ⟨b⟩ := b
  constructor
  · intro h
    change Relation.EqvGen Respelling a b at h
    induction h with
    | rel a b step => exact components_of_respelling step
    | refl a => rfl
    | symm a b _ ih => exact ih.symm
    | trans a b c _ _ first second => exact first.trans second
  · intro same
    exact (respelt_written a).trans _ _ _ (same ▸ (respelt_written b).symm)

end ImageRecipe.Path
