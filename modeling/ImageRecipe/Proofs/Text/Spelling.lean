import ImageRecipe.Proofs.Text.Lossy
import Mathlib.Data.List.Basic

/-!
# Byte strings that are text

A byte string that is cut into characters only is the encoding of the text it shows: each character is
spelled as it is encoded. So what it shows says what it is.

* `spelt` — a lead byte with the uppermost bits of a value, and six more bits in each byte after it;
* `Form` — the three forms of a spelling of more than one byte;
* `Opening.Spells` — an opening is the beginning of a spelling;
* `isText` — nothing in a byte string is faulty.

Principal results: `encoded_scan` — every character is cut from its encoding; `encode_lossy` — a byte string
that is text is the encoding of what it shows; `encode_lossy_of_ascii` — so is one that shows as ASCII.
-/

set_option autoImplicit false

namespace ImageRecipe.Utf8

/-! ## Forms of spellings -/

/-- The bytes that spell the uppermost bits of a value: a lead byte, marked by its own uppermost bits, and
so many bytes after it. -/
def spelt (lead : Nat) : Nat → Nat → List UInt8
  | 0, value => [UInt8.ofNat (value + lead)]
  | more + 1, value => spelt lead more (value / 64) ++ [UInt8.ofNat (value % 64 + 0x80)]

/-- The forms of a spelling: the mark of the lead byte, how many bytes follow it, and the values that are
spelled like this. -/
inductive Form : (lead more least most : Nat) → Prop
  | two : Form 0xC0 1 0x80 0x800
  | three : Form 0xE0 2 0x800 0x10000
  | four : Form 0xF0 3 0x10000 0x110000

/-- **A value of a form is encoded in that form.** -/
theorem utf8EncodeChar_of_form {lead more least most value : Nat} (h : Form lead more least most)
    (hleast : least ≤ value) (hmost : value < most) (hvalid : value.isValidChar) :
    String.utf8EncodeChar (Char.ofNat value) = spelt lead more value := by
  have hvalue : (Char.ofNat value).val.toNat = value := toNat_ofNat_of_valid hvalid
  unfold String.utf8EncodeChar
  simp only [hvalue]
  cases h with
  | two =>
    rw [if_neg (by omega), if_pos (by omega), Nat.mod_eq_of_lt (by omega : value / 64 < 32)]
    rfl
  | three =>
    rw [if_neg (by omega), if_neg (by omega), if_pos (by omega),
      Nat.mod_eq_of_lt (by omega : value / 4096 < 16)]
    simp only [spelt, Nat.div_div_eq_div_mul]
    rfl
  | four =>
    rw [if_neg (by omega), if_neg (by omega), if_neg (by omega),
      Nat.mod_eq_of_lt (by omega : value / 262144 < 8)]
    simp only [spelt, Nat.div_div_eq_div_mul]
    rfl

/-- One more byte of a spelling. -/
theorem spelt_push (lead more value : Nat) {b : UInt8} (hlow : 0x80 ≤ b.toNat)
    (hhigh : b.toNat ≤ 0xBF) :
    spelt lead (more + 1) (value * 64 + (b.toNat - 0x80)) = spelt lead more value ++ [b] := by
  have hdiv : (value * 64 + (b.toNat - 0x80)) / 64 = value := by omega
  have hmod : (value * 64 + (b.toNat - 0x80)) % 64 + 0x80 = b.toNat := by omega
  rw [spelt, hdiv, hmod, UInt8.ofNat_toNat]

/-! ## Openings of a form -/

/-- An opening is the beginning of a spelling of a form, and what it can come to is spelled like this. -/
structure Opening.Spells (o : Opening) (lead more least most : Nat) : Prop where
  form : Form lead more least most
  bytes : ∃ read, read + o.owed = more ∧ o.bytes = spelt lead read o.value
  least : least ≤ o.least
  most : o.most ≤ most

theorem spelt_lead {lead value : Nat} {b : UInt8} (h : value + lead = b.toNat) :
    [b] = spelt lead 0 value := by
  rw [spelt, h, UInt8.ofNat_toNat]

theorem spells_opening? {b : UInt8} {o : Opening} (h : opening? b = some o) :
    ∃ lead more least most, o.Spells lead more least most := by
  have hb : ∀ c : UInt8, c ≤ b ↔ c.toNat ≤ b.toNat := fun c => UInt8.le_iff_toNat_le
  have hb' : ∀ c : UInt8, b ≤ c ↔ b.toNat ≤ c.toNat := fun c => UInt8.le_iff_toNat_le
  have heq : ∀ c : UInt8, b = c ↔ b.toNat = c.toNat := fun c => UInt8.toNat_inj.symm
  unfold opening? at h
  simp only [hb, hb', heq, UInt8.reduceToNat] at h
  split at h
  · cases h
    refine ⟨_, _, _, _, .two, ⟨0, rfl, spelt_lead ?_⟩, ?_, ?_⟩ <;>
      simp [Opening.least, Opening.most] <;> omega
  split at h
  · cases h
    exact ⟨_, _, _, _, .three, ⟨0, rfl, spelt_lead (by simp; omega)⟩, by simp [Opening.least],
      by simp [Opening.most]⟩
  split at h
  · cases h
    exact ⟨_, _, _, _, .three, ⟨0, rfl, spelt_lead (by simp; omega)⟩, by simp [Opening.least],
      by simp [Opening.most]⟩
  split at h
  · cases h
    refine ⟨_, _, _, _, .three, ⟨0, rfl, spelt_lead ?_⟩, ?_, ?_⟩ <;>
      simp [Opening.least, Opening.most] <;> omega
  split at h
  · cases h
    exact ⟨_, _, _, _, .four, ⟨0, rfl, spelt_lead (by simp; omega)⟩, by simp [Opening.least],
      by simp [Opening.most]⟩
  split at h
  · cases h
    refine ⟨_, _, _, _, .four, ⟨0, rfl, spelt_lead ?_⟩, ?_, ?_⟩ <;>
      simp [Opening.least, Opening.most] <;> omega
  split at h
  · cases h
    refine ⟨_, _, _, _, .four, ⟨0, rfl, spelt_lead ?_⟩, ?_, ?_⟩
    · show 4 + 0xF0 = b.toNat
      omega
    · simp only [Opening.least]
      decide
    · simp only [Opening.most]
      decide
  · cases h

namespace Opening.Spells

variable {o : Opening} {lead more least most : Nat} {b : UInt8}

/-- One more byte goes on with the spelling. -/
theorem bytes_push (h : o.Spells lead more least most) (hapt : o.Apt) (hlow : o.low ≤ b)
    (hhigh : b ≤ o.high) :
    ∃ read, read + (o.owed - 1) = more ∧ (o.push b).bytes = spelt lead read (o.push b).value := by
  obtain ⟨read, hread, hbytes⟩ := h.bytes
  obtain ⟨⟨howed, -⟩, hlo, hhi, -, -⟩ := hapt
  have hlb : o.low.toNat ≤ b.toNat := UInt8.le_iff_toNat_le.1 hlow
  have hbh : b.toNat ≤ o.high.toNat := UInt8.le_iff_toNat_le.1 hhigh
  refine ⟨read + 1, by omega, ?_⟩
  rw [push_bytes, hbytes, ← spelt_push lead read o.value (by omega) (by omega)]
  rfl

theorem push (h : o.Spells lead more least most) (hapt : o.Apt) (hlow : o.low ≤ b)
    (hhigh : b ≤ o.high) (howed : o.owed ≠ 1) : (o.push b).Spells lead more least most := by
  have htwo : 2 ≤ o.owed := by
    have := hapt.owed.1
    omega
  exact ⟨h.form, h.bytes_push hapt hlow hhigh, h.least.trans (least_le_push htwo hlow),
    (most_push_le htwo hhigh).trans h.most⟩

/-- **The byte that closes an opened character completes its encoding.** -/
theorem close (h : o.Spells lead more least most) (hapt : o.Apt) (hlow : o.low ≤ b)
    (hhigh : b ≤ o.high) (howed : o.owed = 1) :
    (o.push b).bytes = String.utf8EncodeChar (Char.ofNat (o.push b).value) := by
  obtain ⟨read, hread, hbytes⟩ := h.bytes_push hapt hlow hhigh
  obtain ⟨hvalid, hleast, hmost⟩ := hapt.value_closed hlow hhigh howed
  rw [hbytes, utf8EncodeChar_of_form h.form (h.least.trans hleast) (hmost.trans_le h.most) hvalid,
    ← hread, howed]
  rfl

end Opening.Spells

/-! ## Characters are cut from their encoding -/

/-- A piece that is a character is spelled as the character is encoded. -/
def Piece.Encoded (piece : Piece) : Prop :=
  ∀ c ∈ piece.char?, piece.bytes = String.utf8EncodeChar c

theorem encoded_invalid (bytes : List UInt8) : (Piece.invalid bytes).Encoded := fun c hc => by cases hc

theorem encoded_char {value : Char} {spelling : List UInt8}
    (h : spelling = String.utf8EncodeChar value) : (Piece.char value spelling).Encoded := by
  rintro c ⟨⟩
  exact h

theorem encoded_ascii {b : UInt8} (h : b < 0x80) : (Piece.char (Char.ofNat b.toNat) [b]).Encoded := by
  apply encoded_char
  have hb : b.toNat < 0x80 := UInt8.lt_iff_toNat_lt.1 h
  have hvalid : b.toNat.isValidChar := by
    simp only [Nat.isValidChar]
    omega
  have hvalue : (Char.ofNat b.toNat).val.toNat = b.toNat := toNat_ofNat_of_valid hvalid
  unfold String.utf8EncodeChar
  simp only [hvalue]
  rw [if_pos (by omega), UInt8.ofNat_toNat]

/-- An opening that occurs and begins a spelling. -/
def Opening.Proper (o : Opening) : Prop := o.Apt ∧ ∃ lead more least most, o.Spells lead more least most

theorem proper_opening? {b : UInt8} {o : Opening} (h : opening? b = some o) : o.Proper :=
  ⟨apt_opening? h, spells_opening? h⟩

/-- **Every character is cut from its encoding.** -/
theorem encoded_scan (state : Option Opening) (bytes : List UInt8) (h : ∀ o ∈ state, o.Proper) :
    ∀ piece ∈ scan state bytes, piece.Encoded := by
  fun_induction scan state bytes with
  | case1 => exact fun _ hpiece => by cases hpiece
  | case2 o =>
    intro piece hpiece
    rw [List.mem_singleton] at hpiece
    exact hpiece ▸ encoded_invalid _
  | case3 b rest hascii ih => exact List.forall_mem_cons.2 ⟨encoded_ascii hascii, ih (by simp)⟩
  | case4 b rest _ o ho ih => exact ih (by simpa using proper_opening? ho)
  | case5 b rest _ _ ih => exact List.forall_mem_cons.2 ⟨encoded_invalid _, ih (by simp)⟩
  | case6 o b rest hfits next howed ih =>
    obtain ⟨hapt, lead, more, least, most, hspells⟩ := h o rfl
    exact List.forall_mem_cons.2
      ⟨encoded_char (hspells.close hapt hfits.1 hfits.2 howed), ih (by simp)⟩
  | case7 o b rest hfits next howed ih =>
    obtain ⟨hapt, lead, more, least, most, hspells⟩ := h o rfl
    refine ih fun p hp => ?_
    cases hp
    exact ⟨hapt.push hfits.1 hfits.2 howed, lead, more, least, most,
      hspells.push hapt hfits.1 hfits.2 howed⟩
  | case8 o b rest _ hascii ih =>
    exact List.forall_mem_cons.2 ⟨encoded_invalid _,
      List.forall_mem_cons.2 ⟨encoded_ascii hascii, ih (by simp)⟩⟩
  | case9 o b rest _ _ new hnew ih =>
    exact List.forall_mem_cons.2 ⟨encoded_invalid _, ih (by simpa using proper_opening? hnew)⟩
  | case10 o b rest _ _ _ ih =>
    exact List.forall_mem_cons.2 ⟨encoded_invalid _,
      List.forall_mem_cons.2 ⟨encoded_invalid _, ih (by simp)⟩⟩

/-! ## Text -/

/-- Whether all of a byte string is text. -/
def isText (bytes : List UInt8) : Bool := (decode bytes).all fun piece => piece.char?.isSome

/-- **A byte string that is text is the encoding of what it shows.** -/
theorem encode_lossy {bytes : List UInt8} (h : isText bytes = true) :
    encode (lossy bytes).toList = bytes := by
  have hencoded : ∀ piece ∈ decode bytes, String.utf8EncodeChar piece.shown = piece.bytes := by
    intro piece hpiece
    have hchar := List.all_eq_true.1 h piece hpiece
    have hown := encoded_scan none bytes (by simp) piece hpiece
    cases piece with
    | char value spelling => exact (hown value rfl).symm
    | invalid faulty => cases hchar
  rw [lossy, String.toList_ofList, encode, List.flatMap_map, List.flatMap_congr hencoded,
    bytes_decode]

/-- **What shows as ASCII is what it shows as.** -/
theorem encode_lossy_of_ascii {bytes : List UInt8}
    (h : ∀ b ∈ encode (lossy bytes).toList, b < 0x80) : encode (lossy bytes).toList = bytes := by
  apply encode_lossy
  rw [isText, List.all_eq_true]
  intro piece hpiece
  cases piece with
  | char value spelling => rfl
  | invalid faulty =>
    -- the replacement character would leave bytes above ASCII
    have hshown : '\uFFFD' ∈ (lossy bytes).toList := by
      rw [lossy, String.toList_ofList]
      exact List.mem_map.2 ⟨_, hpiece, rfl⟩
    have hmark : 0xEF ∈ encode (lossy bytes).toList := List.mem_flatMap.2 ⟨_, hshown, by decide⟩
    exact absurd (h _ hmark) (by decide)

end ImageRecipe.Utf8
