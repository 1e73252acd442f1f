import ImageRecipe.Proofs.Text.Spelling

/-!
# Texts are read back from their bytes

The bytes of a text show as that text. So a name that was made from bytes, faulty ones replaced, is the same
name when its own bytes are shown.

* `trailing` — the bytes that follow the lead byte of a spelling;
* `Opening.Awaits` — an opening that can come to a value with so many more bytes.

Principal results:

* `exists_opening` — the lead byte of a value opens a character that can come to it;
* `Opening.Awaits.scan_trailing` — the bytes that follow complete it, by induction on how many are owed;
* `lossy_encode` — so the bytes of a text show as that text.
-/

set_option autoImplicit false

namespace ImageRecipe.Utf8

/-! ## Spellings from the front -/

/-- The last so many bytes of the spelling of a value: six bits in each. -/
def trailing : Nat → Nat → List UInt8
  | 0, _ => []
  | more + 1, value => UInt8.ofNat (value / 64 ^ more % 64 + 0x80) :: trailing more value

theorem trailing_succ (more value : Nat) :
    trailing (more + 1) value = trailing more (value / 64) ++ [UInt8.ofNat (value % 64 + 0x80)] := by
  induction more with
  | zero => simp [trailing]
  | succ more ih =>
    rw [trailing, ih, trailing, List.cons_append, Nat.div_div_eq_div_mul, Nat.pow_succ']

theorem spelt_eq_cons (lead more value : Nat) :
    spelt lead more value = UInt8.ofNat (value / 64 ^ more + lead) :: trailing more value := by
  induction more generalizing value with
  | zero => simp [spelt, trailing]
  | succ more ih =>
    rw [spelt, ih, trailing_succ, List.cons_append, Nat.div_div_eq_div_mul, Nat.pow_succ']

/-! ## One character -/

/-- An opening that can come to a value with so many more bytes. -/
structure Opening.Awaits (o : Opening) (more value : Nat) : Prop where
  owed : o.owed = more
  low : 0x80 ≤ o.low.toNat
  high : 0x80 ≤ o.high.toNat ∧ o.high.toNat ≤ 0xBF
  least : o.least ≤ value
  most : value < o.most

/-- **The lead byte of a value opens a character that can come to it.** -/
theorem exists_opening {lead more least most value : Nat} (h : Form lead more least most)
    (hleast : least ≤ value) (hmost : value < most) (hvalid : value.isValidChar) {b : UInt8}
    (hb : b.toNat = value / 64 ^ more + lead) :
    ∃ o, opening? b = some o ∧ o.Awaits more value := by
  have hle : ∀ c : UInt8, c ≤ b ↔ c.toNat ≤ b.toNat := fun c => UInt8.le_iff_toNat_le
  have hge : ∀ c : UInt8, b ≤ c ↔ b.toNat ≤ c.toNat := fun c => UInt8.le_iff_toNat_le
  have heq : ∀ c : UInt8, b = c ↔ b.toNat = c.toNat := fun c => UInt8.toNat_inj.symm
  simp only [Nat.isValidChar] at hvalid
  unfold opening?
  simp only [hle, hge, heq, hb, UInt8.reduceToNat]
  cases h with
  | two =>
    rw [if_pos (by omega)]
    refine ⟨_, rfl, ?_⟩
    constructor <;> simp [Opening.least, Opening.most] <;> omega
  | three =>
    rw [if_neg (by omega)]
    split
    · refine ⟨_, rfl, ?_⟩
      constructor <;> simp [Opening.least, Opening.most] <;> omega
    split
    · refine ⟨_, rfl, ?_⟩
      constructor <;> simp [Opening.least, Opening.most] <;> omega
    rw [if_pos (by omega)]
    refine ⟨_, rfl, ?_⟩
    constructor <;> simp [Opening.least, Opening.most] <;> omega
  | four =>
    rw [if_neg (by omega), if_neg (by omega), if_neg (by omega), if_neg (by omega)]
    split
    · refine ⟨_, rfl, ?_⟩
      constructor <;> simp [Opening.least, Opening.most] <;> omega
    split
    · refine ⟨_, rfl, ?_⟩
      constructor <;> simp [Opening.least, Opening.most] <;> omega
    rw [if_pos (by omega)]
    have habove : 0x100000 ≤ value := by omega
    refine ⟨_, rfl, ?_⟩
    constructor <;> simp only [Opening.least, Opening.most]
    · decide
    · decide
    · exact Nat.le_trans (by decide) habove
    · exact Nat.lt_of_lt_of_le hmost (by decide)

namespace Opening.Awaits

variable {o : Opening} {more value : Nat} {b : UInt8}

/-- The next byte of the value fits, and carries the opening on towards it. -/
theorem fits (h : o.Awaits (more + 1) value) (hb : b = UInt8.ofNat (value / 64 ^ more % 64 + 0x80)) :
    (o.low ≤ b ∧ b ≤ o.high) ∧ (o.push b).value = value / 64 ^ more := by
  obtain ⟨howed, hlow, hhigh, hleast, hmost⟩ := h
  have hbyte : b.toNat = value / 64 ^ more % 64 + 0x80 := by
    rw [hb, UInt8.toNat_ofNat', Nat.mod_eq_of_lt (by omega)]
  have hpow : 0 < 64 ^ more := Nat.pow_pos (by decide)
  rw [Opening.least, howed, Nat.add_sub_cancel, ← Nat.le_div_iff_mul_le hpow] at hleast
  rw [Opening.most, howed, Nat.add_sub_cancel, ← Nat.div_lt_iff_lt_mul hpow] at hmost
  simp only [Opening.push, UInt8.le_iff_toNat_le, hbyte]
  omega

theorem push (h : o.Awaits (more + 2) value) (hvalue : (o.push b).value = value / 64 ^ (more + 1)) :
    (o.push b).Awaits (more + 1) value := by
  have hlow : (o.push b).low.toNat = 0x80 := rfl
  have hhigh : (o.push b).high.toNat = 0xBF := rfl
  have howed : (o.push b).owed = more + 1 := by
    simp only [Opening.push, h.owed]
    omega
  have hpow : 0 < 64 ^ (more + 1) := Nat.pow_pos (by decide)
  refine ⟨howed, by omega, by omega, ?_, ?_⟩
  · rw [Opening.least, hvalue, howed, hlow, Nat.sub_self, Nat.add_zero, Nat.mul_assoc,
      Nat.add_sub_cancel, ← Nat.pow_succ']
    exact Nat.div_mul_le_self _ _
  · rw [Opening.most, hvalue, howed, hhigh, Nat.add_assoc, ← Nat.succ_mul, Nat.mul_assoc,
      Nat.add_sub_cancel, ← Nat.pow_succ', Nat.mul_comm]
    exact Nat.lt_mul_div_succ value hpow

/-- **The bytes after those of an opening complete a character that it can come to.** -/
theorem scan_trailing (h : o.Awaits (more + 1) value) (rest : List UInt8) :
    scan (some o) (trailing (more + 1) value ++ rest) =
      .char (Char.ofNat value) (o.bytes ++ trailing (more + 1) value) :: scan none rest := by
  induction more generalizing o with
  | zero =>
    obtain ⟨hfits, hvalue⟩ := h.fits rfl
    rw [trailing, List.cons_append, scan, if_pos hfits, if_pos h.owed, hvalue, Nat.pow_zero,
      Nat.div_one]
    rfl
  | succ more ih =>
    obtain ⟨hfits, hvalue⟩ := h.fits rfl
    have hmore : o.owed ≠ 1 := by
      rw [h.owed]
      omega
    rw [trailing, List.cons_append, scan, if_pos hfits, if_neg hmore, ih (h.push hvalue),
      Opening.push_bytes, List.append_assoc, List.singleton_append]

end Opening.Awaits

/-- A character that is spelled in a form is cut from its spelling. -/
theorem scan_spelt {lead more least most value : Nat} (h : Form lead more least most)
    (hleast : least ≤ value) (hmost : value < most) (hvalid : value.isValidChar) (rest : List UInt8) :
    scan none (spelt lead more value ++ rest) =
      .char (Char.ofNat value) (spelt lead more value) :: scan none rest := by
  have hbyte : (UInt8.ofNat (value / 64 ^ more + lead)).toNat = value / 64 ^ more + lead := by
    rw [UInt8.toNat_ofNat', Nat.mod_eq_of_lt (by cases h <;> omega)]
  obtain ⟨o, ho, hawaits⟩ := exists_opening h hleast hmost hvalid hbyte
  have habove : ¬UInt8.ofNat (value / 64 ^ more + lead) < 0x80 := by
    rw [UInt8.lt_iff_toNat_lt, hbyte]
    cases h <;> simp
  obtain ⟨next, rfl⟩ : ∃ next, more = next + 1 := by
    cases h <;> exact ⟨_, rfl⟩
  rw [spelt_eq_cons, List.cons_append, scan, if_neg habove, ho]
  simp only
  rw [hawaits.scan_trailing, opening?_bytes ho, List.singleton_append]

/-- **A character is cut from its encoding.** -/
theorem scan_utf8EncodeChar (c : Char) (rest : List UInt8) :
    scan none (String.utf8EncodeChar c ++ rest) =
      .char c (String.utf8EncodeChar c) :: scan none rest := by
  have hvalid : c.toNat.isValidChar := c.valid
  have hof : Char.ofNat c.toNat = c := Char.ofNat_toNat c
  have hform : ∀ {lead more least most : Nat}, Form lead more least most → least ≤ c.toNat →
      c.toNat < most → scan none (String.utf8EncodeChar c ++ rest) =
        .char c (String.utf8EncodeChar c) :: scan none rest := by
    intro lead more least most h hleast hmost
    have hspelt := utf8EncodeChar_of_form h hleast hmost hvalid
    have hscan := scan_spelt h hleast hmost hvalid rest
    rwa [← hspelt, hof] at hscan
  by_cases hone : c.toNat < 0x80
  · have hbyte : (UInt8.ofNat c.toNat).toNat = c.toNat := by
      rw [UInt8.toNat_ofNat', Nat.mod_eq_of_lt (by omega)]
    have hascii : UInt8.ofNat c.toNat < 0x80 := UInt8.lt_iff_toNat_lt.2 (by rwa [hbyte])
    have hown := encoded_ascii hascii _ rfl
    rw [hbyte, hof] at hown
    rw [← hown, Piece.bytes, List.singleton_append, scan, if_pos hascii, hbyte, hof]
  by_cases htwo : c.toNat < 0x800
  · exact hform .two (Nat.not_lt.1 hone) htwo
  by_cases hthree : c.toNat < 0x10000
  · exact hform .three (Nat.not_lt.1 htwo) hthree
  · refine hform .four (Nat.not_lt.1 hthree) ?_
    simp only [Nat.isValidChar] at hvalid
    omega

theorem decode_encode (text : List Char) :
    decode (encode text) = text.map fun c => .char c (String.utf8EncodeChar c) := by
  induction text with
  | nil => rfl
  | cons c rest ih =>
    rw [decode, encode, List.flatMap_cons, scan_utf8EncodeChar, List.map_cons, ← ih]
    rfl

/-- **The bytes of a text show as that text.** -/
theorem lossy_encode (text : List Char) : lossy (encode text) = String.ofList text := by
  rw [lossy, decode_encode, List.map_map]
  congr 1
  exact List.map_id text

end ImageRecipe.Utf8
