import ImageRecipe.Text.Utf8
import Mathlib.Tactic.Ring

/-!
# What a lossy text can show

A byte string that is no text still shows as one. What matters of it elsewhere: no zero character turns up
that was not there as a byte, and the text is not much longer.

* `Opening.least`, `Opening.most` — the values that an opened character can still come to;
* `Opening.Apt` — the openings that occur: these values are code points above ASCII.

Principal results: `from_lossy` — ASCII characters of the text were bytes of the string;
`mem_of_mem_encode` — ASCII bytes of an encoding are its characters; `mem_of_mem_lossy`,
`zero_not_mem_lossy` — so a lossy text has no slash, and its UTF-8 no zero byte, that was not there;
`length_lossy_le` — it is at most four times as long.
-/

set_option autoImplicit false

namespace ImageRecipe.Utf8

/-! ## Openings that occur -/

namespace Opening

/-- The least value that an opened character can still come to. -/
def least (o : Opening) : Nat := (o.value * 64 + (o.low.toNat - 0x80)) * 64 ^ (o.owed - 1)

/-- What all values that an opened character can still come to are below. -/
def most (o : Opening) : Nat := (o.value * 64 + (o.high.toNat - 0x80) + 1) * 64 ^ (o.owed - 1)

/-- An opening as it occurs: at least one byte is owed, and what it can come to is a code point above
ASCII and no surrogate. -/
structure Apt (o : Opening) : Prop where
  owed : 1 ≤ o.owed ∧ o.owed ≤ 3
  low : 0x80 ≤ o.low.toNat
  high : o.high.toNat ≤ 0xBF
  beyond : 0x80 ≤ o.least
  scalar : o.most ≤ 0xD800 ∨ 0xDFFF < o.least ∧ o.most ≤ 0x110000

end Opening

theorem apt_opening? {b : UInt8} {o : Opening} (h : opening? b = some o) : o.Apt := by
  have hb : ∀ c : UInt8, c ≤ b ↔ c.toNat ≤ b.toNat := fun c => UInt8.le_iff_toNat_le
  have hb' : ∀ c : UInt8, b ≤ c ↔ b.toNat ≤ c.toNat := fun c => UInt8.le_iff_toNat_le
  have heq : ∀ c : UInt8, b = c ↔ b.toNat = c.toNat := fun c => UInt8.toNat_inj.symm
  unfold opening? at h
  simp only [hb, hb', heq, UInt8.reduceToNat] at h
  split at h
  · cases h
    constructor <;> simp [Opening.least, Opening.most] <;> omega
  split at h
  · cases h
    constructor <;> simp [Opening.least, Opening.most]
  split at h
  · cases h
    constructor <;> simp [Opening.least, Opening.most]
  split at h
  · cases h
    constructor <;> simp [Opening.least, Opening.most] <;> omega
  split at h
  · cases h
    constructor <;> simp [Opening.least, Opening.most]
  split at h
  · cases h
    constructor <;> simp [Opening.least, Opening.most] <;> omega
  split at h
  · cases h
    constructor <;> simp only [Opening.least, Opening.most] <;> decide
  · cases h

theorem pow_owed {owed : Nat} (h : 2 ≤ owed) : 64 ^ (owed - 1) = 64 * 64 ^ (owed - 1 - 1) := by
  rw [← Nat.pow_succ']
  congr 1
  omega

/-- One more byte only raises the least value that an opened character can come to. -/
theorem Opening.least_le_push {o : Opening} (howed : 2 ≤ o.owed) {b : UInt8} (hlow : o.low ≤ b) :
    o.least ≤ (o.push b).least := by
  have hlb : o.low.toNat ≤ b.toNat := UInt8.le_iff_toNat_le.1 hlow
  have hpush : (o.push b).least = (o.value * 64 + (b.toNat - 0x80)) * 64 ^ (o.owed - 1) := by
    simp only [Opening.push, Opening.least, UInt8.reduceToNat, Nat.sub_self, Nat.add_zero]
    rw [pow_owed howed, ← Nat.mul_assoc]
  rw [hpush]
  exact Nat.mul_le_mul_right _ (by omega)

/-- One more byte only lowers what all values are below that an opened character can come to. -/
theorem Opening.most_push_le {o : Opening} (howed : 2 ≤ o.owed) {b : UInt8} (hhigh : b ≤ o.high) :
    (o.push b).most ≤ o.most := by
  have hbh : b.toNat ≤ o.high.toNat := UInt8.le_iff_toNat_le.1 hhigh
  have hpush : (o.push b).most = (o.value * 64 + (b.toNat - 0x80) + 1) * 64 ^ (o.owed - 1) := by
    have hnext : ∀ next : Nat, next * 64 + (0xBF - 0x80) + 1 = (next + 1) * 64 := fun next =>
      (Nat.succ_mul next 64).symm
    simp only [Opening.push, Opening.most, UInt8.reduceToNat]
    rw [pow_owed howed, ← Nat.mul_assoc, hnext]
  rw [hpush]
  exact Nat.mul_le_mul_right _ (by omega)

/-- An opening stays one that occurs with one more byte that fits. -/
theorem Opening.Apt.push {o : Opening} (h : o.Apt) {b : UInt8} (hlow : o.low ≤ b)
    (hhigh : b ≤ o.high) (howed : o.owed ≠ 1) : (o.push b).Apt := by
  obtain ⟨⟨hleast, hmost⟩, hlo, hhi, hbeyond, hscalar⟩ := h
  have htwo : 2 ≤ o.owed := by omega
  have hL := Opening.least_le_push htwo hlow
  have hH := Opening.most_push_le htwo hhigh
  refine ⟨⟨?_, ?_⟩, Nat.le_refl _, Nat.le_refl _, Nat.le_trans hbeyond hL, ?_⟩
  · exact Nat.le_sub_of_add_le (by omega)
  · exact Nat.le_trans (Nat.sub_le _ _) hmost
  · exact hscalar.imp (Nat.le_trans hH) fun ⟨hl, hm⟩ =>
      ⟨Nat.lt_of_lt_of_le hl hL, Nat.le_trans hH hm⟩

theorem toNat_ofNat_of_valid {n : Nat} (h : n.isValidChar) : (Char.ofNat n).toNat = n := by
  rw [Char.ofNat, dif_pos h]
  rfl

/-- The byte that closes an opened character makes it one of the values it could still come to. -/
theorem Opening.Apt.value_closed {o : Opening} (h : o.Apt) {b : UInt8} (hlow : o.low ≤ b)
    (hhigh : b ≤ o.high) (howed : o.owed = 1) :
    (o.push b).value.isValidChar ∧ o.least ≤ (o.push b).value ∧ (o.push b).value < o.most := by
  obtain ⟨-, hlo, hhi, hbeyond, hscalar⟩ := h
  have hlb : o.low.toNat ≤ b.toNat := UInt8.le_iff_toNat_le.1 hlow
  have hbh : b.toNat ≤ o.high.toNat := UInt8.le_iff_toNat_le.1 hhigh
  have hleast : o.least = o.value * 64 + (o.low.toNat - 0x80) := by
    rw [Opening.least, howed, Nat.sub_self, Nat.pow_zero, Nat.mul_one]
  have hmost : o.most = o.value * 64 + (o.high.toNat - 0x80) + 1 := by
    rw [Opening.most, howed, Nat.sub_self, Nat.pow_zero, Nat.mul_one]
  have hvalue : (o.push b).value = o.value * 64 + (b.toNat - 0x80) := rfl
  refine ⟨?_, by omega, by omega⟩
  simp only [Nat.isValidChar]
  omega

/-- The byte that closes an opened character makes it a code point above ASCII. -/
theorem Opening.Apt.close {o : Opening} (h : o.Apt) {b : UInt8} (hlow : o.low ≤ b)
    (hhigh : b ≤ o.high) (howed : o.owed = 1) : 0x80 ≤ (Char.ofNat (o.push b).value).toNat := by
  obtain ⟨hvalid, hleast, -⟩ := h.value_closed hlow hhigh howed
  rw [toNat_ofNat_of_valid hvalid]
  exact h.beyond.trans hleast

/-! ## Characters of the text -/

/-- A character that is above ASCII, or was an ASCII byte among these. -/
def From (bytes : List UInt8) (c : Char) : Prop :=
  0x80 ≤ c.toNat ∨ ∃ b ∈ bytes, b < 0x80 ∧ c = Char.ofNat b.toNat

theorem From.tail {b : UInt8} {rest : List UInt8} {c : Char} (h : From rest c) :
    From (b :: rest) c :=
  h.imp_right fun ⟨a, ha, hlow, heq⟩ => ⟨a, List.mem_cons_of_mem b ha, hlow, heq⟩

theorem from_ascii {b : UInt8} (rest : List UInt8) (h : b < 0x80) :
    From (b :: rest) (Char.ofNat b.toNat) :=
  .inr ⟨b, List.mem_cons_self, h, rfl⟩

theorem from_shown_invalid (bytes faulty : List UInt8) :
    From bytes (Piece.invalid faulty).shown := by
  have hmark : 0x80 ≤ '\uFFFD'.toNat := by decide
  exact .inl hmark

theorem from_scan (state : Option Opening) (bytes : List UInt8) (h : ∀ o ∈ state, o.Apt) :
    ∀ piece ∈ scan state bytes, From bytes piece.shown := by
  fun_induction scan state bytes with
  | case1 => exact fun _ hpiece => by cases hpiece
  | case2 o =>
    intro piece hpiece
    rw [List.mem_singleton] at hpiece
    exact hpiece ▸ from_shown_invalid _ _
  | case3 b rest hascii ih =>
    rw [List.forall_mem_cons]
    exact ⟨from_ascii rest hascii, fun piece hpiece => (ih (by simp) piece hpiece).tail⟩
  | case4 b rest _ o ho ih =>
    exact fun piece hpiece => (ih (by simpa using apt_opening? ho) piece hpiece).tail
  | case5 b rest _ _ ih =>
    rw [List.forall_mem_cons]
    exact ⟨from_shown_invalid _ _, fun piece hpiece => (ih (by simp) piece hpiece).tail⟩
  | case6 o b rest hfits next howed ih =>
    have hapt : o.Apt := h o rfl
    rw [List.forall_mem_cons]
    exact ⟨.inl (hapt.close hfits.1 hfits.2 howed),
      fun piece hpiece => (ih (by simp) piece hpiece).tail⟩
  | case7 o b rest hfits next howed ih =>
    have hapt : o.Apt := h o rfl
    have hnext : ∀ p ∈ some next, p.Apt := by
      intro p hp
      cases hp
      exact hapt.push hfits.1 hfits.2 howed
    exact fun piece hpiece => (ih hnext piece hpiece).tail
  | case8 o b rest _ hascii ih =>
    rw [List.forall_mem_cons, List.forall_mem_cons]
    exact ⟨from_shown_invalid _ _, from_ascii rest hascii,
      fun piece hpiece => (ih (by simp) piece hpiece).tail⟩
  | case9 o b rest _ _ new hnew ih =>
    rw [List.forall_mem_cons]
    exact ⟨from_shown_invalid _ _,
      fun piece hpiece => (ih (by simpa using apt_opening? hnew) piece hpiece).tail⟩
  | case10 o b rest _ _ _ ih =>
    rw [List.forall_mem_cons, List.forall_mem_cons]
    exact ⟨from_shown_invalid _ _, from_shown_invalid _ _,
      fun piece hpiece => (ih (by simp) piece hpiece).tail⟩

/-- **ASCII characters of a lossy text were bytes.** -/
theorem from_lossy {bytes : List UInt8} {c : Char} (h : c ∈ (lossy bytes).toList) : From bytes c := by
  rw [lossy, String.toList_ofList] at h
  obtain ⟨piece, hpiece, rfl⟩ := List.mem_map.1 h
  exact from_scan none bytes (by simp) piece hpiece

/-- **A lossy text has no ASCII character that was not there.** -/
theorem mem_of_mem_lossy {bytes : List UInt8} {b : UInt8} (hb : b < 0x80)
    (h : Char.ofNat b.toNat ∈ (lossy bytes).toList) : b ∈ bytes := by
  have hvalid : ∀ a : UInt8, a < 0x80 → (Char.ofNat a.toNat).toNat = a.toNat := by
    intro a ha
    have hlow : a.toNat < 0x80 := UInt8.lt_iff_toNat_lt.1 ha
    apply toNat_ofNat_of_valid
    simp only [Nat.isValidChar]
    omega
  have hlow : b.toNat < 0x80 := UInt8.lt_iff_toNat_lt.1 hb
  rcases from_lossy h with habove | ⟨a, ha, hascii, heq⟩
  · rw [hvalid b hb] at habove
    omega
  · have hnat := congrArg Char.toNat heq
    rw [hvalid b hb, hvalid a hascii] at hnat
    exact UInt8.toNat_inj.1 hnat ▸ ha

/-! ## ASCII bytes of an encoding -/

/-- The first byte of an encoding of more than one byte, and every byte after it, is above ASCII. -/
theorem not_ascii_of_mark {mark value : Nat} (hmark : 0x80 ≤ mark) (hvalue : mark + value < 0x100) :
    ¬UInt8.ofNat (value + mark) < 0x80 := by
  rw [UInt8.lt_iff_toNat_lt, UInt8.toNat_ofNat', Nat.mod_eq_of_lt (by omega)]
  simp only [UInt8.reduceToNat]
  omega

/-- **An ASCII byte of an encoded character is that character.** -/
theorem toNat_of_mem_utf8EncodeChar {c : Char} {b : UInt8} (hb : b < 0x80)
    (h : b ∈ String.utf8EncodeChar c) : c.toNat = b.toNat := by
  have hscalar : c.toNat = c.val.toNat := rfl
  rw [hscalar]
  unfold String.utf8EncodeChar at h
  simp only at h
  split at h
  · rw [List.mem_singleton] at h
    rw [h, UInt8.toNat_ofNat', Nat.mod_eq_of_lt (by omega)]
  split at h
  · simp only [List.mem_cons, List.not_mem_nil, or_false] at h
    rcases h with rfl | rfl <;> exact absurd hb (not_ascii_of_mark (by omega) (by omega))
  split at h
  · simp only [List.mem_cons, List.not_mem_nil, or_false] at h
    rcases h with rfl | rfl | rfl <;> exact absurd hb (not_ascii_of_mark (by omega) (by omega))
  · simp only [List.mem_cons, List.not_mem_nil, or_false] at h
    rcases h with rfl | rfl | rfl | rfl <;>
      exact absurd hb (not_ascii_of_mark (by omega) (by omega))

/-- **An encoded text has the ASCII bytes that are among its characters.** -/
theorem mem_of_mem_encode {text : List Char} {b : UInt8} (hb : b < 0x80) (h : b ∈ encode text) :
    Char.ofNat b.toNat ∈ text := by
  obtain ⟨c, hc, hencode⟩ := List.mem_flatMap.1 h
  rwa [← toNat_of_mem_utf8EncodeChar hb hencode, Char.ofNat_toNat]

/-- **A lossy text has no zero byte that was not there.** -/
theorem zero_not_mem_lossy {bytes : List UInt8} (h : 0 ∉ bytes) :
    0 ∉ encode (lossy bytes).toList := by
  intro hzero
  have hlow : (0 : UInt8) < 0x80 := by decide
  exact h (mem_of_mem_lossy hlow (mem_of_mem_encode hlow hzero))

/-! ## Lengths -/

theorem length_scan_le (state : Option Opening) (bytes : List UInt8) :
    (scan state bytes).length ≤ bytes.length + state.toList.length := by
  fun_induction scan state bytes with
  | case1 => exact Nat.le_refl _
  | case2 => exact Nat.le_refl _
  | _ => simp only [List.length_cons, Option.toList, List.length_nil] at *; omega

theorem length_encode_le (text : List Char) : (encode text).length ≤ 4 * text.length := by
  induction text with
  | nil => exact Nat.le_refl _
  | cons c rest ih =>
    have hc := Char.utf8Size_le_four c
    rw [encode, List.flatMap_cons, List.length_append, String.length_utf8EncodeChar,
      List.length_cons]
    rw [encode] at ih
    omega

/-- **A lossy text is at most four times as long.** -/
theorem length_lossy_le (bytes : List UInt8) :
    (encode (lossy bytes).toList).length ≤ 4 * bytes.length := by
  have hscan := length_scan_le none bytes
  have hencode := length_encode_le (lossy bytes).toList
  rw [lossy, String.toList_ofList, List.length_map, decode] at hencode
  rw [lossy, String.toList_ofList]
  simp only [Option.toList_none, List.length_nil] at hscan
  exact Nat.le_trans hencode (by omega)

end ImageRecipe.Utf8
