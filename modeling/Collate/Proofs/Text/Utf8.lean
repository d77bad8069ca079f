import Collate.Text.Utf8

/-!
Reading back what the writer of UTF-8 puts down. The reader takes the octets of
one character off at a time, whatever follows them, so the octets of any
sequence of characters are read as that sequence. And it takes nothing else: octets
that are read are those of the characters read.
-/

namespace Collate.Text.Utf8

private theorem toNat_ofNat_of_lt {n : Nat} (h : n < 256) : (UInt8.ofNat n).toNat = n := by
  simp [UInt8.toNat_ofNat', Nat.mod_eq_of_lt h]

private theorem ofNat_lt_iff {n : Nat} (h : n < 256) (m : UInt8) :
    UInt8.ofNat n < m ↔ n < m.toNat := by
  rw [UInt8.lt_iff_toNat_lt, toNat_ofNat_of_lt h]

private theorem ofNat_le_iff {n : Nat} (h : n < 256) (m : UInt8) :
    UInt8.ofNat n ≤ m ↔ n ≤ m.toNat := by
  rw [UInt8.le_iff_toNat_le, toNat_ofNat_of_lt h]

private theorem le_ofNat_iff {n : Nat} (h : n < 256) (m : UInt8) :
    m ≤ UInt8.ofNat n ↔ m.toNat ≤ n := by
  rw [UInt8.le_iff_toNat_le, toNat_ofNat_of_lt h]

private theorem ofNat_beq_iff {n : Nat} (h : n < 256) (m : UInt8) :
    (UInt8.ofNat n == m) = true ↔ n = m.toNat := by
  rw [beq_iff_eq, ← UInt8.toNat_inj, toNat_ofNat_of_lt h]

private theorem tailBits_ofNat {n : Nat} (h : n < 64) :
    tailBits (UInt8.ofNat (n + 0x80)) = n := by
  have hoctet : (UInt8.ofNat (n + 0x80)).toNat = n + 0x80 := toNat_ofNat_of_lt (by omega)
  unfold tailBits
  omega

private theorem between_ofNat {n : Nat} (h : n < 256) {low high : UInt8}
    (hlow : low.toNat ≤ n) (hhigh : n ≤ high.toNat) :
    (decide (low ≤ UInt8.ofNat n) && decide (UInt8.ofNat n ≤ high)) = true := by
  simp only [Bool.and_eq_true, decide_eq_true_iff]
  exact ⟨(le_ofNat_iff h low).mpr hlow, (ofNat_le_iff h high).mpr hhigh⟩

private theorem isTail_ofNat {n : Nat} (h : n < 64) : isTail (UInt8.ofNat (n + 0x80)) = true :=
  between_ofNat (by omega) (by simp) (by simp; omega)

private theorem isSecondOfThree_ofNat {a b : Nat} (ha : a < 16) (hb : b < 64)
    (hlong : a = 0 → 32 ≤ b) (hsurrogate : a = 13 → b < 32) :
    isSecondOfThree (UInt8.ofNat (a + 0xE0)) (UInt8.ofNat (b + 0x80)) = true := by
  unfold isSecondOfThree
  split
  · rename_i hlead
    have hzero : a = 0 := by
      have heq := (ofNat_beq_iff (by omega) _).mp hlead
      simp at heq
      omega
    have := hlong hzero
    exact between_ofNat (by omega) (by simp; omega) (by simp; omega)
  · split
    · rename_i hlead
      have hthirteen : a = 13 := by
        have heq := (ofNat_beq_iff (by omega) _).mp hlead
        simp at heq
        omega
      have := hsurrogate hthirteen
      exact between_ofNat (by omega) (by simp) (by simp; omega)
    · exact isTail_ofNat hb

private theorem isSecondOfFour_ofNat {a b : Nat} (ha : a < 5) (hb : b < 64)
    (hlong : a = 0 → 16 ≤ b) (hplane : a = 4 → b < 16) :
    isSecondOfFour (UInt8.ofNat (a + 0xF0)) (UInt8.ofNat (b + 0x80)) = true := by
  unfold isSecondOfFour
  split
  · rename_i hlead
    have hzero : a = 0 := by
      have heq := (ofNat_beq_iff (by omega) _).mp hlead
      simp at heq
      omega
    have := hlong hzero
    exact between_ofNat (by omega) (by simp; omega) (by simp; omega)
  · split
    · rename_i hlead
      have hfour : a = 4 := by
        have heq := (ofNat_beq_iff (by omega) _).mp hlead
        simp at heq
        omega
      have := hplane hfour
      exact between_ofNat (by omega) (by simp) (by simp; omega)
    · exact isTail_ofNat hb

theorem decodeOne_one {n : Nat} (h : n < 0x80) (rest : Octets) :
    decodeOne (UInt8.ofNat n) rest = .ok (Char.ofNat n, rest) := by
  have hlead : UInt8.ofNat n < 0x80 := (ofNat_lt_iff (by omega) _).mpr (by simpa using h)
  simp only [decodeOne]
  rw [if_pos hlead, toNat_ofNat_of_lt (by omega)]

theorem decodeOne_two {a b : Nat} (hlow : 2 ≤ a) (ha : a < 32) (hb : b < 64) (rest : Octets) :
    decodeOne (UInt8.ofNat (a + 0xC0)) (UInt8.ofNat (b + 0x80) :: rest) =
      .ok (Char.ofNat (a * 64 + b), rest) := by
  have hlead := fun m => ofNat_lt_iff (n := a + 0xC0) (by omega) m
  have h1 : ¬ UInt8.ofNat (a + 0xC0) < 0x80 := by rw [hlead]; simp
  have h2 : ¬ UInt8.ofNat (a + 0xC0) < 0xC2 := by rw [hlead]; simp; omega
  have h3 : UInt8.ofNat (a + 0xC0) < 0xE0 := by rw [hlead]; simp; omega
  have hbits : (UInt8.ofNat (a + 0xC0)).toNat - 0xC0 = a := by
    rw [toNat_ofNat_of_lt (by omega)]; omega
  simp only [decodeOne]
  rw [if_neg h1, if_neg h2, if_pos h3, if_pos (isTail_ofNat hb), hbits, tailBits_ofNat hb]

theorem decodeOne_three {a b c : Nat} (ha : a < 16) (hb : b < 64) (hc : c < 64)
    (hlong : a = 0 → 32 ≤ b) (hsurrogate : a = 13 → b < 32) (rest : Octets) :
    decodeOne (UInt8.ofNat (a + 0xE0))
        (UInt8.ofNat (b + 0x80) :: UInt8.ofNat (c + 0x80) :: rest) =
      .ok (Char.ofNat (a * 4096 + b * 64 + c), rest) := by
  have hlead := fun m => ofNat_lt_iff (n := a + 0xE0) (by omega) m
  have h1 : ¬ UInt8.ofNat (a + 0xE0) < 0x80 := by rw [hlead]; simp
  have h2 : ¬ UInt8.ofNat (a + 0xE0) < 0xC2 := by rw [hlead]; simp
  have h3 : ¬ UInt8.ofNat (a + 0xE0) < 0xE0 := by rw [hlead]; simp
  have h4 : UInt8.ofNat (a + 0xE0) < 0xF0 := by rw [hlead]; simp; omega
  have hbits : (UInt8.ofNat (a + 0xE0)).toNat - 0xE0 = a := by
    rw [toNat_ofNat_of_lt (by omega)]; omega
  simp only [decodeOne]
  rw [if_neg h1, if_neg h2, if_neg h3, if_pos h4,
    if_pos (isSecondOfThree_ofNat ha hb hlong hsurrogate), if_pos (isTail_ofNat hc),
    hbits, tailBits_ofNat hb, tailBits_ofNat hc]

theorem decodeOne_four {a b c d : Nat} (ha : a < 5) (hb : b < 64) (hc : c < 64) (hd : d < 64)
    (hlong : a = 0 → 16 ≤ b) (hplane : a = 4 → b < 16) (rest : Octets) :
    decodeOne (UInt8.ofNat (a + 0xF0))
        (UInt8.ofNat (b + 0x80) :: UInt8.ofNat (c + 0x80) :: UInt8.ofNat (d + 0x80) :: rest) =
      .ok (Char.ofNat (a * 262144 + b * 4096 + c * 64 + d), rest) := by
  have hlead := fun m => ofNat_lt_iff (n := a + 0xF0) (by omega) m
  have h1 : ¬ UInt8.ofNat (a + 0xF0) < 0x80 := by rw [hlead]; simp
  have h2 : ¬ UInt8.ofNat (a + 0xF0) < 0xC2 := by rw [hlead]; simp
  have h3 : ¬ UInt8.ofNat (a + 0xF0) < 0xE0 := by rw [hlead]; simp
  have h4 : ¬ UInt8.ofNat (a + 0xF0) < 0xF0 := by rw [hlead]; simp
  have h5 : UInt8.ofNat (a + 0xF0) < 0xF5 := by rw [hlead]; simp; omega
  have hbits : (UInt8.ofNat (a + 0xF0)).toNat - 0xF0 = a := by
    rw [toNat_ofNat_of_lt (by omega)]; omega
  simp only [decodeOne]
  rw [if_neg h1, if_neg h2, if_neg h3, if_neg h4, if_pos h5,
    if_pos (isSecondOfFour_ofNat ha hb hlong hplane), if_pos (isTail_ofNat hc),
    if_pos (isTail_ofNat hd), hbits, tailBits_ofNat hb, tailBits_ofNat hc, tailBits_ofNat hd]

/-- The octets of a character are a leading one and others, and the reader takes
exactly these for the character. -/
theorem decodeOne_encodeChar (c : Char) :
    ∃ lead tail, String.utf8EncodeChar c = lead :: tail ∧
      ∀ rest, decodeOne lead (tail ++ rest) = .ok (c, rest) := by
  have hchar : Char.ofNat c.val.toNat = c := Char.ofNat_toNat c
  have hvalid : c.val.toNat < 0xD800 ∨ (0xDFFF < c.val.toNat ∧ c.val.toNat < 0x110000) := c.valid
  generalize hn : c.val.toNat = n at hchar hvalid
  unfold String.utf8EncodeChar
  simp only [hn]
  by_cases h1 : n ≤ 0x7F
  · refine ⟨UInt8.ofNat n, [], by simp [h1], ?_⟩
    intro rest
    rw [List.nil_append, decodeOne_one (by omega), hchar]
  by_cases h2 : n ≤ 0x7FF
  · refine ⟨_, _, by rw [if_neg h1, if_pos h2], ?_⟩
    intro rest
    have hback : n / 64 % 32 * 64 + n % 64 = n := by omega
    rw [List.cons_append, List.nil_append, decodeOne_two (by omega) (by omega) (by omega),
      hback, hchar]
  by_cases h3 : n ≤ 0xFFFF
  · refine ⟨_, _, by rw [if_neg h1, if_neg h2, if_pos h3], ?_⟩
    intro rest
    have hback : n / 4096 % 16 * 4096 + n / 64 % 64 * 64 + n % 64 = n := by omega
    rw [List.cons_append, List.cons_append, List.nil_append,
      decodeOne_three (by omega) (by omega) (by omega) (by omega) (by omega), hback, hchar]
  · refine ⟨_, _, by rw [if_neg h1, if_neg h2, if_neg h3], ?_⟩
    intro rest
    have hback : n / 262144 % 8 * 262144 + n / 4096 % 64 * 4096 + n / 64 % 64 * 64 + n % 64 = n :=
      by omega
    rw [List.cons_append, List.cons_append, List.cons_append, List.nil_append,
      decodeOne_four (by omega) (by omega) (by omega) (by omega) (by omega) (by omega), hback,
      hchar]

theorem decodeFrom_encode (cs : List Char) (index : Nat) :
    decodeFrom index (encode cs) = .ok cs := by
  induction cs generalizing index with
  | nil => simp [encode, decodeFrom]
  | cons c rest ih =>
    obtain ⟨lead, tail, hoctets, hdecode⟩ := decodeOne_encodeChar c
    have hencode : encode (c :: rest) = lead :: (tail ++ encode rest) := by
      simp [encode, hoctets]
    rw [hencode, decodeFrom]
    split
    · rename_i c' rest' hone
      rw [hdecode] at hone
      obtain ⟨rfl, rfl⟩ : c = c' ∧ encode rest = rest' := by simpa using hone
      rw [ih]
      rfl
    · rename_i length hone
      rw [hdecode] at hone
      cases hone

/-- Characters are read back from their octets. -/
@[simp] theorem decode_encode (cs : List Char) : decode (encode cs) = .ok cs :=
  decodeFrom_encode cs 0

@[simp] theorem toText_encode (cs : List Char) : toText (encode cs) = .ok (String.ofList cs) := by
  simp [toText, Except.map]

@[simp] theorem encode_nil : encode [] = [] := rfl

theorem encode_cons (c : Char) (cs : List Char) :
    encode (c :: cs) = String.utf8EncodeChar c ++ encode cs := by
  simp [encode]

theorem encode_append (a b : List Char) : encode (a ++ b) = encode a ++ encode b := by
  simp [encode]

/-- Octets that are read as a character belong to the text only if the text
begins with that character. -/
theorem head_of_encode_eq {cs : List Char} {lead : UInt8} {rest rest' : Octets} {c : Char}
    (h : encode cs = lead :: rest) (hone : decodeOne lead rest = .ok (c, rest')) :
    ∃ more, cs = c :: more ∧ encode more = rest' := by
  cases cs with
  | nil => simp at h
  | cons d more =>
    obtain ⟨lead', tail, hoctets, hdecode⟩ := decodeOne_encodeChar d
    rw [encode_cons, hoctets, List.cons_append, List.cons.injEq] at h
    obtain ⟨rfl, rfl⟩ := h
    rw [hdecode] at hone
    obtain ⟨rfl, rfl⟩ : d = c ∧ encode more = rest' := by simpa using hone
    exact ⟨more, rfl, rfl⟩

/-! Only octets that the writer puts down are read. -/

private theorem val_ofNat {n : Nat} (h : n.isValidChar) : (Char.ofNat n).val.toNat = n := by
  rw [Char.ofNat, dif_pos h]
  rfl

theorem encodeChar_one {n : Nat} (h : n < 0x80) :
    String.utf8EncodeChar (Char.ofNat n) = [UInt8.ofNat n] := by
  have hvalid : n.isValidChar := .inl (by omega)
  simp only [String.utf8EncodeChar, val_ofNat hvalid]
  rw [if_pos (by omega)]

theorem encodeChar_two {a b : Nat} (hlow : 2 ≤ a) (ha : a < 32) (hb : b < 64) :
    String.utf8EncodeChar (Char.ofNat (a * 64 + b)) =
      [UInt8.ofNat (a + 0xC0), UInt8.ofNat (b + 0x80)] := by
  have hvalid : (a * 64 + b).isValidChar := .inl (by omega)
  have hlead : (a * 64 + b) / 64 % 32 = a := by omega
  have hlast : (a * 64 + b) % 64 = b := by omega
  simp only [String.utf8EncodeChar, val_ofNat hvalid, hlead, hlast]
  rw [if_neg (by omega), if_pos (by omega)]

theorem encodeChar_three {a b c : Nat} (ha : a < 16) (hb : b < 64) (hc : c < 64)
    (hlong : a = 0 → 32 ≤ b) (hsurrogate : a = 13 → b < 32) :
    String.utf8EncodeChar (Char.ofNat (a * 4096 + b * 64 + c)) =
      [UInt8.ofNat (a + 0xE0), UInt8.ofNat (b + 0x80), UInt8.ofNat (c + 0x80)] := by
  have hvalid : (a * 4096 + b * 64 + c).isValidChar := by
    by_cases hlow : a * 4096 + b * 64 + c < 0xD800
    · exact .inl hlow
    · exact .inr ⟨by omega, by omega⟩
  have hlead : (a * 4096 + b * 64 + c) / 4096 % 16 = a := by omega
  have hnext : (a * 4096 + b * 64 + c) / 64 % 64 = b := by omega
  have hlast : (a * 4096 + b * 64 + c) % 64 = c := by omega
  simp only [String.utf8EncodeChar, val_ofNat hvalid, hlead, hnext, hlast]
  rw [if_neg (by omega), if_neg (by omega), if_pos (by omega)]

theorem encodeChar_four {a b c d : Nat} (ha : a < 5) (hb : b < 64) (hc : c < 64) (hd : d < 64)
    (hlong : a = 0 → 16 ≤ b) (hplane : a = 4 → b < 16) :
    String.utf8EncodeChar (Char.ofNat (a * 262144 + b * 4096 + c * 64 + d)) =
      [UInt8.ofNat (a + 0xF0), UInt8.ofNat (b + 0x80), UInt8.ofNat (c + 0x80),
        UInt8.ofNat (d + 0x80)] := by
  have hvalid : (a * 262144 + b * 4096 + c * 64 + d).isValidChar :=
    .inr ⟨by omega, by omega⟩
  have hlead : (a * 262144 + b * 4096 + c * 64 + d) / 262144 % 8 = a := by omega
  have hnext : (a * 262144 + b * 4096 + c * 64 + d) / 4096 % 64 = b := by omega
  have hthird : (a * 262144 + b * 4096 + c * 64 + d) / 64 % 64 = c := by omega
  have hlast : (a * 262144 + b * 4096 + c * 64 + d) % 64 = d := by omega
  simp only [String.utf8EncodeChar, val_ofNat hvalid, hlead, hnext, hthird, hlast]
  rw [if_neg (by omega), if_neg (by omega), if_neg (by omega)]

private theorem beq_iff {b c : UInt8} : (b == c) = true ↔ b.toNat = c.toNat := by
  rw [beq_iff_eq, UInt8.toNat_inj]

private theorem between_iff {low b high : UInt8} :
    (decide (low ≤ b) && decide (b ≤ high)) = true ↔
      low.toNat ≤ b.toNat ∧ b.toNat ≤ high.toNat := by
  rw [Bool.and_eq_true, decide_eq_true_iff, decide_eq_true_iff, UInt8.le_iff_toNat_le,
    UInt8.le_iff_toNat_le]

private theorem ofNat_sub_add {b : UInt8} {n : Nat} (h : n ≤ b.toNat) :
    UInt8.ofNat (b.toNat - n + n) = b := by
  rw [Nat.sub_add_cancel h, UInt8.ofNat_toNat]

/-- A continuing octet stands for six bits. -/
private theorem isTail_bits {b : UInt8} (h : isTail b = true) :
    tailBits b < 64 ∧ UInt8.ofNat (tailBits b + 0x80) = b := by
  obtain ⟨hlow, hhigh⟩ := between_iff.mp h
  simp only [UInt8.reduceToNat] at hlow hhigh
  exact ⟨by unfold tailBits; omega, ofNat_sub_add hlow⟩

private theorem isSecondOfThree_bits {lead b : UInt8} (h : isSecondOfThree lead b = true)
    (hlead : 0xE0 ≤ lead.toNat) : isTail b = true ∧
      (lead.toNat - 0xE0 = 0 → 32 ≤ tailBits b) ∧ (lead.toNat - 0xE0 = 13 → tailBits b < 32) := by
  unfold isSecondOfThree at h
  split at h
  · rename_i hfirst
    obtain ⟨hlow, hhigh⟩ := between_iff.mp h
    have hlead' := beq_iff.mp hfirst
    simp only [UInt8.reduceToNat] at hlow hhigh hlead'
    exact ⟨between_iff.mpr ⟨by simp; omega, by simp; omega⟩, by unfold tailBits; omega, by omega⟩
  · rename_i hfirst
    have hlead' := mt beq_iff.mpr hfirst
    split at h
    · rename_i hthirteen
      obtain ⟨hlow, hhigh⟩ := between_iff.mp h
      have hlead'' := beq_iff.mp hthirteen
      simp only [UInt8.reduceToNat] at hlow hhigh hlead''
      exact ⟨between_iff.mpr ⟨by simp; omega, by simp; omega⟩, by omega,
        by unfold tailBits; omega⟩
    · rename_i hthirteen
      have hlead'' := mt beq_iff.mpr hthirteen
      simp only [UInt8.reduceToNat] at hlead' hlead''
      exact ⟨h, by omega, by omega⟩

private theorem isSecondOfFour_bits {lead b : UInt8} (h : isSecondOfFour lead b = true)
    (hlead : 0xF0 ≤ lead.toNat) : isTail b = true ∧
      (lead.toNat - 0xF0 = 0 → 16 ≤ tailBits b) ∧ (lead.toNat - 0xF0 = 4 → tailBits b < 16) := by
  unfold isSecondOfFour at h
  split at h
  · rename_i hfirst
    obtain ⟨hlow, hhigh⟩ := between_iff.mp h
    have hlead' := beq_iff.mp hfirst
    simp only [UInt8.reduceToNat] at hlow hhigh hlead'
    exact ⟨between_iff.mpr ⟨by simp; omega, by simp; omega⟩, by unfold tailBits; omega, by omega⟩
  · rename_i hfirst
    have hlead' := mt beq_iff.mpr hfirst
    split at h
    · rename_i hlast
      obtain ⟨hlow, hhigh⟩ := between_iff.mp h
      have hlead'' := beq_iff.mp hlast
      simp only [UInt8.reduceToNat] at hlow hhigh hlead''
      exact ⟨between_iff.mpr ⟨by simp; omega, by simp; omega⟩, by omega,
        by unfold tailBits; omega⟩
    · rename_i hlast
      have hlead'' := mt beq_iff.mpr hlast
      simp only [UInt8.reduceToNat] at hlead' hlead''
      exact ⟨h, by omega, by omega⟩

/-- Where a character is read, the octets are those of the character. -/
theorem encodeChar_of_decodeOne {lead : UInt8} {rest rest' : Octets} {c : Char}
    (h : decodeOne lead rest = .ok (c, rest')) :
    String.utf8EncodeChar c ++ rest' = lead :: rest := by
  have hlt : ∀ {m : UInt8}, ¬ lead < m → m.toNat ≤ lead.toNat := fun hm =>
    Nat.le_of_not_lt fun hless => hm (UInt8.lt_iff_toNat_lt.mpr hless)
  unfold decodeOne at h
  split at h
  · rename_i hone
    cases h
    rw [encodeChar_one (UInt8.lt_iff_toNat_lt.mp hone), UInt8.ofNat_toNat]
    rfl
  split at h
  · cases h
  rename_i hlow
  have hlow := hlt hlow
  split at h
  · rename_i htwo
    have hhigh := UInt8.lt_iff_toNat_lt.mp htwo
    simp only [UInt8.reduceToNat] at hlow hhigh
    split at h
    · cases h
    split at h
    · rename_i b _ hb
      obtain ⟨rfl, rfl⟩ := Prod.mk.inj (Except.ok.inj h)
      obtain ⟨hbits, hoctet⟩ := isTail_bits hb
      rw [encodeChar_two (by omega) (by omega) hbits, hoctet, ofNat_sub_add (by omega)]
      rfl
    · cases h
  rename_i hthree
  have hlow := hlt hthree
  split at h
  · rename_i hhigh
    have hhigh := UInt8.lt_iff_toNat_lt.mp hhigh
    simp only [UInt8.reduceToNat] at hlow hhigh
    split at h
    · cases h
    split at h
    · rename_i b _ hb
      obtain ⟨hb, hlong, hsurrogate⟩ := isSecondOfThree_bits hb hlow
      obtain ⟨hbits, hoctet⟩ := isTail_bits hb
      split at h
      · cases h
      split at h
      · rename_i c _ hc
        obtain ⟨rfl, rfl⟩ := Prod.mk.inj (Except.ok.inj h)
        obtain ⟨hbits', hoctet'⟩ := isTail_bits hc
        rw [encodeChar_three (by omega) hbits hbits' hlong hsurrogate, hoctet, hoctet',
          ofNat_sub_add (by omega)]
        rfl
      · cases h
    · cases h
  rename_i hfour
  have hlow := hlt hfour
  split at h
  · rename_i hhigh
    have hhigh := UInt8.lt_iff_toNat_lt.mp hhigh
    simp only [UInt8.reduceToNat] at hlow hhigh
    split at h
    · cases h
    split at h
    · rename_i b _ hb
      obtain ⟨hb, hlong, hplane⟩ := isSecondOfFour_bits hb hlow
      obtain ⟨hbits, hoctet⟩ := isTail_bits hb
      split at h
      · cases h
      split at h
      · rename_i c _ hc
        obtain ⟨hbits', hoctet'⟩ := isTail_bits hc
        split at h
        · cases h
        split at h
        · rename_i d _ hd
          obtain ⟨rfl, rfl⟩ := Prod.mk.inj (Except.ok.inj h)
          obtain ⟨hbits'', hoctet''⟩ := isTail_bits hd
          rw [encodeChar_four (by omega) hbits hbits' hbits'' hlong hplane, hoctet, hoctet',
            hoctet'', ofNat_sub_add (by omega)]
          rfl
        · cases h
      · cases h
    · cases h
  · cases h

theorem encode_of_decodeFrom {octets : Octets} {index : Nat} {cs : List Char}
    (h : decodeFrom index octets = .ok cs) : encode cs = octets := by
  induction index, octets using decodeFrom.induct generalizing cs with
  | case1 index =>
    rw [decodeFrom] at h
    cases h
    rfl
  | case2 index lead rest c rest' hone _ ih =>
    rw [decodeFrom] at h
    split at h
    · rename_i c' more hone'
      obtain ⟨rfl, rfl⟩ := Prod.mk.inj (Except.ok.inj (hone.symm.trans hone'))
      cases hmore : decodeFrom (index + (rest.length - rest'.length) + 1) rest' with
      | error fault =>
        rw [hmore] at h
        cases h
      | ok others =>
        rw [hmore] at h
        cases h
        rw [encode_cons, ih hmore, encodeChar_of_decodeOne hone]
    · rename_i hfault
      rw [hone] at hfault
      cases hfault
  | case3 index lead rest length? hone =>
    rw [decodeFrom] at h
    split at h
    · rename_i hread
      rw [hone] at hread
      cases hread
    · cases h

/-- Octets are read as the characters that they are the octets of, and no others are read. -/
theorem decode_eq_ok_iff {octets : Octets} {cs : List Char} :
    decode octets = .ok cs ↔ octets = encode cs := by
  constructor
  · intro h
    exact (encode_of_decodeFrom h).symm
  · rintro rfl
    exact decode_encode cs

end Collate.Text.Utf8
