import QuorumTree.Text.Hex

/-!
The hexadecimal text of a byte string is read back as that byte string, by either reader. Every
character that is written is one of sixteen, so what holds of these holds of the whole text; and an
even number of these is always the text of some byte string.
-/

namespace QuorumTree.Hex

/-! ### Digits -/

theorem digitValue?_digitChar {n : Nat} (h : n < 16) : digitValue? (digitChar n) = some n := by
  have hall : ∀ n : Fin 16, digitValue? (digitChar n) = some n.val := by decide
  exact hall ⟨n, h⟩

theorem isAsciiBlank_digitChar {n : Nat} (h : n < 16) :
    Text.isAsciiBlank (digitChar n) = false := by
  have hall : ∀ n : Fin 16, Text.isAsciiBlank (digitChar n) = false := by decide
  exact hall ⟨n, h⟩

theorem byteOf_div_mod (b : UInt8) : byteOf (b.toNat / 16) (b.toNat % 16) = b := by
  rw [byteOf, Nat.div_add_mod, UInt8.ofNat_toNat]

theorem encodeChars_cons (b : UInt8) (bytes : Bytes) :
    encodeChars (b :: bytes) =
      digitChar (b.toNat / 16) :: digitChar (b.toNat % 16) :: encodeChars bytes := rfl

theorem high_lt (b : UInt8) : b.toNat / 16 < 16 :=
  Nat.div_lt_of_lt_mul b.toNat_lt

theorem low_lt (b : UInt8) : b.toNat % 16 < 16 :=
  Nat.mod_lt _ (by decide)

theorem length_encodeChars (bytes : Bytes) : (encodeChars bytes).length = 2 * bytes.length := by
  induction bytes with
  | nil => rfl
  | cons b bytes ih =>
      rw [encodeChars_cons, List.length_cons, List.length_cons, List.length_cons, ih]
      omega

/-- What holds of the sixteen digits holds of every character of a text. -/
theorem of_mem_encodeChars {P : Char → Prop} (hdigits : ∀ n : Fin 16, P (digitChar n))
    {bytes : Bytes} {c : Char} (h : c ∈ encodeChars bytes) : P c := by
  induction bytes with
  | nil => cases h
  | cons b bytes ih =>
      rw [encodeChars_cons] at h
      rcases List.mem_cons.mp h with rfl | h
      · exact hdigits ⟨_, high_lt b⟩
      · rcases List.mem_cons.mp h with rfl | h
        · exact hdigits ⟨_, low_lt b⟩
        · exact ih h

/-- The lower-case digits are the sixteen that are written. -/
theorem isLowerDigit_iff {c : Char} : isLowerDigit c = true ↔ ∃ n < 16, digitChar n = c := by
  constructor
  · intro h
    simp only [isLowerDigit, Bool.or_eq_true, Bool.and_eq_true, decide_eq_true_eq] at h
    rcases h with ⟨hfirst, hlast⟩ | ⟨hfirst, hlast⟩
    · refine ⟨c.toNat - 0x30, by omega, ?_⟩
      rw [digitChar, if_pos (by omega), Nat.add_sub_cancel' hfirst, Char.ofNat_toNat]
    · have hcode : 0x57 + (c.toNat - 0x57) = c.toNat := by omega
      refine ⟨c.toNat - 0x57, by omega, ?_⟩
      rw [digitChar, if_neg (by omega), hcode, Char.ofNat_toNat]
  · rintro ⟨n, hn, rfl⟩
    have hall : ∀ n : Fin 16, isLowerDigit (digitChar n) = true := by decide
    exact hall ⟨n, hn⟩

theorem encodeChars_byteOf {high low : Nat} (hhigh : high < 16) (hlow : low < 16)
    (bytes : Bytes) :
    encodeChars (byteOf high low :: bytes) =
      digitChar high :: digitChar low :: encodeChars bytes := by
  have hvalue : (byteOf high low).toNat = 16 * high + low :=
    UInt8.toNat_ofNat_of_lt' (by show _ < 256; omega)
  have hdiv : (16 * high + low) / 16 = high := by omega
  have hmod : (16 * high + low) % 16 = low := by omega
  rw [encodeChars_cons, hvalue, hdiv, hmod]

/-- An even number of lower-case digits is the text of some byte string, and nothing else is. -/
theorem exists_encodeChars_iff {digits : List Char} :
    (∃ bytes, encodeChars bytes = digits) ↔
      digits.length % 2 = 0 ∧ ∀ c ∈ digits, isLowerDigit c = true := by
  constructor
  · rintro ⟨bytes, rfl⟩
    refine ⟨by rw [length_encodeChars]; omega, fun c hc => ?_⟩
    exact of_mem_encodeChars (P := fun c => isLowerDigit c = true)
      (fun n => isLowerDigit_iff.mpr ⟨n, n.isLt, rfl⟩) hc
  · rintro ⟨heven, hdigits⟩
    induction digits using pairBytes.induct with
    | case1 c d rest ih =>
        obtain ⟨high, hhigh, rfl⟩ := isLowerDigit_iff.mp (hdigits c (by simp))
        obtain ⟨low, hlow, rfl⟩ := isLowerDigit_iff.mp (hdigits d (by simp))
        simp only [List.length_cons] at heven
        obtain ⟨bytes, rfl⟩ := ih (by omega) fun c hc => hdigits c (by simp [hc])
        exact ⟨byteOf high low :: bytes, encodeChars_byteOf hhigh hlow bytes⟩
    | case2 digits hshort =>
        match digits, hshort, heven with
        | [], _, _ => exact ⟨[], rfl⟩
        | [_], _, heven => simp at heven
        | c :: d :: rest, hshort, _ => exact absurd rfl (hshort c d rest)

/-! ### The spaced reader -/

theorem decodePairs_cons_cons {c d : Char} {high low : Nat} (hblank : Text.isAsciiBlank c = false)
    (hhigh : digitValue? c = some high) (hlow : digitValue? d = some low) (position : Nat)
    (rest : List Char) :
    decodePairs position (c :: d :: rest) =
      (decodePairs (position + 2) rest).map (byteOf high low :: ·) := by
  rw [decodePairs.eq_def]
  simp only [hblank, hhigh, hlow, Bool.false_eq_true, if_false]
  rfl

theorem decodePairs_encodeChars (bytes : Bytes) (position : Nat) :
    decodePairs position (encodeChars bytes) = .ok bytes := by
  induction bytes generalizing position with
  | nil => rw [encodeChars, List.flatMap_nil, decodePairs]
  | cons b bytes ih =>
      have hhigh := high_lt b
      have hlow := low_lt b
      rw [encodeChars_cons, decodePairs_cons_cons (isAsciiBlank_digitChar hhigh)
        (digitValue?_digitChar hhigh) (digitValue?_digitChar hlow), ih, byteOf_div_mod]
      rfl

theorem decodeSpaced_encode (bytes : Bytes) : decodeSpaced (encode bytes) = .ok bytes := by
  have hdigits : ∀ n : Fin 16, decide (0x80 ≤ (digitChar n).toNat) = false := by decide
  have hascii : (encodeChars bytes).findIdx? (fun c => 0x80 ≤ c.toNat) = none := by
    rw [List.findIdx?_eq_none_iff]
    intro c hc
    exact of_mem_encodeChars (P := fun c => decide (0x80 ≤ c.toNat) = false) hdigits hc
  rw [decodeSpaced, encode, String.toList_ofList, hascii]
  exact decodePairs_encodeChars bytes 0

/-! ### The plain reader -/

theorem dropMarker_encodeChars (bytes : Bytes) :
    dropMarker (encodeChars bytes) = encodeChars bytes := by
  cases bytes with
  | nil => rfl
  | cons b bytes =>
      have hmarker : digitChar (b.toNat % 16) ≠ 'x' := by
        have hall : ∀ n : Fin 16, digitChar n ≠ 'x' := by decide
        exact hall ⟨_, low_lt b⟩
      rw [encodeChars_cons, dropMarker]
      rintro rest h
      exact hmarker (List.cons.inj (List.cons.inj h).2).1

theorem pairBytes_encodeChars (bytes : Bytes) : pairBytes (encodeChars bytes) = bytes := by
  induction bytes with
  | nil => rfl
  | cons b bytes ih =>
      rw [encodeChars_cons, pairBytes, digitValue?_digitChar (high_lt b),
        digitValue?_digitChar (low_lt b), Option.getD_some, Option.getD_some, byteOf_div_mod, ih]

end QuorumTree.Hex
