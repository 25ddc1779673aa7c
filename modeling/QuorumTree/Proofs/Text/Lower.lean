import Mathlib.Tactic.SplitIfs
import QuorumTree.Text.Lower

/-!
Letters and their lower case. In ASCII a small letter comes from itself and from its capital.
Outside ASCII only the dotted capital and the sign of the kelvin have small letters of ASCII, `i`
and `k`, so nothing there becomes a hexadecimal digit or the letter of a marker.
-/

namespace QuorumTree.Text

variable {c d : Char}

theorem toNat_toLower (c : Char) :
    c.toLower.toNat = if 0x41 ≤ c.toNat ∧ c.toNat ≤ 0x5a then c.toNat + 32 else c.toNat := by
  have hcapital : 'A'.val ≤ c.val ∧ c.val ≤ 'Z'.val ↔ 0x41 ≤ c.toNat ∧ c.toNat ≤ 0x5a :=
    and_congr UInt32.le_iff_toNat_le UInt32.le_iff_toNat_le
  split_ifs with h
  · have hdistance : ('a'.val - 'A'.val).toNat = 32 := rfl
    have hsum : (c.val + ('a'.val - 'A'.val)).toNat = c.toNat + 32 := by
      rw [UInt32.toNat_add, hdistance, Char.toNat_val]
      omega
    exact (congrArg Char.toNat (dif_pos (hcapital.mpr h))).trans hsum
  · exact congrArg Char.toNat (dif_neg (mt hcapital.mp h))

theorem toNat_toUpper (c : Char) :
    c.toUpper.toNat = if 0x61 ≤ c.toNat ∧ c.toNat ≤ 0x7a then c.toNat - 32 else c.toNat := by
  have hsmall : 'a'.val ≤ c.val ∧ c.val ≤ 'z'.val ↔ 0x61 ≤ c.toNat ∧ c.toNat ≤ 0x7a :=
    and_congr UInt32.le_iff_toNat_le UInt32.le_iff_toNat_le
  split_ifs with h
  · -- The distance is taken off by adding a number with which the sum wraps around.
    have hdistance : ('A'.val - 'a'.val).toNat = 2 ^ 32 - 32 := rfl
    have hsum : (c.val + ('A'.val - 'a'.val)).toNat = c.toNat - 32 := by
      rw [UInt32.toNat_add, hdistance, Char.toNat_val]
      omega
    exact (congrArg Char.toNat (dif_pos (hsmall.mpr h))).trans hsum
  · exact congrArg Char.toNat (dif_neg (mt hsmall.mp h))

theorem toNat_ofNat_cases (n : Nat) : (Char.ofNat n).toNat = n ∨ (Char.ofNat n).toNat = 0 := by
  by_cases h : n.isValidChar
  · exact .inl (congrArg Char.toNat (dif_pos h))
  · exact .inr (congrArg Char.toNat (dif_neg h))

/-- What becomes a character that is no capital: the character itself, and its capital. -/
theorem toLower_eq_iff (hd : ¬ (0x41 ≤ d.toNat ∧ d.toNat ≤ 0x5a)) :
    c.toLower = d ↔ c = d ∨ c = d.toUpper := by
  simp only [← Char.toNat_inj, toNat_toLower, toNat_toUpper]
  split_ifs <;> omega

theorem toLower_of_not_ascii (hc : 0x80 ≤ c.toNat) : c.toLower = c := by
  rw [← Char.toNat_inj, toNat_toLower, if_neg (by omega)]

/-- No small letter of a capital outside ASCII is a hexadecimal digit or `x`. -/
theorem CapitalRun.small_of_contains {run : CapitalRun} (hrun : run ∈ capitalRuns) {n : Nat}
    (h : run.contains n = true) : 0x66 < n + run.distance ∧ n + run.distance ≠ 0x78 := by
  have hruns : ∀ run ∈ capitalRuns, 0x66 < run.first + run.distance ∧
      (run.last + run.distance < 0x78 ∨ 0x78 < run.first + run.distance) := by decide +kernel
  obtain ⟨hfirst, hlast⟩ := hruns run hrun
  simp only [contains, Bool.and_eq_true, decide_eq_true_eq] at h
  omega

/-- A character outside ASCII, but for the dotted capital, is its own small letter or has one that
is neither a hexadecimal digit nor `x`. -/
theorem exists_lowerChar_eq (hc : 0x80 ≤ c.toNat) (hdotted : c.toNat ≠ 0x130) :
    ∃ d, lowerChar c = [d] ∧ (d.toNat < 0x30 ∨ 0x66 < d.toNat ∧ d.toNat ≠ 0x78) := by
  unfold lowerChar
  rw [if_neg (by omega), if_neg hdotted]
  split
  · next run hfind =>
    have hcontains : run.contains c.toNat = true := by simpa using List.find?_some hfind
    obtain ⟨hlow, hmarker⟩ :=
      CapitalRun.small_of_contains (List.mem_of_find?_eq_some hfind) hcontains
    refine ⟨_, rfl, ?_⟩
    rcases toNat_ofNat_cases (c.toNat + run.distance).toNat with hcode | hcode <;> omega
  · exact ⟨c, rfl, .inr (by omega)⟩

end QuorumTree.Text
