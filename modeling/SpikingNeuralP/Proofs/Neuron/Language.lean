import Mathlib.Algebra.Order.Ring.Nat
import Mathlib.Computability.Language
import SpikingNeuralP.Rule

/-!
# The languages of guards

A guard stands for a regular language over a single letter.  A word over one letter is known by
its length, so the language is a set of spike counts, and the test that a neuron makes on machine
words decides membership in it.
-/

namespace SpikingNeuralP

open scoped Computability

/-- The language that holds only the word of one letter. -/
def letter : Language Unit :=
  {[()]}

variable {count : ℕ} {word : List Unit} {guard : Guard}

theorem mem_letter_pow_iff : word ∈ letter ^ count ↔ word.length = count := by
  induction count generalizing word with
  | zero => rw [pow_zero, Language.mem_one, List.length_eq_zero_iff]
  | succ count ih =>
      rw [pow_succ', Language.mem_mul]
      constructor
      · rintro ⟨_, rfl, rest, hrest, rfl⟩
        rw [List.length_append, ih.mp hrest, List.length_singleton, Nat.add_comm]
      · intro hlength
        cases word with
        | nil => contradiction
        | cons first rest =>
            exact ⟨[()], rfl, rest, ih.mpr (Nat.succ.inj hlength), rfl⟩

/-- Words of some length, repeated, have the multiples of that length. -/
theorem mem_kstar_letter_pow_iff :
    word ∈ (letter ^ count)∗ ↔ ∃ rounds, word.length = rounds * count := by
  simp only [Language.kstar_eq_iSup_pow, Language.mem_iSup, ← pow_mul, mem_letter_pow_iff,
    Nat.mul_comm]

/-- In front of a language that is known by its lengths. -/
theorem mem_letter_pow_mul_iff {language : Language Unit} (lengths : ℕ → Prop)
    (hlanguage : ∀ rest, rest ∈ language ↔ lengths rest.length) :
    word ∈ letter ^ count * language ↔ ∃ more, lengths more ∧ word.length = count + more := by
  rw [Language.mem_mul]
  constructor
  · rintro ⟨head, hhead, rest, hrest, rfl⟩
    exact ⟨rest.length, (hlanguage rest).mp hrest,
      by rw [List.length_append, mem_letter_pow_iff.mp hhead]⟩
  · rintro ⟨more, hmore, hlength⟩
    have htake : (word.take count).length = count := by
      rw [List.length_take]
      omega
    have hdrop : (word.drop count).length = more := by
      rw [List.length_drop]
      omega
    exact ⟨word.take count, mem_letter_pow_iff.mpr htake, word.drop count,
      (hlanguage _).mpr (hdrop.symm ▸ hmore), List.take_append_drop count word⟩

namespace Guard

/-- `a^n`, `a^n a*` or `a^offset (a^period)*`. -/
def language : Guard → Language Unit
  | .exactly count => letter ^ count.toNat
  | .atLeast count => letter ^ count.toNat * letter∗
  | .periodic offset period => letter ^ offset.toNat * (letter ^ period.toNat)∗

/-- The spike counts that are lengths of words of the language. -/
def Covers : Guard → ℕ → Prop
  | .exactly count, spikes => spikes = count.toNat
  | .atLeast count, spikes => ∃ more, spikes = count.toNat + more
  | .periodic offset period, spikes => ∃ rounds, spikes = offset.toNat + rounds * period.toNat

theorem mem_language_iff : word ∈ guard.language ↔ guard.Covers word.length := by
  cases guard with
  | exactly count => exact mem_letter_pow_iff
  | atLeast count =>
      have hstar : ∀ rest, rest ∈ letter∗ ↔ True := by
        intro rest
        rw [iff_true, ← pow_one letter, mem_kstar_letter_pow_iff]
        exact ⟨rest.length, (Nat.mul_one _).symm⟩
      rw [language, mem_letter_pow_mul_iff (fun _ => True) hstar]
      simp only [true_and, Covers]
  | periodic offset period =>
      rw [language, mem_letter_pow_mul_iff (fun length => ∃ rounds, length = rounds * period.toNat)
        fun _ => mem_kstar_letter_pow_iff]
      constructor
      · rintro ⟨_, ⟨rounds, rfl⟩, hlength⟩
        exact ⟨rounds, hlength⟩
      · rintro ⟨rounds, hlength⟩
        exact ⟨_, ⟨rounds, rfl⟩, hlength⟩

/-- Division finds the rounds; without a period the remainder is the whole distance. -/
theorem exists_rounds_iff {offset period spikes : ℕ} :
    (∃ rounds, spikes = offset + rounds * period) ↔
      offset ≤ spikes ∧ (spikes - offset) % period = 0 := by
  constructor
  · rintro ⟨rounds, rfl⟩
    exact ⟨Nat.le_add_right _ _, by rw [Nat.add_sub_cancel_left, Nat.mul_mod_left]⟩
  · rintro ⟨hoffset, hrest⟩
    obtain ⟨rounds, hrounds⟩ := Nat.dvd_of_mod_eq_zero hrest
    exact ⟨rounds, by rw [Nat.mul_comm, ← hrounds, Nat.add_sub_cancel' hoffset]⟩

theorem accepts_iff_covers {spikes : UInt32} :
    guard.accepts spikes = true ↔ guard.Covers spikes.toNat := by
  cases guard with
  | exactly count => rw [accepts, beq_iff_eq, Covers, UInt32.toNat_inj]
  | atLeast count =>
      rw [accepts, decide_eq_true_eq, UInt32.le_iff_toNat_le, Covers, le_iff_exists_add]
  | periodic offset period =>
      rw [accepts, Bool.and_eq_true, decide_eq_true_eq, Covers, exists_rounds_iff,
        ← UInt32.le_iff_toNat_le]
      apply and_congr_right
      intro hoffset
      -- Words are subtracted without a borrow, since the offset was compared first.
      rw [← UInt32.toNat_sub_of_le _ _ hoffset, ← UInt32.toNat_mod, ← UInt32.toNat_zero,
        UInt32.toNat_inj]
      by_cases hperiod : period = 0
      · rw [if_pos (by simpa using hperiod), beq_iff_eq, hperiod, UInt32.mod_zero,
          UInt32.sub_eq_iff_eq_add, UInt32.zero_add]
      · rw [if_neg (by simpa using hperiod), beq_iff_eq]

end Guard

theorem Rule.applicable_iff {rule : Rule} {spikes : UInt32} :
    rule.applicable spikes = true ↔
      rule.consume.toNat ≤ spikes.toNat ∧
        List.replicate spikes.toNat () ∈ rule.guard.language := by
  rw [Rule.applicable, Bool.and_eq_true, decide_eq_true_eq, UInt32.le_iff_toNat_le,
    Guard.accepts_iff_covers, Guard.mem_language_iff, List.length_replicate]

end SpikingNeuralP
