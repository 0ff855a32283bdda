import Mathlib.Data.List.Nodup
import Mathlib.Tactic.Linarith
import SpikingNeuralP.Proofs.Step.Settling
import SpikingNeuralP.Proofs.Vector.Sum

/-!
# Where the accumulation stops

A gain is added up rule by rule in sixty-four bits, and the count that results must fit
thirty-two.  A product of a multiplicity and a cell always fits the wider word, so the
sum is lost exactly where one of its partial sums leaves that word, and a count is
refused exactly for such a partial sum or for the exact count leaving its own word.
-/

namespace SpikingNeuralP

/-- The value is a signed word of sixty-four bits. -/
def Fits64 (value : Int) : Prop :=
  -2 ^ 63 ≤ value ∧ value < 2 ^ 63

/-- The value is a signed word of thirty-two bits. -/
def Fits32 (value : Int) : Prop :=
  -2 ^ 31 ≤ value ∧ value < 2 ^ 31

variable {acting : List Bool} {train : Option (List UInt32)}

theorem within64?_eq_some_iff {value result : Int} :
    within64? value = some result ↔ Fits64 value ∧ result = value := by
  have hrange : (Int64.minValue.toInt ≤ value ∧ value ≤ Int64.maxValue.toInt) ↔ Fits64 value := by
    rw [Int64.toInt_minValue, Int64.toInt_maxValue, Fits64]
    omega
  rw [within64?]
  split
  case isTrue hwithin => simp [hrange.mp hwithin, eq_comm]
  case isFalse hbeyond => simp [mt hrange.mpr hbeyond]

theorem fits64_zero : Fits64 0 := by
  norm_num [Fits64]

theorem exists_spikeCount?_iff {value : Int} :
    (∃ count, spikeCount? value = some count) ↔ Fits32 value := by
  simp only [spikeCount?_eq_some_iff]
  constructor
  · rintro ⟨count, rfl⟩
    exact ⟨count.le_toInt, count.toInt_lt⟩
  · rintro ⟨hlower, hupper⟩
    exact ⟨Int32.ofInt value, Int32.toInt_ofInt_of_le hlower hupper⟩

theorem multiplicity_le (acting : List Bool) (train : Option (List UInt32)) (rule : Nat) :
    multiplicity acting train rule ≤ 2 ^ 32 := by
  have hacts := Bool.toNat_le (acting.getD rule false)
  have harrives := (arrivals train rule).toNat_lt
  rw [multiplicity]
  omega

/-- The least product is exactly the least word. -/
theorem fits64_product (acting : List Bool) (train : Option (List UInt32)) (rule : Nat)
    (cell : Int32) : Fits64 ((multiplicity acting train rule : Int) * cell.toInt) := by
  have htimes : (multiplicity acting train rule : Int) ≤ 2 ^ 32 := by
    exact_mod_cast multiplicity_le acting train rule
  have hnonneg : (0 : Int) ≤ multiplicity acting train rule := Int.natCast_nonneg _
  have hlower := cell.le_toInt
  have hupper := cell.toInt_lt
  constructor
  · calc
      (-2 ^ 63 : Int) = 2 ^ 32 * -2 ^ 31 := by norm_num
      _ ≤ (multiplicity acting train rule : Int) * -2 ^ 31 := by omega
      _ ≤ (multiplicity acting train rule : Int) * cell.toInt :=
        Int.mul_le_mul_of_nonneg_left hlower hnonneg
  · calc
      (multiplicity acting train rule : Int) * cell.toInt ≤
          (multiplicity acting train rule : Int) * (2 ^ 31 - 1) :=
        Int.mul_le_mul_of_nonneg_left (by omega) hnonneg
      _ ≤ 2 ^ 32 * (2 ^ 31 - 1) := by omega
      _ < 2 ^ 63 := by norm_num

theorem within64?_product (acting : List Bool) (train : Option (List UInt32)) (rule : Nat)
    (cell : Int32) : within64? ((multiplicity acting train rule : Int) * cell.toInt) =
      some ((multiplicity acting train rule : Int) * cell.toInt) :=
  within64?_eq_some_iff.mpr ⟨fits64_product acting train rule cell, rfl⟩

/-- A cell or a multiplicity that is zero may be added like any other, so the next partial
sum is all that has to fit. -/
theorem gainFrom_cons {rule : Nat} {total : Int} (htotal : Fits64 total) (cell : Int32)
    (cells : List Int32) :
    gainFrom acting train rule total (cell :: cells) =
      (within64? (total + (multiplicity acting train rule : Int) * cell.toInt)).bind fun sum =>
        gainFrom acting train (rule + 1) sum cells := by
  have hskip : within64? total = some total := within64?_eq_some_iff.mpr ⟨htotal, rfl⟩
  rw [gainFrom]
  split
  case isTrue hcell => simp [hcell, hskip]
  case isFalse =>
    dsimp only
    split
    case isTrue htimes => simp [htimes, hskip]
    case isFalse =>
      rw [Int.ofNat_eq_natCast, within64?_product]
      rfl

/-- A gain is found when all partial sums fit. -/
theorem gainFrom_eq_some_iff {rule : Nat} {total gain : Int} {cells : List Int32}
    (htotal : Fits64 total) :
    gainFrom acting train rule total cells = some gain ↔
      (∀ count ≤ cells.length,
        Fits64 (total + exactGainFrom acting train rule (cells.take count))) ∧
        gain = total + exactGainFrom acting train rule cells := by
  induction cells generalizing rule total with
  | nil =>
      simp [gainFrom, exactGainFrom, htotal, eq_comm]
  | cons cell cells ih =>
      have hprefix : ∀ count,
          total + exactGainFrom acting train rule ((cell :: cells).take (count + 1)) =
          total + (multiplicity acting train rule : Int) * cell.toInt +
            exactGainFrom acting train (rule + 1) (cells.take count) := by
        intro count
        rw [List.take_succ_cons, exactGainFrom_cons, Int.add_assoc]
      rw [gainFrom_cons htotal, Option.bind_eq_some_iff, exactGainFrom_cons, ← Int.add_assoc]
      constructor
      · rintro ⟨sum, hsum, hgain⟩
        obtain ⟨hfits, rfl⟩ := within64?_eq_some_iff.mp hsum
        obtain ⟨hlater, hgain⟩ := (ih hfits).mp hgain
        refine ⟨fun count hcount => ?_, hgain⟩
        cases count with
        | zero => simpa [exactGainFrom] using htotal
        | succ count => exact hprefix count ▸ hlater count (Nat.le_of_succ_le_succ hcount)
      · rintro ⟨hpartial, hgain⟩
        have hlater : ∀ count ≤ cells.length, Fits64
            (total + (multiplicity acting train rule : Int) * cell.toInt +
              exactGainFrom acting train (rule + 1) (cells.take count)) :=
          fun count hcount => hprefix count ▸ hpartial (count + 1) (Nat.succ_le_succ hcount)
        have hfits : Fits64 (total + (multiplicity acting train rule : Int) * cell.toInt) := by
          simpa [exactGainFrom] using hlater 0 (Nat.zero_le _)
        exact ⟨_, within64?_eq_some_iff.mpr ⟨hfits, rfl⟩, (ih hfits).mpr ⟨hlater, hgain⟩⟩

namespace EffectMatrix

variable {matrix : EffectMatrix} {direction : Direction} {neuron : Nat}

/-- The spikes a neuron gains from a rule, in integers without bounds. -/
def contribution (matrix : EffectMatrix) (neuron : Nat) (acting : List Bool)
    (train : Option (List UInt32)) (rule : Nat) : Int :=
  (multiplicity acting train rule : Int) * (matrix.cell neuron rule).toInt

/-- The spikes a neuron gains from the first rules. -/
def partialGain (matrix : EffectMatrix) (neuron : Nat) (acting : List Bool)
    (train : Option (List UInt32)) (count : Nat) : Int :=
  ((List.range count).map (matrix.contribution neuron acting train)).sum

theorem partialGain_rules :
    matrix.partialGain neuron acting train matrix.rules = matrix.exactGain neuron acting train :=
  rfl

theorem exactGainFrom_take_row {count : Nat} (hneuron : neuron < matrix.neurons)
    (hcount : count ≤ matrix.rules) :
    exactGainFrom acting train 0 ((matrix.row neuron).take count) =
      matrix.partialGain neuron acting train count := by
  rw [exactGainFrom, partialGain, row_eq_map_cell hneuron, ← List.map_take, List.take_range,
    Nat.min_eq_left hcount]
  congr 1
  apply List.ext_getElem
  · simp
  · intro rule _ _
    simp [contribution]

/-- The sum is found exactly as long as no partial sum, taken in rule order, leaves the
wider word. -/
theorem gain?_eq_some_iff {gain : Int} (hneuron : neuron < matrix.neurons) :
    matrix.gain? neuron acting train = some gain ↔
      (∀ count ≤ matrix.rules, Fits64 (matrix.partialGain neuron acting train count)) ∧
        gain = matrix.exactGain neuron acting train := by
  rw [gain?, gainFrom_eq_some_iff fits64_zero, length_row hneuron, exactGainFrom_row hneuron]
  simp only [Int.zero_add]
  apply and_congr_left
  intro _
  apply forall₂_congr
  intro count hcount
  rw [exactGainFrom_take_row hneuron hcount]

/-- The count of the neuron cannot be held after the step: a partial sum of its gain leaves
the wider word, or the count itself leaves the narrower one. -/
def Overflows (matrix : EffectMatrix) (acting : List Bool) (train : Option (List UInt32))
    (direction : Direction) (neuron : Nat) (spikes : Int32) : Prop :=
  (∃ count ≤ matrix.rules, ¬Fits64 (matrix.partialGain neuron acting train count)) ∨
    ¬Fits32 (direction.apply spikes (matrix.exactGain neuron acting train))

theorem settle?_eq_none_iff {spikes : Int32} (hneuron : neuron < matrix.neurons) :
    matrix.settle? acting train direction neuron spikes = none ↔
      matrix.Overflows acting train direction neuron spikes := by
  have hsome : (∃ settled, matrix.settle? acting train direction neuron spikes = some settled) ↔
      (∀ count ≤ matrix.rules, Fits64 (matrix.partialGain neuron acting train count)) ∧
        Fits32 (direction.apply spikes (matrix.exactGain neuron acting train)) := by
    simp only [settle?_eq_some_iff, gain?_eq_some_iff hneuron]
    rw [← exists_spikeCount?_iff]
    simp only [spikeCount?_eq_some_iff]
    constructor
    · rintro ⟨settled, _, ⟨hpartial, rfl⟩, hsettled⟩
      exact ⟨hpartial, settled, hsettled⟩
    · rintro ⟨hpartial, settled, hsettled⟩
      exact ⟨settled, _, ⟨hpartial, rfl⟩, hsettled⟩
  rw [← Option.not_isSome_iff_eq_none, Option.isSome_iff_exists, hsome, Overflows, not_and_or]
  push Not
  rfl

/-- Settling stops at the least neuron that is open after the step and whose count cannot be
held. -/
theorem settle_eq_error_iff_of_le {spikes : List Int32} {cooldown : List UInt32}
    {cause : StepError} (hrows : spikes.length ≤ matrix.neurons) :
    matrix.settle spikes cooldown acting train direction = .error cause ↔
      ∃ neuron, IsLeast {neuron | neuron < spikes.length ∧ cooldown.getD neuron 0 = 0 ∧
          matrix.Overflows acting train direction neuron (spikes.getD neuron 0)} neuron ∧
        cause = .spikeOverflow neuron := by
  refine mapM_zipIdx_eq_error_iff 0 fun neuron hneuron refusal => ?_
  rw [← settle?_eq_none_iff (hneuron.trans_le hrows)]
  dsimp only
  split
  case isTrue hopen =>
    simp only [hopen, true_and]
    cases matrix.settle? acting train direction neuron (spikes.getD neuron 0) with
    | none => simp [eq_comm]
    | some settled => simp
  case isFalse hclosed => simp only [hclosed, false_and, reduceCtorEq]

theorem settle_eq_error_iff {spikes : List Int32} {cooldown : List UInt32} {count : Nat}
    {cause : StepError} (hspikes : spikes.length = count) (hrows : matrix.neurons = count) :
    matrix.settle spikes cooldown acting train direction = .error cause ↔
      ∃ neuron, IsLeast {neuron | neuron < count ∧ cooldown.getD neuron 0 = 0 ∧
          matrix.Overflows acting train direction neuron (spikes.getD neuron 0)} neuron ∧
        cause = .spikeOverflow neuron :=
  hspikes ▸ settle_eq_error_iff_of_le (hspikes.trans hrows.symm).le

/-- At most one rule takes spikes from the neuron, and it takes no more than one cell can
say. -/
structure LosesOnce (matrix : EffectMatrix) (acting : List Bool) (train : Option (List UInt32))
    (neuron : Nat) : Prop where
  bounded : ∀ rule < matrix.rules, -2 ^ 31 ≤ matrix.contribution neuron acting train rule
  single : ∀ rule < matrix.rules, ∀ other < matrix.rules,
    matrix.contribution neuron acting train rule < 0 →
      matrix.contribution neuron acting train other < 0 → rule = other

theorem LosesOnce.neg_le_sum (hloses : matrix.LosesOnce acting train neuron) {rules : List Nat}
    (hnodup : rules.Nodup) (hrules : ∀ rule ∈ rules, rule < matrix.rules) :
    -2 ^ 31 ≤ (rules.map (matrix.contribution neuron acting train)).sum :=
  neg_le_sum_map (by norm_num) hnodup (fun rule hrule => hloses.bounded rule (hrules rule hrule))
    fun rule hrule other hother =>
      hloses.single rule (hrules rule hrule) other (hrules other hother)

/-- With a single loss no partial sum is far from the whole. -/
theorem LosesOnce.partialGain_bounds (hloses : matrix.LosesOnce acting train neuron) {count : Nat}
    (hcount : count ≤ matrix.rules) :
    -2 ^ 31 ≤ matrix.partialGain neuron acting train count ∧
      matrix.partialGain neuron acting train count ≤
        matrix.exactGain neuron acting train + 2 ^ 31 := by
  obtain ⟨rest, hrules⟩ := Nat.exists_eq_add_of_le hcount
  have htotal : matrix.exactGain neuron acting train =
      matrix.partialGain neuron acting train count +
        (((List.range rest).map (count + ·)).map
          (matrix.contribution neuron acting train)).sum := by
    rw [← partialGain_rules, partialGain, hrules, List.range_add, List.map_append,
      List.sum_append]
    rfl
  have hfirst : -2 ^ 31 ≤ matrix.partialGain neuron acting train count :=
    hloses.neg_le_sum List.nodup_range fun rule hrule =>
      (List.mem_range.mp hrule).trans_le hcount
  have hlater : -2 ^ 31 ≤ (((List.range rest).map (count + ·)).map
      (matrix.contribution neuron acting train)).sum := by
    apply hloses.neg_le_sum
    · exact List.Nodup.map (fun _ _ => Nat.add_left_cancel) List.nodup_range
    · intro rule hrule
      obtain ⟨position, hposition, rfl⟩ := List.mem_map.mp hrule
      have := List.mem_range.mp hposition
      omega
  exact ⟨hfirst, by omega⟩

/-- With a single loss a step is refused for the count that results and for nothing on the
way to it. -/
theorem LosesOnce.overflows_iff {spikes : Int32} (hloses : matrix.LosesOnce acting train neuron) :
    matrix.Overflows acting train .forward neuron spikes ↔
      ¬Fits32 (spikes.toInt + matrix.exactGain neuron acting train) := by
  constructor
  · rintro (⟨count, hcount, hbeyond⟩ | hbeyond)
    · intro hfits
      obtain ⟨hlower, hupper⟩ := hloses.partialGain_bounds hcount
      have hspikes := spikes.le_toInt
      apply hbeyond
      rw [Fits32] at hfits
      rw [Fits64]
      omega
    · exact hbeyond
  · exact Or.inr

end EffectMatrix

end SpikingNeuralP
