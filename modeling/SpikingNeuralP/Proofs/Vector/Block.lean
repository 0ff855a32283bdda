import Mathlib.Algebra.BigOperators.Group.List.Basic
import Mathlib.Algebra.Order.Ring.Int
import Mathlib.Algebra.Order.Ring.Nat
import Mathlib.Data.List.GetD

/-!
# Vectors in blocks

A vector over rules is written neuron by neuron: each neuron contributes a block
with one entry per rule.  An entry is then found from the sizes of the blocks
before its own and its position in the block.
-/

namespace SpikingNeuralP

variable {α β : Type}

/-- The entry at a position of a block stands behind all earlier blocks. -/
theorem getElem?_flatMap_block {items : List α} (block : α → List β) (size : α → Nat)
    (hsize : ∀ item, (block item).length = size item) {index position : Nat} {item : α}
    (hitem : items[index]? = some item) (hposition : position < size item) :
    (items.flatMap block)[((items.map size).take index).sum + position]? =
      (block item)[position]? := by
  induction items generalizing index with
  | nil => simp at hitem
  | cons first items ih =>
      rw [List.flatMap_cons]
      cases index with
      | zero =>
          obtain rfl : first = item := by simpa using hitem
          rw [← hsize] at hposition
          simpa using List.getElem?_append_left hposition
      | succ index =>
          have hitem' : items[index]? = some item := by simpa using hitem
          rw [List.map_cons, List.take_succ_cons, List.sum_cons, Nat.add_assoc, ← hsize first,
            List.getElem?_append_right (Nat.le_add_right _ _), Nat.add_sub_cancel_left]
          exact ih hitem'

theorem getD_flatMap_block {items : List α} (block : α → List β) (size : α → Nat)
    (hsize : ∀ item, (block item).length = size item) {index position : Nat} {item : α}
    (hitem : items[index]? = some item) (hposition : position < size item) (fallback : β) :
    (items.flatMap block).getD (((items.map size).take index).sum + position) fallback =
      (block item).getD position fallback := by
  rw [List.getD_eq_getElem?_getD, getElem?_flatMap_block block size hsize hitem hposition,
    List.getD_eq_getElem?_getD]

theorem getD_map_range {count index : Nat} (hindex : index < count) (entry : Nat → α)
    (fallback : α) : ((List.range count).map entry).getD index fallback = entry index := by
  simp [List.getD_eq_getElem?_getD, hindex]

theorem getD_zipWith {γ : Type} (combine : α → β → γ) {left : List α} {right : List β}
    {index : Nat} (hleft : index < left.length) (hright : index < right.length) (first : α)
    (second : β) (fallback : γ) :
    (List.zipWith combine left right).getD index fallback =
      combine (left.getD index first) (right.getD index second) := by
  rw [List.getD_eq_getElem _ _ (by simpa using ⟨hleft, hright⟩), List.getElem_zipWith,
    List.getD_eq_getElem _ _ hleft, List.getD_eq_getElem _ _ hright]

/-- Writing the fallback where nothing stands changes nothing that is read. -/
theorem getD_set {values : List α} {index : Nat} {value fallback : α}
    (hindex : index < values.length ∨ value = fallback) (other : Nat) :
    (values.set index value).getD other fallback =
      if other = index then value else values.getD other fallback := by
  rw [List.getD_eq_getElem?_getD, List.getElem?_set]
  by_cases hsame : other = index
  · subst hsame
    rcases hindex with hindex | rfl
    · simp [hindex]
    · by_cases hindex : other < values.length
      · simp [hindex]
      · simp [hindex]
  · rw [if_neg (Ne.symm hsame), if_neg hsame, List.getD_eq_getElem?_getD]

/-- An entry that is there is what reading with a fallback finds. -/
theorem getElem?_eq_some_iff_getD {values : List α} {index : Nat} {value : α}
    (hindex : index < values.length) (fallback : α) :
    values[index]? = some value ↔ values.getD index fallback = value := by
  rw [List.getElem?_eq_getElem hindex, List.getD_eq_getElem _ _ hindex, Option.some_inj]

/-- Vectors of one length with the same entries are the same. -/
theorem eq_of_getD_eq {left right : List α} (hlength : left.length = right.length)
    (fallback : α)
    (hentries : ∀ index < left.length, left.getD index fallback = right.getD index fallback) :
    left = right := by
  apply List.ext_getElem hlength
  intro index hleft hright
  have hentry := hentries index hleft
  rwa [List.getD_eq_getElem _ _ hleft, List.getD_eq_getElem _ _ hright] at hentry

/-- Where all entries are the fallback, so is whatever is read. -/
theorem getD_eq_of_forall_mem {values : List α} {fallback : α}
    (hvalues : ∀ value ∈ values, value = fallback) (index : Nat) :
    values.getD index fallback = fallback := by
  by_cases hindex : index < values.length
  · rw [List.getD_eq_getElem _ _ hindex]
    exact hvalues _ (List.getElem_mem hindex)
  · exact List.getD_eq_default _ _ (Nat.le_of_not_lt hindex)

/-- A flag that is set is there. -/
theorem lt_length_of_getD {flags : List Bool} {index : Nat}
    (hset : flags.getD index false = true) : index < flags.length := by
  by_contra hindex
  rw [List.getD_eq_default _ _ (Nat.le_of_not_lt hindex)] at hset
  contradiction

/-- A property of some entry, read by position. -/
theorem exists_mem_iff_getD {values : List α} {property : α → Prop} (fallback : α) :
    (∃ value ∈ values, property value) ↔
      ∃ index < values.length, property (values.getD index fallback) := by
  constructor
  · rintro ⟨value, hvalue, hproperty⟩
    obtain ⟨index, hindex, rfl⟩ := List.getElem_of_mem hvalue
    exact ⟨index, hindex, by rwa [List.getD_eq_getElem _ _ hindex]⟩
  · rintro ⟨index, hindex, hproperty⟩
    rw [List.getD_eq_getElem _ _ hindex] at hproperty
    exact ⟨values[index], List.getElem_mem hindex, hproperty⟩

theorem count_true_map (test : α → Bool) (items : List α) :
    (items.map test).count true = items.countP test := by
  simp only [List.count, List.countP_map]
  congr 1
  funext item
  simp

/-- The flags that are set, counted by their places. -/
theorem count_true_eq_countP (flags : List Bool) :
    flags.count true = (List.range flags.length).countP (flags.getD · false) := by
  have hflags : (List.range flags.length).map (flags.getD · false) = flags := by
    apply List.ext_getElem
    · simp
    · intro index _ hindex
      simp [hindex]
  rw [← count_true_map, hflags]

end SpikingNeuralP
