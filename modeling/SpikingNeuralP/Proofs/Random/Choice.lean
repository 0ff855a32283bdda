import SpikingNeuralP.Random.Choice
import Mathlib.Data.List.Forall2

/-!
# Members are chosen

All that a run relies on about random choices is that they are choices: one of
the items where there are any, and nothing where there are none.  Drawing them
moves along the key stream of one seed.
-/

namespace SpikingNeuralP

/-- One of the items, or nothing if there are none. -/
def IsChoice {α : Type} (items : List α) : Option α → Prop
  | some item => item ∈ items
  | none => items = []

theorem isChoice_head? {α : Type} (items : List α) : IsChoice items items.head? := by
  cases items with
  | nil => exact rfl
  | cons item items => exact List.mem_cons_self

theorem isChoice_getElem? {α : Type} {items : List α} {index : Nat}
    (hindex : index < items.length) : IsChoice items items[index]? := by
  rw [List.getElem?_eq_getElem hindex]
  exact List.getElem_mem hindex

namespace RandomSource

variable {α : Type}

/-- A word scaled to a number of items stays below it. -/
theorem scaled_lt {count : Nat} (hcount : 0 < count) (word : UInt32) :
    word.toNat * count / UInt32.size < count := by
  rw [Nat.div_lt_iff_lt_mul (by decide), Nat.mul_comm count]
  exact Nat.mul_lt_mul_of_pos_right word.toNat_lt_size hcount

/-- Whatever is rejected on the way, the index that is drawn is one of an
item. -/
theorem index_lt {count : Nat} (hcount : 0 < count) (attempts : Nat) (source : RandomSource) :
    (source.index count attempts).1 < count := by
  induction attempts generalizing source with
  | zero => exact scaled_lt hcount _
  | succ attempts ih =>
      rw [index]
      dsimp only
      split
      case isTrue => exact scaled_lt hcount _
      case isFalse => exact ih _

theorem isChoice_choose (source : RandomSource) (items : List α) :
    IsChoice items (source.choose items).1 := by
  cases items with
  | nil => exact rfl
  | cons item items =>
      have hindex : (source.index (item :: items).length attempts).1 < (item :: items).length :=
        index_lt (by simp) attempts source
      rw [choose]
      · -- The bound on the attempts is large, so no proof may evaluate the drawing.
        generalize source.index (item :: items).length attempts = drawn at hindex ⊢
        exact isChoice_getElem? hindex
      · exact List.cons_ne_nil item items

theorem forall₂_isChoice_chooseEach (source : RandomSource) (lists : List (List α)) :
    List.Forall₂ IsChoice lists (source.chooseEach lists).1 := by
  induction lists generalizing source with
  | nil => exact .nil
  | cons items lists ih => exact .cons (isChoice_choose source items) (ih _)

theorem seed_index (count attempts : Nat) (source : RandomSource) :
    (source.index count attempts).2.seed = source.seed := by
  induction attempts generalizing source with
  | zero => rfl
  | succ attempts ih =>
      rw [index]
      dsimp only
      split
      case isTrue => rfl
      case isFalse => exact ih _

theorem seed_choose (source : RandomSource) (items : List α) :
    (source.choose items).2.seed = source.seed := by
  cases items with
  | nil => rfl
  | cons item items =>
      have hseed := seed_index (item :: items).length attempts source
      rw [choose]
      · generalize source.index (item :: items).length attempts = drawn at hseed ⊢
        exact hseed
      · exact List.cons_ne_nil item items

/-- However many words are drawn, the seed stays. -/
theorem seed_chooseEach (source : RandomSource) (lists : List (List α)) :
    (source.chooseEach lists).2.seed = source.seed := by
  induction lists generalizing source with
  | nil => rfl
  | cons items lists ih => exact (ih _).trans (seed_choose source items)

end RandomSource

end SpikingNeuralP
