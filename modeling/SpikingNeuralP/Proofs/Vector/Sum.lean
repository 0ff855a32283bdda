import Mathlib.Algebra.BigOperators.Group.List.Basic
import Mathlib.Algebra.Order.BigOperators.Group.List
import Mathlib.Algebra.Order.Ring.Int
import Mathlib.Algebra.Order.Ring.Nat
import Mathlib.Tactic.Ring

/-!
# Sums over rules

A gain is a sum over all rules of the system.  It is taken apart into sums over
the rules of each neuron, and a sum in which every rule counts as often as it
acts into a sum over the rules that act.
-/

namespace SpikingNeuralP

variable {α : Type}

/-- A sum over all positions, taken block by block. -/
theorem sum_map_range_sum (counts : List Nat) (value : Nat → Int) :
    ((List.range counts.sum).map value).sum =
      ((List.range counts.length).map fun block =>
        ((List.range (counts.getD block 0)).map fun position =>
          value ((counts.take block).sum + position)).sum).sum := by
  induction counts generalizing value with
  | nil => rfl
  | cons count counts ih =>
      rw [List.sum_cons, List.range_add, List.map_append, List.sum_append, List.map_map, ih,
        List.length_cons, List.range_succ_eq_map, List.map_cons, List.sum_cons, List.map_map]
      congr 1
      · simp
      · congr 1
        apply List.map_congr_left
        intro block _
        simp only [Function.comp_apply, Nat.succ_eq_add_one, List.getD_cons_succ,
          List.take_succ_cons, List.sum_cons, Nat.add_assoc]

/-- A sum over the chosen items counts every item as often as it is chosen. -/
theorem sum_map_filter (items : List α) (chosen : α → Bool) (value : α → Nat) :
    ((items.filter chosen).map value).sum =
      (items.map fun item => (chosen item).toNat * value item).sum := by
  induction items with
  | nil => rfl
  | cons item items ih =>
      rw [List.map_cons, List.sum_cons, ← ih]
      cases hchosen : chosen item with
      | false => simp [hchosen]
      | true => simp [hchosen]

/-- When no two items are chosen, there is one or none. -/
theorem filter_eq_nil_or_singleton {items : List α} {chosen : α → Bool} (hnodup : items.Nodup)
    (hunique : ∀ item ∈ items, ∀ other ∈ items, chosen item = true → chosen other = true →
      item = other) :
    items.filter chosen = [] ∨
      ∃ item ∈ items, chosen item = true ∧ items.filter chosen = [item] := by
  have hkept := hnodup.filter chosen
  cases hfilter : items.filter chosen with
  | nil => exact Or.inl rfl
  | cons item rest =>
      have hmem : ∀ other ∈ item :: rest, other ∈ items ∧ chosen other = true := by
        intro other hother
        rw [← hfilter] at hother
        exact List.mem_filter.mp hother
      obtain ⟨hitem, hchosen⟩ := hmem item List.mem_cons_self
      right
      refine ⟨item, hitem, hchosen, ?_⟩
      cases rest with
      | nil => rfl
      | cons other rest =>
          obtain ⟨hother, hchosen'⟩ := hmem other (by simp)
          rw [hfilter, hunique item hitem other hother hchosen hchosen'] at hkept
          simp at hkept

/-- A sum with one negative term at most is not below it, and neither is any part of the
sum. -/
theorem neg_le_sum_map {items : List α} {term : α → Int} {bound : Int} (hbound : 0 ≤ bound)
    (hnodup : items.Nodup) (hterms : ∀ item ∈ items, -bound ≤ term item)
    (hsingle : ∀ item ∈ items, ∀ other ∈ items, term item < 0 → term other < 0 →
      item = other) :
    -bound ≤ (items.map term).sum := by
  induction items with
  | nil => simpa using hbound
  | cons item items ih =>
      obtain ⟨hfresh, hnodup⟩ := List.nodup_cons.mp hnodup
      obtain ⟨hitem, hitems⟩ := List.forall_mem_cons.mp hterms
      rw [List.map_cons, List.sum_cons]
      by_cases hloss : term item < 0
      · have hrest : 0 ≤ (items.map term).sum := by
          apply List.sum_nonneg
          intro value hvalue
          obtain ⟨other, hother, rfl⟩ := List.mem_map.mp hvalue
          by_contra hnegative
          exact hfresh (hsingle item List.mem_cons_self other (List.mem_cons_of_mem item hother)
            hloss (Int.not_le.mp hnegative) ▸ hother)
        omega
      · have hrest : -bound ≤ (items.map term).sum :=
          ih hnodup hitems fun first hfirst second hsecond =>
            hsingle first (List.mem_cons_of_mem item hfirst) second
              (List.mem_cons_of_mem item hsecond)
        omega

/-- A sum over numbered items that looks only at the numbers. -/
theorem sum_map_range_length (items : List α) (value : Nat → Int) :
    ((List.range items.length).map value).sum =
      (items.zipIdx.map fun item => value item.2).sum := by
  have hnumbers : List.range items.length = items.zipIdx.map Prod.snd := by
    rw [List.zipIdx_map_snd, List.range_eq_range']
  rw [hnumbers, List.map_map]
  rfl

/-- The effects of several rules, each taken a number of times, on a neuron that
is or is not their own. -/
theorem sum_effects (items : List α) (times produce consume : α → Nat) (weight : Nat)
    (home : Prop) [Decidable home] :
    (items.map fun item => (times item : Int) *
        (((produce item * weight : Nat) : Int) - if home then (consume item : Int) else 0)).sum =
      ((weight * (items.map fun item => times item * produce item).sum : Nat) : Int) +
        if home then -(((items.map fun item => times item * consume item).sum : Nat) : Int)
        else 0 := by
  induction items with
  | nil => simp
  | cons item items ih =>
      simp only [List.map_cons, List.sum_cons]
      rw [ih]
      split
      · push_cast
        ring
      · push_cast
        ring

end SpikingNeuralP
