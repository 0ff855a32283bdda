import Mathlib.Logic.Function.Basic
import SpikingNeuralP.Neuron.Draft

/-!
# What neurons show

A neuron is stored by kind and shows five fields.  Written down as a record that has room for all
fields in every kind, an edit is refused by the kind alone, apart from a rule that forgets late, and
an edit that is not refused writes one field.  Records that are written only so stay well formed.
-/

namespace SpikingNeuralP

structure NeuronRecord where
  kind : NeuronKind
  label : Option String
  spikes : UInt32
  rules : List Rule
  train : List UInt32
  deriving DecidableEq, Repr

namespace NeuronRecord

/-- The failure of an edit, unless it is done. -/
def refusal? (record : NeuronRecord) : NeuronEdit → Option NetworkError
  | .label _ => none
  | .spikes _ =>
      if record.kind = .regular then none
      else some (.wrongKind "set spikes of non-regular neurons")
  | .rule rule =>
      if record.kind = .regular then
        if rule.produce = 0 ∧ rule.delay ≠ 0 then
          some (.delayedForgettingRule record.rules.length)
        else none
      else some (.wrongKind "add rules to non-regular neurons")
  | .train _ =>
      if record.kind = .input then none
      else some (.wrongKind "set spike train for non-input neurons")

/-- The field that an edit writes, whatever the kind. -/
def write (record : NeuronRecord) : NeuronEdit → NeuronRecord
  | .label text => { record with label := some text }
  | .spikes count => { record with spikes := count }
  | .rule rule => { record with rules := record.rules ++ [rule] }
  | .train spikes => { record with train := spikes }

/-- Done or refused; a refusal hands out no record. -/
def edit (record : NeuronRecord) (edit : NeuronEdit) : Except NetworkError NeuronRecord :=
  match record.refusal? edit with
  | some failure => .error failure
  | none => .ok (record.write edit)

/-- A kind holds only what belongs to it, and no rule of a regular neuron forgets late. -/
def WellFormed (record : NeuronRecord) : Prop :=
  match record.kind with
  | .regular => record.train = [] ∧ ∀ rule ∈ record.rules, rule.produce = 0 → rule.delay = 0
  | .input => record.rules = [.relay] ∧ record.spikes = 0
  | .output => record.rules = [] ∧ record.spikes = 0 ∧ record.train = []

variable {record : NeuronRecord} {edit : NeuronEdit}

@[simp]
theorem kind_write : (record.write edit).kind = record.kind := by
  cases edit <;> rfl

theorem refusal?_rule_eq_none_iff {rule : Rule} :
    record.refusal? (.rule rule) = none ↔
      record.kind = .regular ∧ (rule.produce = 0 → rule.delay = 0) := by
  rw [refusal?]
  split
  case isTrue hkind =>
    split
    case isTrue hlate => simpa [hkind] using hlate
    case isFalse hprompt => simpa [hkind] using hprompt
  case isFalse hkind => simp [hkind]

theorem refusal?_eq_delayed_iff {position : Nat} :
    record.refusal? edit = some (.delayedForgettingRule position) ↔
      ∃ rule, edit = .rule rule ∧ record.kind = .regular ∧ rule.produce = 0 ∧ rule.delay ≠ 0 ∧
        record.rules.length = position := by
  cases edit with
  | label text => simp [refusal?]
  | spikes count => simp [refusal?]
  | rule rule =>
      rw [refusal?]
      split
      case isTrue hkind =>
        split
        case isTrue hlate => simp [hkind, hlate]
        case isFalse hprompt =>
          simp only [reduceCtorEq, false_iff]
          rintro ⟨given, hgiven, _, hproduce, hdelay, _⟩
          obtain rfl := NeuronEdit.rule.inj hgiven
          exact hprompt ⟨hproduce, hdelay⟩
      case isFalse hkind => simp [hkind]
  | train spikes => simp [refusal?]

theorem WellFormed.write (hwell : record.WellFormed) (hdone : record.refusal? edit = none) :
    (record.write edit).WellFormed := by
  cases edit with
  | label text => exact hwell
  | spikes count =>
      have hkind : record.kind = .regular := by simpa [refusal?] using hdone
      rw [WellFormed, hkind] at hwell
      rw [WellFormed, kind_write, hkind]
      exact hwell
  | rule rule =>
      obtain ⟨hkind, hprompt⟩ := refusal?_rule_eq_none_iff.mp hdone
      rw [WellFormed, hkind] at hwell
      rw [WellFormed, kind_write, hkind]
      obtain ⟨htrain, hrules⟩ := hwell
      exact ⟨htrain, List.forall_mem_append.mpr
        ⟨hrules, List.forall_mem_singleton.mpr hprompt⟩⟩
  | train spikes =>
      have hkind : record.kind = .input := by simpa [refusal?] using hdone
      rw [WellFormed, hkind] at hwell
      rw [WellFormed, kind_write, hkind]
      exact hwell

end NeuronRecord

namespace Neuron

/-- The five fields of a neuron. -/
def record (neuron : Neuron) : NeuronRecord where
  kind := neuron.kind
  label := neuron.label
  spikes := neuron.spikes
  rules := neuron.rules
  train := neuron.train

variable {neuron edited : Neuron} {edit : NeuronEdit} {failure : NetworkError}

theorem record_injective : Function.Injective record := by
  rintro ⟨label, body⟩ ⟨label', body'⟩ hsame
  simp only [record, NeuronRecord.mk.injEq] at hsame
  obtain ⟨hkind, rfl, hspikes, hrules, htrain⟩ := hsame
  cases body <;> cases body' <;>
    simp_all [kind, Neuron.spikes, Neuron.rules, Neuron.train]

theorem addRule_regular {label : Option String} {spikes : UInt32} {rules : List Rule}
    {rule : Rule} :
    addRule ⟨label, .regular spikes rules⟩ rule =
      if rule.produce = 0 ∧ rule.delay ≠ 0 then .error (.delayedForgettingRule rules.length)
      else .ok ⟨label, .regular spikes (rules ++ [rule])⟩ := by
  have hlate : (rule.isForgetting && decide (0 < rule.delay)) = true ↔
      rule.produce = 0 ∧ rule.delay ≠ 0 := by
    rw [Rule.isForgetting, Bool.and_eq_true, beq_iff_eq, decide_eq_true_eq,
      UInt32.pos_iff_ne_zero]
  simp only [addRule, hlate]

/-- What an edit comes to can be read off the record alone. -/
theorem map_record_edit : (neuron.edit edit).map record = neuron.record.edit edit := by
  obtain ⟨label, body⟩ := neuron
  cases edit with
  | label text => rfl
  | spikes count => cases body <;> rfl
  | rule rule =>
      cases body with
      | regular spikes rules =>
          have hkind : (record ⟨label, .regular spikes rules⟩).kind = .regular := rfl
          rw [Neuron.edit, addRule_regular, NeuronRecord.edit, NeuronRecord.refusal?,
            if_pos hkind]
          by_cases hlate : rule.produce = 0 ∧ rule.delay ≠ 0
          · rw [if_pos hlate, if_pos hlate]
            rfl
          · rw [if_neg hlate, if_neg hlate]
            rfl
      | input _ => rfl
      | output => rfl
  | train spikes => cases body <;> rfl

theorem edit_eq_ok_iff :
    neuron.edit edit = .ok edited ↔
      neuron.record.refusal? edit = none ∧ edited.record = neuron.record.write edit := by
  calc
    neuron.edit edit = .ok edited ↔ (neuron.edit edit).map record = .ok edited.record := by
      cases neuron.edit edit with
      | error failure => simp [Except.map]
      | ok other => simp [Except.map, record_injective.eq_iff]
    _ ↔ neuron.record.refusal? edit = none ∧ edited.record = neuron.record.write edit := by
      rw [map_record_edit, NeuronRecord.edit]
      cases neuron.record.refusal? edit with
      | some failure => simp
      | none => simp [eq_comm]

theorem edit_eq_error_iff :
    neuron.edit edit = .error failure ↔ neuron.record.refusal? edit = some failure := by
  calc
    neuron.edit edit = .error failure ↔ (neuron.edit edit).map record = .error failure := by
      cases neuron.edit edit with
      | error cause => simp [Except.map]
      | ok edited => simp [Except.map]
    _ ↔ neuron.record.refusal? edit = some failure := by
      rw [map_record_edit, NeuronRecord.edit]
      cases neuron.record.refusal? edit with
      | some cause => simp
      | none => simp

end Neuron

end SpikingNeuralP
