import SpikingNeuralP.Proofs.Neuron.Record

/-!
# Calls on neurons and drafts

A call that fails is skipped, and the calls after it are made on the neuron as it was.  Every neuron
that is made and then called in any way stays well formed.  A draft takes the same calls, reports the
first failure among them, and without one hands out the neuron that the calls make.
-/

namespace SpikingNeuralP

namespace NeuronEdit

/-- The rules given in the calls, also those that are refused. -/
def givenRules (calls : List NeuronEdit) : List Rule :=
  calls.filterMap fun
    | .rule given => some given
    | _ => none

theorem givenRules_cons (call : NeuronEdit) (calls : List NeuronEdit) :
    givenRules (call :: calls) = givenRules [call] ++ givenRules calls := by
  rw [givenRules, ← List.singleton_append, List.filterMap_append, givenRules, givenRules]

end NeuronEdit

namespace Neuron

def attempt (neuron : Neuron) (call : NeuronEdit) : Neuron :=
  match neuron.edit call with
  | .ok edited => edited
  | .error _ => neuron

/-- The neuron after the calls. -/
def attemptAll (neuron : Neuron) (calls : List NeuronEdit) : Neuron :=
  calls.foldl attempt neuron

/-- The failures of the calls, in order. -/
def failures : Neuron → List NeuronEdit → List NetworkError
  | _, [] => []
  | neuron, call :: calls =>
      match neuron.edit call with
      | .ok edited => edited.failures calls
      | .error failure => failure :: neuron.failures calls

/-- Neurons as they come from their constructors and from drafts. -/
inductive Made : Neuron → Prop
  | regular (spikes : UInt32) : Made (.regular spikes)
  | input (train : List UInt32) : Made (.input train)
  | output : Made .output
  | built {kind : NeuronKind} {calls : List NeuronEdit} {neuron : Neuron}
      (hbuild : Neuron.build kind calls = .ok neuron) : Made neuron

variable {neuron edited : Neuron} {kind : NeuronKind} {call : NeuronEdit}
  {calls : List NeuronEdit} {failure : NetworkError}

theorem attemptAll_cons :
    neuron.attemptAll (call :: calls) = (neuron.attempt call).attemptAll calls :=
  rfl

theorem attempt_of_edit_eq_ok (hedit : neuron.edit call = .ok edited) :
    neuron.attempt call = edited := by
  rw [attempt, hedit]

theorem attempt_of_edit_eq_error (hedit : neuron.edit call = .error failure) :
    neuron.attempt call = neuron := by
  rw [attempt, hedit]

theorem failures_cons_of_edit_eq_ok (hedit : neuron.edit call = .ok edited) :
    neuron.failures (call :: calls) = edited.failures calls := by
  rw [failures, hedit]

theorem failures_cons_of_edit_eq_error (hedit : neuron.edit call = .error failure) :
    neuron.failures (call :: calls) = failure :: neuron.failures calls := by
  rw [failures, hedit]

theorem failures_append (neuron : Neuron) (calls later : List NeuronEdit) :
    neuron.failures (calls ++ later) =
      neuron.failures calls ++ (neuron.attemptAll calls).failures later := by
  induction calls generalizing neuron with
  | nil => rfl
  | cons call calls ih =>
      rw [List.cons_append, attemptAll_cons]
      cases hedit : neuron.edit call with
      | ok edited =>
          rw [failures_cons_of_edit_eq_ok hedit, failures_cons_of_edit_eq_ok hedit,
            attempt_of_edit_eq_ok hedit, ih]
      | error failure =>
          rw [failures_cons_of_edit_eq_error hedit, failures_cons_of_edit_eq_error hedit,
            attempt_of_edit_eq_error hedit, ih, List.cons_append]

/-- The first failure is the one of a call before which none failed. -/
theorem head?_failures_eq_some_iff :
    (neuron.failures calls).head? = some failure ↔
      ∃ earlier call later, calls = earlier ++ call :: later ∧ neuron.failures earlier = [] ∧
        (neuron.attemptAll earlier).edit call = .error failure := by
  constructor
  · intro hhead
    induction calls generalizing neuron with
    | nil => contradiction
    | cons call calls ih =>
        cases hedit : neuron.edit call with
        | ok edited =>
            rw [failures_cons_of_edit_eq_ok hedit] at hhead
            obtain ⟨earlier, failing, later, rfl, hnone, hfailing⟩ := ih hhead
            refine ⟨call :: earlier, failing, later, rfl, ?_, ?_⟩
            · rw [failures_cons_of_edit_eq_ok hedit, hnone]
            · rwa [attemptAll_cons, attempt_of_edit_eq_ok hedit]
        | error cause =>
            rw [failures_cons_of_edit_eq_error hedit, List.head?_cons, Option.some_inj] at hhead
            exact ⟨[], call, calls, rfl, rfl, hedit.trans (congrArg _ hhead)⟩
  · rintro ⟨earlier, call, later, rfl, hnone, hfailing⟩
    rw [failures_append, hnone, failures_cons_of_edit_eq_error hfailing]
    rfl

theorem kind_attempt : (neuron.attempt call).kind = neuron.kind := by
  cases hedit : neuron.edit call with
  | ok edited =>
      rw [attempt_of_edit_eq_ok hedit]
      exact (congrArg NeuronRecord.kind (edit_eq_ok_iff.mp hedit).2).trans
        NeuronRecord.kind_write
  | error failure => rw [attempt_of_edit_eq_error hedit]

theorem wellFormed_attempt (hwell : neuron.record.WellFormed) :
    (neuron.attempt call).record.WellFormed := by
  cases hedit : neuron.edit call with
  | ok edited =>
      obtain ⟨hdone, hrecord⟩ := edit_eq_ok_iff.mp hedit
      rw [attempt_of_edit_eq_ok hedit, hrecord]
      exact hwell.write hdone
  | error failure => rwa [attempt_of_edit_eq_error hedit]

theorem kind_attemptAll : (neuron.attemptAll calls).kind = neuron.kind := by
  induction calls generalizing neuron with
  | nil => rfl
  | cons call calls ih => exact ih.trans kind_attempt

theorem wellFormed_attemptAll (hwell : neuron.record.WellFormed) :
    (neuron.attemptAll calls).record.WellFormed := by
  induction calls generalizing neuron with
  | nil => exact hwell
  | cons call calls ih => exact ih (wellFormed_attempt hwell)

theorem rules_of_edit_eq_ok (hedit : neuron.edit call = .ok edited) :
    edited.rules = neuron.rules ++ NeuronEdit.givenRules [call] := by
  have hrules := congrArg NeuronRecord.rules (edit_eq_ok_iff.mp hedit).2
  cases call with
  | rule given => exact hrules
  | label text => exact hrules.trans (List.append_nil _).symm
  | spikes count => exact hrules.trans (List.append_nil _).symm
  | train spikes => exact hrules.trans (List.append_nil _).symm

/-- Where no call fails, every rule given is there, in order. -/
theorem rules_attemptAll (hnone : neuron.failures calls = []) :
    (neuron.attemptAll calls).rules = neuron.rules ++ NeuronEdit.givenRules calls := by
  induction calls generalizing neuron with
  | nil => exact (List.append_nil _).symm
  | cons call calls ih =>
      cases hedit : neuron.edit call with
      | ok edited =>
          rw [failures_cons_of_edit_eq_ok hedit] at hnone
          rw [attemptAll_cons, attempt_of_edit_eq_ok hedit, ih hnone, rules_of_edit_eq_ok hedit,
            List.append_assoc, ← NeuronEdit.givenRules_cons]
      | error failure =>
          rw [failures_cons_of_edit_eq_error hedit] at hnone
          contradiction

/-- A draft follows the calls and keeps the first failure. -/
theorem foldl_edit_eq (draft : NeuronDraft) (calls : List NeuronEdit) :
    calls.foldl NeuronDraft.edit draft =
      { neuron := draft.neuron.attemptAll calls
        failure := draft.failure.or (draft.neuron.failures calls).head? } := by
  induction calls generalizing draft with
  | nil => rw [failures, List.head?_nil, Option.or_none]; rfl
  | cons call calls ih =>
      rw [List.foldl_cons, ih, NeuronDraft.edit, attemptAll_cons]
      cases hedit : draft.neuron.edit call with
      | ok edited =>
          rw [failures_cons_of_edit_eq_ok hedit, attempt_of_edit_eq_ok hedit]
      | error failure =>
          rw [failures_cons_of_edit_eq_error hedit, attempt_of_edit_eq_error hedit]
          cases draft.failure <;> rfl

/-- A failed call leaves the neuron of a draft alone. -/
theorem neuron_draft_of_edit_eq_error {recorded : Option NetworkError}
    (hedit : neuron.edit call = .error failure) :
    (NeuronDraft.edit ⟨neuron, recorded⟩ call).neuron = neuron := by
  rw [NeuronDraft.edit, hedit]

theorem build_eq :
    Neuron.build kind calls =
      match ((Neuron.empty kind).failures calls).head? with
      | some failure => .error failure
      | none => .ok ((Neuron.empty kind).attemptAll calls) := by
  rw [Neuron.build, foldl_edit_eq, NeuronDraft.build]
  rfl

theorem build_eq_ok_iff :
    Neuron.build kind calls = .ok neuron ↔
      (Neuron.empty kind).failures calls = [] ∧ (Neuron.empty kind).attemptAll calls = neuron := by
  rw [build_eq]
  cases (Neuron.empty kind).failures calls with
  | nil => simp
  | cons failure failures => simp

theorem build_eq_error_iff :
    Neuron.build kind calls = .error failure ↔
      ∃ earlier call later, calls = earlier ++ call :: later ∧
        (Neuron.empty kind).failures earlier = [] ∧
        ((Neuron.empty kind).attemptAll earlier).edit call = .error failure := by
  rw [build_eq, ← head?_failures_eq_some_iff]
  cases (Neuron.empty kind).failures calls with
  | nil => simp
  | cons failure failures => simp

theorem kind_empty : (Neuron.empty kind).kind = kind := by
  cases kind <;> rfl

theorem wellFormed_regular (spikes : UInt32) : (Neuron.regular spikes).record.WellFormed :=
  ⟨rfl, List.forall_mem_nil _⟩

theorem wellFormed_input (train : List UInt32) : (Neuron.input train).record.WellFormed :=
  ⟨rfl, rfl⟩

theorem wellFormed_output : Neuron.output.record.WellFormed :=
  ⟨rfl, rfl, rfl⟩

theorem wellFormed_empty : (Neuron.empty kind).record.WellFormed := by
  cases kind with
  | regular => exact wellFormed_regular 0
  | input => exact wellFormed_input []
  | output => exact wellFormed_output

theorem Made.wellFormed (hmade : neuron.Made) : neuron.record.WellFormed := by
  cases hmade with
  | regular spikes => exact wellFormed_regular spikes
  | input train => exact wellFormed_input train
  | output => exact wellFormed_output
  | built hbuild =>
      obtain ⟨_, rfl⟩ := build_eq_ok_iff.mp hbuild
      exact wellFormed_attemptAll wellFormed_empty

/-- The rules that a draft has are the rules it was given, so the number that a late rule would
have had is its place among these. -/
theorem build_eq_delayed_iff {position : Nat} :
    Neuron.build kind calls = .error (.delayedForgettingRule position) ↔
      ∃ earlier rule later, calls = earlier ++ .rule rule :: later ∧
        (Neuron.empty kind).failures earlier = [] ∧
        kind = .regular ∧ rule.produce = 0 ∧ rule.delay ≠ 0 ∧
        (NeuronEdit.givenRules earlier).length = position := by
  have hrecord : ∀ earlier, (Neuron.empty kind).failures earlier = [] → kind = .regular →
      ((Neuron.empty kind).attemptAll earlier).record.rules = NeuronEdit.givenRules earlier := by
    intro earlier hnone hkind
    exact (rules_attemptAll hnone).trans (by rw [hkind]; rfl)
  have hkinds : ∀ earlier, ((Neuron.empty kind).attemptAll earlier).record.kind = kind :=
    fun _ => kind_attemptAll.trans kind_empty
  rw [build_eq_error_iff]
  constructor
  · rintro ⟨earlier, call, later, rfl, hnone, hfailing⟩
    obtain ⟨rule, rfl, hkind, hproduce, hdelay, hposition⟩ :=
      NeuronRecord.refusal?_eq_delayed_iff.mp (edit_eq_error_iff.mp hfailing)
    rw [hkinds] at hkind
    rw [hrecord earlier hnone hkind] at hposition
    exact ⟨earlier, rule, later, rfl, hnone, hkind, hproduce, hdelay, hposition⟩
  · rintro ⟨earlier, rule, later, rfl, hnone, hkind, hproduce, hdelay, hposition⟩
    refine ⟨earlier, _, later, rfl, hnone, edit_eq_error_iff.mpr
      (NeuronRecord.refusal?_eq_delayed_iff.mpr ⟨rule, rfl, ?_, hproduce, hdelay, ?_⟩)⟩
    · rw [hkinds, hkind]
    · rw [hrecord earlier hnone hkind, hposition]

/-- What a neuron of the kind keeps, and how it answers the next call. -/
structure KeepsForm (neuron : Neuron) (kind : NeuronKind) : Prop where
  kind_eq : neuron.kind = kind
  wellFormed : neuron.record.WellFormed
  /-- A call is done exactly when the record does not refuse it, and then it writes its field and
  nothing else. -/
  accepted : ∀ call edited, neuron.edit call = .ok edited ↔
    neuron.record.refusal? call = none ∧ edited.record = neuron.record.write call
  refused : ∀ call failure, neuron.edit call = .error failure ↔
    neuron.record.refusal? call = some failure
  unchanged : ∀ call failure, neuron.edit call = .error failure →
    neuron.attempt call = neuron ∧
      ∀ recorded, (NeuronDraft.edit ⟨neuron, recorded⟩ call).neuron = neuron

/-- What the calls make of neurons, and of a draft of the kind. -/
structure AnswersCalls (kind : NeuronKind) (calls : List NeuronEdit) : Prop where
  keepsForm : ∀ neuron : Neuron, neuron.Made → (neuron.attemptAll calls).KeepsForm neuron.kind
  built : ∀ neuron, Neuron.build kind calls = .ok neuron ↔
    (Neuron.empty kind).failures calls = [] ∧ (Neuron.empty kind).attemptAll calls = neuron
  failed : ∀ failure, Neuron.build kind calls = .error failure ↔
    ∃ earlier call later, calls = earlier ++ call :: later ∧
      (Neuron.empty kind).failures earlier = [] ∧
      ((Neuron.empty kind).attemptAll earlier).edit call = .error failure
  numbered : ∀ position, Neuron.build kind calls = .error (.delayedForgettingRule position) ↔
    ∃ earlier rule later, calls = earlier ++ .rule rule :: later ∧
      (Neuron.empty kind).failures earlier = [] ∧
      kind = .regular ∧ rule.produce = 0 ∧ rule.delay ≠ 0 ∧
      (NeuronEdit.givenRules earlier).length = position

theorem answersCalls (kind : NeuronKind) (calls : List NeuronEdit) : AnswersCalls kind calls where
  keepsForm _ hmade := {
    kind_eq := kind_attemptAll
    wellFormed := wellFormed_attemptAll hmade.wellFormed
    accepted := fun _ _ => edit_eq_ok_iff
    refused := fun _ _ => edit_eq_error_iff
    unchanged := fun _ _ hedit => ⟨attempt_of_edit_eq_error hedit,
      fun _ => neuron_draft_of_edit_eq_error hedit⟩ }
  built _ := build_eq_ok_iff
  failed _ := build_eq_error_iff
  numbered _ := build_eq_delayed_iff

/-- The second rule forgets late.  The train is refused too, and the last rule would be taken. -/
example :
    Neuron.build .regular
      [.spikes 3, .rule (.spiking (.exactly 1) 1 2),
        .rule { guard := .exactly 2, consume := 2, produce := 0, delay := 1 }, .train [1],
        .rule (.forgetting (.exactly 3) 3)] =
      .error (.delayedForgettingRule 1) :=
  rfl

end Neuron

end SpikingNeuralP
