import Mathlib.Data.List.Forall2
import Mathlib.Data.List.GetD
import Mathlib.Data.Nat.Find
import Mathlib.Order.Bounds.Basic

/-!
# Traversals that may fail

A request is worked off in stages, and a vector entry by entry; the first failure
is the answer.  These lemmas read the stages and the entries back from a success.
-/

namespace SpikingNeuralP

variable {α β ε ε' : Type}

theorem ok_bind (value : α) (rest : α → Except ε β) : Except.ok value >>= rest = rest value :=
  rfl

theorem bind_eq_ok_iff {attempt : Except ε α} {rest : α → Except ε β} {result : β} :
    attempt >>= rest = .ok result ↔ ∃ value, attempt = .ok value ∧ rest value = .ok result := by
  cases attempt with
  | error failure => simp [bind, Except.bind]
  | ok value => simp [bind, Except.bind]

theorem bind_eq_error_iff {attempt : Except ε α} {rest : α → Except ε β} {failure : ε} :
    attempt >>= rest = .error failure ↔
      attempt = .error failure ∨ ∃ value, attempt = .ok value ∧ rest value = .error failure := by
  cases attempt with
  | error failure => simp [bind, Except.bind]
  | ok value => simp [bind, Except.bind]

/-- A stage that only checks hands nothing on. -/
theorem check_bind_eq_ok_iff {check : Except ε Unit} {rest : Unit → Except ε β} {result : β} :
    check >>= rest = .ok result ↔ check = .ok () ∧ rest () = .ok result := by
  cases check with
  | error failure => simp [bind, Except.bind]
  | ok value => simp [bind, Except.bind]

theorem check_bind_eq_error_iff {check : Except ε Unit} {rest : Unit → Except ε β} {failure : ε} :
    check >>= rest = .error failure ↔
      check = .error failure ∨ check = .ok () ∧ rest () = .error failure := by
  cases check with
  | error cause => simp [bind, Except.bind]
  | ok value => simp [bind, Except.bind]

/-- A stage that cannot fail leaves the failure to the one before it. -/
theorem bind_ok_eq_error_iff {attempt : Except ε α} {finish : α → β} {failure : ε} :
    (attempt >>= fun value => .ok (finish value)) = .error failure ↔
      attempt = .error failure := by
  cases attempt with
  | error cause => simp [bind, Except.bind]
  | ok value => simp [bind, Except.bind]

/-- A request that is not refused is granted. -/
theorem exists_eq_ok_iff_forall_ne_error {attempt : Except ε α} :
    (∃ value, attempt = .ok value) ↔ ∀ failure, attempt ≠ .error failure := by
  cases attempt with
  | error failure => simp
  | ok value => simp

/-- A check is known by what it refuses. -/
theorem check_eq_of_forall_eq_error_iff {check check' : Except ε Unit}
    (hrefuses : ∀ cause, check = .error cause ↔ check' = .error cause) : check = check' := by
  cases check with
  | error cause => exact ((hrefuses cause).mp rfl).symm
  | ok checked =>
      cases check' with
      | error cause => exact (hrefuses cause).mpr rfl
      | ok checked' => rfl

theorem mapError_eq_ok_iff {attempt : Except ε α} {wrap : ε → ε'} {value : α} :
    attempt.mapError wrap = .ok value ↔ attempt = .ok value := by
  cases attempt with
  | error failure => simp [Except.mapError]
  | ok value => simp [Except.mapError]

theorem mapError_eq_error_iff {attempt : Except ε α} {wrap : ε → ε'} {failure : ε'} :
    attempt.mapError wrap = .error failure ↔
      ∃ cause, attempt = .error cause ∧ wrap cause = failure := by
  cases attempt with
  | error cause => simp [Except.mapError]
  | ok value => simp [Except.mapError]

theorem mapError_bind (attempt : Except ε α) (rest : α → Except ε β) (wrap : ε → ε') :
    (attempt >>= rest).mapError wrap =
      attempt.mapError wrap >>= fun value => (rest value).mapError wrap := by
  cases attempt with
  | error failure => rfl
  | ok value => rfl

/-- A traversal succeeds exactly when every entry does, and collects the
results in order. -/
theorem mapM_eq_ok_iff {visit : α → Except ε β} {items : List α} {results : List β} :
    items.mapM visit = .ok results ↔
      List.Forall₂ (fun item result => visit item = .ok result) items results := by
  induction items generalizing results with
  | nil => simp [pure, Except.pure, eq_comm]
  | cons item items ih =>
      rw [List.mapM_cons, bind_eq_ok_iff, List.forall₂_cons_left_iff]
      constructor
      · rintro ⟨first, hfirst, hrest⟩
        obtain ⟨rest, hrest, hresults⟩ := bind_eq_ok_iff.mp hrest
        exact ⟨first, rest, hfirst, ih.mp hrest, (Except.ok.inj hresults).symm⟩
      · rintro ⟨first, rest, hfirst, hrest, rfl⟩
        exact ⟨first, hfirst, bind_eq_ok_iff.mpr ⟨rest, ih.mpr hrest, rfl⟩⟩

theorem exists_eq_ok_of_mapM_eq_ok {visit : α → Except ε β} {items : List α} {results : List β}
    (hvisits : items.mapM visit = .ok results) {item : α} (hitem : item ∈ items) :
    ∃ result, visit item = .ok result := by
  replace hvisits := mapM_eq_ok_iff.mp hvisits
  induction hvisits with
  | nil => cases hitem
  | cons hfirst _ ih =>
      rcases List.mem_cons.mp hitem with rfl | hitem
      · exact ⟨_, hfirst⟩
      · exact ih hitem

/-- A traversal fails as the first entry does that fails. -/
theorem mapM_eq_error_iff {visit : α → Except ε β} {items : List α} {failure : ε} :
    items.mapM visit = .error failure ↔
      ∃ (index : Nat) (item : α), items[index]? = some item ∧ visit item = .error failure ∧
        ∀ earlier < index, ∀ other, items[earlier]? = some other →
          ∃ result, visit other = .ok result := by
  induction items with
  | nil => simp [pure, Except.pure]
  | cons first items ih =>
      rw [List.mapM_cons, bind_eq_error_iff]
      constructor
      · rintro (hfirst | ⟨value, hfirst, hrest⟩)
        · exact ⟨0, first, rfl, hfirst, fun _ hearlier => absurd hearlier (Nat.not_lt_zero _)⟩
        · rcases bind_eq_error_iff.mp hrest with hrest | ⟨_, _, hanswer⟩
          · obtain ⟨index, item, hitem, hvisit, hearlier⟩ := ih.mp hrest
            refine ⟨index + 1, item, hitem, hvisit, fun earlier hlt other hother => ?_⟩
            cases earlier with
            | zero =>
                obtain rfl := Option.some.inj hother
                exact ⟨value, hfirst⟩
            | succ earlier => exact hearlier earlier (Nat.lt_of_succ_lt_succ hlt) other hother
          · cases hanswer
      · rintro ⟨index, item, hitem, hvisit, hearlier⟩
        cases index with
        | zero =>
            obtain rfl := Option.some.inj hitem
            exact Or.inl hvisit
        | succ index =>
            obtain ⟨value, hfirst⟩ := hearlier 0 (Nat.succ_pos index) first rfl
            refine Or.inr ⟨value, hfirst, bind_eq_error_iff.mpr (Or.inl (ih.mpr ?_))⟩
            exact ⟨index, item, hitem, hvisit, fun earlier hlt other hother =>
              hearlier (earlier + 1) (Nat.succ_lt_succ hlt) other hother⟩

/-- The failure of a traversal is that of one of its entries. -/
theorem exists_mem_of_mapM_eq_error {visit : α → Except ε β} {items : List α} {failure : ε}
    (hfail : items.mapM visit = .error failure) :
    ∃ item ∈ items, visit item = .error failure := by
  obtain ⟨_, item, hitem, hvisit, _⟩ := mapM_eq_error_iff.mp hfail
  exact ⟨item, List.mem_of_getElem? hitem, hvisit⟩

/-- A traversal that succeeds wherever it is needed. -/
theorem mapM_eq_ok_map {visit : α → Except ε β} {value : α → β} {items : List α}
    (hvisit : ∀ item ∈ items, visit item = .ok (value item)) :
    items.mapM visit = .ok (items.map value) := by
  rw [mapM_eq_ok_iff, List.forall₂_map_right_iff, List.forall₂_same]
  exact hvisit

theorem mapM_mapError {visit : α → Except ε β} {watched : α → Except ε' β} {wrap : ε → ε'}
    {items : List α} (hvisit : ∀ item ∈ items, watched item = (visit item).mapError wrap) :
    items.mapM watched = (items.mapM visit).mapError wrap := by
  induction items with
  | nil => rfl
  | cons item items ih =>
      obtain ⟨hitem, hitems⟩ := List.forall_mem_cons.mp hvisit
      rw [List.mapM_cons, List.mapM_cons, hitem, ih hitems, mapError_bind]
      cases visit item with
      | error failure => rfl
      | ok value =>
          cases items.mapM visit with
          | error failure => rfl
          | ok values => rfl

/-- A traversal that is a map wherever it is allowed. -/
theorem mapM_eq_ok_iff_map {visit : α → Except ε β} {allowed : α → Prop} {value : α → β}
    (hvisit : ∀ item result, visit item = .ok result ↔ allowed item ∧ value item = result)
    {items : List α} {results : List β} :
    items.mapM visit = .ok results ↔
      (∀ item ∈ items, allowed item) ∧ items.map value = results := by
  rw [mapM_eq_ok_iff]
  induction items generalizing results with
  | nil => simp [eq_comm]
  | cons item items ih =>
      rw [List.forall₂_cons_left_iff, List.forall_mem_cons, List.map_cons]
      constructor
      · rintro ⟨first, rest, hfirst, hrest, rfl⟩
        obtain ⟨hallowed, rfl⟩ := (hvisit item first).mp hfirst
        obtain ⟨hothers, rfl⟩ := ih.mp hrest
        exact ⟨⟨hallowed, hothers⟩, rfl⟩
      · rintro ⟨⟨hallowed, hothers⟩, rfl⟩
        exact ⟨_, _, (hvisit item _).mpr ⟨hallowed, rfl⟩, ih.mpr ⟨hothers, rfl⟩, rfl⟩

/-- A traversal of the numbered entries, read entry by entry. -/
theorem mapM_zipIdx_eq_ok_iff {visit : α × Nat → Except ε β} {items : List α} {results : List β}
    (before : α) (after : β) :
    items.zipIdx.mapM visit = .ok results ↔
      results.length = items.length ∧ ∀ index < items.length,
        visit (items.getD index before, index) = .ok (results.getD index after) := by
  rw [mapM_eq_ok_iff, List.forall₂_iff_get]
  constructor
  · rintro ⟨hlength, hentries⟩
    rw [List.length_zipIdx] at hlength
    refine ⟨hlength.symm, fun index hindex => ?_⟩
    have hentry := hentries index (by simpa using hindex) (hlength ▸ hindex)
    rw [List.getD_eq_getElem _ _ hindex, List.getD_eq_getElem _ _ (hlength ▸ hindex)]
    simpa using hentry
  · rintro ⟨hlength, hentries⟩
    refine ⟨by simpa using hlength.symm, fun index hindex hindex' => ?_⟩
    rw [List.length_zipIdx] at hindex
    have hentry := hentries index hindex
    rw [List.getD_eq_getElem _ _ hindex, List.getD_eq_getElem _ _ hindex'] at hentry
    simpa using hentry

theorem anyM_eq_ok_any {test : α → Except ε Bool} {value : α → Bool} {items : List α}
    (htest : ∀ item ∈ items, test item = .ok (value item)) :
    items.anyM test = .ok (items.any value) := by
  induction items with
  | nil => rfl
  | cons item items ih =>
      obtain ⟨hitem, hitems⟩ := List.forall_mem_cons.mp htest
      rw [List.anyM, hitem, List.any_cons]
      cases value item with
      | true => rfl
      | false => exact ih hitems

/-- A traversal that only checks fails as its first objectionable entry does. -/
theorem forM_eq_match_find? {visit : α → Except ε Unit} {refuses : α → Bool} {cause : α → ε}
    {items : List α}
    (hvisit : ∀ item ∈ items, visit item = if refuses item then .error (cause item) else .ok ()) :
    items.forM visit =
      match items.find? refuses with
      | some item => .error (cause item)
      | none => .ok () := by
  induction items with
  | nil => rfl
  | cons item items ih =>
      obtain ⟨hitem, hitems⟩ := List.forall_mem_cons.mp hvisit
      change (visit item >>= fun _ => items.forM visit) = _
      rw [hitem, List.find?_cons]
      cases refuses item with
      | true => rfl
      | false => exact ih hitems

/-- The first position with a property. -/
theorem isLeast_setOf_lt_iff {count index : Nat} {property : Nat → Prop} :
    IsLeast {position | position < count ∧ property position} index ↔
      index < count ∧ property index ∧ ∀ earlier < index, ¬property earlier := by
  constructor
  · rintro ⟨⟨hlt, hproperty⟩, hleast⟩
    refine ⟨hlt, hproperty, fun earlier hearlier hholds => ?_⟩
    exact Nat.not_lt.mpr (hleast ⟨hearlier.trans hlt, hholds⟩) hearlier
  · rintro ⟨hlt, hproperty, hearlier⟩
    refine ⟨⟨hlt, hproperty⟩, fun position hposition => ?_⟩
    exact Nat.le_of_not_lt fun hbefore => hearlier position hbefore hposition.2

/-- What holds somewhere holds somewhere first. -/
theorem forall_lt_not_iff_forall_not_isLeast {count : Nat} {property : Nat → Prop} :
    (∀ position < count, ¬property position) ↔
      ∀ index, ¬IsLeast {position | position < count ∧ property position} index := by
  constructor
  · intro hnone index hleast
    exact hnone index hleast.1.1 hleast.1.2
  · intro hnone position hposition hproperty
    classical
    have hsome : ∃ position, position < count ∧ property position :=
      ⟨position, hposition, hproperty⟩
    exact hnone (Nat.find hsome) ⟨Nat.find_spec hsome, fun _ hother => Nat.find_min' hsome hother⟩

/-- A traversal of the numbered entries fails as the first that is refused. -/
theorem mapM_zipIdx_eq_error_iff_refusal {visit : α × Nat → Except ε β} {items : List α}
    {failure : ε} (fallback : α) {refusal : Nat → ε → Prop}
    (hvisit : ∀ index < items.length, ∀ failure,
      visit (items.getD index fallback, index) = .error failure ↔ refusal index failure) :
    items.zipIdx.mapM visit = .error failure ↔
      ∃ index, IsLeast {index | index < items.length ∧ ∃ cause, refusal index cause} index ∧
        refusal index failure := by
  have hentry : ∀ index < items.length,
      items.zipIdx[index]? = some (items.getD index fallback, index) := by
    intro index hindex
    simp [List.getElem?_zipIdx, List.getElem?_eq_getElem hindex]
  have hgranted : ∀ index < items.length,
      (∃ result, visit (items.getD index fallback, index) = .ok result) ↔
        ¬∃ cause, refusal index cause := by
    intro index hindex
    rw [exists_eq_ok_iff_forall_ne_error, not_exists]
    exact forall_congr' fun cause => not_congr (hvisit index hindex cause)
  rw [mapM_eq_error_iff]
  constructor
  · rintro ⟨index, item, hitem, hfail, hearlier⟩
    have hindex : index < items.length := by
      simpa using (List.getElem?_eq_some_iff.mp hitem).1
    obtain rfl := Option.some.inj ((hentry index hindex).symm.trans hitem)
    have hrefusal := (hvisit index hindex failure).mp hfail
    refine ⟨index, isLeast_setOf_lt_iff.mpr ⟨hindex, ⟨_, hrefusal⟩, fun earlier hlt => ?_⟩,
      hrefusal⟩
    have hbefore := hlt.trans hindex
    exact (hgranted earlier hbefore).mp (hearlier earlier hlt _ (hentry earlier hbefore))
  · rintro ⟨index, hleast, hrefusal⟩
    obtain ⟨hindex, _, hearlier⟩ := isLeast_setOf_lt_iff.mp hleast
    refine ⟨index, _, hentry index hindex, (hvisit index hindex failure).mpr hrefusal,
      fun earlier hlt other hother => ?_⟩
    have hbefore := hlt.trans hindex
    obtain rfl := Option.some.inj ((hentry earlier hbefore).symm.trans hother)
    exact (hgranted earlier hbefore).mpr (hearlier earlier hlt)

/-- Where the place of a refusal tells its cause. -/
theorem mapM_zipIdx_eq_error_iff {visit : α × Nat → Except ε β} {items : List α} {failure : ε}
    (fallback : α) {refused : Nat → Prop} {cause : Nat → ε}
    (hvisit : ∀ index < items.length, ∀ failure,
      visit (items.getD index fallback, index) = .error failure ↔
        refused index ∧ failure = cause index) :
    items.zipIdx.mapM visit = .error failure ↔
      ∃ index, IsLeast {index | index < items.length ∧ refused index} index ∧
        failure = cause index := by
  have hrefused : ∀ index, (∃ failure, refused index ∧ failure = cause index) ↔ refused index :=
    fun index => exists_and_left.trans (and_iff_left ⟨_, rfl⟩)
  rw [mapM_zipIdx_eq_error_iff_refusal fallback hvisit]
  simp only [hrefused]
  exact exists_congr fun index => and_congr_right fun hleast => and_iff_right hleast.1.2

end SpikingNeuralP
