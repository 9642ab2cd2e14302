import RpaCore.Checkpoint.CreationTime
import RpaCore.Persistence.Accepted
import RpaCore.Recovery.Lifecycle

set_option relaxedAutoImplicit false
set_option autoImplicit false

/-!
# Repeated resumes

A resumed transaction is saved and resumed again. The first resume appends the entry that makes the
second one keep every skipped step, and the failures that explain a propagated skip are either all
kept or all reset by it. So the second resume finds what the first one left, and a resume that
retries business failures may come before or after one that does not.

## Main definitions

* `Transaction.Matches` — concrete steps for every step of a transaction.
* `TransactionDb.Chronicled` — the stored history of a transaction is numbered from one.

## Main results

* `Transaction.prepareResumed_matching` — a resume with matching steps succeeds.
* `Transaction.restored_restored`, `Transaction.restored_retried` — the statuses of two resumes.
* `resume_repeated` — resuming, saving and resuming again.
-/

namespace Transaction

variable {tx : Transaction} {steps : List Step} {f : Bool} {now now' : Datetime}

/-! ## Resumes with matching steps -/

/-- Concrete steps **match** a transaction if there is one for each of its steps, and no other. -/
def Matches (tx : Transaction) (steps : List Step) : Prop :=
  (steps.map Step.key).Perm (tx.steps.map Step.key)

/-- The keys of the steps of a valid transaction are distinct. -/
lemma Wired.nodup_keys (h : tx.Wired) : (tx.steps.map Step.key).Nodup := by
  refine List.Nodup.of_map Prod.fst ?_
  rw [List.map_map]
  exact h.names

/-- An identity that was validated is accepted, unless it is empty. -/
lemma requireDefinitionIdentity_text {identity : DefinitionIdentity} (hne : identity.text ≠ "") :
    requireDefinitionIdentity (some identity.text) = .ok identity.text := by
  obtain ⟨hstrip, hlength, hcontrol⟩ : pyStrip identity.text = identity.text.toList ∧
      identity.text.length ≤ 255 ∧ (identity.text.toList.all fun c => !isControl c) = true := by
    simpa [validDefinitionIdentity, and_assoc] using identity.valid
  have hany : identity.text.toList.any isControl = false := by
    simpa using hcontrol
  rw [requireDefinitionIdentity, if_neg hne, if_neg (not_not.mpr hstrip), if_neg (by omega),
    if_neg (by simp [hany])]

/-- Concrete steps with distinct keys are provided. -/
lemma provideSteps_of_nodup {provided : List Step}
    (h : ((provided ++ steps).map Step.key).Nodup) :
    provideSteps provided steps = .ok (provided ++ steps) := by
  induction steps generalizing provided with
  | nil => simp [provideSteps]
  | cons st rest ih =>
    have hfree : st.key ∉ provided.map Step.key := by
      rw [List.map_append, List.nodup_append] at h
      exact fun hmem => h.2.2 _ hmem _ (List.mem_map_of_mem List.mem_cons_self) rfl
    rw [provideSteps, if_neg hfree, ih (by simpa using h), List.append_assoc,
      List.singleton_append]

/-- With a concrete step for each of them, steps are restored, and none is left over. -/
lemma restoreSteps_of_perm {provided loaded : List Step} (hnodup : (loaded.map Step.key).Nodup)
    (hperm : (provided.map Step.key).Perm (loaded.map Step.key)) :
    tx.restoreSteps f provided loaded = .ok (loaded.map (tx.restored f), []) := by
  induction loaded generalizing provided with
  | nil =>
    obtain rfl : provided = [] := by simpa using hperm
    rfl
  | cons st rest ih =>
    obtain ⟨concrete, hconcrete, hkey⟩ :=
      List.mem_map.mp (hperm.mem_iff.mpr (List.mem_map_of_mem List.mem_cons_self))
    have hsome : (provided.find? fun st' => st'.key = st.key).isSome := by
      rw [List.find?_isSome]
      exact ⟨concrete, hconcrete, by simpa using hkey⟩
    obtain ⟨found, hfound⟩ := Option.isSome_iff_exists.mp hsome
    obtain ⟨hnotin, hrest⟩ := List.nodup_cons.mp hnodup
    have hleft : ((provided.filter fun st' => st'.key ≠ st.key).map Step.key).Perm
        (rest.map Step.key) := by
      have hkept : (rest.map Step.key).filter (fun key => key ≠ st.key) = rest.map Step.key := by
        refine List.filter_eq_self.mpr fun key hkey => ?_
        rw [decide_eq_true_eq]
        rintro rfl
        exact hnotin hkey
      have hfilter := hperm.filter fun key => key ≠ st.key
      rwa [List.map_cons, List.filter_cons_of_neg (by simp), List.filter_map, hkept] at hfilter
    have hok := ih hrest hleft
    obtain ⟨restored, hrestored⟩ : ∃ restored, tx.restoreSteps f provided (st :: rest) =
        .ok (restored, []) := by
      unfold restoreSteps
      simp only [hfound, hok, bind, Except.bind, pure, Except.pure]
      exact ⟨_, rfl⟩
    rw [hrestored, restoreSteps_ok hrestored]

/-- **A resume with matching steps succeeds.** -/
theorem prepareResumed_matching (hvalid : tx.Valid) (hstatus : tx.status ≠ .successful)
    (hidentity : tx.definitionIdentity.text ≠ "") (hsteps : tx.Matches steps) :
    tx.prepareResumed steps f (some tx.definitionIdentity.text) now =
      .ok (tx.reset (tx.orderedSteps.map (tx.restored f)) now) := by
  have hkeys := hvalid.wired.nodup_keys
  have hperm : tx.orderedSteps.Perm tx.steps := List.perm_insertionSort _ _
  have hprovided : provideSteps [] steps = .ok steps :=
    provideSteps_of_nodup (hsteps.nodup_iff.mpr hkeys)
  have hrestored : tx.restoreSteps f steps tx.orderedSteps =
      .ok (tx.orderedSteps.map (tx.restored f), []) :=
    restoreSteps_of_perm ((hperm.map _).nodup_iff.mpr hkeys) (hsteps.trans (hperm.map _).symm)
  rw [prepareResumed, if_neg hstatus, requireDefinitionIdentity_text hidentity]
  simp only [bind, Except.bind, hidentity, if_false, ne_eq, not_true_eq_false,
    show tx.validateForExecution = .ok () from hvalid, hprovided, hrestored, if_true]
  rfl

/-! ## The statuses of two resumes -/

/-- What a resume makes of a transaction. -/
def resumed (tx : Transaction) (f : Bool) (now : Datetime) : Transaction :=
  tx.reset (tx.orderedSteps.map (tx.restored f)) now

/-- Of two resets the second gives the steps and the first the history. -/
lemma reset_reset {steps' : List Step} :
    (tx.reset steps now).reset steps' now' = tx.reset steps' now := by
  have hresumed : (tx.reset steps now).isResumed = true := isResumed_reset
  rw [reset, if_pos hresumed]
  unfold reset
  split <;> rfl

/-- The steps of a resumed transaction are in order. -/
lemma orderedSteps_resumed :
    (tx.resumed f now).orderedSteps = tx.orderedSteps.map (tx.restored f) := by
  rw [orderedSteps, resumed, steps_reset]
  refine List.Pairwise.insertionSort_eq (List.pairwise_map.mpr ?_)
  exact (List.pairwise_insertionSort _ tx.steps).imp fun h => h

/-- A resume that keeps business failures keeps the halting ones. -/
lemma haltingFailure_restored_false (st : Step) :
    haltingFailure (tx.restored false st) = haltingFailure st := by
  unfold haltingFailure restored resumedStatus resumedStepStatus
  cases hlast : st.exceptions.getLast? with
  | none => rfl
  | some exc =>
    cases exc with
    | system exc => rfl
    | business exc =>
      have hbusiness : st.exceptions.getLast?.any StepException.isBusiness = true := by
        rw [hlast]
        rfl
      cases hstatus : st.status <;> simp [StepException.isBusiness]
      split <;> simp

/-- A resume that retries business failures leaves no failure. -/
lemma haltingFailure_restored_true (st : Step) :
    haltingFailure (tx.restored true st) = none := by
  unfold haltingFailure
  split
  · next exc _ =>
    have hfailed : (tx.restored true st).status ≠ .failed := by
      unfold restored resumedStatus resumedStepStatus
      simp only
      split_ifs <;> simp
    simp [hfailed]
  · rfl

/-- The skips in a history that a list of halting failures explains. -/
def propagatedSkips (failures : List (ℤ × ℕ)) (history : List HistoryEntry) :
    List (String × ℤ) :=
  history.filterMap fun entry =>
    match entry.stepExecutionOrder with
    | none => none
    | some order =>
      if entry.event = .stepSkipped && failures.any fun (haltingOrder, haltingRetry) =>
          haltingOrder < order && haltingRetry = entry.retryNumber then
        some (entry.stepName, order)
      else none

/-- The entry of a resume is no skip. -/
lemma haltPropagatedSkips_resumed : (tx.resumed f now).haltPropagatedSkips =
    propagatedSkips ((tx.orderedSteps.map (tx.restored f)).filterMap haltingFailure)
      tx.history := by
  change propagatedSkips ((tx.resumed f now).steps.filterMap haltingFailure)
    (tx.resumed f now).history = _
  rw [resumed, steps_reset]
  unfold reset
  split
  · rfl
  · simp [appendHistory, propagatedSkips, historyEntry]

/-- A resume that keeps business failures keeps the propagated skips. -/
lemma haltPropagatedSkips_resumed_false :
    (tx.resumed false now).haltPropagatedSkips = tx.haltPropagatedSkips := by
  have hfailures : (tx.orderedSteps.map (tx.restored false)).filterMap haltingFailure =
      tx.orderedSteps.filterMap haltingFailure := by
    rw [List.filterMap_map]
    exact List.filterMap_congr fun st _ => haltingFailure_restored_false st
  have hperm : (tx.orderedSteps.filterMap haltingFailure).Perm
      (tx.steps.filterMap haltingFailure) := (List.perm_insertionSort _ _).filterMap _
  rw [haltPropagatedSkips_resumed, hfailures]
  refine List.filterMap_congr fun entry _ => ?_
  cases entry.stepExecutionOrder with
  | none => rfl
  | some order => simp only [hperm.any_eq]

/-- A resume that retries business failures leaves no propagated skip. -/
lemma haltPropagatedSkips_resumed_true : (tx.resumed true now).haltPropagatedSkips = [] := by
  have hfailures : (tx.orderedSteps.map (tx.restored true)).filterMap haltingFailure = [] := by
    rw [List.filterMap_map, List.filterMap_eq_nil_iff]
    exact fun st _ => haltingFailure_restored_true st
  rw [haltPropagatedSkips_resumed, hfailures, propagatedSkips, List.filterMap_eq_nil_iff]
  intro entry _
  cases entry.stepExecutionOrder <;> simp

/-- After a resume every skipped step is preserved, unless its skip was propagated and business
failures are retried. -/
lemma preservesSkip_resumed {f' : Bool} {st : Step} (hst : st ∈ tx.steps)
    (hskipped : (tx.restored f st).status = .skipped) :
    (tx.resumed f now).preservesSkip f' st.key =
      !(f' && decide (st.key ∈ (tx.resumed f now).haltPropagatedSkips)) := by
  have hrecovery : (tx.resumed f now).preservesRecovery = true := by
    rw [preservesRecovery, resumed, isResumed_reset, Bool.or_true]
  have hany : ((tx.resumed f now).steps.any fun st' =>
      st'.key = st.key && st'.status = .skipped) = true := by
    rw [resumed, steps_reset, List.any_eq_true]
    refine ⟨_, List.mem_map_of_mem ((List.mem_insertionSort _).mpr hst), ?_⟩
    exact Bool.and_eq_true_iff.mpr ⟨decide_eq_true rfl, decide_eq_true hskipped⟩
  rw [preservesSkip, if_pos hrecovery, hany, Bool.true_and]

/-- The status that a second resume gives a step. -/
lemma resumedStatus_resumed {f' : Bool} {st : Step} (hst : st ∈ tx.steps) :
    (tx.resumed f now).resumedStatus f' (tx.restored f st) =
      match (tx.restored f st).status with
      | .successful => .successful
      | .skipped =>
        if f' && decide (st.key ∈ (tx.resumed f now).haltPropagatedSkips) then .pending
        else .skipped
      | .failed => if st.endsInBusiness && !f' then .failed else .pending
      | _ => .pending := by
  have hkey : (tx.restored f st).key = st.key := rfl
  have hexceptions : (tx.restored f st).exceptions = st.exceptions := rfl
  have hpreserves : (tx.restored f st).status = .skipped →
      (tx.resumed f now).preservesSkip f' st.key =
        !(f' && decide (st.key ∈ (tx.resumed f now).haltPropagatedSkips)) :=
    preservesSkip_resumed hst
  rw [resumedStatus, hkey, hexceptions]
  cases hstatus : (tx.restored f st).status with
  | pending => simp [resumedStepStatus]
  | inProgress => simp [resumedStepStatus]
  | successful => simp [resumedStepStatus]
  | failed =>
    simp only [resumedStepStatus, Step.endsInBusiness]
    cases f' <;> simp
  | skipped =>
    rw [hpreserves hstatus]
    cases hpropagated : f' && decide (st.key ∈ (tx.resumed f now).haltPropagatedSkips) <;>
      simp [resumedStepStatus]

/-- A resume leaves no step in progress, and a failed one only if business failures are kept. -/
lemma status_restored (st : Step) : (tx.restored f st).status ≠ .inProgress ∧
    ((tx.restored f st).status = .failed → f = false ∧ st.endsInBusiness = true) := by
  unfold restored resumedStatus resumedStepStatus Step.endsInBusiness
  simp only
  split_ifs with hsuccessful hpreserved hbusiness hretry
  · simp
  · simp
  · simp
  · simp only [Bool.and_eq_true] at hbusiness
    simpa [hbusiness.2] using hretry
  · simp

/-- **The same resume twice** restores what it restored once. -/
theorem restored_restored {st : Step} (hst : st ∈ tx.steps) :
    (tx.resumed f now).restored f (tx.restored f st) = tx.restored f st := by
  have hstatus : (tx.resumed f now).resumedStatus f (tx.restored f st) =
      (tx.restored f st).status := by
    rw [resumedStatus_resumed hst]
    obtain ⟨hprogress, hfailed⟩ := @status_restored tx f st
    cases hfirst : (tx.restored f st).status with
    | pending => rfl
    | inProgress => exact absurd hfirst hprogress
    | successful => rfl
    | failed =>
      obtain ⟨rfl, hbusiness⟩ := hfailed hfirst
      simp [hbusiness]
    | skipped =>
      cases f with
      | false => rfl
      | true =>
        rw [haltPropagatedSkips_resumed_true]
        simp
  rw [restored, hstatus]

/-- **A resume that retries business failures, after one that does not**, restores what it restores
by itself. -/
theorem restored_retried {st : Step} (hst : st ∈ tx.steps) :
    (tx.resumed false now).restored true (tx.restored false st) = tx.restored true st := by
  have hstatus : (tx.resumed false now).resumedStatus true (tx.restored false st) =
      (tx.restored true st).status := by
    rw [resumedStatus_resumed hst, haltPropagatedSkips_resumed_false]
    have hskip : tx.preservesSkip true st.key =
        (tx.preservesSkip false st.key && !decide (st.key ∈ tx.haltPropagatedSkips)) := by
      unfold preservesSkip
      cases decide (st.key ∈ tx.haltPropagatedSkips) <;> simp
    change (match tx.resumedStatus false st with
      | .successful => _
      | .skipped => _
      | .failed => _
      | _ => _) = tx.resumedStatus true st
    unfold resumedStatus
    rw [hskip]
    generalize tx.preservesSkip false st.key = preserved
    generalize decide (st.key ∈ tx.haltPropagatedSkips) = propagated
    unfold resumedStepStatus
    cases hst' : st.status with
    | skipped => cases preserved <;> cases propagated <;> simp
    | failed => cases st.exceptions.getLast?.any StepException.isBusiness <;> simp
    | _ => simp
  change ({ st with status := _ } : Step) = { st with status := _ }
  rw [hstatus]
  rfl

end Transaction

/-! ## Numbered histories -/

namespace TransactionDb

variable {db d db' : TransactionDb} {tx : Transaction} {expectedRevision : Option ℤ}
  {queueItemId claimToken id : String} {revision : ℤ}

/-- **The stored history of a transaction is numbered from one.** -/
def Chronicled (db : TransactionDb) (id : String) : Prop :=
  (db.part id).history.map (fun row => row.sequence) =
    List.range' 1 (db.part id).history.length

/-- Numbers that are left of the first ones are the later ones. -/
lemma filter_range' (m n : ℕ) :
    (List.range' 1 n).filter (fun k => k ∉ List.range' 1 m) = List.range' (1 + m) (n - m) := by
  rcases Nat.le_total n m with hle | hle
  · rw [Nat.sub_eq_zero_of_le hle, List.range'_zero, List.filter_eq_nil_iff]
    intro k hk
    rw [List.mem_range'_1] at hk
    simp only [List.mem_range'_1, decide_eq_true_eq, not_not]
    omega
  · obtain ⟨j, rfl⟩ := Nat.exists_eq_add_of_le hle
    rw [← List.range'_append_1, List.filter_append, Nat.add_sub_cancel_left,
      List.filter_eq_nil_iff.mpr fun k hk => by rw [decide_eq_true_eq]; exact not_not.mpr hk,
      List.nil_append, List.filter_eq_self]
    intro k hk
    rw [List.mem_range'_1] at hk
    simp only [List.mem_range'_1, decide_eq_true_eq]
    omega

/-- A write of a numbered history continues the numbers. -/
lemma Written.chronicled (h : Written tx expectedRevision queueItemId claimToken db revision db')
    (hdb : db.Chronicled id) (htx : tx.id = id → tx.Sequential) : db'.Chronicled id := by
  unfold Chronicled at hdb ⊢
  by_cases hid : id = tx.id
  · subst hid
    have htx := htx rfl
    have hold := hdb
    generalize ht : (db.part tx.id).history = t at hold
    have howner : ∀ row ∈ t, row.transactionId = tx.id := by
      intro row hrow
      rw [← ht] at hrow
      simpa using (List.mem_filter.mp hrow).2
    have hkeyed : Table.Keyed (fun row : HistoryRow => (row.transactionId, row.sequence))
        (tx.history.map (HistoryRow.ofEntry tx.id)) := keyed_history htx.increasing
    obtain ⟨new, hrows, hnew⟩ : ∃ new, (db'.part tx.id).history = t ++ new ∧
        new.map (fun row => row.sequence) =
          List.range' (1 + t.length) (tx.history.length - t.length) := by
      refine ⟨_, by rw [h.history, ht, Table.foldl_insertOrIgnore hkeyed], ?_⟩
      have hsequences : (tx.history.map (HistoryRow.ofEntry tx.id)).map
          (fun row => row.sequence) = List.range' 1 tx.history.length := by
        rw [List.map_map]
        exact htx
      rw [← filter_range', ← hold, ← hsequences,
        List.filter_map (f := fun row : HistoryRow => row.sequence)]
      congr 1
      refine List.filter_congr fun row hrow => ?_
      obtain ⟨entry, -, rfl⟩ := List.mem_map.mp hrow
      rw [Function.comp_apply, decide_eq_decide, not_iff_not, List.mem_map, List.mem_map]
      refine exists_congr fun row => and_congr_right fun hmem => ?_
      rw [howner row hmem, Prod.mk.injEq]
      exact and_iff_right rfl
    have hlength := congrArg List.length hnew
    rw [List.length_map, List.length_range'] at hlength
    rw [hrows, List.map_append, hold, hnew, List.length_append, List.range'_append_1, hlength]
  · rw [h.others id hid]
    exact hdb

end TransactionDb

variable {db db' : TransactionDb} {calls : List (SaveCall × Except PyError Unit)}

/-- Saves of numbered histories store them numbered. -/
lemma SaveRun.chronicled {id : String} (h : SaveRun db calls db') (hdb : db.Consistent)
    (hchronicled : db.Chronicled id)
    (hsequential : ∀ entry ∈ calls, entry.2.isOk = true → entry.1.tx.id = id →
      entry.1.tx.Sequential) :
    db'.Chronicled id := by
  induction h with
  | nil db => exact hchronicled
  | @cons db d db' call result calls step rest ih =>
    rw [List.forall_mem_cons] at hsequential
    rcases step.cases hdb with ⟨rfl, -⟩ | ⟨hok, -, hd, _, _, _, _, hwritten⟩
    · exact ih hdb hchronicled hsequential.2
    · exact ih hd (hwritten.chronicled hchronicled (hsequential.1 hok)) hsequential.2

/-! ## Creation times that can be stored again -/

/-- The creation time of a row can be stored in its place. -/
def TransactionRow.Restorable (row : TransactionRow) : Prop :=
  timestampToStorage row.createdAt row.createdAt = .ok row.createdAt ∧
    ∃ utc, legacyUtcTimestamp row.createdAt = .ok utc

/-- A timestamp that was stored can be stored again. -/
lemma timestampToStorage_again {value legacy r : Option Datetime}
    (h : timestampToStorage value legacy = .ok r) :
    timestampToStorage r r = .ok r ∧ ∃ utc, legacyUtcTimestamp r = .ok utc := by
  have hagain : ∀ d : Datetime, (d.isAware = true → d.astimezoneUtc = some d) →
      timestampToStorage (some d) (some d) = .ok (some d) ∧
        ∃ utc, legacyUtcTimestamp (some d) = .ok utc := by
    intro d hd
    cases haware : d.isAware with
    | true => simp [timestampToStorage, legacyUtcTimestamp, haware, hd haware]
    | false => simp [timestampToStorage, legacyUtcTimestamp, haware, Datetime.pyEq]
  cases value with
  | none =>
    cases h
    exact ⟨rfl, none, rfl⟩
  | some d =>
    simp only [timestampToStorage] at h
    split at h
    · split at h
      · next u hu =>
        cases h
        refine hagain u fun _ => ?_
        obtain rfl := Datetime.astimezoneUtc_eq_some hu
        unfold Datetime.astimezoneUtc at hu ⊢
        simpa [Datetime.ofInstant, Datetime.instant] using hu
      · cases h
    · split at h
      · next hany =>
        cases h
        cases legacy with
        | none => simp at hany
        | some stored =>
          refine hagain stored fun haware => ?_
          simp [haware] at hany
      · cases h

namespace TransactionDb

/-- A write leaves creation times that can be stored again. -/
lemma write_restorable {d : TransactionDb} {tx : Transaction} {expectedRevision : Option ℤ}
    {queueItemId claimToken : String} {revision : ℤ} (hdb : db.Consistent)
    (hrestorable : ∀ row ∈ db.transactions, row.Restorable)
    (h : db.write tx expectedRevision queueItemId claimToken = .ok (revision, d)) :
    ∀ row ∈ d.transactions, row.Restorable := by
  obtain ⟨hd, hwritten⟩ := write_written hdb h
  obtain ⟨createdAt, hcreated⟩ := write_created h
  have hgiven : (TransactionRow.ofTransaction tx tx.times).Restorable := by
    have hagain := timestampToStorage_again hcreated
    rwa [timestampToStorage_ok hcreated] at hagain
  intro row hrow
  have hheader := (header_eq_some hd).mpr ⟨hrow, rfl⟩
  by_cases hid : row.id = tx.id
  · rw [hid, hwritten.header_self] at hheader
    cases hheader
    unfold TransactionRow.Restorable TransactionRow.overwrite
    simp only
    split
    · exact hgiven
    · unfold previous
      cases hold : db.header tx.id with
      | none => exact hgiven
      | some old => exact hrestorable old ((header_eq_some hdb).mp hold).1
  · rw [hwritten.header_of_ne hid] at hheader
    exact hrestorable row ((header_eq_some hdb).mp hheader).1

end TransactionDb

/-- Saves leave creation times that can be stored again. -/
lemma SaveRun.restorable (h : SaveRun db calls db') (hdb : db.Consistent)
    (hrestorable : ∀ row ∈ db.transactions, row.Restorable) :
    ∀ row ∈ db'.transactions, row.Restorable := by
  induction h with
  | nil db => exact hrestorable
  | @cons db d db' call result calls step rest ih =>
    rcases step.write with ⟨rfl, -⟩ | ⟨-, -, _, _, _, _, hwrite⟩
    · exact ih hdb hrestorable
    · obtain ⟨hd, -⟩ := TransactionDb.write_written hdb hwrite
      exact ih hd (TransactionDb.write_restorable hdb hrestorable hwrite)

/-! ## Loading and saving what was loaded -/

namespace TransactionDb

variable {tx : Transaction} {f : Bool} {now : Datetime}

/-- **What is loaded** of a database that was filled by saves. -/
structure Loaded (db : TransactionDb) (tx : Transaction) : Prop where
  valid : tx.Valid
  sequential : tx.Sequential
  header : ∃ row, db.header tx.id = some row ∧ row.definitionIdentity = tx.definitionIdentity ∧
    row.createdAt = tx.createdAt ∧ row.Restorable
  sorted : tx.orderedSteps = tx.steps
  metadata : tx.metadata.canonical = tx.metadata
  metadataKeys : (tx.metadata.storedEntries.map Prod.fst).Nodup
  artifacts : ∀ a ∈ tx.artifacts, a.metadata.canonical = a.metadata
  artifactIds : (tx.artifacts.map Artifact.id).Nodup
  free : db.FreeFor tx
  history : (db.part tx.id).history = tx.history.map (HistoryRow.ofEntry tx.id)

/-- The keys of a canonical dictionary are those of the dictionary. -/
lemma nodup_keys_canonical {metadata : PyVal} (h : metadata.IsJsonObject)
    (hnodup : (metadata.storedEntries.map Prod.fst).Nodup) :
    (metadata.canonical.storedEntries.map Prod.fst).Nodup := by
  have hkeys : ∀ rows : List MetadataRow, ((PyVal.dict (rows.map fun row =>
      (PyVal.str row.key, row.value))).storedEntries.map Prod.fst) =
      rows.map MetadataRow.key := by
    intro rows
    rw [PyVal.storedEntries, List.filterMap_map]
    simp [Function.comp_def]
  rw [← @map_metadataRows "" _ h, hkeys, ((List.perm_insertionSort _ _).map _).nodup_iff,
    MetadataRow.ofMetadata, List.map_map]
  exact hnodup

/-- The history of a numbered database in reading order is the stored one. -/
lemma Chronicled.historyOf {id : String} (h : db.Chronicled id) :
    db.historyOf id = (db.part id).history := by
  have hsorted : ((db.part id).history.map fun row => row.sequence).Pairwise (· ≤ ·) := by
    rw [h]
    exact List.pairwise_le_range'
  exact List.Pairwise.insertionSort_eq (List.pairwise_map.mp hsorted)

end TransactionDb

/-- What is loaded of saves. -/
lemma SaveRun.loaded {id : String} (h : SaveRun .empty calls db)
    (hsequential : ∀ entry ∈ calls, entry.2.isOk = true → entry.1.tx.id = id →
      entry.1.tx.Sequential) {tx : Transaction} {revision : ℤ}
    (hload : db.load id = .ok (tx, revision)) :
    tx.id = id ∧ db.Loaded tx := by
  obtain ⟨hdb, -⟩ := h.kept TransactionDb.consistent_empty
  have hchronicled := h.chronicled TransactionDb.consistent_empty rfl hsequential
  have hrestorable := h.restorable TransactionDb.consistent_empty (by simp [TransactionDb.empty])
  obtain ⟨header, hheader, -⟩ := TransactionDb.load_header hload
  have hne : db.header id ≠ none := by
    rw [hheader]
    exact Option.some_ne_none header
  obtain ⟨saved, -, rfl, hkeeps⟩ := h.saved hne
  obtain ⟨row, hrow, hshows, hloaded, hvalid⟩ := hkeeps.load hdb
  rw [hload] at hloaded
  obtain ⟨rfl, -⟩ := Prod.mk.inj (Except.ok.inj hloaded)
  have hid : (saved.reloaded row (db.historyOf saved.id)).id = saved.id := hshows.id
  have howner : ∀ r ∈ (db.part saved.id).history,
      HistoryRow.ofEntry saved.id r.toHistoryEntry = r := by
    intro r hr
    have hr := (List.mem_filter.mp hr).2
    simp only [decide_eq_true_eq] at hr
    rw [HistoryRow.ofEntry, ← hr]
  refine ⟨hid, hvalid, ?_, ⟨row, hid ▸ hrow, rfl, rfl, ?_⟩, ?_, ?_, ?_, ?_, ?_, ?_, ?_⟩
  · change (((db.historyOf saved.id).map HistoryRow.toHistoryEntry).map HistoryEntry.sequence) = _
    rw [List.map_map, hchronicled.historyOf]
    refine hchronicled.trans ?_
    rw [Transaction.reloaded, List.length_map, ← hchronicled.historyOf]
  · exact hrestorable row ((TransactionDb.header_eq_some hdb).mp hrow).1
  · exact Transaction.orderedSteps_stored
  · exact PyVal.canonical_canonical _
  · refine TransactionDb.nodup_keys_canonical hkeeps.valid.metadata ?_
    rw [← TransactionDb.keyed_ofMetadata saved.id, ← hkeeps.holds.metadata]
    exact hdb.metadata.filter _
  · intro a ha
    obtain ⟨a₀, -, rfl⟩ := List.mem_map.mp ha
    exact PyVal.canonical_canonical _
  · change ((saved.artifacts.map _).map Artifact.id).Nodup
    rw [List.map_map]
    change (saved.artifacts.map Artifact.id).Nodup
    rw [← TransactionDb.keyed_ofArtifacts saved.id, ← hkeeps.holds.artifacts]
    exact hdb.artifacts.filter _
  · intro other hother hne hmem
    rw [hid] at hne hmem
    obtain ⟨st, hst, hrowId⟩ := List.mem_map.mp hmem
    have hst : st ∈ saved.steps := (List.mem_insertionSort _).mp hst
    have hown : StepRow.ofStep saved.id st ∈ (db.part saved.id).steps := by
      rw [hkeeps.holds.steps]
      exact List.mem_map_of_mem hst
    have heq := hdb.steps.eq hother (List.mem_of_mem_filter hown) hrowId.symm
    exact hne (congrArg StepRow.transactionId heq)
  · rw [hid]
    change _ = ((db.historyOf saved.id).map HistoryRow.toHistoryEntry).map _
    rw [hchronicled.historyOf, List.map_map]
    exact ((List.map_congr_left howner).trans (List.map_id _)).symm

/-- A transaction in stored form is loaded as it is. -/
lemma Transaction.reloaded_eq {tx : Transaction} {row : TransactionRow} {history : List HistoryRow}
    (hrow : row.Shows tx) (hcreated : row.createdAt = tx.createdAt) (hstarted : tx.startedAt = none)
    (hfinished : tx.finishedAt = none) (hsteps : tx.orderedSteps = tx.steps)
    (hmetadata : tx.metadata.canonical = tx.metadata)
    (hartifacts : ∀ a ∈ tx.artifacts, a.metadata.canonical = a.metadata)
    (hhistory : history.map HistoryRow.toHistoryEntry = tx.history) :
    tx.reloaded row history = tx := by
  have hsame : (tx.artifacts.map fun a => { a with metadata := a.metadata.canonical }) =
      tx.artifacts :=
    (List.map_congr_left fun a ha => by rw [hartifacts a ha]; rfl).trans (List.map_id _)
  rw [Transaction.reloaded, Transaction.stored, hrow.reference, hrow.id, hrow.status,
    hrow.retryCount, hcreated, hrow.startedAt, hrow.finishedAt, hrow.state, hrow.outcomeCategory,
    hrow.retryDisposition, hrow.failureCode, hrow.definitionIdentity, hhistory]
  simp only [hsteps, hmetadata, hsame]
  cases tx
  simp only at hstarted hfinished
  subst hstarted hfinished
  rfl

namespace Transaction

variable {tx : Transaction} {f : Bool} {now : Datetime}

/-- What a resume changes. -/
lemma resumed_eq (tx : Transaction) (f : Bool) (now : Datetime) :
    ∃ history, tx.resumed f now = { tx with
      steps := tx.orderedSteps.map (tx.restored f)
      status := .pending
      retryCount := 0
      startedAt := none
      finishedAt := none
      history := tx.history ++ history } := by
  unfold resumed reset
  split
  · exact ⟨[], by rw [List.append_nil]⟩
  · exact ⟨_, rfl⟩

/-- A resumed transaction is valid. -/
lemma Valid.resumed (h : tx.Valid) (f : Bool) (now : Datetime) : (tx.resumed f now).Valid := by
  obtain ⟨history, heq⟩ := tx.resumed_eq f now
  have hperm : tx.orderedSteps.Perm tx.steps := List.perm_insertionSort _ _
  have hsteps : checkSteps [] [] (tx.orderedSteps.map (tx.restored f)) = .ok () := by
    have hordered := checkSteps_perm hperm h.parts.1
    obtain ⟨hnames, horders, -, hpositive⟩ := checkSteps_ok hordered
    refine checkSteps_of ?_ ?_ ?_ ?_ (by simp)
    · intro st' hst'
      obtain ⟨st, hst, rfl⟩ := List.mem_map.mp hst'
      exact checkSteps_names hordered st hst
    · rw [List.map_map]
      exact hnames
    · rw [List.map_map]
      exact horders
    · intro st' hst'
      obtain ⟨st, hst, rfl⟩ := List.mem_map.mp hst'
      exact (hpositive st hst).1
  have hdurable : (tx.resumed f now).validateDurableData = .ok () := by
    unfold validateDurableData
    rw [List.findSome?_eq_none_iff.mpr]
    rintro ⟨path, v⟩ hentry
    rw [PyVal.objectError_eq_none_iff]
    rw [heq] at hentry
    simp only [durableValues, List.mem_append, List.mem_cons, List.not_mem_nil, or_false,
      List.mem_map, Prod.mk.injEq] at hentry
    rcases hentry with ((⟨-, rfl⟩ | ⟨-, rfl⟩) | ⟨⟨a, i⟩, ha, -, rfl⟩) |
      ⟨st', ⟨st, hst, rfl⟩, -, rfl⟩
    · exact h.state
    · exact h.metadata
    · exact h.artifacts (List.mem_of_getElem? (List.mk_mem_zipIdx_iff_getElem?.mp ha))
    · change st.arguments.IsJsonObject
      exact h.arguments (hperm.mem_iff.mp hst)
  have hreference : isBlank tx.reference = false := by
    unfold Valid validateForExecution at h
    split_ifs at h with hblank
    simpa using hblank
  have hshape : (tx.resumed f now).reference = tx.reference ∧
      (tx.resumed f now).steps = tx.orderedSteps.map (tx.restored f) := by
    rw [heq]
    exact ⟨rfl, rfl⟩
  rw [Valid, validateForExecution, hshape.1, hshape.2, if_neg (by simp [hreference]), hsteps]
  exact hdurable

end Transaction

namespace TransactionDb

variable {tx : Transaction}

/-- A loaded transaction that is resumed can be saved. -/
lemma Loaded.accepts_resumed (h : db.Loaded tx) (f : Bool) (now : Datetime) :
    db.Accepts (tx.resumed f now) := by
  have hvalid := h.valid.resumed f now
  obtain ⟨row, hrow, hidentity, hcreated, hagain, utc, hutc⟩ := h.header
  obtain ⟨history, heq⟩ := tx.resumed_eq f now
  rw [heq] at hvalid ⊢
  refine ⟨hvalid, fun row' hrow' => ?_, ⟨⟨row.createdAt, utc, none, none⟩, ?_⟩, h.metadataKeys,
    h.artifactIds⟩
  · rw [hrow] at hrow'
    cases hrow'
    exact hidentity
  · rw [show db.header _ = some row from hrow]
    simp only [storedTimes, Option.bind_some, ← hcreated, hagain, hutc, bind, Except.bind]
    rfl

/-- **Saving and loading a resumed transaction** that was loaded returns it. -/
theorem Loaded.save_resumed (h : db.Loaded tx) (hdb : db.Consistent) (f : Bool) (now : Datetime) :
    ∃ db' revision, db.save (tx.resumed f now) = .ok db' ∧
      db'.load tx.id = .ok (tx.resumed f now, revision) := by
  have hsequential : (tx.resumed f now).Sequential := h.sequential.reset _ _
  have hordered : (tx.resumed f now).orderedSteps = tx.orderedSteps.map (tx.restored f) :=
    tx.orderedSteps_resumed
  have haccepts := h.accepts_resumed f now
  obtain ⟨row, hrow, hidentity, hcreated, -⟩ := h.header
  obtain ⟨history, heq⟩ := tx.resumed_eq f now
  generalize tx.resumed f now = resumed at *
  have hid : resumed.id = tx.id := by rw [heq]
  have hsteps : resumed.steps = tx.orderedSteps.map (tx.restored f) := by rw [heq]
  have hfree : db.FreeFor resumed := by
    intro other hother hne hmem
    refine h.free other hother (hid ▸ hne) ?_
    obtain ⟨st', hst', hrowId⟩ := List.mem_map.mp hmem
    rw [hsteps] at hst'
    obtain ⟨st, hst, rfl⟩ := List.mem_map.mp hst'
    rw [← hrowId, hid]
    exact List.mem_map.mpr ⟨st, (List.mem_insertionSort _).mp hst, rfl⟩
  obtain ⟨db', hsave⟩ := (save_isOk_iff hdb).mpr ⟨haccepts, hfree⟩
  obtain ⟨_, -, hwrite⟩ := Except.bind_eq_ok.mp hsave
  obtain ⟨⟨revision, written⟩, hwrite, hresult⟩ := Except.bind_eq_ok.mp hwrite
  cases hresult
  obtain ⟨hdb', hwritten⟩ := write_written hdb hwrite
  obtain ⟨row', hrow', hshows, hload, -⟩ := (hwritten.keeps haccepts.valid).load hdb'
  have hcreated' : row'.createdAt = resumed.createdAt := by
    rw [hwritten.header_self] at hrow'
    cases hrow'
    have hprevious : (db.previous resumed).createdAt = resumed.createdAt := by
      rw [previous, hid, hrow, Option.getD_some, hcreated, heq]
    unfold TransactionRow.overwrite
    simp only [hprevious]
    split
    · next hnone =>
      rw [hnone]
      simp [Transaction.times, hnone]
    · rfl
  have hhistory : (db'.part resumed.id).history =
      resumed.history.map (HistoryRow.ofEntry resumed.id) := by
    have hkeyed := keyed_history hsequential.increasing
    have hstart : resumed.history.map (HistoryRow.ofEntry resumed.id) =
        (db.part resumed.id).history ++ history.map (HistoryRow.ofEntry resumed.id) := by
      rw [hid, h.history, ← List.map_append, heq]
    rw [hstart] at hkeyed
    rw [hwritten.history, hstart, Table.foldl_insertOrIgnore_prefix hkeyed]
  have hread : db'.historyOf resumed.id =
      resumed.history.map (HistoryRow.ofEntry resumed.id) := by
    change (db'.part resumed.id).history.insertionSort _ = _
    rw [hhistory]
    exact List.Pairwise.insertionSort_eq
      (List.pairwise_map.mpr (hsequential.increasing.imp fun hlt => Nat.le_of_lt hlt))
  refine ⟨db', row'.revision, hsave, ?_⟩
  rw [← hid, hload, Transaction.reloaded_eq hshows hcreated']
  · rw [heq]
  · rw [heq]
  · rw [hordered, hsteps]
  · rw [heq]
    exact h.metadata
  · rw [heq]
    exact h.artifacts
  · rw [hread, List.map_map]
    exact List.map_id _

end TransactionDb

/-! ## Resuming, saving and resuming again -/

/-- **Resume is idempotent, and its policies compose.** A transaction that is stored by saves in
which its history grew entry by entry, and that has not succeeded, is resumed with steps that match
it; the resumed transaction can be saved, and resuming it again in the same way returns it: the same
steps, with their statuses, arguments and exceptions, the same state, retry count and history. After
a resume that keeps business failures, one that retries them restores the same steps as it does by
itself.

**Proof sketch.** What is loaded of saves is in stored form, so that a resumed transaction is
loaded as it was saved (`TransactionDb.Loaded.save_resumed`); the statuses of the second resume are
`Transaction.restored_restored` and `Transaction.restored_retried`. -/
theorem resume_repeated {id : String} (h : SaveRun .empty calls db)
    (hsequential : ∀ entry ∈ calls, entry.2.isOk = true → entry.1.tx.id = id →
      entry.1.tx.Sequential)
    {tx : Transaction} {revision : ℤ} (hload : db.load id = .ok (tx, revision))
    (hstatus : tx.status ≠ .successful) (hidentity : tx.definitionIdentity.text ≠ "")
    {steps steps' : List Step} (hsteps : tx.Matches steps) (hsteps' : tx.Matches steps')
    (f : Bool) (now now' : Datetime) :
    ∃ resumed db',
      db.resumeTransaction id steps f (some tx.definitionIdentity.text) now = .ok resumed ∧
      db.save resumed = .ok db' ∧
      db'.resumeTransaction id steps' f (some tx.definitionIdentity.text) now' = .ok resumed ∧
      (f = false → ∃ direct again,
        db.resumeTransaction id steps' true (some tx.definitionIdentity.text) now' = .ok direct ∧
        db'.resumeTransaction id steps' true (some tx.definitionIdentity.text) now' = .ok again ∧
        again.steps = direct.steps) := by
  obtain ⟨hdb, -⟩ := h.kept TransactionDb.consistent_empty
  obtain ⟨rfl, hloaded⟩ := h.loaded hsequential hload
  obtain ⟨db', revision', hsave, hagain⟩ := hloaded.save_resumed hdb f now
  have hfirst : ∀ (steps : List Step) (f : Bool) (now : Datetime), tx.Matches steps →
      db.resumeTransaction tx.id steps f (some tx.definitionIdentity.text) now =
        .ok (tx.resumed f now) := by
    intro steps f now hmatches
    rw [TransactionDb.resumeTransaction, hload]
    exact Transaction.prepareResumed_matching hloaded.valid hstatus hidentity hmatches
  have hsecond : ∀ f' : Bool,
      db'.resumeTransaction tx.id steps' f' (some tx.definitionIdentity.text) now' =
        .ok (tx.reset ((tx.orderedSteps.map (tx.restored f)).map
          ((tx.resumed f now).restored f')) now) := by
    intro f'
    obtain ⟨history, heq⟩ := tx.resumed_eq f now
    have hmatches : (tx.resumed f now).Matches steps' := by
      refine hsteps'.trans ?_
      rw [heq, List.map_map]
      exact ((List.perm_insertionSort _ tx.steps).map Step.key).symm
    have hsuccess : (tx.resumed f now).prepareResumed steps' f'
        (some (tx.resumed f now).definitionIdentity.text) now' = .ok _ :=
      Transaction.prepareResumed_matching (hloaded.valid.resumed f now) (by rw [heq]; simp)
        (by rw [heq]; exact hidentity) hmatches
    rw [Transaction.orderedSteps_resumed, Transaction.resumed, Transaction.reset_reset,
      ← Transaction.resumed, show (tx.resumed f now).definitionIdentity = tx.definitionIdentity by
        rw [heq]] at hsuccess
    rw [TransactionDb.resumeTransaction, hagain]
    exact hsuccess
  have hmem : ∀ {st}, st ∈ tx.orderedSteps → st ∈ tx.steps := (List.mem_insertionSort _).mp
  refine ⟨tx.resumed f now, db', hfirst steps f now hsteps, hsave, ?_, ?_⟩
  · have hsame : (tx.orderedSteps.map (tx.restored f)).map ((tx.resumed f now).restored f) =
        tx.orderedSteps.map (tx.restored f) := by
      rw [List.map_map]
      exact List.map_congr_left fun st hst => Transaction.restored_restored (hmem hst)
    rw [hsecond f, hsame]
    rfl
  · rintro rfl
    refine ⟨_, _, hfirst steps' true now' hsteps', hsecond true, ?_⟩
    rw [Transaction.steps_reset, List.map_map, Transaction.resumed, Transaction.resumed,
      Transaction.steps_reset]
    exact List.map_congr_left fun st hst => Transaction.restored_retried (hmem hst)

/-- A transaction whose first step has halted the run, so that its second one was skipped. -/
def haltedSample : Transaction :=
  (((Engine.create 0).run Engine.stillContext
    (.create "T" "1" ⟨0, some 0⟩ [.create "a" 1, .create "b" 2] ⟨"orders", by decide⟩)).run
      (alwaysEnds (bareResult (some (.business { (default : BusinessException) with
        haltsRemainingSteps := true })) .inProgress)) []).1.2.tx

/-- The halted transaction is resumed, saved and resumed. -/
theorem resume_repeated_halted : ∃ db resumed db',
    TransactionDb.empty.save haltedSample = .ok db ∧
    db.resumeTransaction "1" haltedSample.steps false (some "orders") ⟨0, some 0⟩ =
      .ok resumed ∧
    db.save resumed = .ok db' ∧
    db'.resumeTransaction "1" haltedSample.steps false (some "orders") ⟨1, some 0⟩ =
      .ok resumed := by
  obtain ⟨db, tx, revision, hsave, hload, hstatus, hidentity, hkeys⟩ : ∃ db tx revision,
      TransactionDb.empty.save haltedSample = .ok db ∧ db.load "1" = .ok (tx, revision) ∧
        tx.status = .failed ∧ tx.definitionIdentity.text = "orders" ∧
          haltedSample.steps.map Step.key = tx.steps.map Step.key :=
    ⟨_, _, _, rfl, rfl, rfl, rfl, rfl⟩
  have hrun : SaveRun .empty [(.plain haltedSample, .ok ())] db := by
    refine .cons ⟨.empty, .empty, .commit ?_⟩ (.nil _)
    simp only [SaveCall.run, Store.save, hsave]
    rfl
  have hsequential : ∀ entry ∈ [((.plain haltedSample : SaveCall), (.ok () : Except PyError Unit))],
      entry.2.isOk = true → entry.1.tx.id = "1" → entry.1.tx.Sequential := by
    intro entry hentry _ _
    rw [List.mem_singleton.mp hentry]
    exact rfl
  have hmatches : tx.Matches haltedSample.steps := .of_eq hkeys
  obtain ⟨resumed, db', hfirst, hsaved, hsecond, -⟩ := resume_repeated hrun hsequential hload
    (by rw [hstatus]; decide) (by rw [hidentity]; decide) hmatches hmatches false ⟨0, some 0⟩
    ⟨1, some 0⟩
  rw [hidentity] at hfirst hsecond
  exact ⟨db, resumed, db', hsave, hfirst, hsaved, hsecond⟩

/-- A failed transaction whose history was put together with a gap in its numbers. -/
def gapSample : Transaction :=
  { Transaction.create "T" "1" ⟨0, some 0⟩ [.create "a" 1] ⟨"orders", by decide⟩ with
    status := .failed
    history := [{ (default : HistoryEntry) with
      sequence := 2
      event := .transactionCompleted
      status := .failed }] }

/-- The database after the sample was saved, resumed and saved again, with the transaction that was
resumed first and the one that was resumed then. -/
def gapRepeated : Except PyError (TransactionDb × Transaction × TransactionDb × Transaction) := do
  let db ← TransactionDb.empty.save gapSample
  let resumed ← db.resumeTransaction "1" gapSample.steps false (some "orders") ⟨0, some 0⟩
  let db' ← db.save resumed
  let again ← db'.resumeTransaction "1" gapSample.steps false (some "orders") ⟨1, some 0⟩
  return (db, resumed, db', again)

/-- **A gap in the numbers loses the entry of the first resume**: its number is taken, the save does
not store it, and the second resume appends another one. -/
theorem resume_repeated_gap : ∃ db resumed db' again,
    TransactionDb.empty.save gapSample = .ok db ∧
    db.resumeTransaction "1" gapSample.steps false (some "orders") ⟨0, some 0⟩ = .ok resumed ∧
    db.save resumed = .ok db' ∧
    db'.resumeTransaction "1" gapSample.steps false (some "orders") ⟨1, some 0⟩ = .ok again ∧
    again.history ≠ resumed.history := by
  have hdiffer : gapRepeated.toOption.any (fun (_, resumed, _, again) =>
      again.history ≠ resumed.history) = true := by
    decide +kernel
  cases hrepeated : gapRepeated with
  | error err =>
    rw [hrepeated] at hdiffer
    cases hdiffer
  | ok result =>
    obtain ⟨db, hsave, h⟩ := Except.bind_eq_ok.mp hrepeated
    obtain ⟨resumed, hresumed, h⟩ := Except.bind_eq_ok.mp h
    obtain ⟨db', hsaved, h⟩ := Except.bind_eq_ok.mp h
    obtain ⟨again, hagain, h⟩ := Except.bind_eq_ok.mp h
    cases h
    rw [hrepeated] at hdiffer
    exact ⟨db, resumed, db', again, hsave, hresumed, hsaved, hagain, of_decide_eq_true hdiffer⟩
