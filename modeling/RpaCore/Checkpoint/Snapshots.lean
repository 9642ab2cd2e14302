import RpaCore.Checkpoint.Audit
import RpaCore.Engine.Saves

set_option relaxedAutoImplicit false
set_option autoImplicit false

/-!
# Snapshots of a transaction

What the rows of a transaction say about its progress: whether it is successful, and which of its
steps are. A snapshot agrees with the rows when it says the same; one that was just written or
loaded does.

## Main definitions

* `TransactionDb.Successful`, `TransactionDb.Succeeded`, `TransactionDb.Finished` — the stored
  progress of a transaction.
* `TransactionDb.Agrees` — a snapshot says the same.

## Main results

* `TransactionDb.load_agrees`, `TransactionDb.Written.agrees` — what is loaded or written agrees.
-/

namespace TransactionDb

variable {db db' : TransactionDb} {tx : Transaction} {id : String} {key : String × ℤ}
  {expectedRevision : Option ℤ} {queueItemId claimToken : String} {revision : ℤ}

/-- The transaction is stored as successful. -/
def Successful (db : TransactionDb) (id : String) : Prop :=
  ∃ row, db.header id = some row ∧ row.status = .successful

/-- The stored transaction has the step as successful. -/
def Succeeded (db : TransactionDb) (id : String) (key : String × ℤ) : Prop :=
  (∃ row, db.header id = some row) ∧ ∃ row ∈ db.steps, row.transactionId = id ∧
    (row.name, row.executionOrder) = key ∧ row.status = .successful

/-- Every stored step of the transaction is complete. -/
def Finished (db : TransactionDb) (id : String) : Prop :=
  ∀ row ∈ db.steps, row.transactionId = id → row.status = .successful ∨ row.status = .skipped

/-- **The rows of a transaction agree with a snapshot** of it. -/
structure Agrees (db : TransactionDb) (tx : Transaction) : Prop where
  status : ∃ row, db.header tx.id = some row ∧ row.status = tx.status
  steps : ∀ key, db.Succeeded tx.id key ↔ tx.Succeeds key

/-! ## Rows of the same part -/

/-- The steps of a part are those of the database. -/
lemma mem_steps_part {row : StepRow} :
    row ∈ (db.part id).steps ↔ row ∈ db.steps ∧ row.transactionId = id := by
  simp [part, List.mem_filter]

/-- The same rows tell the same. -/
lemma Successful.congr (h : db.Successful id) (hpart : db'.part id = db.part id) :
    db'.Successful id := by
  unfold Successful
  rw [← header_part, hpart, header_part]
  exact h

/-- The same rows tell the same. -/
lemma Succeeded.congr (h : db.Succeeded id key) (hpart : db'.part id = db.part id) :
    db'.Succeeded id key := by
  obtain ⟨hheader, row, hrow, hid, hkey⟩ := h
  refine ⟨?_, row, ?_, hid, hkey⟩
  · rw [← header_part, hpart, header_part]
    exact hheader
  · have hmem : row ∈ (db'.part id).steps := by
      rw [hpart]
      exact mem_steps_part.mpr ⟨hrow, hid⟩
    exact (mem_steps_part.mp hmem).1

/-- The same rows tell the same. -/
lemma Finished.congr (h : db.Finished id) (hpart : db'.part id = db.part id) :
    db'.Finished id := by
  intro row hrow hid
  have hmem : row ∈ (db.part id).steps := by
    rw [← hpart]
    exact mem_steps_part.mpr ⟨hrow, hid⟩
  exact h row (mem_steps_part.mp hmem).1 hid

/-- The same rows tell the same. -/
lemma Agrees.congr (h : db.Agrees tx) (hpart : db'.part tx.id = db.part tx.id) :
    db'.Agrees tx where
  status := by
    rw [← header_part, hpart, header_part]
    exact h.status
  steps key := ⟨fun hkey => (h.steps key).mp (hkey.congr hpart.symm),
    fun hkey => ((h.steps key).mpr hkey).congr hpart⟩

/-- A snapshot agrees with one header. -/
lemma Agrees.successful_iff (h : db.Agrees tx) :
    db.Successful tx.id ↔ tx.status = .successful := by
  obtain ⟨row, hrow, hstatus⟩ := h.status
  refine ⟨?_, fun htx => ⟨row, hrow, hstatus.trans htx⟩⟩
  rintro ⟨row', hrow', hsuccessful⟩
  obtain rfl : row = row' := Option.some.inj (hrow.symm.trans hrow')
  exact hstatus.symm.trans hsuccessful

/-! ## Loaded and written snapshots -/

/-- The step that is loaded from a row. -/
lemma decodeStep_ok {row : StepRow × List ExceptionRow} {st : Step}
    (h : TransactionRows.decodeStep id row = .ok st) :
    st.key = (row.1.name, row.1.executionOrder) ∧ st.status = row.1.status := by
  obtain ⟨_, -, h⟩ := Except.bind_eq_ok.mp h
  cases h
  exact ⟨rfl, rfl⟩

/-- **What is loaded agrees with the rows**, and comes with their revision. -/
theorem load_agrees (h : db.load id = .ok (tx, revision)) :
    tx.id = id ∧ revision = db.revisionOf id ∧ db.Agrees tx := by
  obtain ⟨rows, hrows, h⟩ := Except.bind_eq_ok.mp h
  obtain ⟨decoded, hdecode, h⟩ := Except.bind_eq_ok.mp h
  cases h
  unfold readRows at hrows
  cases hheader : db.header id with
  | none =>
    rw [hheader] at hrows
    cases hrows
  | some row =>
    rw [hheader] at hrows
    cases hrows
    obtain ⟨_, -, hdecode⟩ := Except.bind_eq_ok.mp hdecode
    obtain ⟨steps, hsteps, hdecode⟩ := Except.bind_eq_ok.mp hdecode
    obtain ⟨metadata, -, hdecode⟩ := Except.bind_eq_ok.mp hdecode
    obtain ⟨artifacts, -, hdecode⟩ := Except.bind_eq_ok.mp hdecode
    cases hdecode
    have hid : row.id = id := by simpa using List.find?_some hheader
    refine ⟨hid, by simp [revisionOf, hheader], ⟨row, ?_, rfl⟩, fun key => ?_⟩
    · rw [hid]
      exact hheader
    · dsimp only
      rw [hid]
      constructor
      · rintro ⟨-, stepRow, hmem, howner, hkey, hstatus⟩
        obtain ⟨st, hdecoded, hst⟩ := mem_of_mapM_ok hsteps (a := (stepRow,
          db.exceptions.filter fun exc => exc.stepId = stepRow.id)) (List.mem_map_of_mem
            ((List.mem_insertionSort _).mpr (List.mem_filter.mpr ⟨hmem, by simpa using howner⟩)))
        obtain ⟨hkey', hstatus'⟩ := decodeStep_ok hdecoded
        exact ⟨st, hst, hkey'.trans hkey, hstatus'.trans hstatus⟩
      · rintro ⟨st, hst, hkey, hstatus⟩
        obtain ⟨stepRow, hmem, hdecoded⟩ := exists_of_mapM_ok hsteps hst
        obtain ⟨hkey', hstatus'⟩ := decodeStep_ok hdecoded
        obtain ⟨stepRow, hsorted, rfl⟩ := List.mem_map.mp hmem
        obtain ⟨hrow, howner⟩ := List.mem_filter.mp ((List.mem_insertionSort _).mp hsorted)
        exact ⟨⟨row, hheader⟩, stepRow, hrow, by simpa using howner, hkey'.symm.trans hkey,
          hstatus'.symm.trans hstatus⟩

/-- **What was written agrees with the rows.** -/
theorem Written.agrees
    (h : Written tx expectedRevision queueItemId claimToken db revision db') : db'.Agrees tx where
  status := ⟨_, h.header_self, rfl⟩
  steps key := by
    have hsteps : ∀ row, row ∈ db'.steps ∧ row.transactionId = tx.id ↔
        ∃ st ∈ tx.steps, StepRow.ofStep tx.id st = row := by
      intro row
      rw [← mem_steps_part, h.steps, List.mem_map]
    constructor
    · rintro ⟨-, row, hrow, hid, hkey, hstatus⟩
      obtain ⟨st, hst, rfl⟩ := (hsteps row).mp ⟨hrow, hid⟩
      exact ⟨st, hst, hkey, hstatus⟩
    · rintro ⟨st, hst, hkey, hstatus⟩
      obtain ⟨hrow, hid⟩ := (hsteps _).mpr ⟨st, hst, rfl⟩
      exact ⟨⟨_, h.header_self⟩, _, hrow, hid, hkey, hstatus⟩

/-- The steps of a transaction that was written with all of them complete. -/
lemma Written.finished
    (h : Written tx expectedRevision queueItemId claimToken db revision db')
    (hcomplete : ∀ st ∈ tx.steps, st.isComplete = true) : db'.Finished tx.id := by
  intro row hrow hid
  have hmem : row ∈ (db'.part tx.id).steps := mem_steps_part.mpr ⟨hrow, hid⟩
  rw [h.steps] at hmem
  obtain ⟨st, hst, rfl⟩ := List.mem_map.mp hmem
  simpa [Step.isComplete, StepRow.ofStep] using hcomplete st hst

end TransactionDb
