import RpaCore.Queue.Effects
import RpaCore.Queue.Methods

set_option relaxedAutoImplicit false
set_option autoImplicit false

/-!
# What a statement does to the rows

A statement of the queue that commits either appends one item or rewrites items in place. What a
rewrite may do to a row is said once: it keeps what identifies the item, it makes no item active
that was not, unless an override reopens it, and a deadline that it sets comes from the delivery
policy of the queue.

## Main definitions

* `QueueRow.isActive` — pending or in progress.
* `QueueOp.Reopens`, `QueueOp.Schedules` — the exceptional changes of a row.
* `RowStep` — what a statement may do to a row.

## Main results

* `QueueOp.run_rows` — a statement that commits and adds no item takes a row step on every row.
* `QueueDb.add_row` — the row of an item that is added.
-/

/-- The item waits or is worked on. -/
def QueueRow.isActive (row : QueueRow) : Bool :=
  row.status = .pending || row.status = .inProgress

/-- The statement may make a row pending again that is not active. -/
def QueueOp.Reopens (row : QueueRow) : QueueOp → Prop
  | .forceTransition _ itemId requested _ _ _ => row.id = itemId ∧ requested = .failed
  | _ => False

/-- The deadlines a statement may set. -/
def QueueOp.Schedules (due : Option Datetime) : QueueOp → Prop
  | .reclaimStale q now => due = none ∨ ∃ count, q.retryAvailableAt now count = .ok due
  | .failCommit q _ _ _ _ _ now => due = none ∨ ∃ count, q.retryAvailableAt now count = .ok due
  | .forceTransition q _ _ _ _ now => due = none ∨ ∃ count, q.retryAvailableAt now count = .ok due
  | _ => due = none

/-- **What a statement may do to a row.** -/
structure RowStep (op : QueueOp) (row row' : QueueRow) : Prop where
  id : row'.id = row.id
  reference : row'.reference = row.reference
  payload : row'.payload = row.payload
  createdAt : row'.createdAt = row.createdAt
  active : row'.isActive = true → row.isActive = true ∨ op.Reopens row
  deadline : row'.availableAt = row.availableAt ∨ op.Schedules row'.availableAt

namespace RowStep

variable {op : QueueOp} {row row' row'' : QueueRow}

/-- A row may be left alone. -/
lemma refl (op : QueueOp) (row : QueueRow) : RowStep op row row :=
  ⟨rfl, rfl, rfl, rfl, Or.inl, Or.inl rfl⟩

/-- Two changes of a row by one statement. -/
lemma trans (h : RowStep op row row') (h' : RowStep op row' row'')
    (hreopens : op.Reopens row' → op.Reopens row) : RowStep op row row'' where
  id := h'.id.trans h.id
  reference := h'.reference.trans h.reference
  payload := h'.payload.trans h.payload
  createdAt := h'.createdAt.trans h.createdAt
  active hactive := (h'.active hactive).elim h.active fun hr => Or.inr (hreopens hr)
  deadline := by
    rcases h'.deadline with heq | hdue
    · rw [heq]
      exact h.deadline
    · exact Or.inr hdue

end RowStep

namespace QueueDb

variable {db d db' : QueueDb} {op : QueueOp}

/-- Every row takes a step of the statement. -/
def RowsStep (op : QueueOp) (db db' : QueueDb) : Prop :=
  ∃ f : QueueRow → QueueRow, db'.items = db.items.map f ∧ ∀ row ∈ db.items, RowStep op row (f row)

/-- The rows may be left alone. -/
lemma RowsStep.of_items (h : db'.items = db.items) : RowsStep op db db' :=
  ⟨id, by simp [h], fun row _ => .refl op row⟩

/-- An update takes a step on the rows that it finds. -/
lemma RowsStep.update {p : QueueRow → Bool} {f : QueueRow → QueueRow}
    (h : db'.items = Table.update p f db.items)
    (hf : ∀ row ∈ db.items, p row = true → RowStep op row (f row)) : RowsStep op db db' := by
  refine ⟨fun row => if p row then f row else row, h, fun row hrow => ?_⟩
  dsimp only
  split
  · exact hf row hrow ‹_›
  · exact .refl op row

/-- Two updates by one statement. -/
lemma RowsStep.trans (h : RowsStep op db d) (h' : RowsStep op d db')
    (hreopens : ∀ row row', row'.id = row.id → op.Reopens row' → op.Reopens row) :
    RowsStep op db db' := by
  obtain ⟨f, hf, hstep⟩ := h
  obtain ⟨g, hg, hstep'⟩ := h'
  refine ⟨g ∘ f, by rw [hg, hf, List.map_map], fun row hrow => ?_⟩
  have hmem : f row ∈ d.items := hf ▸ List.mem_map_of_mem hrow
  exact (hstep row hrow).trans (hstep' _ hmem) (hreopens _ _ (hstep row hrow).id)

/-- An update under a claim takes a step on the row of the claim. -/
lemma rows_updateHeld {itemId claimedBy claimToken : String} {f : QueueRow → QueueRow}
    (h : db.updateHeld itemId claimedBy claimToken f = .ok db')
    (hf : ∀ row, row.status = .inProgress → RowStep op row (f row)) : RowsStep op db db' := by
  obtain ⟨_, _, _, rfl⟩ := updateHeld_ok h
  exact .update rfl fun row _ hheld => hf row (isHeld_iff.mp hheld).2.1

/-- A row of a claimed item that goes back to the queue, or ends. -/
lemma rowStep_of_inProgress {row row' : QueueRow} (hprogress : row.status = .inProgress)
    (hid : row'.id = row.id) (hreference : row'.reference = row.reference)
    (hpayload : row'.payload = row.payload) (hcreated : row'.createdAt = row.createdAt)
    (hdue : row'.availableAt = row.availableAt ∨ op.Schedules row'.availableAt) :
    RowStep op row row' :=
  ⟨hid, hreference, hpayload, hcreated, fun _ => Or.inl (by simp [QueueRow.isActive, hprogress]),
    hdue⟩

/-- A deadline of the delivery policy, or none. -/
lemma deadline_schedules {q : SqliteQueue} {newStatus : QueueStatus} {now : Datetime} {count : ℤ}
    {due : Option Datetime} (h : q.deadline newStatus now count = .ok due) :
    due = none ∨ ∃ count, q.retryAvailableAt now count = .ok due := by
  unfold SqliteQueue.deadline at h
  split at h
  · exact Or.inr ⟨count, h⟩
  · cases h
    exact Or.inl rfl

/-- An expired lease takes a step on the row of the item. -/
lemma rows_reclaimOne {q : SqliteQueue} {now : Datetime} {stale : QueueRow}
    (h : db.reclaimOne q now stale = .ok db') : RowsStep (.reclaimStale q now) db db' := by
  unfold reclaimOne at h
  generalize (if stale.retryCount + 1 ≤ (q.maxRetries : ℤ) then QueueStatus.pending
    else .failed) = newStatus at h
  obtain ⟨due, hdue, h⟩ := Except.bind_eq_ok.mp h
  have hschedules := deadline_schedules hdue
  dsimp only at h
  split at h <;>
  · cases h
    refine .update rfl fun row _ hguard => ?_
    have hprogress : row.status = .inProgress := by
      simp only [Bool.and_eq_true, decide_eq_true_eq] at hguard
      exact hguard.1.2
    exact rowStep_of_inProgress hprogress rfl rfl rfl rfl (Or.inr hschedules)

/-- A quarantine takes a step on the selected row. -/
lemma rows_quarantine (selected : QueueRow) (now : Datetime) (errorType : String)
    (createdAt : Datetime) : RowsStep (.quarantine selected now errorType createdAt) db
      (db.quarantine selected now errorType createdAt) := by
  unfold quarantine
  simp only
  split <;>
  · refine .update rfl fun row _ _ => ⟨rfl, rfl, rfl, rfl, fun hactive => ?_, Or.inr rfl⟩
    cases hactive

/-- A claim takes a step on the selected row. -/
lemma rows_claim {selected : QueueRow} {workerId : String} {now : Datetime} {token : ClaimToken}
    {claimed : Option QueueRow} (h : db.claim selected workerId now token = .ok (claimed, db')) :
    RowsStep (.claim selected workerId now token) db db' := by
  unfold claim at h
  split at h
  · cases h
    exact .of_items rfl
  · obtain ⟨opened, hopened, h⟩ := Except.bind_eq_ok.mp h
    cases h
    unfold openAttempt at hopened
    split at hopened
    · cases hopened
    · cases hopened
      refine .update rfl fun row _ hselected => ⟨rfl, rfl, rfl, rfl, fun _ => Or.inl ?_, Or.inr rfl⟩
      simp [QueueRow.isActive, (stillSelected_iff.mp hselected).2.1]

/-- An override takes a step on the row of the item. -/
lemma rows_forceTransition {q : SqliteQueue} {itemId reason : String} {requested : QueueStatus}
    {retry : Bool} {now : Datetime} (hrequested : requested = .successful ∨ requested = .failed)
    (h : db.forceTransition q itemId requested reason retry now = .ok db') :
    RowsStep (.forceTransition q itemId requested reason retry now) db db' := by
  unfold forceTransition at h
  split at h
  · cases h
  · next found _ =>
    generalize (if requested = .failed then found.retryCount + 1 else found.retryCount) = count at h
    dsimp only at h
    generalize hstatus : (if requested = .failed ∧ retry = true ∧ count ≤ (q.maxRetries : ℤ) then
      QueueStatus.pending else requested) = newStatus at h
    have hactive : newStatus = .pending ∨ newStatus = .inProgress → requested = .failed := by
      rw [← hstatus]
      split
      · next hretry => exact fun _ => hretry.1
      · rcases hrequested with rfl | rfl <;> simp
    obtain ⟨due, hdue, h⟩ := Except.bind_eq_ok.mp h
    have hschedules := deadline_schedules hdue
    cases h
    refine .update (p := fun row => decide (row.id = itemId)) (f := fun row =>
      { row with
        status := newStatus
        retryCount := count
        claimedBy := ""
        claimedAt := none
        claimToken := ""
        availableAt := due }) ?_ fun row _ hid => ⟨rfl, rfl, rfl, rfl, fun h => Or.inr ?_,
          Or.inr hschedules⟩
    · split <;> rfl
    · refine ⟨by simpa using hid, hactive ?_⟩
      simpa [QueueRow.isActive] using h

/-- The row of an item that is added. -/
lemma add_row {q : SqliteQueue} {item : QueueItem} (h : db.add q item = .ok db') :
    ∃ due, availableAtText item.availableAt = .ok due ∧ item.id ∉ db.items.map QueueRow.id ∧
      item.payload.IsJsonObject ∧ db' = { db with items := db.items ++ [{
        id := item.id
        reference := item.reference
        payload := q.jsonDumps item.payload
        status := item.status
        retryCount := item.retryCount
        createdAt := item.createdAt
        claimedBy := item.claimedBy
        claimedAt := item.claimedAt
        claimToken := item.claimToken
        transactionId := item.transactionId
        availableAt := due }] } := by
  unfold add at h
  split at h
  · cases h
  · next hpayload =>
    obtain ⟨due, hdue, h⟩ := Except.bind_eq_ok.mp h
    split at h
    · cases h
    · next hnew =>
      cases h
      exact ⟨due, hdue, hnew, (PyVal.objectError_eq_none_iff _ _).mp hpayload, rfl⟩

end QueueDb

/-- **A statement that commits and adds no item takes a row step on every row.** -/
theorem QueueOp.run_rows {op : QueueOp} {db db' : QueueDb} {v : op.Val}
    (hadd : ∀ q item, op ≠ .add q item) (hlegit : op.Legit) (h : op.run db = .ok (v, db')) :
    QueueDb.RowsStep op db db' := by
  cases op with
  | clock =>
    cases h
    exact .of_items rfl
  | newToken =>
    cases h
    exact .of_items rfl
  | add q item => exact absurd rfl (hadd q item)
  | reclaimStale q now =>
    refine foldlM_ok_induction (P := fun d => QueueDb.RowsStep (.reclaimStale q now) db d)
      (fun _ _ _ _ hd hone => hd.trans (QueueDb.rows_reclaimOne hone) fun _ _ _ hr => hr)
      (QueueOp.tables_of_map h) (.of_items rfl)
  | selectNext now =>
    cases h
    exact .of_items rfl
  | quarantine selected now errorType createdAt =>
    cases h
    exact QueueDb.rows_quarantine selected now errorType createdAt
  | claim selected workerId now token => exact QueueDb.rows_claim h
  | bindTransaction itemId transactionId claimedBy claimToken =>
    exact QueueDb.rows_updateHeld (QueueOp.tables_of_map h) fun row hrow =>
      QueueDb.rowStep_of_inProgress hrow rfl rfl rfl rfl (Or.inl rfl)
  | renewLease itemId claimedBy claimToken now =>
    exact QueueDb.rows_updateHeld (QueueOp.tables_of_map h) fun row hrow =>
      QueueDb.rowStep_of_inProgress hrow rfl rfl rfl rfl (Or.inl rfl)
  | complete itemId claimedBy claimToken finishedAt =>
    obtain ⟨updated, hupdated, hrest⟩ := Except.bind_eq_ok.mp (QueueOp.tables_of_map h)
    cases hrest
    have hrows : QueueDb.RowsStep (.complete itemId claimedBy claimToken finishedAt) db updated :=
      QueueDb.rows_updateHeld hupdated fun row hrow =>
        QueueDb.rowStep_of_inProgress hrow rfl rfl rfl rfl (Or.inr rfl)
    exact hrows
  | failRead itemId claimedBy claimToken =>
    obtain ⟨_, -, heq⟩ := Except.map_eq_ok.mp h
    cases heq
    exact .of_items rfl
  | failCommit q itemId claimedBy claimToken retry readCount now =>
    change db.failCommit q itemId claimedBy claimToken retry readCount now = _ at h
    unfold QueueDb.failCommit at h
    generalize (if retry = true ∧ readCount + 1 ≤ (q.maxRetries : ℤ) then QueueStatus.pending
      else .failed) = newStatus at h
    obtain ⟨due, hdue, h⟩ := Except.bind_eq_ok.mp h
    obtain ⟨updated, hupdated, h⟩ := Except.bind_eq_ok.mp h
    cases h
    have hschedules := QueueDb.deadline_schedules hdue
    have hrows : QueueDb.RowsStep
        (.failCommit q itemId claimedBy claimToken retry readCount now) db updated :=
      QueueDb.rows_updateHeld hupdated fun row hrow =>
        QueueDb.rowStep_of_inProgress hrow rfl rfl rfl rfl (Or.inr hschedules)
    exact hrows
  | forceTransition q itemId requested reason retry now =>
    exact QueueDb.rows_forceTransition hlegit (QueueOp.tables_of_map h)
