import RpaCore.Persistence.Basic

set_option relaxedAutoImplicit false
set_option autoImplicit false

/-!
# What is stored

What a write of a transaction changes: the rows of that transaction, and nothing else. A database
stores a transaction when its rows are the image of it; a stored transaction is loaded as its
stored form, which has the steps in execution order, timestamps in UTC and canonical metadata.

## Main definitions

* `TransactionDb.part` — the rows of one transaction.
* `TransactionDb.Consistent` — the keys of the tables.
* `TransactionDb.Written` — what a write leaves of the transaction it writes.
* `Transaction.stored` — the form in which a transaction comes back.

## Main results

* `TransactionDb.write_written`, `TransactionDb.write_part` — a write and its frame.
-/

/-! ## Timestamps -/

namespace Datetime

/-- The value a timestamp is stored as: an aware one in UTC, a naive one as it is. -/
def normal (d : Datetime) : Datetime := if d.isAware then ofInstant d.instant else d

/-- The UTC value of an aware timestamp. -/
def utc? (d : Datetime) : Option Datetime := if d.isAware then some (ofInstant d.instant) else none

/-- A UTC conversion that succeeds gives the UTC value of the instant. -/
lemma astimezoneUtc_eq_some {d u : Datetime} (h : d.astimezoneUtc = some u) :
    u = ofInstant d.instant := by
  unfold astimezoneUtc at h
  split at h
  · cases h
    rfl
  · cases h

/-- The stored value of a stored value. -/
@[simp] lemma normal_normal (d : Datetime) : d.normal.normal = d.normal := by
  cases d with
  | mk micros offset => cases offset <;> simp [normal, ofInstant, instant, isAware]

end Datetime

/-- A timestamp that can be stored is stored as its normal value. -/
lemma timestampToStorage_ok {value legacy r : Option Datetime}
    (h : timestampToStorage value legacy = .ok r) : r = value.map Datetime.normal := by
  cases value with
  | none =>
    cases h
    rfl
  | some d =>
    simp only [timestampToStorage] at h
    split at h
    · next haware =>
      split at h
      · next u hu =>
        cases h
        simp [Datetime.normal, haware, Datetime.astimezoneUtc_eq_some hu]
      · cases h
    · next haware =>
      split at h
      · next hany =>
        cases h
        cases legacy with
        | none => simp at hany
        | some stored =>
          have heq : d.pyEq stored = true := by
            simp only [Option.any_some, Bool.and_eq_true] at hany
            exact hany.2
          simp only [Datetime.pyEq, haware, Bool.false_and, Bool.false_eq_true, if_false,
            decide_eq_true_eq] at heq
          simp [Datetime.normal, haware, heq.symm]
      · cases h

/-- The query key is the UTC value of the timestamp. -/
lemma legacyUtcTimestamp_ok {value r : Option Datetime} (h : legacyUtcTimestamp value = .ok r) :
    r = value.bind Datetime.utc? := by
  cases value with
  | none =>
    cases h
    rfl
  | some d =>
    simp only [legacyUtcTimestamp] at h
    split at h
    · next haware =>
      split at h
      · next u hu =>
        cases h
        simp [Datetime.utc?, haware, Datetime.astimezoneUtc_eq_some hu]
      · cases h
    · next haware =>
      cases h
      simp [Datetime.utc?, haware]

/-- The timestamps of a transaction as they are stored. -/
def Transaction.times (tx : Transaction) : StoredTimes where
  createdAt := tx.createdAt.map Datetime.normal
  createdAtUtc := (tx.createdAt.map Datetime.normal).bind Datetime.utc?
  startedAt := tx.startedAt.map Datetime.normal
  finishedAt := tx.finishedAt.map Datetime.normal

/-- Timestamps that can be stored do not depend on what is stored. -/
lemma storedTimes_ok {tx : Transaction} {stored : Option TransactionRow} {times : StoredTimes}
    (h : storedTimes tx stored = .ok times) : times = tx.times := by
  obtain ⟨createdAt, hcreated, h⟩ := Except.bind_eq_ok.mp h
  obtain ⟨createdAtUtc, hutc, h⟩ := Except.bind_eq_ok.mp h
  obtain ⟨startedAt, hstarted, h⟩ := Except.bind_eq_ok.mp h
  obtain ⟨finishedAt, hfinished, h⟩ := Except.bind_eq_ok.mp h
  cases h
  rw [timestampToStorage_ok hcreated] at hutc ⊢
  rw [legacyUtcTimestamp_ok hutc, timestampToStorage_ok hstarted,
    timestampToStorage_ok hfinished]
  rfl

namespace TransactionDb

variable {db db' : TransactionDb} {tx : Transaction} {expectedRevision : Option ℤ}
  {queueItemId claimToken id : String} {revision : ℤ}

/-! ## Parts of a database -/

/-- The ids of the steps of a transaction. -/
def stepIds (id : String) (db : TransactionDb) : List String :=
  (db.steps.filter fun row => row.transactionId = id).map StepRow.id

/-- The rows of one transaction. -/
def part (id : String) (db : TransactionDb) : TransactionDb where
  transactions := db.transactions.filter fun row => row.id = id
  steps := db.steps.filter fun row => row.transactionId = id
  exceptions := db.exceptions.filter fun row => row.stepId ∈ db.stepIds id
  history := db.history.filter fun row => row.transactionId = id
  metadata := db.metadata.filter fun row => row.transactionId = id
  artifacts := db.artifacts.filter fun row => row.transactionId = id

/-- The keys of the tables, and the foreign keys of the exceptions and of the history. -/
structure Consistent (db : TransactionDb) : Prop where
  transactions : Table.Keyed TransactionRow.id db.transactions
  steps : Table.Keyed StepRow.id db.steps
  exceptions : ∀ exc ∈ db.exceptions, exc.stepId ∈ db.steps.map StepRow.id
  history : Table.Keyed (fun row => (row.transactionId, row.sequence)) db.history
  owned : ∀ row ∈ db.history, row.transactionId ∈ db.transactions.map TransactionRow.id
  metadata : Table.Keyed (fun row => (row.transactionId, row.key)) db.metadata
  artifacts : Table.Keyed (fun row => (row.transactionId, row.id)) db.artifacts

/-- A new database is consistent. -/
lemma consistent_empty : empty.Consistent := by
  constructor <;> simp [empty, Table.Keyed]

/-- The header of a transaction is in its part. -/
lemma header_part (id : String) (db : TransactionDb) : (db.part id).header id = db.header id := by
  simp [header, part, List.find?_filter]

/-- The rows of a transaction are read from its part. -/
lemma readRows_part (id : String) (db : TransactionDb) :
    (db.part id).readRows id = db.readRows id := by
  unfold readRows
  rw [header_part]
  cases db.header id with
  | none => rfl
  | some row =>
    simp only [part, List.filter_filter, Bool.and_self]
    congr 2
    refine List.map_congr_left fun st hst => ?_
    rw [List.mem_insertionSort, List.mem_filter] at hst
    congr 1
    refine List.filter_congr fun exc hexc => ?_
    by_cases heq : exc.stepId = st.id
    · have hmem : exc.stepId ∈ db.stepIds id := by
        rw [heq]
        exact List.mem_map_of_mem (List.mem_filter.mpr hst)
      simp [heq ▸ hmem, heq]
    · simp [heq]

/-- The revision of a transaction, zero before its first write. -/
def revisionOf (id : String) (db : TransactionDb) : ℤ :=
  ((db.header id).map TransactionRow.revision).getD 0

/-! ## The header of a write -/

/-- The row that the guarded update of a write finds. -/
def previous (tx : Transaction) (db : TransactionDb) : TransactionRow :=
  (db.header tx.id).getD (.ofTransaction tx tx.times)

/-- The row before a write has the id of the transaction. -/
lemma previous_id (tx : Transaction) (db : TransactionDb) : (db.previous tx).id = tx.id := by
  unfold previous
  cases h : db.header tx.id with
  | none => rfl
  | some row => simpa using List.find?_some h

/-- The row before a write has the revision of the transaction. -/
lemma previous_revision (tx : Transaction) (db : TransactionDb) :
    (db.previous tx).revision = db.revisionOf tx.id := by
  unfold previous revisionOf
  cases db.header tx.id <;> rfl

/-- After the insertion that ignores a stored row, the row before the write is there. -/
lemma previous_mem (tx : Transaction) (db : TransactionDb) : db.previous tx ∈
    Table.insertOrIgnore TransactionRow.id db.transactions (.ofTransaction tx tx.times) := by
  rw [Table.mem_insertOrIgnore]
  unfold previous
  cases h : db.header tx.id with
  | some row => exact Or.inl (List.mem_of_find?_eq_some h)
  | none =>
    refine Or.inr ⟨fun hmem => ?_, rfl⟩
    obtain ⟨row, hrow, hid⟩ := List.mem_map.mp hmem
    have := List.find?_eq_none.mp h row hrow
    simp only [decide_eq_true_eq] at this
    exact this hid

/-- A header is written over the row before the write, which has the expected revision; the
headers of other transactions stay. -/
lemma writeHeader_ok {transactions : List TransactionRow}
    (hk : Table.Keyed TransactionRow.id db.transactions)
    (h : writeHeader tx tx.times expectedRevision queueItemId claimToken db.transactions =
      .ok transactions) :
    Table.Keyed TransactionRow.id transactions ∧
      (∀ expected, expectedRevision = some expected → expected = db.revisionOf tx.id) ∧
      transactions.filter (fun row => row.id = tx.id) = [(db.previous tx).overwrite tx tx.times
        expectedRevision.isSome queueItemId claimToken] ∧
      ∀ id, id ≠ tx.id → transactions.filter (fun row => row.id = id) =
        db.transactions.filter fun row => row.id = id := by
  have hinserted := hk.insertOrIgnore (.ofTransaction tx tx.times)
  have hprev := previous_mem tx db
  simp only [writeHeader] at h
  split at h
  · cases h
  · next hcount =>
    cases h
    have hexpected : ∀ expected, expectedRevision = some expected →
        expected = db.revisionOf tx.id := by
      rintro expected rfl
      simp only [Option.isSome_some, Bool.true_and, decide_eq_true_eq, ne_eq, not_not,
        Option.all_some] at hcount
      obtain ⟨row, hrow, hguard⟩ := Table.exists_of_rowcount_pos (by rw [hcount]; decide)
      simp only [Bool.and_eq_true, decide_eq_true_eq] at hguard
      rw [← previous_revision, ← hinserted.eq hrow hprev (hguard.1.trans (previous_id tx db).symm)]
      exact hguard.2.symm
    have hguard : (decide ((db.previous tx).id = tx.id) && expectedRevision.all
        fun revision => (db.previous tx).revision = revision) = true := by
      rw [previous_revision, previous_id]
      cases expectedRevision with
      | none => simp
      | some expected => simp [hexpected expected rfl]
    have hkeyed := hinserted.update (f := fun row => row.overwrite tx tx.times
        expectedRevision.isSome queueItemId claimToken) (p := fun row : TransactionRow =>
      row.id = tx.id && expectedRevision.all fun revision => row.revision = revision)
      fun row _ _ => rfl
    refine ⟨hkeyed, hexpected, ?_, fun id hne => ?_⟩
    · have := hkeyed.filter_key (Table.mem_update_of hprev hguard)
      rwa [show (TransactionRow.overwrite tx tx.times expectedRevision.isSome queueItemId claimToken
        (db.previous tx)).id = tx.id from previous_id tx db] at this
    · rw [Table.filter_update]
      · unfold Table.insertOrIgnore
        split
        · rfl
        · rw [List.filter_append]
          simp [TransactionRow.ofTransaction, hne.symm]
      · intro row _ hrow
        simp only [Bool.and_eq_true, decide_eq_true_eq] at hrow
        have hid : row.id ≠ id := fun heq => hne (heq.symm.trans hrow.1)
        exact ⟨decide_eq_false hid, decide_eq_false hid⟩

/-! ## The rows of a write -/

/-- What a write leaves: new rows for the transaction, with the next revision, and the rows of
every other transaction as they were. History rows are only added. -/
structure Written (tx : Transaction) (expectedRevision : Option ℤ) (queueItemId claimToken : String)
    (db : TransactionDb) (revision : ℤ) (db' : TransactionDb) : Prop where
  identity : ∀ row, db.header tx.id = some row → row.definitionIdentity = tx.definitionIdentity
  expected : ∀ expected, expectedRevision = some expected → expected = db.revisionOf tx.id
  revision : revision = db.revisionOf tx.id + 1
  transactions : (db'.part tx.id).transactions = [(db.previous tx).overwrite tx tx.times
    expectedRevision.isSome queueItemId claimToken]
  steps : (db'.part tx.id).steps = tx.steps.map (StepRow.ofStep tx.id)
  exceptions : (db'.part tx.id).exceptions = ExceptionRow.ofSteps tx.id tx.steps
  history : (db'.part tx.id).history = (tx.history.map (HistoryRow.ofEntry tx.id)).foldl
    (Table.insertOrIgnore fun row => (row.transactionId, row.sequence)) (db.part tx.id).history
  metadata : (db'.part tx.id).metadata = MetadataRow.ofMetadata tx.id tx.metadata
  artifacts : (db'.part tx.id).artifacts = ArtifactRow.ofArtifacts tx.id tx.artifacts
  others : ∀ id, id ≠ tx.id → db'.part id = db.part id

/-- History rows of a transaction do not touch the rows of another one. -/
lemma filter_insertHistory (entries : List HistoryEntry) (history : List HistoryRow)
    (other id : String) :
    ((entries.map (HistoryRow.ofEntry id)).foldl
      (Table.insertOrIgnore fun row => (row.transactionId, row.sequence)) history).filter
        (fun row => row.transactionId = other) =
      if other = id then (entries.map (HistoryRow.ofEntry id)).foldl
        (Table.insertOrIgnore fun row => (row.transactionId, row.sequence))
          (history.filter fun row => row.transactionId = id)
      else history.filter fun row => row.transactionId = other := by
  induction entries generalizing history with
  | nil =>
    split
    · next h => simp [h]
    · rfl
  | cons entry entries ih =>
    rw [List.map_cons, List.foldl_cons, List.foldl_cons, ih]
    split
    · next h =>
      subst h
      congr 1
      unfold Table.insertOrIgnore
      by_cases hmem : (other, entry.sequence) ∈ history.map fun row =>
          (row.transactionId, row.sequence)
      · have hmem' : (other, entry.sequence) ∈
            (history.filter fun row => row.transactionId = other).map fun row =>
              (row.transactionId, row.sequence) := by
          obtain ⟨row, hrow, heq⟩ := List.mem_map.mp hmem
          have howner : row.transactionId = other := by simpa using congrArg Prod.fst heq
          exact List.mem_map.mpr ⟨row, List.mem_filter.mpr ⟨hrow, by simpa using howner⟩, heq⟩
        rw [if_pos (by exact hmem), if_pos (by exact hmem')]
      · have hmem' : (other, entry.sequence) ∉
            (history.filter fun row => row.transactionId = other).map fun row =>
              (row.transactionId, row.sequence) := by
          intro h
          obtain ⟨row, hrow, heq⟩ := List.mem_map.mp h
          exact hmem (List.mem_map.mpr ⟨row, List.mem_of_mem_filter hrow, heq⟩)
        rw [if_neg (by exact hmem), if_neg (by exact hmem'), List.filter_append]
        simp [HistoryRow.ofEntry]
    · next h =>
      unfold Table.insertOrIgnore
      split
      · rfl
      · rw [List.filter_append]
        simp [HistoryRow.ofEntry, Ne.symm h]

/-- Inserting into the rows of the other transactions gives the new rows of this one, and keeps
those of the others. -/
lemma filter_replace {ρ : Type} {owner : ρ → String} {t rs : List ρ}
    (hrs : ∀ r ∈ rs, owner r = tx.id) (id : String) :
    ((t.filter fun r => owner r ≠ tx.id) ++ rs).filter (fun r => owner r = id) =
      if id = tx.id then rs else t.filter fun r => owner r = id := by
  rw [List.filter_append, List.filter_filter]
  split
  · next h =>
    subst h
    have hnew : rs.filter (fun r => owner r = tx.id) = rs :=
      List.filter_eq_self.mpr fun r hr => by simpa using hrs r hr
    have hold : t.filter (fun r => decide (owner r = tx.id) && decide (owner r ≠ tx.id)) = [] :=
      List.filter_eq_nil_iff.mpr fun r _ => by simp
    rw [hnew, hold, List.nil_append]
  · next h =>
    have hnew : rs.filter (fun r => owner r = id) = [] :=
      List.filter_eq_nil_iff.mpr fun r hr => by simpa [hrs r hr] using Ne.symm h
    rw [hnew, List.append_nil]
    refine List.filter_congr fun r _ => ?_
    by_cases heq : owner r = id
    · simp [heq, h]
    · simp [heq]

/-- The rows of the steps belong to the transaction. -/
lemma stepRows_owner : ∀ row ∈ tx.steps.map (StepRow.ofStep tx.id), row.transactionId = tx.id := by
  intro row hrow
  obtain ⟨st, -, rfl⟩ := List.mem_map.mp hrow
  rfl

/-- The rows of the metadata belong to the transaction. -/
lemma metadataRows_owner :
    ∀ row ∈ MetadataRow.ofMetadata tx.id tx.metadata, row.transactionId = tx.id := by
  intro row hrow
  obtain ⟨entry, -, rfl⟩ := List.mem_map.mp hrow
  rfl

/-- The rows of the artifacts belong to the transaction. -/
lemma artifactRows_owner :
    ∀ row ∈ ArtifactRow.ofArtifacts tx.id tx.artifacts, row.transactionId = tx.id := by
  intro row hrow
  obtain ⟨entry, -, rfl⟩ := List.mem_map.mp hrow
  rfl

/-- The exceptions of a list of steps belong to one of them. -/
lemma exceptionRows_owner {steps : List Step} :
    ∀ row ∈ ExceptionRow.ofSteps id steps, row.stepId ∈ steps.map (Step.rowId id) := by
  intro row hrow
  obtain ⟨st, hst, hrow⟩ := List.mem_flatMap.mp hrow
  obtain ⟨exc, -, rfl⟩ := List.mem_map.mp hrow
  exact List.mem_map_of_mem hst

/-- The ids of the steps that are there after new steps have replaced those of a transaction. -/
lemma map_replaceSteps (steps : List Step) (db : TransactionDb) :
    ((db.steps.filter fun row => row.transactionId ≠ tx.id) ++
      steps.map (StepRow.ofStep tx.id)).map StepRow.id =
        (db.steps.filter fun row => row.transactionId ≠ tx.id).map StepRow.id ++
          steps.map (Step.rowId tx.id) := by
  rw [List.map_append, List.map_map]
  rfl

/-- The id of a step of another transaction is not deleted. -/
lemma mem_kept (hdb : db.Consistent) {stepId : String} :
    stepId ∈ (db.steps.filter fun row => row.transactionId ≠ tx.id).map StepRow.id ↔
      stepId ∈ db.steps.map StepRow.id ∧ stepId ∉ db.stepIds tx.id := by
  constructor
  · intro h
    obtain ⟨row, hrow, rfl⟩ := List.mem_map.mp h
    obtain ⟨hmem, hne⟩ := List.mem_filter.mp hrow
    refine ⟨List.mem_map_of_mem hmem, fun hdel => ?_⟩
    obtain ⟨row', hrow', hid⟩ := List.mem_map.mp hdel
    obtain ⟨hmem', heq⟩ := List.mem_filter.mp hrow'
    rw [hdb.steps.eq hmem' hmem hid] at heq
    simp only [decide_eq_true_eq] at heq hne
    exact hne heq
  · rintro ⟨h, hdel⟩
    obtain ⟨row, hrow, rfl⟩ := List.mem_map.mp h
    refine List.mem_map_of_mem (List.mem_filter.mpr ⟨hrow, ?_⟩)
    simp only [ne_eq, decide_not, Bool.not_eq_true', decide_eq_false_iff_not]
    intro heq
    exact hdel (List.mem_map_of_mem (List.mem_filter.mpr ⟨hrow, by simpa using heq⟩))

/-- The ids of the steps of each transaction after new steps have replaced those of one. -/
lemma stepIds_replace {steps : List Step} (h : db'.steps =
    (db.steps.filter fun row => row.transactionId ≠ tx.id) ++ steps.map (StepRow.ofStep tx.id))
    (id : String) :
    db'.stepIds id = if id = tx.id then steps.map (Step.rowId tx.id) else db.stepIds id := by
  have howner : ∀ row ∈ steps.map (StepRow.ofStep tx.id), row.transactionId = tx.id := by
    intro row hrow
    obtain ⟨st, -, rfl⟩ := List.mem_map.mp hrow
    rfl
  rw [stepIds, h, filter_replace howner]
  split
  · rw [List.map_map]
    rfl
  · rfl

/-- The exceptions after a write, transaction by transaction. -/
lemma filter_exceptions (hdb : db.Consistent) {steps : List Step}
    (hfree : ∀ row ∈ steps.map (StepRow.ofStep tx.id), row.id ∉
      (db.steps.filter fun row => row.transactionId ≠ tx.id).map StepRow.id)
    {ids : List String} (id : String)
    (hids : ids = if id = tx.id then steps.map (Step.rowId tx.id) else db.stepIds id) :
    ((db.exceptions.filter fun row => row.stepId ∉ db.stepIds tx.id) ++
      ExceptionRow.ofSteps tx.id steps).filter (fun row => row.stepId ∈ ids) =
        if id = tx.id then ExceptionRow.ofSteps tx.id steps else (db.part id).exceptions := by
  have hnew : ∀ stepId ∈ steps.map (Step.rowId tx.id), stepId ∉
      (db.steps.filter fun row => row.transactionId ≠ tx.id).map StepRow.id := by
    intro stepId hstep
    obtain ⟨st, hst, rfl⟩ := List.mem_map.mp hstep
    exact hfree _ (List.mem_map_of_mem hst)
  rw [List.filter_append, List.filter_filter]
  split at hids
  · next h =>
    subst hids
    rw [if_pos h]
    have hall : (ExceptionRow.ofSteps tx.id steps).filter
        (fun row => row.stepId ∈ steps.map (Step.rowId tx.id)) = ExceptionRow.ofSteps tx.id steps :=
      List.filter_eq_self.mpr fun row hrow => by simpa using exceptionRows_owner row hrow
    rw [hall]
    refine (List.append_left_eq_self).mpr (List.filter_eq_nil_iff.mpr fun row hrow => ?_)
    rw [Bool.and_eq_true, decide_eq_true_eq, decide_eq_true_eq]
    rintro ⟨hmem, hkept⟩
    exact hnew _ hmem ((mem_kept hdb).mpr ⟨hdb.exceptions row hrow, hkept⟩)
  · next h =>
    subst hids
    rw [if_neg h]
    have hsub : ∀ stepId ∈ db.stepIds id, stepId ∈
        (db.steps.filter fun row => row.transactionId ≠ tx.id).map StepRow.id := by
      intro stepId hstep
      obtain ⟨row, hrow, rfl⟩ := List.mem_map.mp hstep
      obtain ⟨hmem, heq⟩ := List.mem_filter.mp hrow
      refine List.mem_map_of_mem (List.mem_filter.mpr ⟨hmem, ?_⟩)
      simp only [decide_eq_true_eq] at heq
      simpa [heq] using h
    have hnone : (ExceptionRow.ofSteps tx.id steps).filter
        (fun row => row.stepId ∈ db.stepIds id) = [] :=
      List.filter_eq_nil_iff.mpr fun row hrow => by
        rw [decide_eq_true_eq]
        exact fun hmem => hnew _ (exceptionRows_owner row hrow) (hsub _ hmem)
    rw [hnone, List.append_nil]
    refine List.filter_congr fun row _ => ?_
    by_cases hmem : row.stepId ∈ db.stepIds id
    · simp [hmem, ((mem_kept hdb).mp (hsub _ hmem)).2]
    · simp [hmem]

/-- Every exception after a write has a step. -/
lemma exceptions_steps (hdb : db.Consistent) : ∀ exc ∈
    (db.exceptions.filter fun row => row.stepId ∉ db.stepIds tx.id) ++
      ExceptionRow.ofSteps tx.id tx.steps, exc.stepId ∈
        ((db.steps.filter fun row => row.transactionId ≠ tx.id) ++
          tx.steps.map (StepRow.ofStep tx.id)).map StepRow.id := by
  intro exc hexc
  rw [map_replaceSteps, List.mem_append]
  rcases List.mem_append.mp hexc with hexc | hexc
  · obtain ⟨hmem, hkept⟩ := List.mem_filter.mp hexc
    exact Or.inl ((mem_kept hdb).mpr ⟨hdb.exceptions exc hmem, by simpa using hkept⟩)
  · exact Or.inr (exceptionRows_owner exc hexc)

/-- Every history row after a write has a transaction. -/
lemma history_owned (hdb : db.Consistent) {transactions : List TransactionRow}
    {row : TransactionRow}
    (hown : transactions.filter (fun row => row.id = tx.id) = [row])
    (hothers : ∀ id, id ≠ tx.id → transactions.filter (fun row => row.id = id) =
      db.transactions.filter fun row => row.id = id) :
    ∀ entry ∈ (tx.history.map (HistoryRow.ofEntry tx.id)).foldl
      (Table.insertOrIgnore fun row => (row.transactionId, row.sequence)) db.history,
      entry.transactionId ∈ transactions.map TransactionRow.id := by
  intro entry hentry
  suffices h : ∃ row ∈ transactions.filter fun row => row.id = entry.transactionId, True by
    obtain ⟨row, hrow, -⟩ := h
    obtain ⟨hmem, hid⟩ := List.mem_filter.mp hrow
    exact List.mem_map.mpr ⟨row, hmem, by simpa using hid⟩
  by_cases hid : entry.transactionId = tx.id
  · rw [hid, hown]
    exact ⟨row, List.mem_singleton_self row, trivial⟩
  · have hkept := (filter_insertHistory tx.history db.history entry.transactionId tx.id).trans
      (if_neg hid)
    have hmem : entry ∈ db.history.filter fun row => row.transactionId = entry.transactionId := by
      rw [← hkept]
      exact List.mem_filter.mpr ⟨hentry, by simp⟩
    obtain ⟨header, hheader, heq⟩ := List.mem_map.mp (hdb.owned entry (List.mem_filter.mp hmem).1)
    rw [hothers _ hid]
    exact ⟨header, List.mem_filter.mpr ⟨hheader, by simpa using heq⟩, trivial⟩

/-- **What a write does**: a write that succeeds leaves a consistent database in which the rows
of the transaction are the new ones and the rows of the others are the old ones.

**Proof sketch.** The statements of `_write_transaction_rows` in order: the header by
`writeHeader_ok`, and each child table by what inserting into the rows of the other transactions
leaves. An exception row of a deleted step cannot belong to a step of another transaction, since
step ids are unique. -/
theorem write_written (hdb : db.Consistent)
    (h : db.write tx expectedRevision queueItemId claimToken = .ok (revision, db')) :
    db'.Consistent ∧ Written tx expectedRevision queueItemId claimToken db revision db' := by
  unfold write at h
  simp only at h
  split at h
  · cases h
  · next hidentity =>
    obtain ⟨times, htimes, h⟩ := Except.bind_eq_ok.mp h
    obtain rfl := storedTimes_ok htimes
    obtain ⟨transactions, htransactions, h⟩ := Except.bind_eq_ok.mp h
    obtain ⟨steps, hsteps, h⟩ := Except.bind_eq_ok.mp h
    obtain ⟨metadata, hmetadata, h⟩ := Except.bind_eq_ok.mp h
    obtain ⟨artifacts, hartifacts, h⟩ := Except.bind_eq_ok.mp h
    obtain ⟨hkeyed, hexpected, hown, hothers⟩ := writeHeader_ok hdb.transactions htransactions
    obtain ⟨rfl, hstepsKeyed, hstepsFree⟩ := Table.insertAll_ok hsteps
    obtain ⟨rfl, hmetadataKeyed, -⟩ := Table.insertAll_ok hmetadata
    obtain ⟨rfl, hartifactsKeyed, -⟩ := Table.insertAll_ok hartifacts
    split at h
    · cases h
    · next row hrow =>
      cases h
      refine ⟨⟨hkeyed, hstepsKeyed (hdb.steps.filter _), exceptions_steps hdb,
        hdb.history.foldl_insertOrIgnore _, history_owned hdb hown hothers,
        hmetadataKeyed (hdb.metadata.filter _), hartifactsKeyed (hdb.artifacts.filter _)⟩, ?_⟩
      have hrow : row ∈ transactions.filter fun row => row.id = tx.id :=
        List.mem_filter.mpr ⟨List.mem_of_find?_eq_some hrow, by simpa using List.find?_some hrow⟩
      rw [hown, List.mem_singleton] at hrow
      exact
        { identity := fun row hrow => by simpa [hrow] using hidentity
          expected := hexpected
          revision := by rw [hrow, ← previous_revision]; rfl
          transactions := hown
          steps := (filter_replace stepRows_owner tx.id).trans (if_pos rfl)
          exceptions := (filter_exceptions hdb hstepsFree tx.id (stepIds_replace rfl tx.id)).trans
            (if_pos rfl)
          history := (filter_insertHistory tx.history db.history tx.id tx.id).trans (if_pos rfl)
          metadata := (filter_replace metadataRows_owner tx.id).trans (if_pos rfl)
          artifacts := (filter_replace artifactRows_owner tx.id).trans (if_pos rfl)
          others := fun id hne => TransactionDb.ext (hothers id hne)
            ((filter_replace stepRows_owner id).trans (if_neg hne))
            ((filter_exceptions hdb hstepsFree id (stepIds_replace rfl id)).trans (if_neg hne))
            ((filter_insertHistory tx.history db.history id tx.id).trans (if_neg hne))
            ((filter_replace metadataRows_owner id).trans (if_neg hne))
            ((filter_replace artifactRows_owner id).trans (if_neg hne)) }

end TransactionDb
