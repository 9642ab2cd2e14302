import RpaCore.Persistence.Stored

set_option relaxedAutoImplicit false
set_option autoImplicit false

/-!
# Loading what was stored

A stored transaction is loaded as its stored form: the steps in execution order, the timestamps in
UTC, and metadata with sorted keys.

## Main definitions

* `TransactionDb.Stores` — the rows of a database are the image of a transaction.
* `Transaction.stored` — the form in which a stored transaction comes back.
* `TransactionDb.Holds` — the rows are the image, apart from the header and the history.

## Main results

* `TransactionDb.Written.stores` — a write stores its transaction.
* `TransactionDb.Holds.load`, `TransactionDb.Stores.load` — loading it back.
-/

/-! ## Canonical values -/

namespace PyVal

/-- The value has a JSON form. -/
def JsonSafe (v : PyVal) : Prop := jsonError "" [] v = Option.none

/-- The items of a list have a JSON form iff each of them has one. -/
lemma jsonErrorItems_iff {root : String} {path : List PathSegment} {i : ℕ} {xs : List PyVal} :
    jsonErrorItems root path i xs = Option.none ↔ ∀ x ∈ xs, x.JsonSafe := by
  induction xs generalizing i with
  | nil => simp [jsonErrorItems]
  | cons x xs ih =>
    rw [jsonErrorItems, Option.or_eq_none_iff, ih, List.forall_mem_cons]
    exact and_congr_left' (jsonError_eq_none_iff _ _ _ _ x)

/-- The entries of a dictionary have a JSON form iff the keys are strings and the values have
one. -/
lemma jsonErrorEntries_iff {root : String} {path : List PathSegment}
    {kvs : List (PyVal × PyVal)} :
    jsonErrorEntries root path kvs = Option.none ↔
      ∀ kv ∈ kvs, (∃ k, kv.1 = .str k) ∧ kv.2.JsonSafe := by
  induction kvs with
  | nil => simp [jsonErrorEntries]
  | cons kv kvs ih =>
    obtain ⟨k, v⟩ := kv
    rw [List.forall_mem_cons, ← ih]
    cases k with
    | str k =>
      rw [jsonErrorEntries, Option.or_eq_none_iff]
      refine and_congr_left' ((jsonError_eq_none_iff _ "" _ [] v).trans ?_)
      simp [JsonSafe]
    | _ => simp [jsonErrorEntries]

/-- A list is JSON-safe iff its items are. -/
lemma jsonSafe_list {xs : List PyVal} : (PyVal.list xs).JsonSafe ↔ ∀ x ∈ xs, x.JsonSafe := by
  rw [JsonSafe, jsonError, jsonErrorItems_iff]

/-- A dictionary is JSON-safe iff its keys are strings and its values are JSON-safe. -/
lemma jsonSafe_dict {kvs : List (PyVal × PyVal)} :
    (PyVal.dict kvs).JsonSafe ↔ ∀ kv ∈ kvs, (∃ k, kv.1 = .str k) ∧ kv.2.JsonSafe := by
  rw [JsonSafe, jsonError, jsonErrorEntries_iff]

/-- A JSON object is a JSON-safe dictionary. -/
lemma isJsonObject_iff {v : PyVal} :
    v.IsJsonObject ↔ ∃ kvs, v = .dict kvs ∧ (PyVal.dict kvs).JsonSafe := by
  cases v with
  | dict kvs => simp [IsJsonObject, objectError, JsonSafe]
  | _ => simp [IsJsonObject, objectError]

/-- The canonical items of a list. -/
lemma canonicalItems_eq (xs : List PyVal) : canonicalItems xs = xs.map canonical := by
  induction xs with
  | nil => rfl
  | cons x xs ih => rw [canonicalItems, ih, List.map_cons]

/-- The canonical entries of a dictionary, unsorted. -/
lemma canonicalEntries_eq (kvs : List (PyVal × PyVal)) :
    canonicalEntries kvs = kvs.map fun kv => (kv.1, kv.2.canonical) := by
  induction kvs with
  | nil => rfl
  | cons kv kvs ih => rw [canonicalEntries, ih, List.map_cons]

/-- The order of the keys is total. -/
instance : Std.Total fun a b : PyVal × PyVal => keyBefore a b = true where
  total a b := by
    obtain ⟨k, v⟩ := a
    obtain ⟨l, w⟩ := b
    cases k <;> cases l <;> simp [keyBefore, String.le_total]

/-- The order of the keys is transitive. -/
instance : IsTrans (PyVal × PyVal) fun a b => keyBefore a b = true where
  trans a b c hab hbc := by
    obtain ⟨k, v⟩ := a
    obtain ⟨l, w⟩ := b
    obtain ⟨m, x⟩ := c
    cases k <;> cases l <;> cases m <;> simp_all [keyBefore]
    exact String.le_trans hab hbc

mutual
/-- A canonical value is JSON-safe if the value is. -/
lemma jsonSafe_canonical : ∀ v : PyVal, v.JsonSafe → v.canonical.JsonSafe
  | .none => fun h => by simpa [canonical] using h
  | .str _ => fun h => by simpa [canonical] using h
  | .bool _ => fun h => by simpa [canonical] using h
  | .int _ => fun h => by simpa [canonical] using h
  | .float _ => fun h => by simpa [canonical] using h
  | .object _ => fun h => by simpa [canonical] using h
  | .list xs => fun h => by
    rw [canonical, jsonSafe_list]
    exact jsonSafe_canonicalItems xs (jsonSafe_list.mp h)
  | .dict kvs => fun h => by
    rw [canonical, jsonSafe_dict]
    intro kv hkv
    exact jsonSafe_canonicalEntries kvs (jsonSafe_dict.mp h) kv ((List.mem_insertionSort _).mp hkv)

/-- The list case of `jsonSafe_canonical`. -/
lemma jsonSafe_canonicalItems : ∀ xs : List PyVal, (∀ x ∈ xs, x.JsonSafe) →
    ∀ x ∈ canonicalItems xs, x.JsonSafe
  | [] => fun _ => by simp [canonicalItems]
  | x :: xs => fun h => by
    rw [canonicalItems, List.forall_mem_cons]
    exact ⟨jsonSafe_canonical x (h x List.mem_cons_self),
      jsonSafe_canonicalItems xs fun y hy => h y (List.mem_cons_of_mem x hy)⟩

/-- The dictionary case of `jsonSafe_canonical`. -/
lemma jsonSafe_canonicalEntries : ∀ kvs : List (PyVal × PyVal),
    (∀ kv ∈ kvs, (∃ k, kv.1 = .str k) ∧ kv.2.JsonSafe) →
    ∀ kv ∈ canonicalEntries kvs, (∃ k, kv.1 = .str k) ∧ kv.2.JsonSafe
  | [] => fun _ => by simp [canonicalEntries]
  | (k, v) :: kvs => fun h => by
    rw [canonicalEntries, List.forall_mem_cons]
    have hkv := h (k, v) List.mem_cons_self
    exact ⟨⟨hkv.1, jsonSafe_canonical v hkv.2⟩,
      jsonSafe_canonicalEntries kvs fun y hy => h y (List.mem_cons_of_mem (k, v) hy)⟩
end

/-- The canonical value of a JSON object is one. -/
lemma IsJsonObject.canonical {v : PyVal} (h : v.IsJsonObject) : v.canonical.IsJsonObject := by
  obtain ⟨kvs, rfl, hsafe⟩ := isJsonObject_iff.mp h
  have hcanonical := jsonSafe_canonical _ hsafe
  rw [PyVal.canonical] at hcanonical ⊢
  exact isJsonObject_iff.mpr ⟨_, rfl, hcanonical⟩

mutual
/-- A canonical value is its own canonical value. -/
lemma canonical_canonical : ∀ v : PyVal, v.canonical.canonical = v.canonical
  | .none => by simp [canonical]
  | .str _ => by simp [canonical]
  | .bool _ => by simp [canonical]
  | .int _ => by simp [canonical]
  | .float _ => by simp [canonical]
  | .object _ => by simp [canonical]
  | .list xs => by
    rw [canonical, canonical, canonicalItems_canonicalItems xs]
  | .dict kvs => by
    rw [canonical, canonical]
    congr 1
    have hsort : canonicalEntries ((canonicalEntries kvs).insertionSort
        fun a b => keyBefore a b = true) =
          (canonicalEntries kvs).insertionSort fun a b => keyBefore a b = true := by
      rw [canonicalEntries_eq ((canonicalEntries kvs).insertionSort _)]
      conv_rhs => rw [← List.map_id ((canonicalEntries kvs).insertionSort _)]
      refine List.map_congr_left fun kv hkv => ?_
      exact canonicalEntries_canonical kvs kv ((List.mem_insertionSort _).mp hkv)
    rw [hsort]
    exact (List.pairwise_insertionSort _ _).insertionSort_eq

/-- The list case of `canonical_canonical`. -/
lemma canonicalItems_canonicalItems : ∀ xs : List PyVal,
    canonicalItems (canonicalItems xs) = canonicalItems xs
  | [] => rfl
  | x :: xs => by
    rw [canonicalItems, canonicalItems, canonical_canonical x, canonicalItems_canonicalItems xs]

/-- The dictionary case of `canonical_canonical`. -/
lemma canonicalEntries_canonical : ∀ kvs : List (PyVal × PyVal),
    ∀ kv ∈ canonicalEntries kvs, (kv.1, kv.2.canonical) = id kv
  | [] => by simp [canonicalEntries]
  | (k, v) :: kvs => by
    rw [canonicalEntries, List.forall_mem_cons]
    exact ⟨by rw [canonical_canonical v, id], canonicalEntries_canonical kvs⟩
end

end PyVal

/-! ## Stored transactions -/

/-- A stored value that is a JSON object passes the check of the loader. -/
lemma checkStored_ok {value : PyVal} (h : value.IsJsonObject) (path message action : String) :
    checkStored value path message action = .ok () := by
  have := (PyVal.objectError_eq_none_iff path value).mpr h
  simp [checkStored, this]

/-- The form in which a stored transaction comes back. -/
def Transaction.stored (tx : Transaction) : Transaction :=
  { tx with
    createdAt := tx.createdAt.map Datetime.normal
    startedAt := tx.startedAt.map Datetime.normal
    finishedAt := tx.finishedAt.map Datetime.normal
    metadata := tx.metadata.canonical
    artifacts := tx.artifacts.map fun a => { a with metadata := a.metadata.canonical }
    steps := tx.orderedSteps }

/-- The sequence numbers of a history increase. -/
def Transaction.Numbered (tx : Transaction) : Prop :=
  tx.history.Pairwise fun a b => a.sequence < b.sequence

/-- One transaction is a later state of another, as far as storage is concerned. -/
structure Transaction.Evolves (a b : Transaction) : Prop where
  id : b.id = a.id
  history : a.history <+: b.history
  created : b.createdAt.map Datetime.normal = a.createdAt.map Datetime.normal

/-- A header of a stored transaction. -/
def TransactionRow.storing (tx : Transaction) (createdAtUtc : Option Datetime) (revision : ℤ)
    (queueItemId claimToken : String) : TransactionRow :=
  { TransactionRow.ofTransaction tx tx.times with
    createdAtUtc := createdAtUtc
    revision := revision
    queueItemId := queueItemId
    claimToken := claimToken }

/-- The rows that are read of a stored transaction, with the header `header`. -/
def Transaction.rows (tx : Transaction) (header : TransactionRow) : TransactionRows where
  header := header
  steps := tx.orderedSteps.map fun st =>
    (.ofStep tx.id st, st.exceptions.map (.ofException (st.rowId tx.id)))
  history := tx.history.map (.ofEntry tx.id)
  metadata := (MetadataRow.ofMetadata tx.id tx.metadata).insertionSort fun a b => a.key ≤ b.key
  artifacts := ArtifactRow.ofArtifacts tx.id tx.artifacts

/-- The transaction that is loaded from a header, a history and the image of `tx`. -/
def Transaction.reloaded (tx : Transaction) (header : TransactionRow)
    (history : List HistoryRow) : Transaction where
  reference := header.reference
  id := header.id
  status := header.status
  retryCount := header.retryCount
  createdAt := header.createdAt
  startedAt := header.startedAt
  finishedAt := header.finishedAt
  state := header.state
  metadata := tx.stored.metadata
  artifacts := tx.stored.artifacts
  steps := tx.stored.steps
  history := history.map HistoryRow.toHistoryEntry
  outcomeCategory := header.outcomeCategory
  retryDisposition := header.retryDisposition
  failureCode := header.failureCode
  definitionIdentity := header.definitionIdentity

namespace TransactionDb

variable {db db' : TransactionDb} {tx tx₀ : Transaction} {expectedRevision : Option ℤ}
  {queueItemId claimToken id : String} {revision : ℤ}

/-- The rows of the transaction are the image of `tx`. -/
structure Stores (db : TransactionDb) (tx : Transaction) : Prop where
  header : ∃ createdAtUtc revision queueItemId claimToken, (db.part tx.id).transactions =
    [.storing tx createdAtUtc revision queueItemId claimToken]
  steps : (db.part tx.id).steps = tx.steps.map (StepRow.ofStep tx.id)
  exceptions : (db.part tx.id).exceptions = ExceptionRow.ofSteps tx.id tx.steps
  history : (db.part tx.id).history = tx.history.map (HistoryRow.ofEntry tx.id)
  metadata : (db.part tx.id).metadata = MetadataRow.ofMetadata tx.id tx.metadata
  artifacts : (db.part tx.id).artifacts = ArtifactRow.ofArtifacts tx.id tx.artifacts

/-- The header of a stored transaction has its creation time. -/
lemma Stores.header_createdAt (h : db.Stores tx) :
    ∃ row, db.header tx.id = some row ∧ row.createdAt = tx.createdAt.map Datetime.normal := by
  obtain ⟨createdAtUtc, revision, queueItemId, claimToken, hrows⟩ := h.header
  refine ⟨.storing tx createdAtUtc revision queueItemId claimToken, ?_, rfl⟩
  rw [← header_part, TransactionDb.header, hrows]
  exact List.find?_cons_of_pos (by simp [TransactionRow.storing, TransactionRow.ofTransaction])

/-- The history rows of a numbered history have distinct keys. -/
lemma keyed_history (h : tx.Numbered) : Table.Keyed
    (fun row : HistoryRow => (row.transactionId, row.sequence))
    (tx.history.map (HistoryRow.ofEntry tx.id)) := by
  unfold Table.Keyed
  rw [List.map_map, List.nodup_iff_pairwise_ne, List.pairwise_map]
  refine h.imp fun hlt heq => ?_
  have := congrArg Prod.snd heq
  simp only [Function.comp_apply, HistoryRow.ofEntry] at this
  omega

/-- A transaction without a header has no history rows. -/
lemma Consistent.history_nil (hdb : db.Consistent) (h : db.header id = none) :
    (db.part id).history = [] := by
  refine List.filter_eq_nil_iff.mpr fun row hrow hid => ?_
  obtain ⟨header, hheader, heq⟩ := List.mem_map.mp (hdb.owned row hrow)
  have := List.find?_eq_none.mp h header hheader
  simp only [decide_eq_true_eq] at this hid
  exact this (heq.trans hid)

/-- A write over nothing, or over an earlier state, leaves the rows of the new state.

**Proof sketch.** All rows but the header and the history are new. The `UPDATE` keeps the identity
and the creation time of the row before, which are those of the new state; the stored history rows
are a prefix of the new ones, so exactly the others are inserted. -/
theorem Written.stores (hdb : db.Consistent)
    (h : Written tx expectedRevision queueItemId claimToken db revision db')
    (hbefore : db.header tx.id = none ∨ ∃ tx₀, db.Stores tx₀ ∧ tx₀.Evolves tx)
    (hnumbered : tx.Numbered) : db'.Stores tx where
  header := by
    rw [h.transactions]
    have hid := previous_id tx db
    have hidentity : (db.previous tx).definitionIdentity = tx.definitionIdentity := by
      unfold previous
      cases hheader : db.header tx.id with
      | none => rfl
      | some row => exact h.identity row hheader
    have hcreated : (if (db.previous tx).createdAt = none then tx.times.createdAt
        else (db.previous tx).createdAt) = tx.times.createdAt := by
      split
      · rfl
      · rcases hbefore with hnone | ⟨tx₀, hstores, hevolves⟩
        · simp [previous, hnone, TransactionRow.ofTransaction]
        · obtain ⟨row, hrow, hcreated⟩ := hstores.header_createdAt
          rw [← hevolves.id] at hrow
          simp only [previous, hrow, Option.getD_some, hcreated, Transaction.times,
            hevolves.created]
    refine ⟨((db.previous tx).overwrite tx tx.times expectedRevision.isSome queueItemId
      claimToken).createdAtUtc, (db.previous tx).revision + 1, ((db.previous tx).overwrite tx
        tx.times expectedRevision.isSome queueItemId claimToken).queueItemId,
      ((db.previous tx).overwrite tx tx.times expectedRevision.isSome queueItemId
        claimToken).claimToken, ?_⟩
    rw [List.cons.injEq]
    refine ⟨?_, rfl⟩
    simp only [TransactionRow.overwrite, TransactionRow.storing, TransactionRow.ofTransaction, hid,
      hidentity, hcreated]
  steps := h.steps
  exceptions := h.exceptions
  history := by
    rw [h.history]
    rcases hbefore with hnone | ⟨tx₀, hstores, hevolves⟩
    · rw [hdb.history_nil hnone, Table.foldl_insertOrIgnore (keyed_history hnumbered)]
      simp
    · obtain ⟨added, hadded⟩ := hevolves.history
      have hrows : (db.part tx.id).history = tx₀.history.map (HistoryRow.ofEntry tx.id) := by
        rw [hevolves.id]
        exact hstores.history
      rw [hrows, ← hadded, List.map_append]
      refine Table.foldl_insertOrIgnore_prefix ?_
      rw [← List.map_append, hadded]
      exact keyed_history hnumbered
  metadata := h.metadata
  artifacts := h.artifacts

/-- A write of another transaction leaves a stored one alone. -/
lemma Written.stores_of_ne (h : Written tx expectedRevision queueItemId claimToken db revision db')
    (hne : tx₀.id ≠ tx.id) (hstores : db.Stores tx₀) : db'.Stores tx₀ := by
  have hpart := h.others tx₀.id hne
  constructor
  all_goals rw [hpart]
  · exact hstores.header
  · exact hstores.steps
  · exact hstores.exceptions
  · exact hstores.history
  · exact hstores.metadata
  · exact hstores.artifacts

/-! ## Loading -/

/-- The exception a row was made of. -/
@[simp] lemma exception_ofException (stepId : String) (exc : StepException) :
    (ExceptionRow.ofException stepId exc).exception = exc := by
  cases exc with
  | business e => rfl
  | system e => rfl

/-- The exceptions of one of the steps, found by its row id. -/
lemma filter_ofSteps {steps : List Step} (hids : (steps.map (Step.rowId id)).Nodup) {st : Step}
    (hst : st ∈ steps) :
    (ExceptionRow.ofSteps id steps).filter (fun exc => exc.stepId = st.rowId id) =
      st.exceptions.map (.ofException (st.rowId id)) := by
  induction steps with
  | nil => cases hst
  | cons a steps ih =>
    obtain ⟨hnotin, hrest⟩ := List.nodup_cons.mp hids
    rw [ExceptionRow.ofSteps, List.flatMap_cons, List.filter_append]
    have hown : ∀ b : Step, (b.exceptions.map (ExceptionRow.ofException (b.rowId id))).filter
        (fun exc => exc.stepId = st.rowId id) = if b.rowId id = st.rowId id then
          b.exceptions.map (.ofException (b.rowId id)) else [] := by
      intro b
      split
      · next heq =>
        refine List.filter_eq_self.mpr fun exc hexc => ?_
        obtain ⟨e, -, rfl⟩ := List.mem_map.mp hexc
        exact decide_eq_true heq
      · next hne =>
        refine List.filter_eq_nil_iff.mpr fun exc hexc => ?_
        obtain ⟨e, -, rfl⟩ := List.mem_map.mp hexc
        exact fun heq => hne (of_decide_eq_true heq)
    rcases List.mem_cons.mp hst with rfl | hst
    · have hothers : (steps.flatMap fun b => b.exceptions.map (ExceptionRow.ofException
          (b.rowId id))).filter (fun exc => exc.stepId = st.rowId id) = [] := by
        refine List.filter_eq_nil_iff.mpr fun exc hexc heq => ?_
        have howner : exc.stepId ∈ steps.map (Step.rowId id) :=
          exceptionRows_owner exc hexc
        rw [of_decide_eq_true heq] at howner
        exact hnotin howner
      rw [hown, if_pos rfl, hothers, List.append_nil]
    · have hne : a.rowId id ≠ st.rowId id := fun heq => hnotin (heq ▸ List.mem_map_of_mem hst)
      rw [hown, if_neg hne, List.nil_append]
      exact ih hrest hst

/-- The artifact rows are in the order of their sequence numbers. -/
lemma pairwise_ofArtifacts (id : String) (artifacts : List Artifact) :
    (ArtifactRow.ofArtifacts id artifacts).Pairwise fun a b => a.sequence ≤ b.sequence := by
  unfold ArtifactRow.ofArtifacts
  rw [List.pairwise_map, List.pairwise_iff_getElem]
  intro i j hi hj hij
  simp only [List.getElem_zipIdx]
  omega

/-- The rows of a transaction, apart from its header and its history, are the image of `tx`. -/
structure Holds (db : TransactionDb) (tx : Transaction) : Prop where
  steps : (db.part tx.id).steps = tx.steps.map (StepRow.ofStep tx.id)
  exceptions : (db.part tx.id).exceptions = ExceptionRow.ofSteps tx.id tx.steps
  metadata : (db.part tx.id).metadata = MetadataRow.ofMetadata tx.id tx.metadata
  artifacts : (db.part tx.id).artifacts = ArtifactRow.ofArtifacts tx.id tx.artifacts

/-- A write leaves the image of its transaction. -/
lemma Written.holds (h : Written tx expectedRevision queueItemId claimToken db revision db') :
    db'.Holds tx :=
  ⟨h.steps, h.exceptions, h.metadata, h.artifacts⟩

/-- A stored transaction is held. -/
lemma Stores.holds (h : db.Stores tx) : db.Holds tx :=
  ⟨h.steps, h.exceptions, h.metadata, h.artifacts⟩

/-- The rows of another transaction stay in a write. -/
lemma Written.holds_of_ne (h : Written tx expectedRevision queueItemId claimToken db revision db')
    (hne : tx₀.id ≠ tx.id) (hholds : db.Holds tx₀) : db'.Holds tx₀ := by
  have hpart := h.others tx₀.id hne
  constructor
  all_goals rw [hpart]
  · exact hholds.steps
  · exact hholds.exceptions
  · exact hholds.metadata
  · exact hholds.artifacts

/-- The row ids of the steps of a transaction that is held are distinct. -/
lemma Holds.nodup_rowIds (hdb : db.Consistent) (h : db.Holds tx) :
    (tx.steps.map (Step.rowId tx.id)).Nodup := by
  have hkeyed : Table.Keyed StepRow.id (db.part tx.id).steps := hdb.steps.filter _
  unfold Table.Keyed at hkeyed
  rw [h.steps, List.map_map] at hkeyed
  exact hkeyed

/-- The history rows of a transaction in reading order. -/
def historyOf (id : String) (db : TransactionDb) : List HistoryRow :=
  (db.history.filter fun row => row.transactionId = id).insertionSort
    fun a b => a.sequence ≤ b.sequence

/-- The history of a stored transaction is in reading order. -/
lemma Stores.historyOf (h : db.Stores tx) (hnumbered : tx.Numbered) :
    db.historyOf tx.id = tx.history.map (HistoryRow.ofEntry tx.id) := by
  change (db.part tx.id).history.insertionSort _ = _
  rw [h.history]
  refine List.Pairwise.insertionSort_eq (List.pairwise_map.mpr (hnumbered.imp fun hlt => ?_))
  exact Nat.le_of_lt hlt

/-- **The rows that are read** of a transaction that is held are its header, its history and the
image of it, in reading order. -/
theorem Holds.readRows (hdb : db.Consistent) (h : db.Holds tx) {header : TransactionRow}
    (hheader : db.header tx.id = some header) : db.readRows tx.id =
      .ok { tx.rows header with history := db.historyOf tx.id } := by
  have hsteps : ((tx.steps.map (StepRow.ofStep tx.id)).filter fun row =>
      row.transactionId = tx.id).insertionSort (fun a b => a.executionOrder ≤ b.executionOrder) =
        tx.orderedSteps.map (StepRow.ofStep tx.id) := by
    have hall : (tx.steps.map (StepRow.ofStep tx.id)).filter (fun row =>
        row.transactionId = tx.id) = tx.steps.map (StepRow.ofStep tx.id) :=
      List.filter_eq_self.mpr fun row hrow => by simpa using stepRows_owner row hrow
    rw [hall]
    exact (List.map_insertionSort (fun a b : Step => a.executionOrder ≤ b.executionOrder)
      (fun a b : StepRow => a.executionOrder ≤ b.executionOrder) _ _ fun _ _ _ _ => Iff.rfl).symm
  have hhistory : ((db.part tx.id).history.filter fun row =>
      row.transactionId = tx.id).insertionSort (fun a b => a.sequence ≤ b.sequence) =
        db.historyOf tx.id := by
    rw [part, List.filter_filter]
    simp only [Bool.and_self]
    rfl
  have hmetadata : (MetadataRow.ofMetadata tx.id tx.metadata).filter (fun row =>
      row.transactionId = tx.id) = MetadataRow.ofMetadata tx.id tx.metadata :=
    List.filter_eq_self.mpr fun row hrow => by simpa using metadataRows_owner row hrow
  have hartifacts : ((ArtifactRow.ofArtifacts tx.id tx.artifacts).filter fun row =>
      row.transactionId = tx.id).insertionSort (fun a b => a.sequence ≤ b.sequence) =
        ArtifactRow.ofArtifacts tx.id tx.artifacts := by
    have hall : (ArtifactRow.ofArtifacts tx.id tx.artifacts).filter (fun row =>
        row.transactionId = tx.id) = ArtifactRow.ofArtifacts tx.id tx.artifacts :=
      List.filter_eq_self.mpr fun row hrow => by simpa using artifactRows_owner row hrow
    rw [hall]
    exact (pairwise_ofArtifacts tx.id tx.artifacts).insertionSort_eq
  rw [← readRows_part, TransactionDb.readRows, header_part, hheader, h.steps, h.exceptions,
    hhistory, h.metadata, h.artifacts, hsteps, hmetadata, hartifacts, List.map_map]
  refine congrArg (fun steps => Except.ok (TransactionRows.mk _ steps _ _ _)) ?_
  refine List.map_congr_left fun st hst => ?_
  have hmem : st ∈ tx.steps := (List.mem_insertionSort _).mp hst
  simp only [Function.comp_apply]
  rw [show (StepRow.ofStep tx.id st).id = st.rowId tx.id from rfl,
    filter_ofSteps (h.nodup_rowIds hdb) hmem]

/-- The metadata rows of a transaction in the order of their keys, read as a dictionary. -/
lemma map_metadataRows {id : String} {metadata : PyVal} (h : metadata.IsJsonObject) :
    PyVal.dict (((MetadataRow.ofMetadata id metadata).insertionSort fun a b => a.key ≤ b.key).map
      fun row => (PyVal.str row.key, row.value)) = metadata.canonical := by
  obtain ⟨kvs, rfl, hsafe⟩ := PyVal.isJsonObject_iff.mp h
  have hentries : (MetadataRow.ofMetadata id (.dict kvs)).map (fun row =>
      (PyVal.str row.key, row.value)) = PyVal.canonicalEntries kvs := by
    rw [MetadataRow.ofMetadata, List.map_map, PyVal.storedEntries, PyVal.canonicalEntries_eq,
      List.map_filterMap]
    have hkeys := PyVal.jsonSafe_dict.mp hsafe
    clear hsafe h
    induction kvs with
    | nil => rfl
    | cons kv kvs ih =>
      obtain ⟨k, v⟩ := kv
      obtain ⟨⟨key, hkey⟩, -⟩ := hkeys (k, v) List.mem_cons_self
      simp only at hkey
      subst hkey
      rw [List.map_cons, ← ih fun kv hkv => hkeys kv (List.mem_cons_of_mem _ hkv)]
      rfl
  rw [PyVal.canonical, ← hentries]
  congr 1
  exact List.map_insertionSort (fun a b : MetadataRow => a.key ≤ b.key)
    (fun a b => PyVal.keyBefore a b = true) _ _ fun _ _ _ _ => by simp [PyVal.keyBefore]

/-- The metadata rows of a valid transaction pass the check of the loader. -/
lemma metadataRows_safe {id : String} {metadata : PyVal} (h : metadata.IsJsonObject) :
    ∀ row ∈ MetadataRow.ofMetadata id metadata,
      (PyVal.dict [(.str row.key, row.value)]).IsJsonObject := by
  obtain ⟨kvs, rfl, hsafe⟩ := PyVal.isJsonObject_iff.mp h
  intro row hrow
  obtain ⟨⟨key, value⟩, hentry, rfl⟩ := List.mem_map.mp hrow
  obtain ⟨⟨k, v⟩, hkv, hsome⟩ := List.mem_filterMap.mp hentry
  have hv := (PyVal.jsonSafe_dict.mp hsafe (k, v) hkv).2
  cases k with
  | str k =>
    cases hsome
    refine PyVal.isJsonObject_iff.mpr ⟨_, rfl, PyVal.jsonSafe_dict.mpr ?_⟩
    simpa using PyVal.jsonSafe_canonical v hv
  | _ => cases hsome

/-- **Loading a transaction that is held** returns its stored form under its header and history.

**Proof sketch.** The rows that are read are the image of the transaction; its JSON-backed values
are valid, so each of them passes the check of the loader, and decoding undoes the encoding row by
row. -/
theorem Holds.load (hdb : db.Consistent) (h : db.Holds tx) (hvalid : tx.Valid)
    {header : TransactionRow} (hheader : db.header tx.id = some header)
    (hstate : header.state = tx.state) :
    db.load tx.id = .ok (tx.reloaded header (db.historyOf tx.id), header.revision) := by
  have hid : header.id = tx.id := by simpa using List.find?_some hheader
  have hsteps : (tx.rows header).steps.mapM (TransactionRows.decodeStep header.id) =
      .ok tx.orderedSteps := by
    have hdecode : ∀ st ∈ tx.orderedSteps, TransactionRows.decodeStep header.id (.ofStep tx.id st,
        st.exceptions.map (.ofException (st.rowId tx.id))) = .ok st := by
      intro st hst
      have hsafe := hvalid.arguments ((List.mem_insertionSort _).mp hst)
      have hexceptions : (st.exceptions.map (ExceptionRow.ofException (st.rowId tx.id))).map
          ExceptionRow.exception = st.exceptions := by
        rw [List.map_map]
        exact (List.map_congr_left fun exc _ => exception_ofException _ exc).trans (List.map_id _)
      simp only [TransactionRows.decodeStep, StepRow.ofStep, checkStored_ok hsafe, hexceptions]
      rfl
    rw [Transaction.rows, List.mapM_map]
    exact (mapM_eq_ok hdecode).trans (congrArg Except.ok (List.map_id _))
  have hmetadata := mapM_eq_ok (f := TransactionRows.decodeMetadata header.id)
    (g := fun row => (PyVal.str row.key, row.value))
    (l := (MetadataRow.ofMetadata tx.id tx.metadata).insertionSort fun a b => a.key ≤ b.key)
    fun row hrow => by
      have hsafe := metadataRows_safe hvalid.metadata row ((List.mem_insertionSort _).mp hrow)
      simp [TransactionRows.decodeMetadata, checkStored_ok hsafe]
  have hartifacts := mapM_eq_ok (f := TransactionRows.decodeArtifact header.id)
    (g := ArtifactRow.toArtifact) (l := ArtifactRow.ofArtifacts tx.id tx.artifacts)
    fun row hrow => by
      obtain ⟨⟨a, i⟩, hentry, rfl⟩ := List.mem_map.mp hrow
      have ha : a ∈ tx.artifacts :=
        List.mem_of_getElem? (List.mk_mem_zipIdx_iff_getElem?.mp hentry)
      have hsafe := (hvalid.artifacts ha).canonical
      simp [TransactionRows.decodeArtifact, checkStored_ok hsafe]
  have hartifactValues : (ArtifactRow.ofArtifacts tx.id tx.artifacts).map ArtifactRow.toArtifact =
      tx.stored.artifacts := by
    rw [ArtifactRow.ofArtifacts, List.map_map]
    conv_rhs => rw [Transaction.stored, ← List.zipIdx_map_fst 0 tx.artifacts]
    rw [List.map_map]
    rfl
  rw [TransactionDb.load, h.readRows hdb hheader]
  simp only [bind, Except.bind, TransactionRows.decode]
  rw [show ({ tx.rows header with history := db.historyOf tx.id } : TransactionRows).header =
    header from rfl, hstate, checkStored_ok hvalid.state]
  simp only [hsteps]
  simp only [Transaction.rows, hmetadata, hartifacts, hartifactValues,
    map_metadataRows hvalid.metadata]
  rw [Transaction.reloaded, ← hstate]
  rfl

/-- **Loading a stored transaction** returns its stored form. -/
theorem Stores.load (hdb : db.Consistent) (h : db.Stores tx) (hnumbered : tx.Numbered)
    (hvalid : tx.Valid) : ∃ revision, db.load tx.id = .ok (tx.stored, revision) := by
  obtain ⟨createdAtUtc, revision, queueItemId, claimToken, hrows⟩ := h.header
  have hheader : db.header tx.id =
      some (.storing tx createdAtUtc revision queueItemId claimToken) := by
    rw [← header_part, TransactionDb.header, hrows]
    exact List.find?_cons_of_pos (by simp [TransactionRow.storing, TransactionRow.ofTransaction])
  refine ⟨revision, (h.holds.load hdb hvalid hheader rfl).trans ?_⟩
  have hhistory : (tx.history.map (HistoryRow.ofEntry tx.id)).map HistoryRow.toHistoryEntry =
      tx.history := by
    rw [List.map_map]
    exact List.map_id _
  rw [h.historyOf hnumbered, Transaction.reloaded, hhistory]
  rfl

end TransactionDb
