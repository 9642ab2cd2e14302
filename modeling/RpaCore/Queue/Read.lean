import Mathlib.Algebra.Group.Int.Defs
import Mathlib.Algebra.Group.Nat.Defs
import RpaCore.Queue.Effects
import RpaCore.Queue.Methods
import RpaCore.Relational.Keyset

set_option relaxedAutoImplicit false
set_option autoImplicit false

/-!
# Inspecting the queue

The query functions of `_queue_read.py`. Each call reads one state of the database; opening it
read-only and checking its schema are left out. A cursor is the payload its text encodes, with the
filters themselves for their fingerprint. `json` is the standard library's and is a parameter.

## Main definitions

* `QueueFilters`, `QueueCursor`, `QueuePage` — the data of a query.
* `QueueDb.queryQueueItems` — `query_queue_items`.
* `QueueDb.queryQueueAttempts`, `QueueDb.queryQueuePoisonEvents` — the functions for events.
-/

/-- `str(status)`. -/
def QueueStatus.text : QueueStatus → String
  | .pending => "pending"
  | .inProgress => "in_progress"
  | .successful => "successful"
  | .failed => "failed"

/-- What `_filter_fingerprint` is computed from: the kind of the query, with its filter. -/
inductive QueueFilters
  | items (statuses : Option (List String))
  | attempts (itemId : Option String)
  | poisonEvents (itemId : Option String)
  deriving DecidableEq

/-- The position in a queue cursor. -/
inductive QueuePosition
  | item (createdAt id : String)
  | sequence (n : ℤ)
  deriving DecidableEq

/-- The payload of a queue cursor. -/
structure QueueCursor where
  filters : QueueFilters
  position : QueuePosition
  version : ℤ
  deriving DecidableEq

/-- `QueuePage`. -/
structure QueuePage (α : Type) where
  records : List α
  hasMore : Bool
  nextCursor : Option QueueCursor

/-- `QUEUE_CURSOR_VERSION`. -/
def queueCursorVersion : ℤ := 1

/-- `QUERY_MAX_LIMIT`. -/
def queryQueueMaxLimit : ℤ := 1000

/-- `_validated_limit`. -/
def validatedLimit (limit : ℤ) : Except PyError Unit :=
  if limit < 1 ∨ queryQueueMaxLimit < limit then
    .error (.valueError "limit must be an integer from 1 through 1000")
  else .ok ()

/-- `_validated_optional_item_id`. -/
def validatedOptionalItemId : Option String → Except PyError Unit
  | none => .ok ()
  | some itemId =>
    if isBlank itemId then
      .error (.valueError ("queue item id selector expected nonblank queue item id; " ++
        "got str value=" ++ pyRepr itemId))
    else .ok ()

/-- `_decoded_cursor`. -/
def decodedCursor (cursor : QueueCursor) (filters : QueueFilters) :
    Except PyError QueuePosition :=
  if cursor.version ≠ queueCursorVersion then
    .error (.valueError "cursor has an unsupported queue query version")
  else if cursor.filters ≠ filters then
    .error (.valueError "cursor does not match the queue query kind or filters")
  else .ok cursor.position

/-- `_position_text` for both columns of an item position. -/
def positionTexts : QueuePosition → Except PyError (String × String)
  | .item createdAt id => .ok (createdAt, id)
  | .sequence _ => .error (.valueError "cursor is not a valid queue query cursor")

/-- `_position_sequence`. -/
def positionSequence : QueuePosition → Except PyError ℤ
  | .item _ _ => .error (.valueError "cursor is not a valid queue query cursor")
  | .sequence n =>
    if 0 ≤ n ∧ n ≤ 2 ^ 63 - 1 then .ok n
    else .error (.valueError "cursor is not a valid queue query cursor")

/-- `status_filter_clause`: no list selects every status, and the empty list none. -/
def statusSelected (statuses : Option (List QueueStatus)) (row : QueueRow) : Bool :=
  statuses.all fun statuses => row.status.text ∈ statuses.map QueueStatus.text

/-- `row_to_item`. -/
def rowToItem (jsonLoads : String → Except PyError PyVal) (row : QueueRow) :
    Except PyError QueueItem := do
  let payload ← loadPayload jsonLoads row.payload
  let _ ← parseAvailableAt row.availableAt
  pure (row.toItem payload)

namespace QueueDb

/-- `query_queue_items`. -/
def queryQueueItems (jsonLoads : String → Except PyError PyVal)
    (statuses : Option (List QueueStatus)) (cursor : Option QueueCursor) (limit : ℤ)
    (db : QueueDb) : Except PyError (QueuePage QueueItem) := do
  validatedLimit limit
  let filters := QueueFilters.items (statuses.map fun statuses =>
    (statuses.map QueueStatus.text).dedup.insertionSort fun a b => a ≤ b)
  let position ← cursor.mapM fun cursor => decodedCursor cursor filters >>= positionTexts
  let rows := ((db.items.filter fun row => statusSelected statuses row &&
    position.all fun (createdAt, id) => createdAt < row.createdAt.isoformat ||
      (row.createdAt.isoformat = createdAt && id < row.id)).insertionSort
        fun a b => before a b = true).take (limit.toNat + 1)
  let hasMore := decide (limit.toNat < rows.length)
  let pageRows := rows.take limit.toNat
  let records ← pageRows.mapM (rowToItem jsonLoads)
  pure {
    records := records
    hasMore := hasMore
    nextCursor := if hasMore then pageRows.getLast?.map fun lastRow =>
      ⟨filters, .item lastRow.createdAt.isoformat lastRow.id, queueCursorVersion⟩ else none }

/-- `_query_events`, for the rows of a table whose records are the rows. -/
def queryEvents {ρ : Type} (filters : Option String → QueueFilters) (sequence : ρ → ℕ)
    (owner : ρ → String) (itemId : Option String) (cursor : Option QueueCursor) (limit : ℤ)
    (events : List ρ) : Except PyError (QueuePage ρ) := do
  validatedLimit limit
  validatedOptionalItemId itemId
  let position ← cursor.mapM fun cursor =>
    decodedCursor cursor (filters itemId) >>= positionSequence
  let rows := ((events.filter fun row => itemId.all (fun itemId => owner row = itemId) &&
    position.all fun n => n < (sequence row : ℤ)).insertionSort
      fun a b => sequence a ≤ sequence b).take (limit.toNat + 1)
  let hasMore := decide (limit.toNat < rows.length)
  let pageRows := rows.take limit.toNat
  pure {
    records := pageRows
    hasMore := hasMore
    nextCursor := if hasMore then pageRows.getLast?.map fun lastRow =>
      ⟨filters itemId, .sequence (sequence lastRow), queueCursorVersion⟩ else none }

/-- `query_queue_attempts`. -/
def queryQueueAttempts (itemId : Option String) (cursor : Option QueueCursor) (limit : ℤ)
    (db : QueueDb) : Except PyError (QueuePage QueueAttemptRow) :=
  queryEvents .attempts QueueAttemptRow.sequence QueueAttemptRow.itemId itemId cursor limit
    db.attempts

/-- `query_queue_poison_events`. -/
def queryQueuePoisonEvents (itemId : Option String) (cursor : Option QueueCursor) (limit : ℤ)
    (db : QueueDb) : Except PyError (QueuePage QueuePoisonRow) :=
  queryEvents .poisonEvents QueuePoisonRow.sequence QueuePoisonRow.itemId itemId cursor limit
    db.poison

end QueueDb

/-! ## Records that stay -/

/-- The key of an item in the order of `query_queue_items`. -/
def QueueRow.orderKey (row : QueueRow) : String × String := (row.createdAt.isoformat, row.id)

namespace QueueDb

/-- The keys of the tables that are read page by page. -/
structure Numbered (db : QueueDb) : Prop where
  items : Table.Keyed QueueRow.id db.items
  attempts : Table.Keyed QueueAttemptRow.sequence db.attempts
  poison : Table.Keyed QueuePoisonRow.sequence db.poison

/-- Every record of an earlier state is there, under its key and with its item, and the keys are
still distinct. -/
structure Grows (db db' : QueueDb) : Prop where
  items : db.items.map QueueRow.orderKey <+: db'.items.map QueueRow.orderKey
  attempts : db.attempts.map (fun a => (a.sequence, a.itemId)) <+:
    db'.attempts.map fun a => (a.sequence, a.itemId)
  poison : db.poison.map (fun a => (a.sequence, a.itemId)) <+:
    db'.poison.map fun a => (a.sequence, a.itemId)
  numbered : db.Numbered → db'.Numbered

/-- A state keeps its records. -/
lemma Grows.refl (db : QueueDb) : db.Grows db :=
  ⟨List.prefix_rfl, List.prefix_rfl, List.prefix_rfl, id⟩

/-- What grows twice has grown. -/
lemma Grows.trans {db d db' : QueueDb} (h : db.Grows d) (h' : d.Grows db') : db.Grows db' :=
  ⟨h.items.trans h'.items, h.attempts.trans h'.attempts, h.poison.trans h'.poison,
    fun hdb => h'.numbered (h.numbered hdb)⟩

/-- The administrative events are not among these records. -/
lemma Grows.admin {db db' : QueueDb} (h : db.Grows db') (admin : List QueueAdminRow) :
    db.Grows { db' with admin := admin } :=
  ⟨h.items, h.attempts, h.poison, fun hdb =>
    ⟨(h.numbered hdb).items, (h.numbered hdb).attempts, (h.numbered hdb).poison⟩⟩

/-- A new sequence number is a new one. -/
lemma nextSequence_not_mem (used : List ℕ) : nextSequence used ∉ used := by
  have hle : ∀ n ∈ used, n ≤ used.foldr max 0 := by
    induction used with
    | nil => simp
    | cons m used ih =>
      intro n hn
      rw [List.foldr_cons]
      rcases List.mem_cons.mp hn with rfl | hn
      · exact Nat.le_max_left _ _
      · exact Nat.le_trans (ih n hn) (Nat.le_max_right _ _)
  intro hmem
  have := hle _ hmem
  unfold nextSequence at this
  omega

variable {db db' : QueueDb}

/-- An update of items that keeps ids and creation times. -/
lemma grows_update {p : QueueRow → Bool} {f : QueueRow → QueueRow}
    (hf : ∀ row, (f row).id = row.id ∧ (f row).createdAt = row.createdAt) :
    db.Grows { db with items := Table.update p f db.items } := by
  refine ⟨?_, List.prefix_rfl, List.prefix_rfl, fun h => ⟨?_, h.attempts, h.poison⟩⟩
  · have hkey : ∀ row, (f row).orderKey = row.orderKey := fun row => by
      simp only [QueueRow.orderKey, hf row]
    exact (Table.map_update fun row _ _ => hkey row) ▸ List.prefix_rfl
  · exact h.items.update fun row _ _ => (hf row).1

/-- Closing an attempt keeps its number and its item. -/
lemma grows_closeAttempt (itemId claimToken : String) (outcome : QueueAttemptOutcome)
    (finishedAt : Datetime) : db.Grows (db.closeAttempt itemId claimToken outcome finishedAt) := by
  refine ⟨List.prefix_rfl, ?_, List.prefix_rfl, fun h => ⟨h.items, ?_, h.poison⟩⟩
  · have hkeys := Table.map_update (g := fun a : QueueAttemptRow => (a.sequence, a.itemId))
      (p := fun a => a.itemId = itemId && a.claimToken = claimToken && a.outcome.isNone)
      (f := fun a => { a with outcome := some outcome, finishedAt := some finishedAt })
      (t := db.attempts) fun _ _ _ => rfl
    exact hkeys ▸ List.prefix_rfl
  · exact h.attempts.update fun _ _ _ => rfl

/-- Opening an attempt adds one. -/
lemma grows_openAttempt {itemId claimToken claimedBy : String} {startedAt : Datetime}
    (h : db.openAttempt itemId claimToken claimedBy startedAt = .ok db') : db.Grows db' := by
  unfold openAttempt at h
  split at h
  · cases h
  · cases h
    refine ⟨List.prefix_rfl, ?_, List.prefix_rfl, fun h => ⟨h.items, ?_, h.poison⟩⟩
    · rw [List.map_append]
      exact List.prefix_append _ _
    · exact h.attempts.append (nextSequence_not_mem _)

/-- Recording a poison event adds one. -/
lemma grows_recordPoisonEvent (itemId errorType : String) (createdAt : Datetime) :
    db.Grows (db.recordPoisonEvent itemId errorType createdAt) := by
  refine ⟨List.prefix_rfl, List.prefix_rfl, ?_, fun h => ⟨h.items, h.attempts, ?_⟩⟩
  · rw [recordPoisonEvent, List.map_append]
    exact List.prefix_append _ _
  · exact h.poison.append (nextSequence_not_mem _)

/-- An update under a claim keeps the records. -/
lemma grows_updateHeld {itemId claimedBy claimToken : String} {f : QueueRow → QueueRow}
    (h : db.updateHeld itemId claimedBy claimToken f = .ok db')
    (hf : ∀ row, (f row).id = row.id ∧ (f row).createdAt = row.createdAt) : db.Grows db' := by
  obtain ⟨_, _, _, rfl⟩ := updateHeld_ok h
  exact grows_update hf

/-- An added item has a new id. -/
lemma grows_add {q : SqliteQueue} {item : QueueItem} (h : db.add q item = .ok db') :
    db.Grows db' := by
  unfold add at h
  split at h
  · cases h
  · obtain ⟨availableAt, -, h⟩ := Except.bind_eq_ok.mp h
    split at h
    · cases h
    · next hnew =>
      cases h
      refine ⟨?_, List.prefix_rfl, List.prefix_rfl, fun h => ⟨?_, h.attempts, h.poison⟩⟩
      · rw [List.map_append]
        exact List.prefix_append _ _
      · exact h.items.append hnew

/-- An expired lease keeps the records. -/
lemma grows_reclaimOne {q : SqliteQueue} {now : Datetime} {stale : QueueRow}
    (h : reclaimOne q now db stale = .ok db') : db.Grows db' := by
  unfold reclaimOne at h
  generalize (if stale.retryCount + 1 ≤ (q.maxRetries : ℤ) then QueueStatus.pending
    else .failed) = newStatus at h
  obtain ⟨due, -, h⟩ := Except.bind_eq_ok.mp h
  dsimp only at h
  split at h
  · cases h
    refine Grows.trans ?_ (grows_closeAttempt _ _ _ _)
    exact grows_update fun _ => ⟨rfl, rfl⟩
  · cases h
    exact grows_update fun _ => ⟨rfl, rfl⟩

/-- A quarantine keeps the records. -/
lemma grows_quarantine (selected : QueueRow) (now : Datetime) (errorType : String)
    (createdAt : Datetime) : db.Grows (db.quarantine selected now errorType createdAt) := by
  unfold quarantine
  simp only
  split
  · refine Grows.trans ?_ (grows_recordPoisonEvent _ _ _)
    exact grows_update fun _ => ⟨rfl, rfl⟩
  · exact grows_update fun _ => ⟨rfl, rfl⟩

/-- A claim keeps the records. -/
lemma grows_claim {selected : QueueRow} {workerId : String} {now : Datetime} {token : ClaimToken}
    {claimed : Option QueueRow} (h : db.claim selected workerId now token = .ok (claimed, db')) :
    db.Grows db' := by
  unfold claim at h
  split at h
  · cases h
    exact .refl db
  · obtain ⟨opened, hopened, h⟩ := Except.bind_eq_ok.mp h
    cases h
    refine Grows.trans ?_ (grows_openAttempt hopened)
    exact grows_update fun _ => ⟨rfl, rfl⟩

/-- An override keeps the records. -/
lemma grows_forceTransition {q : SqliteQueue} {itemId reason : String} {requested : QueueStatus}
    {retry : Bool} {now : Datetime}
    (h : db.forceTransition q itemId requested reason retry now = .ok db') : db.Grows db' := by
  unfold forceTransition at h
  split at h
  · cases h
  · next row _ =>
    generalize (if requested = .failed then row.retryCount + 1 else row.retryCount) = count at h
    dsimp only at h
    generalize (if requested = .failed ∧ retry = true ∧ count ≤ (q.maxRetries : ℤ) then
      QueueStatus.pending else requested) = newStatus at h
    obtain ⟨due, -, h⟩ := Except.bind_eq_ok.mp h
    cases h
    refine Grows.admin ?_ _
    split
    · refine Grows.trans ?_ (grows_closeAttempt _ _ _ _)
      exact grows_update fun _ => ⟨rfl, rfl⟩
    · exact grows_update fun _ => ⟨rfl, rfl⟩

end QueueDb

/-- **Every statement keeps the records.** -/
lemma QueueOp.run_grows {op : QueueOp} {db db' : QueueDb} {v : op.Val}
    (h : op.run db = .ok (v, db')) : db.Grows db' := by
  cases op with
  | clock =>
    cases h
    exact .refl _
  | newToken =>
    cases h
    exact .refl _
  | add q item => exact QueueDb.grows_add (QueueOp.tables_of_map h)
  | reclaimStale q now =>
    exact foldlM_ok_induction (P := fun d => db.Grows d)
      (fun _ _ _ _ hd hone => hd.trans (QueueDb.grows_reclaimOne hone))
      (QueueOp.tables_of_map h) (.refl db)
  | selectNext now =>
    cases h
    exact .refl _
  | quarantine selected now errorType createdAt =>
    cases h
    exact QueueDb.grows_quarantine selected now errorType createdAt
  | claim selected workerId now token => exact QueueDb.grows_claim h
  | bindTransaction itemId transactionId claimedBy claimToken =>
    exact QueueDb.grows_updateHeld (QueueOp.tables_of_map h) fun _ => ⟨rfl, rfl⟩
  | renewLease itemId claimedBy claimToken now =>
    exact QueueDb.grows_updateHeld (QueueOp.tables_of_map h) fun _ => ⟨rfl, rfl⟩
  | complete itemId claimedBy claimToken finishedAt =>
    obtain ⟨updated, hupdated, hrest⟩ := Except.bind_eq_ok.mp (QueueOp.tables_of_map h)
    cases hrest
    exact (QueueDb.grows_updateHeld hupdated fun _ => ⟨rfl, rfl⟩).trans
      (QueueDb.grows_closeAttempt _ _ _ _)
  | failRead itemId claimedBy claimToken =>
    obtain ⟨_, -, heq⟩ := Except.map_eq_ok.mp h
    cases heq
    exact .refl _
  | failCommit q itemId claimedBy claimToken retry readCount now =>
    change db.failCommit q itemId claimedBy claimToken retry readCount now = _ at h
    unfold QueueDb.failCommit at h
    generalize (if retry = true ∧ readCount + 1 ≤ (q.maxRetries : ℤ) then QueueStatus.pending
      else .failed) = newStatus at h
    obtain ⟨due, -, h⟩ := Except.bind_eq_ok.mp h
    obtain ⟨updated, hupdated, h⟩ := Except.bind_eq_ok.mp h
    cases h
    exact (QueueDb.grows_updateHeld hupdated fun _ => ⟨rfl, rfl⟩).trans
      (QueueDb.grows_closeAttempt _ _ _ _)
  | forceTransition q itemId requested reason retry now =>
    exact QueueDb.grows_forceTransition (QueueOp.tables_of_map h)
