import RpaCore.Queue.Basic
import RpaCore.Persistence.Basic

set_option relaxedAutoImplicit false
set_option autoImplicit false

/-!
# The queue checkpoint

The code of `_queue_checkpoint.py`: the write of a transaction snapshot that is guarded by the
claim of its queue item and by the revision of the transaction. SQLite commits the two databases
as one, also when they are two attached files, so the write is one function on both. The journal
mode and the schema versions are the ones it requires.

## Main definitions

* `Store` — the queue database with the transaction database.
* `Store.saveFenced` — `_save_queue_transaction_fenced`.
* `SaveCall` — a call of either function that saves a transaction.
-/

/-- The databases a queue runner writes to. -/
@[ext] structure Store where
  queue : QueueDb
  transactions : TransactionDb
  deriving Inhabited

namespace Store

/-- The claim that a fenced save asks for: the item is held, and is not bound to another
transaction. -/
def mayWrite (queueItemId claimedBy claimToken transactionId : String) (row : QueueRow) : Bool :=
  QueueDb.isHeld queueItemId claimedBy claimToken row &&
    (row.transactionId = "" || row.transactionId = transactionId)

/-- The error of a claim that does not allow a fenced save. -/
def staleClaim (queueItemId : String) : PyError :=
  .transactionFence ("Queue item " ++ pyRepr queueItemId ++
    " claim is stale or bound to another transaction")

/-- The binding of the item, which follows an initial write. -/
def bind (queueItemId claimedBy claimToken transactionId : String) (queue : QueueDb) :
    Except PyError QueueDb :=
  let guard := mayWrite queueItemId claimedBy claimToken transactionId
  let items := Table.update guard (fun row => { row with transactionId := transactionId })
    queue.items
  if Table.rowcount guard queue.items ≠ 1 then .error (staleClaim queueItemId)
  else .ok { queue with items := items }

/-- `_save_queue_transaction_fenced`: the new revision. -/
def saveFenced (tx : Transaction) (queueItemId claimedBy claimToken : String)
    (expectedRevision : ℤ) (initial : Bool) (store : Store) : Except PyError (ℤ × Store) :=
  if claimToken = "" then
    .error (.transactionFence ("Queue item " ++ pyRepr queueItemId ++ " has no claim credential"))
  else if expectedRevision < 0 then
    .error (.valueError ("expected_revision must be >= 0, got " ++ toString expectedRevision))
  else if initial ∧ expectedRevision ≠ 0 then
    .error (.valueError "initial queue persistence requires revision zero")
  else if initial ∧ isBlank tx.id then
    .error (.executionValidation
      "transaction.id must be a nonblank str for initial queue persistence")
  else do
    tx.validateForExecution
    if store.queue.items.any (mayWrite queueItemId claimedBy claimToken tx.id) = false then
      throw (staleClaim queueItemId)
    else if initial ∧ (store.transactions.header tx.id).isSome then
      throw (.executionValidation ("Initial queue transaction " ++ pyRepr tx.id ++
        " already exists; use an unused ID"))
    else
      let (revision, transactions) ←
        store.transactions.write tx (some expectedRevision) queueItemId claimToken
      let queue ← (if initial then bind queueItemId claimedBy claimToken tx.id store.queue
        else .ok store.queue : Except PyError QueueDb)
      pure (revision, ⟨queue, transactions⟩)

/-- `save_transaction` on the transaction database. -/
def save (tx : Transaction) (store : Store) : Except PyError Store := do
  let transactions ← store.transactions.save tx
  pure { store with transactions := transactions }

end Store

/-- A call that saves a transaction: `save_transaction` or `_save_queue_transaction_fenced`. -/
inductive SaveCall
  | plain (tx : Transaction)
  | fenced (tx : Transaction) (queueItemId claimedBy claimToken : String) (expectedRevision : ℤ)
      (initial : Bool)

namespace SaveCall

/-- The transaction that is saved. -/
def tx : SaveCall → Transaction
  | plain tx => tx
  | fenced tx .. => tx

/-- What the call does to the databases. -/
def run : SaveCall → Store → Except PyError Store
  | plain tx, store => store.save tx
  | fenced tx queueItemId claimedBy claimToken expectedRevision initial, store =>
    (store.saveFenced tx queueItemId claimedBy claimToken expectedRevision initial).map Prod.snd

end SaveCall

/-! ## What a save commits -/

namespace Store

variable {tx : Transaction} {queueItemId claimedBy claimToken : String}
  {expectedRevision revision : ℤ} {initial : Bool} {store store' : Store}

/-- **What a fenced save commits**: the claim allows it, the transaction is written under the
expected revision, and an initial save binds the item to a transaction that was not there. -/
theorem saveFenced_ok
    (h : store.saveFenced tx queueItemId claimedBy claimToken expectedRevision initial =
      .ok (revision, store')) :
    claimToken ≠ "" ∧ tx.Valid ∧
      (∃ row ∈ store.queue.items,
        mayWrite queueItemId claimedBy claimToken tx.id row = true) ∧
      store.transactions.write tx (some expectedRevision) queueItemId claimToken =
        .ok (revision, store'.transactions) ∧
      ((initial = false ∧ store'.queue = store.queue) ∨
        (initial = true ∧ expectedRevision = 0 ∧ isBlank tx.id = false ∧
          store.transactions.header tx.id = none ∧
          bind queueItemId claimedBy claimToken tx.id store.queue = .ok store'.queue)) := by
  unfold saveFenced at h
  split at h
  · cases h
  split at h
  · cases h
  split at h
  · cases h
  split at h
  · cases h
  next htoken _ hzero hblank =>
  obtain ⟨_, hvalid, h⟩ := Except.bind_eq_ok.mp h
  split at h
  · cases h
  next hclaim =>
  split at h
  · cases h
  next hnew =>
  obtain ⟨⟨written, transactions⟩, hwrite, h⟩ := Except.bind_eq_ok.mp h
  obtain ⟨queue, hbind, h⟩ := Except.bind_eq_ok.mp h
  cases h
  refine ⟨htoken, hvalid, ?_, hwrite, ?_⟩
  · simpa using hclaim
  · cases initial with
    | false =>
      cases hbind
      exact Or.inl ⟨rfl, rfl⟩
    | true =>
      refine Or.inr ⟨rfl, by simpa using hzero, by simpa using hblank, ?_, hbind⟩
      simpa using hnew

/-- What a plain save commits. -/
lemma save_ok (h : store.save tx = .ok store') :
    tx.Valid ∧ store'.queue = store.queue ∧
      ∃ revision, store.transactions.write tx none "" "" = .ok (revision, store'.transactions) := by
  obtain ⟨transactions, hsave, h⟩ := Except.bind_eq_ok.mp h
  obtain ⟨_, hvalid, hsave⟩ := Except.bind_eq_ok.mp hsave
  obtain ⟨⟨revision, written⟩, hwrite, hsave⟩ := Except.bind_eq_ok.mp hsave
  cases hsave
  cases h
  exact ⟨hvalid, rfl, revision, hwrite⟩

end Store

/-- **Every save that succeeds is a write** of a valid transaction. -/
theorem SaveCall.run_ok {call : SaveCall} {store store' : Store} (h : call.run store = .ok store') :
    call.tx.Valid ∧ ∃ expectedRevision queueItemId claimToken revision,
      store.transactions.write call.tx expectedRevision queueItemId claimToken =
        .ok (revision, store'.transactions) := by
  cases call with
  | plain tx =>
    obtain ⟨hvalid, -, revision, hwrite⟩ := Store.save_ok h
    exact ⟨hvalid, none, "", "", revision, hwrite⟩
  | fenced tx queueItemId claimedBy claimToken expectedRevision initial =>
    simp only [SaveCall.run] at h
    cases hsave : store.saveFenced tx queueItemId claimedBy claimToken expectedRevision
        initial with
    | error err =>
      rw [hsave] at h
      cases h
    | ok r =>
      obtain ⟨revision, saved⟩ := r
      rw [hsave] at h
      cases h
      obtain ⟨-, hvalid, -, hwrite, -⟩ := Store.saveFenced_ok hsave
      exact ⟨hvalid, _, _, _, revision, hwrite⟩
