import Mathlib.Data.String.Basic
import RpaCore.Persistence.Stored
import RpaCore.Relational.Batches

set_option relaxedAutoImplicit false
set_option autoImplicit false

/-!
# The migration to schema version 7

Version 7 adds the column `created_at_utc`, which is empty at first, and fills it batch by batch in
the order of the ids. The other migrations leave both timestamp columns alone. SQLite makes the
migration atomic: if a timestamp cannot be converted, the database stays as it was.

The loop is that of rows of any type, given the columns that it reads and writes. It is cut off
after a number of rounds; one round more than there are rows is enough.

## Main definitions

* `UtcColumns` — the columns of a row; `UtcColumns.migrate` — the loop.
* `UtcColumns.filled` — what it makes of a row.
* `TransactionDb.migrateToV7` — `_migrate_transactions_to_v7`.

## Main results

* `UtcColumns.migrate_ok`, `UtcColumns.migrate_eq` — the batches fill every row.
* `TransactionDb.migrateToV7_ok` — so they do in a database.
-/

/-! ## The loop -/

/-- The columns of a row of `transactions` that the migration reads and writes: the id, whether
`created_at_utc` is empty, what `_legacy_utc_timestamp` makes of `created_at`, and the assignment of
`created_at_utc`. -/
structure UtcColumns (ρ α : Type) where
  id : ρ → String
  lacksUtc : ρ → Bool
  legacyUtc : ρ → Except PyError α
  setCreatedAtUtc : α → ρ → ρ
  id_set : ∀ value row, id (setCreatedAtUtc value row) = id row
  legacyUtc_set : ∀ value row, legacyUtc (setCreatedAtUtc value row) = legacyUtc row

namespace UtcColumns

variable {ρ α : Type} (c : UtcColumns ρ α)

/-- The updates of one round: rows without a UTC time. -/
def updates (rows : List ρ) : Except PyError (List (α × String)) :=
  (rows.filter c.lacksUtc).mapM fun row => do
    let createdAtUtc ← c.legacyUtc row
    pure (createdAtUtc, c.id row)

/-- One round of the loop: `UPDATE transactions SET created_at_utc = ? WHERE id = ?`. -/
def round (rows transactions : List ρ) : Except PyError (List ρ) := do
  let updates ← c.updates rows
  pure (updates.foldl (fun transactions update =>
    Table.update (fun row => c.id row = update.2) (c.setCreatedAtUtc update.1) transactions)
    transactions)

/-- The `while True` loop of `_migrate_transactions_to_v7`, for at most `n` rounds. -/
def migrate (size n : ℕ) (transactions : List ρ) : Option (Except PyError (List ρ)) :=
  Keyset.sweep c.id size c.round n none transactions

/-- A row with its UTC time filled in. -/
def filled (value : ρ → α) (row : ρ) : ρ :=
  if c.lacksUtc row then c.setCreatedAtUtc (value row) row else row

variable {c} {value : ρ → α} {rows t t' : List ρ} {size n : ℕ}

/-- Filling in a UTC time keeps the id. -/
lemma filled_id (row : ρ) : c.id (c.filled value row) = c.id row := by
  unfold filled
  split
  · exact c.id_set _ _
  · rfl

/-- A round fills the rows of its batch. -/
lemma round_ok (hvalue : ∀ row v, c.legacyUtc row = .ok v → v = value row)
    (hk : Table.Keyed c.id t) (hrows : ∀ row ∈ rows, row ∈ t) (hnodup : (rows.map c.id).Nodup)
    (h : c.round rows t = .ok t') : t' = Keyset.updated c.id (c.filled value) rows t := by
  obtain ⟨updates, hupdates, h⟩ := Except.bind_eq_ok.mp h
  cases h
  have heq : updates = (rows.filter c.lacksUtc).map fun row => (value row, c.id row) := by
    refine eq_map_of_mapM_ok (fun row update hupdate => ?_) hupdates
    obtain ⟨createdAtUtc, hutc, hupdate⟩ := Except.bind_eq_ok.mp hupdate
    cases hupdate
    rw [hvalue row createdAtUtc hutc]
  rw [heq]
  exact Keyset.foldl_assign c.id_set value c.lacksUtc hk hrows hnodup

/-- **The loop ends**, if it has a round for each row. -/
theorem migrate_ends (hk : Table.Keyed c.id t) (hn : t.length < n) :
    ∃ result, c.migrate size n t = some result := by
  refine Keyset.sweep_ends (fun rows t t' hround => ?_) hk ?_
  · obtain ⟨updates, -, hround⟩ := Except.bind_eq_ok.mp hround
    cases hround
    exact Keyset.keys_foldl_assign c.id_set updates t
  · rw [Keyset.select, List.length_insertionSort]
    exact (List.length_filter_le _ _).trans_lt hn

/-- **A loop that goes through has filled every row**, whatever the batch size is. -/
theorem migrate_ok (hvalue : ∀ row v, c.legacyUtc row = .ok v → v = value row) (hsize : 0 < size)
    (hk : Table.Keyed c.id t) (h : c.migrate size n t = some (.ok t')) :
    t' = t.map (c.filled value) := by
  have hfilled := Keyset.sweep_ok filled_id hsize
    (fun rows t t' hk hrows hnodup => round_ok hvalue hk hrows hnodup) hk h
  simpa using hfilled

/-- **The loop goes through** if the timestamps of the rows that it fills can be converted. -/
theorem migrate_eq (hvalue : ∀ row v, c.legacyUtc row = .ok v → v = value row) (hsize : 0 < size)
    (hk : Table.Keyed c.id t) (hn : t.length < n)
    (hgood : ∀ row ∈ t, c.lacksUtc row = true → ∃ v, c.legacyUtc row = .ok v) :
    c.migrate size n t = some (.ok (t.map (c.filled value))) := by
  have hkept : ∀ row, (c.lacksUtc row = true → ∃ v, c.legacyUtc row = .ok v) →
      c.lacksUtc (c.filled value row) = true → ∃ v, c.legacyUtc (c.filled value row) = .ok v := by
    intro row h hlacks
    unfold filled at hlacks ⊢
    split at hlacks
    · next hlacked =>
      rw [if_pos hlacked, c.legacyUtc_set]
      exact h hlacked
    · next hlacked => exact absurd hlacks hlacked
  have hround : ∀ rows t, Table.Keyed c.id t → (∀ row ∈ rows, row ∈ t) → (rows.map c.id).Nodup →
      (∀ row ∈ t, c.lacksUtc row = true → ∃ v, c.legacyUtc row = .ok v) →
      c.round rows t = .ok (Keyset.updated c.id (c.filled value) rows t) := by
    intro rows t hk hrows hnodup hgood
    obtain ⟨updates, hupdates⟩ : ∃ updates, c.updates rows = .ok updates := by
      refine exists_mapM_ok fun row hrow => ?_
      obtain ⟨hrow, hlacks⟩ := List.mem_filter.mp hrow
      obtain ⟨v, hv⟩ := hgood row (hrows row hrow) hlacks
      exact Except.exists_bind_ok hv ⟨_, rfl⟩
    obtain ⟨t', ht'⟩ : ∃ t', c.round rows t = .ok t' := Except.exists_bind_ok hupdates ⟨_, rfl⟩
    rw [ht', round_ok hvalue hk hrows hnodup ht']
  have hlength : (Keyset.select c.id none t).length < n := by
    rw [Keyset.select, List.length_insertionSort]
    exact (List.length_filter_le _ _).trans_lt hn
  obtain ⟨t', ht'⟩ : ∃ t', c.migrate size n t = some (.ok t') :=
    Keyset.exists_sweep hkept filled_id hround hk hgood hlength
  rw [ht', migrate_ok hvalue hsize hk ht']

end UtcColumns

/-! ## The migration of a database -/

/-- `_MIGRATION_BATCH_SIZE`. -/
def migrationBatchSize : ℕ := 500

/-- The columns of a row with timestamps. -/
def TransactionRow.utcColumns : UtcColumns TransactionRow (Option Datetime) where
  id := TransactionRow.id
  lacksUtc row := row.createdAtUtc = none
  legacyUtc row := legacyUtcTimestamp row.createdAt
  setCreatedAtUtc createdAtUtc row := { row with createdAtUtc := createdAtUtc }
  id_set _ _ := rfl
  legacyUtc_set _ _ := rfl

/-- `_migrate_transactions_to_v7`. -/
def TransactionDb.migrateToV7 (db : TransactionDb) : Except PyError TransactionDb := do
  let transactions ← (TransactionRow.utcColumns.migrate migrationBatchSize
    (db.transactions.length + 1) db.transactions).getD (.ok db.transactions)
  pure { db with transactions := transactions }

/-- A row with its UTC time filled in. -/
def TransactionRow.filled (row : TransactionRow) : TransactionRow :=
  if row.createdAtUtc = none then { row with createdAtUtc := row.createdAt.bind Datetime.utc? }
  else row

/-- Filling in a UTC time keeps the id. -/
@[simp] lemma TransactionRow.filled_id (row : TransactionRow) : row.filled.id = row.id := by
  unfold filled
  split <;> rfl

/-- What the loop makes of a row with timestamps. -/
lemma TransactionRow.filled_eq (row : TransactionRow) :
    TransactionRow.utcColumns.filled (fun row => row.createdAt.bind Datetime.utc?) row =
      row.filled := by
  simp only [UtcColumns.filled, utcColumns, decide_eq_true_eq]
  rfl

/-- **The migration fills every row.** -/
theorem TransactionDb.migrateToV7_ok {db db' : TransactionDb} (hdb : db.Consistent)
    (h : db.migrateToV7 = .ok db') :
    db' = { db with transactions := db.transactions.map TransactionRow.filled } := by
  obtain ⟨transactions, hloop, h⟩ := Except.bind_eq_ok.mp h
  cases h
  obtain ⟨result, hresult⟩ : ∃ result, TransactionRow.utcColumns.migrate migrationBatchSize
      (db.transactions.length + 1) db.transactions = some result :=
    UtcColumns.migrate_ends hdb.transactions (Nat.lt_succ_self _)
  rw [hresult] at hloop
  obtain rfl : result = .ok transactions := hloop
  rw [UtcColumns.migrate_ok (fun row v hv => legacyUtcTimestamp_ok hv) (by decide)
    hdb.transactions hresult, List.map_congr_left fun row _ => TransactionRow.filled_eq row]
