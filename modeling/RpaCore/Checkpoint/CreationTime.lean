import RpaCore.Persistence.Migration
import RpaCore.Persistence.Paging

set_option relaxedAutoImplicit false
set_option autoImplicit false

/-!
# The creation time and its query key

A row has its creation time in two columns: as it was given, and in UTC for queries. The `UPDATE`
of a save fills each of them where it is empty. The two agree after the migration; they part when
an aware creation time is saved over a stored one without a time zone, since then only the query
key is filled.

## Main definitions

* `TransactionDb.KeysAgree` — every query key is the UTC value of the creation time.
* `TransactionDb.InstantsAgree` — loads and queries report the same creation times.

## Main results

* `queryKey_agrees_iff` — when the columns agree after a migration and any series of saves.
-/

/-! ## The two columns -/

/-- The query key is the UTC value of the creation time, and empty if there is none. -/
def TransactionRow.KeyAgrees (row : TransactionRow) : Prop :=
  row.createdAtUtc = row.createdAt.bind Datetime.utc?

/-- The creation time has no time zone. -/
def TransactionRow.createdNaive (row : TransactionRow) : Bool :=
  row.createdAt.any fun created => !created.isAware

/-- The creation time has a time zone. -/
def Transaction.createdAware (tx : Transaction) : Bool := tx.createdAt.any Datetime.isAware

/-- A UTC value has a time zone. -/
@[simp] lemma Datetime.isAware_ofInstant (instant : ℤ) : (ofInstant instant).isAware = true := rfl

/-- Storing a timestamp does not change whether it has a time zone. -/
@[simp] lemma Datetime.isAware_normal (d : Datetime) : d.normal.isAware = d.isAware := by
  unfold normal
  split
  · next h => rw [isAware_ofInstant, h]
  · rfl

/-- A timestamp has a UTC value if it has a time zone. -/
lemma Datetime.utc?_eq_none {d : Datetime} : d.utc? = none ↔ d.isAware = false := by
  unfold utc?
  split <;> simp_all

/-- The UTC value of a UTC value. -/
@[simp] lemma Datetime.bind_utc?_utc? (created : Option Datetime) :
    (created.bind Datetime.utc?).bind Datetime.utc? = created.bind Datetime.utc? := by
  cases created with
  | none => rfl
  | some d =>
    rw [Option.bind_some, Datetime.utc?]
    split
    · simp [Datetime.utc?, Datetime.ofInstant, Datetime.isAware, Datetime.instant]
    · rfl

/-- A row that the migration has filled agrees. -/
lemma TransactionRow.filled_keyAgrees {row : TransactionRow} (h : row.createdAtUtc = none) :
    row.filled.KeyAgrees := by
  rw [filled, if_pos h]
  rfl

/-- **What an update does to the agreement**: it stays, unless an aware creation time comes to one
without a time zone; a query key without an instant stays. -/
lemma TransactionRow.overwrite_keyAgrees {row : TransactionRow} (tx : Transaction) (fenced : Bool)
    (queueItemId claimToken : String) (h : row.createdNaive = false → row.KeyAgrees) :
    (row.overwrite tx tx.times fenced queueItemId claimToken).KeyAgrees ↔
      row.KeyAgrees ∧ ¬ (row.createdNaive = true ∧ tx.createdAware = true) := by
  have haware : tx.times.createdAtUtc = none ↔ tx.createdAware = false := by
    unfold Transaction.times Transaction.createdAware
    cases tx.createdAt <;> simp [Datetime.utc?_eq_none]
  unfold createdNaive KeyAgrees at *
  cases hcreated : row.createdAt with
  | none =>
    rw [hcreated] at h
    have hutc : row.createdAtUtc = none := h rfl
    simp [overwrite, hcreated, hutc, Transaction.times]
  | some created =>
    rw [hcreated] at h
    cases hc : created.isAware with
    | true =>
      have hutc : row.createdAtUtc = some (Datetime.ofInstant created.instant) := by
        simpa [hc, Datetime.utc?] using h
      simp [overwrite, hcreated, hutc, hc, Datetime.utc?]
    | false =>
      by_cases hutc : row.createdAtUtc = none
      · simp [overwrite, hcreated, hutc, hc, Datetime.utc?, haware]
      · simp [overwrite, hcreated, hutc, hc, Datetime.utc?]

namespace TransactionDb

variable {db d db' : TransactionDb} {tx : Transaction} {expectedRevision : Option ℤ}
  {queueItemId claimToken id : String} {revision : ℤ}

/-- Every query key is the UTC value of the creation time. -/
def KeysAgree (db : TransactionDb) : Prop := ∀ row ∈ db.transactions, row.KeyAgrees

/-- Loads and queries report the same instant of creation for a transaction, if any. -/
def InstantsAgree (db : TransactionDb) : Prop :=
  ∀ id tx revision query cursor limit page, db.load id = .ok (tx, revision) →
    db.queryTransactions query cursor limit = .ok page → ∀ summary ∈ page.transactions,
      summary.id = id → summary.createdAt.bind Datetime.utc? = tx.createdAt.bind Datetime.utc?

/-- The stored creation time of a transaction has no time zone. -/
def createdNaive (id : String) (db : TransactionDb) : Bool :=
  (db.header id).any TransactionRow.createdNaive

/-- A header is a row of its transaction. -/
lemma header_eq_some (hdb : db.Consistent) {row : TransactionRow} :
    db.header id = some row ↔ row ∈ db.transactions ∧ row.id = id :=
  hdb.transactions.find?_key

/-! ## Reading -/

/-- A load reports the id and the creation time of the row. -/
lemma load_header (h : db.load id = .ok (tx, revision)) :
    ∃ row, db.header id = some row ∧ tx.id = row.id ∧ tx.createdAt = row.createdAt := by
  obtain ⟨rows, hrows, h⟩ := Except.bind_eq_ok.mp h
  obtain ⟨decoded, hdecode, h⟩ := Except.bind_eq_ok.mp h
  cases h
  refine ⟨rows.header, ?_, ?_⟩
  · unfold readRows at hrows
    cases hheader : db.header id with
    | none =>
      rw [hheader] at hrows
      cases hrows
    | some row =>
      rw [hheader] at hrows
      cases hrows
      rfl
  · obtain ⟨_, -, hdecode⟩ := Except.bind_eq_ok.mp hdecode
    obtain ⟨steps, -, hdecode⟩ := Except.bind_eq_ok.mp hdecode
    obtain ⟨metadata, -, hdecode⟩ := Except.bind_eq_ok.mp hdecode
    obtain ⟨artifacts, -, hdecode⟩ := Except.bind_eq_ok.mp hdecode
    cases hdecode
    exact ⟨rfl, rfl⟩

/-- A query reports summaries of rows. -/
lemma mem_queryTransactions (hdb : db.Consistent) {query : TransactionQuery}
    {cursor : Option QueryCursor} {limit : ℤ} {page : TransactionPage}
    (h : db.queryTransactions query cursor limit = .ok page) {summary : TransactionSummary}
    (hsummary : summary ∈ page.transactions) : ∃ row ∈ db.transactions, row.summary = summary := by
  obtain ⟨hlimit, filters, hfilters, hjoin, hcursor⟩ := queryTransactions_ok h
  rw [queryTransactions_eq hdb hlimit hfilters hjoin hcursor] at h
  cases h
  obtain ⟨row, hrow, rfl⟩ := List.mem_map.mp hsummary
  exact ⟨row, List.mem_of_mem_filter (Keyset.mem_page hrow).1, rfl⟩

/-- **If the columns agree, so do loads and queries.** -/
theorem KeysAgree.instantsAgree (hdb : db.Consistent) (h : db.KeysAgree) : db.InstantsAgree := by
  intro id tx revision query cursor limit page hload hpage summary hsummary hid
  obtain ⟨row, hrow, -, hcreated⟩ := load_header hload
  obtain ⟨found, hfound, rfl⟩ := mem_queryTransactions hdb hpage hsummary
  obtain ⟨hmem, hrowId⟩ := (header_eq_some hdb).mp hrow
  obtain rfl := hdb.transactions.eq hfound hmem (hid.trans hrowId.symm)
  rw [hcreated, show found.summary.createdAt = found.createdAtUtc from rfl, h found hfound,
    Datetime.bind_utc?_utc?]

/-! ## Writing -/

/-- The creation time of a write can be stored. -/
lemma write_created
    (h : db.write tx expectedRevision queueItemId claimToken = .ok (revision, d)) :
    ∃ createdAt, timestampToStorage tx.createdAt
      ((db.header tx.id).bind TransactionRow.createdAt) = .ok createdAt := by
  unfold write at h
  dsimp only at h
  split at h
  · cases h
  · obtain ⟨times, htimes, -⟩ := Except.bind_eq_ok.mp h
    obtain ⟨createdAt, hcreated, -⟩ := Except.bind_eq_ok.mp htimes
    exact ⟨createdAt, hcreated⟩

/-- A creation time without a time zone is written only if it is stored. -/
lemma write_createdNaive
    (h : db.write tx expectedRevision queueItemId claimToken = .ok (revision, d))
    (hnaive : tx.createdAt.any (fun created => !created.isAware) = true) :
    db.createdNaive tx.id = true := by
  obtain ⟨createdAt, hcreated⟩ := write_created h
  cases htx : tx.createdAt with
  | none => simp [htx] at hnaive
  | some created =>
    have hunaware : created.isAware = false := by simpa [htx] using hnaive
    simp only [timestampToStorage, htx, hunaware, Bool.false_eq_true, if_false] at hcreated
    split at hcreated
    · next hany =>
      unfold createdNaive TransactionRow.createdNaive
      cases hheader : db.header tx.id with
      | none => simp [hheader] at hany
      | some row =>
        cases hrow : row.createdAt with
        | none => simp [hheader, hrow] at hany
        | some stored =>
          simp only [hheader, Option.bind_some, hrow, Option.any_some, Bool.and_eq_true] at hany
          simpa [hrow] using hany.1
    · cases hcreated

/-- The row before a write has a creation time without a time zone only if it is stored. -/
lemma previous_createdNaive
    (h : db.write tx expectedRevision queueItemId claimToken = .ok (revision, d)) :
    (db.previous tx).createdNaive = db.createdNaive tx.id := by
  cases hheader : db.header tx.id with
  | some row => simp [previous, createdNaive, hheader]
  | none =>
    have hstored : db.createdNaive tx.id = false := by simp [createdNaive, hheader]
    have hgiven : tx.createdAt.any (fun created => !created.isAware) = false := by
      rw [Bool.eq_false_iff]
      exact fun hnaive => by simpa [hstored] using write_createdNaive h hnaive
    rw [hstored, previous, hheader, Option.getD_none]
    unfold TransactionRow.createdNaive TransactionRow.ofTransaction Transaction.times
    cases htx : tx.createdAt with
    | none => rfl
    | some created =>
      have haware : created.isAware = true := by simpa [htx] using hgiven
      simp [haware]

/-- Rows with another creation time than one without a time zone agree. -/
def OthersAgree (db : TransactionDb) : Prop :=
  ∀ id row, db.header id = some row → row.createdNaive = false → row.KeyAgrees

/-- The columns agree if they do for every header. -/
lemma keysAgree_iff (hdb : db.Consistent) :
    db.KeysAgree ↔ ∀ id row, db.header id = some row → row.KeyAgrees := by
  constructor
  · exact fun h id row hrow => h row ((header_eq_some hdb).mp hrow).1
  · exact fun h row hrow => h row.id row ((header_eq_some hdb).mpr ⟨hrow, rfl⟩)

/-- **What a write does to the columns**: they agree afterwards if they agreed and the write does
not bring an aware creation time to one without a time zone. Which transactions have such a
creation time does not change. -/
lemma write_keysAgree (hdb : db.Consistent) (hothers : db.OthersAgree)
    (h : db.write tx expectedRevision queueItemId claimToken = .ok (revision, d)) :
    d.OthersAgree ∧ (∀ id, d.createdNaive id = db.createdNaive id) ∧
      (d.KeysAgree ↔ db.KeysAgree ∧
        ¬ (db.createdNaive tx.id = true ∧ tx.createdAware = true)) := by
  obtain ⟨hd, hwritten⟩ := write_written hdb h
  have hprevious := previous_createdNaive h
  have hagrees : (db.previous tx).createdNaive = false → (db.previous tx).KeyAgrees := by
    intro hfalse
    cases hheader : db.header tx.id with
    | none => simp [previous, hheader, TransactionRow.KeyAgrees, TransactionRow.ofTransaction,
        Transaction.times]
    | some row =>
      have hrow : db.previous tx = row := by simp [previous, hheader]
      rw [hrow] at hfalse ⊢
      exact hothers tx.id row hheader hfalse
  have hself := TransactionRow.overwrite_keyAgrees tx expectedRevision.isSome queueItemId claimToken
    hagrees
  have hsame : ((db.previous tx).overwrite tx tx.times expectedRevision.isSome queueItemId
      claimToken).createdNaive = db.createdNaive tx.id := by
    rw [← hprevious]
    by_cases hnone : (db.previous tx).createdAt = none
    · have hstored : db.createdNaive tx.id = false := by
        rw [← hprevious, TransactionRow.createdNaive, hnone]
        rfl
      have hgiven : tx.createdAt.any (fun created => !created.isAware) = false := by
        rw [Bool.eq_false_iff]
        exact fun hnaive => by simpa [hstored] using write_createdNaive h hnaive
      rw [hprevious, hstored, TransactionRow.createdNaive]
      simpa [TransactionRow.overwrite, hnone, Transaction.times, Option.any_map] using hgiven
    · simp [TransactionRow.createdNaive, TransactionRow.overwrite, hnone]
  refine ⟨fun id row hrow hfalse => ?_, fun id => ?_, ?_⟩
  · by_cases hid : id = tx.id
    · subst hid
      rw [hwritten.header_self] at hrow
      cases hrow
      rw [hsame] at hfalse
      refine hself.mpr ⟨hagrees (hprevious.trans hfalse), fun hboth => ?_⟩
      rw [hprevious, hfalse] at hboth
      exact Bool.false_ne_true hboth.1
    · rw [hwritten.header_of_ne hid] at hrow
      exact hothers id row hrow hfalse
  · by_cases hid : id = tx.id
    · subst hid
      rw [← hsame, createdNaive, hwritten.header_self]
      rfl
    · rw [createdNaive, createdNaive, hwritten.header_of_ne hid]
  · rw [keysAgree_iff hd, keysAgree_iff hdb, ← hprevious]
    constructor
    · intro hall
      obtain ⟨hprev, hnot⟩ := hself.mp (hall tx.id _ hwritten.header_self)
      refine ⟨fun id row hrow => ?_, hnot⟩
      by_cases hid : id = tx.id
      · subst hid
        rwa [show db.previous tx = row by simp [previous, hrow]] at hprev
      · exact hall id row ((hwritten.header_of_ne hid).trans hrow)
    · rintro ⟨hall, hnot⟩ id row hrow
      by_cases hid : id = tx.id
      · subst hid
        rw [hwritten.header_self] at hrow
        cases hrow
        refine hself.mpr ⟨?_, hnot⟩
        cases hheader : db.header tx.id with
        | some row =>
          rw [show db.previous tx = row by simp [previous, hheader]]
          exact hall tx.id row hheader
        | none =>
          refine hagrees (hprevious.trans ?_)
          rw [createdNaive, hheader]
          rfl
      · exact hall id row ((hwritten.header_of_ne hid).symm.trans hrow)

end TransactionDb

/-! ## Saves after a migration -/

variable {legacy db db' : TransactionDb} {calls : List (SaveCall × Except PyError Unit)}

/-- The columns after a series of saves. -/
lemma SaveRun.keysAgree_iff (h : SaveRun db calls db') (hdb : db.Consistent)
    (hothers : db.OthersAgree) (hok : ∀ entry ∈ calls, entry.2.isOk = true) :
    db'.Consistent ∧ (db'.KeysAgree ↔ db.KeysAgree ∧ ∀ entry ∈ calls,
      ¬ (db.createdNaive entry.1.tx.id = true ∧ entry.1.tx.createdAware = true)) := by
  induction h with
  | nil db => exact ⟨hdb, by simp⟩
  | @cons db d db' call result calls step rest ih =>
    rw [List.forall_mem_cons] at hok
    rcases step.write with ⟨-, hresult⟩ | ⟨-, -, _, _, _, _, hwrite⟩
    · simp [hresult] at hok
    · obtain ⟨hd, -⟩ := TransactionDb.write_written hdb hwrite
      obtain ⟨hothers', hnaive, hkeys⟩ := TransactionDb.write_keysAgree hdb hothers hwrite
      obtain ⟨hdb', hrest⟩ := ih hd hothers' hok.2
      refine ⟨hdb', ?_⟩
      rw [hrest, hkeys, List.forall_mem_cons, and_assoc]
      simp only [hnaive]

/-- The migration leaves agreeing columns, and no other creation times. -/
lemma TransactionDb.migrateToV7_keysAgree (hlegacy : legacy.Consistent)
    (hempty : ∀ row ∈ legacy.transactions, row.createdAtUtc = none)
    (h : legacy.migrateToV7 = .ok db) :
    db.Consistent ∧ db.KeysAgree ∧ ∀ id, db.createdNaive id = legacy.createdNaive id := by
  obtain rfl := migrateToV7_ok hlegacy h
  have hids : (legacy.transactions.map TransactionRow.filled).map TransactionRow.id =
      legacy.transactions.map TransactionRow.id := by
    rw [List.map_map]
    exact List.map_congr_left fun row _ => row.filled_id
  refine ⟨⟨?_, hlegacy.steps, hlegacy.exceptions, hlegacy.history, ?_, hlegacy.metadata,
    hlegacy.artifacts⟩, ?_, fun id => ?_⟩
  · rw [Table.Keyed, hids]
    exact hlegacy.transactions
  · intro row hrow
    rw [hids]
    exact hlegacy.owned row hrow
  · intro filled hfilled
    obtain ⟨row, hrow, rfl⟩ := List.mem_map.mp hfilled
    exact row.filled_keyAgrees (hempty row hrow)
  · have hcreated : ∀ row : TransactionRow, row.filled.createdNaive = row.createdNaive := by
      intro row
      unfold TransactionRow.filled TransactionRow.createdNaive
      split <;> rfl
    have hsame : (fun row : TransactionRow => decide (row.id = id)) ∘ TransactionRow.filled =
        fun row => decide (row.id = id) := by
      funext row
      rw [Function.comp_apply, TransactionRow.filled_id]
    unfold createdNaive header
    rw [List.find?_map, Option.any_map, hsame]
    simp only [hcreated]

/-- **When the query keys agree with the creation times** after a migration and any series of
successful saves: exactly if no save brings an aware creation time to a transaction whose old one
has no time zone.

**Proof sketch.** The migration fills every key, and no save stores or removes a creation time
without a time zone. A write keeps the agreement except over such a row, and there a key stays. -/
theorem queryKey_agrees_iff (hlegacy : legacy.Consistent)
    (hempty : ∀ row ∈ legacy.transactions, row.createdAtUtc = none)
    (hmigrate : legacy.migrateToV7 = .ok db) (h : SaveRun db calls db')
    (hok : ∀ entry ∈ calls, entry.2.isOk = true) :
    ((∀ row ∈ db'.transactions, row.createdAtUtc = row.createdAt.bind Datetime.utc?) ∧
        db'.InstantsAgree) ↔
      ∀ entry ∈ calls, ¬ (legacy.createdNaive entry.1.tx.id = true ∧
        entry.1.tx.createdAware = true) := by
  obtain ⟨hdb, hkeys, hnaive⟩ := TransactionDb.migrateToV7_keysAgree hlegacy hempty hmigrate
  have hothers : db.OthersAgree := fun id row hrow _ =>
    hkeys row ((TransactionDb.header_eq_some hdb).mp hrow).1
  obtain ⟨hdb', hiff⟩ := h.keysAgree_iff hdb hothers hok
  simp only [hnaive, hkeys, true_and] at hiff
  exact ⟨fun hboth => hiff.mp hboth.1, fun hcalls =>
    ⟨hiff.mpr hcalls, (hiff.mpr hcalls).instantsAgree hdb'⟩⟩

/-! ## A creation time without a time zone -/

/-- A row of an older schema: the sample transaction, created at a time without a time zone. -/
def legacyRow : TransactionRow :=
  { TransactionRow.ofTransaction auditSample auditSample.times with
    createdAt := some ⟨0, none⟩
    createdAtUtc := none }

/-- The older database with that row. -/
def legacySample : TransactionDb := { TransactionDb.empty with transactions := [legacyRow] }

/-- The database after the sample is saved with its aware creation time. -/
def datedSample : TransactionDb := auditSaved legacySample

/-- The sample as it is loaded from the older row. -/
def legacyCopy : Transaction := { auditSample with createdAt := some ⟨0, none⟩ }

/-- The older database after its transaction is saved again as it was loaded. -/
def recheckedSample : TransactionDb :=
  match legacySample.save legacyCopy with
  | .ok saved => saved
  | .error _ => legacySample

/-- The older database has keys. -/
lemma legacySample_consistent : legacySample.Consistent := by
  constructor <;> simp [legacySample, TransactionDb.empty, Table.Keyed]

/-- The older row has no query key. -/
lemma legacySample_empty : ∀ row ∈ legacySample.transactions, row.createdAtUtc = none := by
  intro row hrow
  rw [List.mem_singleton.mp hrow]
  rfl

/-- A copy without a time zone is saved over the row it was loaded from. -/
theorem queryKey_agrees_rechecked :
    (∀ row ∈ recheckedSample.transactions, row.createdAtUtc = row.createdAt.bind Datetime.utc?) ∧
      recheckedSample.InstantsAgree := by
  have hrun : SaveRun legacySample [(.plain legacyCopy, .ok ())] recheckedSample :=
    .cons ⟨.empty, .empty, .commit rfl⟩ (.nil _)
  have hmigrate : legacySample.migrateToV7 = .ok legacySample := rfl
  refine (queryKey_agrees_iff legacySample_consistent legacySample_empty hmigrate hrun
    (by simp [Except.isOk, Except.toBool])).mpr ?_
  simp only [List.forall_mem_singleton]
  exact fun h => Bool.false_ne_true h.2

/-- An aware creation time is saved over one without a time zone: the query key is filled, and the
creation time stays as it was. -/
theorem queryKey_parts : legacySample.Consistent ∧
    (∀ row ∈ legacySample.transactions, row.createdAtUtc = none) ∧
    legacySample.migrateToV7 = .ok legacySample ∧
    SaveRun legacySample [(.plain auditSample, .ok ())] datedSample ∧
    (¬ ∀ row ∈ datedSample.transactions, row.createdAtUtc = row.createdAt.bind Datetime.utc?) ∧
    ¬ datedSample.InstantsAgree := by
  refine ⟨legacySample_consistent, legacySample_empty, rfl,
    .cons ⟨.empty, .empty, .commit rfl⟩ (.nil _), fun h => ?_, fun h => ?_⟩
  · exact Option.some_ne_none _ (h _ List.mem_cons_self)
  · have hinstants := h "t" _ _ sampleQuery none 1 _ rfl rfl _ List.mem_cons_self rfl
    exact Option.some_ne_none _ hinstants
