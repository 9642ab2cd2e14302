import RpaCore.Persistence.Migration

set_option relaxedAutoImplicit false
set_option autoImplicit false

/-!
# The query keys of older rows

The loop of the migration to schema version 7, `UtcColumns.migrate`, over the texts that the columns
hold. Reading an ISO text is a parameter; the other columns of a row are of any type.

## Main definitions

* `UtcKeyRow` — the columns that the loop reads and writes.
* `UtcKeyRow.utcColumns` — their part in the loop of the migration.
* `migrateTransactionsToV7` — the loop, for a batch size.

## Main results

* `utc_keys_migrated` — the loop ends and fills every row, whatever the batch size is.
* `utc_keys_out_of_range` — an instant that has no UTC value stops it.
-/

/-- A row of `transactions`: the texts of the id and of the two timestamps, and the rest. -/
structure UtcKeyRow (γ : Type) where
  id : String
  createdAt : String
  createdAtUtc : String
  rest : γ
  deriving DecidableEq

section Code

variable {γ : Type} (fromisoformat : String → Except PyError Datetime)

/-- `_legacy_utc_timestamp`. -/
def legacyUtcText (value path transactionId : String) : Except PyError String :=
  if value = "" then .ok ""
  else
    match fromisoformat value with
    | .error (.valueError _) => .error (invalidRecord
        ("Persisted transaction timestamp is invalid for transaction " ++ pyRepr transactionId ++
          " at " ++ path ++ ": " ++ pyRepr value)
        "repair transaction timestamps in the persistence database")
    | .error err => .error err
    | .ok timestamp =>
      if timestamp.isAware then
        match timestamp.astimezoneUtc with
        | some utc => .ok utc.isoformat
        | none => .error (.overflowError "date value out of range")
      else .ok ""

/-- The columns of a row with texts. -/
def UtcKeyRow.utcColumns : UtcColumns (UtcKeyRow γ) String where
  id := UtcKeyRow.id
  lacksUtc row := row.createdAtUtc = ""
  legacyUtc row :=
    legacyUtcText fromisoformat row.createdAt "transactions.created_at" row.id
  setCreatedAtUtc createdAtUtc row := { row with createdAtUtc := createdAtUtc }
  id_set _ _ := rfl
  legacyUtc_set _ _ := rfl

/-- The loop of `_migrate_transactions_to_v7`, for at most `n` rounds. -/
def migrateTransactionsToV7 (size n : ℕ) (transactions : List (UtcKeyRow γ)) :
    Option (Except PyError (List (UtcKeyRow γ))) :=
  (UtcKeyRow.utcColumns fromisoformat).migrate size n transactions

/-- The UTC text of a timestamp text; an empty or naive one has none. -/
def normalisedUtc (value : String) : String :=
  if value = "" then ""
  else (((fromisoformat value).toOption.bind Datetime.utc?).map Datetime.isoformat).getD ""

end Code

/-- A timestamp text that is empty, or a valid ISO text that has a UTC value if it has an
offset. -/
def HasUtc (fromisoformat : String → Except PyError Datetime) (value : String) : Prop :=
  value = "" ∨ ∃ timestamp, fromisoformat value = .ok timestamp ∧
    (timestamp.isAware = true → ∃ utc, timestamp.astimezoneUtc = some utc)

variable {γ : Type} {fromisoformat : String → Except PyError Datetime} {t : List (UtcKeyRow γ)}

/-- The conversion returns the normalised text. -/
lemma legacyUtcText_ok {value path transactionId createdAtUtc : String}
    (h : legacyUtcText fromisoformat value path transactionId = .ok createdAtUtc) :
    createdAtUtc = normalisedUtc fromisoformat value := by
  unfold legacyUtcText at h
  unfold normalisedUtc
  split at h
  · next hempty =>
    rw [if_pos hempty]
    exact (Except.ok.inj h).symm
  · next hempty =>
    rw [if_neg hempty]
    cases hread : fromisoformat value with
    | error err =>
      rw [hread] at h
      cases err <;> cases h
    | ok timestamp =>
      rw [hread] at h
      simp only [Except.toOption, Option.bind_some, Datetime.utc?]
      dsimp only at h
      split at h
      · next haware =>
        split at h
        · next utc hutc =>
          rw [if_pos haware, ← Except.ok.inj h, Datetime.astimezoneUtc_eq_some hutc]
          rfl
        · cases h
      · next haware =>
        rw [if_neg haware, ← Except.ok.inj h]
        rfl

/-- The conversion goes through. -/
lemma HasUtc.ok {value : String} (h : HasUtc fromisoformat value) (path transactionId : String) :
    ∃ createdAtUtc, legacyUtcText fromisoformat value path transactionId = .ok createdAtUtc := by
  unfold legacyUtcText
  by_cases hempty : value = ""
  · exact ⟨"", if_pos hempty⟩
  · obtain ⟨timestamp, hread, hutc⟩ := h.resolve_left hempty
    rw [if_neg hempty, hread]
    dsimp only
    by_cases haware : timestamp.isAware = true
    · obtain ⟨utc, hutc⟩ := hutc haware
      rw [if_pos haware, hutc]
      exact ⟨_, rfl⟩
    · exact ⟨"", if_neg haware⟩

/-- **The query keys of older rows.** With distinct ids, and for every row without a UTC text a
timestamp text that is empty, or valid with a UTC value if it has an offset: the loop goes through
after at most one round more than there are rows, and it makes the same of the rows for every batch
size. A row without a UTC text then holds the normalised text of its own timestamp; every other row
is as it was. -/
theorem utc_keys_migrated (hk : Table.Keyed UtcKeyRow.id t)
    (hutc : ∀ row ∈ t, row.createdAtUtc = "" → HasUtc fromisoformat row.createdAt) :
    ∃ keyed : UtcKeyRow γ → UtcKeyRow γ,
      (∀ size n, 0 < size → t.length < n →
        migrateTransactionsToV7 fromisoformat size n t = some (.ok (t.map keyed))) ∧
      ∀ row ∈ t, (row.createdAtUtc = "" → keyed row =
          { row with createdAtUtc := normalisedUtc fromisoformat row.createdAt } ∧
          legacyUtcText fromisoformat row.createdAt "transactions.created_at" row.id =
            .ok (keyed row).createdAtUtc) ∧
        (row.createdAtUtc ≠ "" → keyed row = row) := by
  have hvalue : ∀ (row : UtcKeyRow γ) (v : String),
      (UtcKeyRow.utcColumns fromisoformat).legacyUtc row = .ok v →
        v = normalisedUtc fromisoformat row.createdAt := fun _ _ h => legacyUtcText_ok h
  refine ⟨(UtcKeyRow.utcColumns fromisoformat).filled fun row =>
    normalisedUtc fromisoformat row.createdAt, fun size n hsize hn => ?_, fun row hrow =>
    ⟨fun hempty => ?_, fun hne => if_neg (by simpa [UtcKeyRow.utcColumns] using hne)⟩⟩
  · refine UtcColumns.migrate_eq hvalue hsize hk hn fun row hrow hempty => ?_
    exact (hutc row hrow (by simpa [UtcKeyRow.utcColumns] using hempty)).ok _ _
  · have hkeyed : (UtcKeyRow.utcColumns fromisoformat).filled
        (fun row => normalisedUtc fromisoformat row.createdAt) row =
        { row with createdAtUtc := normalisedUtc fromisoformat row.createdAt } :=
      if_pos (by simpa [UtcKeyRow.utcColumns] using hempty)
    obtain ⟨createdAtUtc, hok⟩ := (hutc row hrow hempty).ok "transactions.created_at" row.id
    refine ⟨hkeyed, ?_⟩
    rw [hkeyed, hok, legacyUtcText_ok hok]

/-- `fromisoformat` of two texts: the first two hours of the calendar, an hour east of
Greenwich. -/
def readFirstHours (text : String) : Except PyError Datetime :=
  if text = "0001-01-01T00:00:00+01:00" then .ok ⟨0, some 3600000000⟩
  else if text = "0001-01-01T01:00:00+01:00" then .ok ⟨3600000000, some 3600000000⟩
  else .error (.valueError ("Invalid isoformat string: " ++ pyRepr text))

/-- Two rows, one of them without a UTC text. -/
theorem utc_keys_migrated_sample :
    migrateTransactionsToV7 readFirstHours 1 3
      [⟨"b", "0001-01-01T01:00:00+01:00", "", ()⟩, ⟨"a", "", "old", ()⟩] =
    some (.ok [⟨"b", "0001-01-01T01:00:00+01:00", "0001-01-01T00:00:00+00:00", ()⟩,
      ⟨"a", "", "old", ()⟩]) := by
  have hread : readFirstHours "0001-01-01T01:00:00+01:00" =
      .ok ⟨3600000000, some 3600000000⟩ := (if_neg (by decide)).trans (if_pos rfl)
  have hutc : normalisedUtc readFirstHours "0001-01-01T01:00:00+01:00" =
      "0001-01-01T00:00:00+00:00" := by
    decide +kernel
  obtain ⟨keyed, hkeyed, hrows⟩ := @utc_keys_migrated Unit readFirstHours
    [⟨"b", "0001-01-01T01:00:00+01:00", "", ()⟩, ⟨"a", "", "old", ()⟩]
    (by unfold Table.Keyed; decide) (by
      simp only [List.forall_mem_cons]
      exact ⟨fun _ => Or.inr ⟨_, hread, fun _ => ⟨⟨0, some 0⟩, by decide⟩⟩,
        fun h => absurd h (by decide), by simp⟩)
  obtain ⟨⟨hb, -⟩, hrest⟩ := List.forall_mem_cons.mp hrows
  obtain ⟨⟨-, ha⟩, -⟩ := List.forall_mem_cons.mp hrest
  rw [hkeyed 1 3 (by decide) (by decide), List.map_cons, List.map_cons, (hb rfl).1,
    ha (by decide), hutc]
  rfl

/-- **An instant that has no UTC value stops the loop**: the text is valid, but its UTC reading lies
before the first year of the calendar. -/
theorem utc_keys_out_of_range :
    let row : UtcKeyRow Unit := ⟨"t", "0001-01-01T00:00:00+01:00", "", ()⟩
    readFirstHours row.createdAt = .ok ⟨0, some 3600000000⟩ ∧
      Datetime.isoformat ⟨0, some 3600000000⟩ = row.createdAt ∧
      ∀ size n, 0 < size → 0 < n → migrateTransactionsToV7 readFirstHours size n [row] =
        some (.error (.overflowError "date value out of range")) := by
  intro row
  refine ⟨if_pos rfl, by decide +kernel, fun size n hsize hn => ?_⟩
  obtain ⟨n, rfl⟩ : ∃ m, n = m + 1 := ⟨n - 1, by omega⟩
  obtain ⟨size, rfl⟩ : ∃ m, size = m + 1 := ⟨size - 1, by omega⟩
  let c : UtcColumns (UtcKeyRow Unit) String := UtcKeyRow.utcColumns readFirstHours
  have hbatch : Keyset.batch c.id (size + 1) none [row] = [row] := by
    have hselect : Keyset.select c.id none [row] = [row] := rfl
    rw [Keyset.batch, hselect, List.take_succ_cons, List.take_nil]
  have hround : c.round [row] [row] = .error (.overflowError "date value out of range") := by
    have hread : readFirstHours row.createdAt = .ok ⟨0, some 3600000000⟩ := if_pos rfl
    have hconvert : c.legacyUtc row = .error (.overflowError "date value out of range") := by
      change legacyUtcText readFirstHours row.createdAt "transactions.created_at" "t" = _
      rw [legacyUtcText, if_neg (by decide +kernel), hread]
      rfl
    have hpending : [row].filter c.lacksUtc = [row] := by
      decide +kernel
    rw [UtcColumns.round, UtcColumns.updates, hpending, List.mapM_cons, hconvert]
    rfl
  rw [migrateTransactionsToV7, UtcColumns.migrate, Keyset.sweep, hbatch, hround]
  rfl
