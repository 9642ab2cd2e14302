import RpaCore.Persistence.Listing

set_option relaxedAutoImplicit false
set_option autoImplicit false

/-!
# Time windows

A query between two times compares the texts of creation times. Saved creation times and the bounds
of a query are both converted to UTC first, and on texts of UTC values the order is that of the
instants, whatever their precision. So the transactions of a query are those that were created
between its bounds.

## Main definitions

* `Datetime.IsBound` — the times that may bound a query.
* `TransactionRow.Timed` — the creation times of saved rows.

## Main results

* `SaveRun.timed` — any series of saves stores creation times in UTC, or none.
* `timeWindows_exact` — what a query between two times returns, and when it is rejected.
-/

/-- A time that may **bound a query**: it is aware, and its UTC value can be represented. -/
def Datetime.IsBound (d : Datetime) : Prop := d.isAware = true ∧ d.astimezoneUtc ≠ none

/-- The text of a bound. -/
def Datetime.boundText (d : Datetime) : String := (Datetime.ofInstant d.instant).isoformat

/-- A bound is in the range of UTC values. -/
lemma Datetime.IsBound.range {d : Datetime} (h : d.IsBound) :
    0 ≤ d.instant ∧ d.instant < Datetime.maxMicros := by
  obtain ⟨u, hu⟩ := Option.ne_none_iff_exists'.mp h.2
  exact (Datetime.astimezoneUtc_eq_iff.mp hu).1

/-- The texts of bounds are compared like the instants. -/
lemma Datetime.boundText_lt {s u : Datetime} (hs : s.IsBound) (hu : u.IsBound) :
    u.boundText < s.boundText ↔ u.instant < s.instant := by
  obtain ⟨hs, hs'⟩ := hs.range
  obtain ⟨hu, hu'⟩ := hu.range
  rw [← not_le, ← not_le, not_iff_not]
  exact Datetime.isoformat_ofInstant_le hs hs' hu hu'

/-! ## Saved creation times -/

/-- A row with a creation time in UTC in both columns, or with none. -/
def TransactionRow.Timed (row : TransactionRow) : Prop :=
  (row.createdAt = none ∧ row.createdAtUtc = none) ∨ row.Dated

namespace TransactionDb

variable {db d : TransactionDb} {tx : Transaction} {expectedRevision : Option ℤ}
  {queueItemId claimToken : String} {revision : ℤ}

/-- A write stores a creation time in UTC, or none. -/
lemma write_timed (hdb : db.Consistent) (htimed : ∀ row ∈ db.transactions, row.Timed)
    (h : db.write tx expectedRevision queueItemId claimToken = .ok (revision, d)) :
    ∀ row ∈ d.transactions, row.Timed := by
  obtain ⟨hd, hwritten⟩ := write_written hdb h
  have hgiven : (TransactionRow.ofTransaction tx tx.times).Timed := by
    cases htx : tx.createdAt with
    | none => exact Or.inl (by simp [TransactionRow.ofTransaction, Transaction.times, htx])
    | some created =>
      cases haware : created.isAware with
      | true =>
        exact Or.inr (ofTransaction_dated h (by simp [Transaction.createdAware, htx, haware]))
      | false =>
        -- it would have to be stored already, without a time zone
        have hnaive := write_createdNaive h (by simp [htx, haware])
        obtain ⟨old, hold, holdNaive⟩ := (Option.any_eq_true _ _).mp hnaive
        rcases htimed old ((header_eq_some hdb).mp hold).1 with ⟨hnone, -⟩ | ⟨t, -, -, hcreated, -⟩
        · simp [TransactionRow.createdNaive, hnone] at holdNaive
        · simp [TransactionRow.createdNaive, hcreated] at holdNaive
  have hprevious : (db.previous tx).Timed := by
    unfold previous
    cases hold : db.header tx.id with
    | none => exact hgiven
    | some old => exact htimed old ((header_eq_some hdb).mp hold).1
  intro row hrow
  have hheader := (header_eq_some hd).mpr ⟨hrow, rfl⟩
  by_cases hid : row.id = tx.id
  · rw [hid, hwritten.header_self] at hheader
    cases hheader
    rcases hprevious with ⟨hcreated, hutc⟩ | ⟨t, hnonneg, hlt, hcreated, hutc⟩
    · unfold TransactionRow.Timed TransactionRow.Dated TransactionRow.overwrite
      simp only [hcreated, hutc, if_true]
      exact hgiven
    · exact Or.inr ⟨t, hnonneg, hlt, by simp [TransactionRow.overwrite, hcreated],
        by simp [TransactionRow.overwrite, hutc]⟩
  · rw [hwritten.header_of_ne hid] at hheader
    exact htimed row ((header_eq_some hdb).mp hheader).1

end TransactionDb

variable {db db' : TransactionDb} {calls : List (SaveCall × Except PyError Unit)}

/-- **Saves store creation times in UTC, or none.** -/
lemma SaveRun.timed (h : SaveRun db calls db') (hdb : db.Consistent)
    (htimed : ∀ row ∈ db.transactions, row.Timed) : ∀ row ∈ db'.transactions, row.Timed := by
  induction h with
  | nil db => exact htimed
  | @cons db d db' call result calls step rest ih =>
    rcases step.write with ⟨rfl, -⟩ | ⟨-, -, _, _, _, _, hwrite⟩
    · exact ih hdb htimed
    · obtain ⟨hd, -⟩ := TransactionDb.write_written hdb hwrite
      exact ih hd (TransactionDb.write_timed hdb htimed hwrite)

/-! ## Queries between two times -/

variable {since untilTime : Option Datetime} {row : TransactionRow}

/-- The query for the transactions that were created between two times. -/
def windowQuery (since untilTime : Option Datetime) : TransactionQuery :=
  ⟨none, since, untilTime, none, none⟩

/-- The filters of that query in normal form. -/
def windowFilters (since untilTime : Option Datetime) : QueryFilters :=
  ⟨[], since.map Datetime.boundText, untilTime.map Datetime.boundText, none, []⟩

/-- The first bound is after the last one. -/
def Inverted (since untilTime : Option Datetime) : Prop :=
  ∃ s ∈ since, ∃ u ∈ untilTime, u.instant < s.instant

/-- The creation time is **in the window**: neither before the first bound nor after the last. -/
def InWindow (since untilTime : Option Datetime) (created : Datetime) : Prop :=
  (∀ s ∈ since, s.instant ≤ created.instant) ∧ ∀ u ∈ untilTime, created.instant ≤ u.instant

/-- A bound that can be converted is given by its text. -/
lemma queryTimestamp_bound {bound : Option Datetime} (hbound : ∀ d ∈ bound, d.IsBound)
    (field : String) : queryTimestamp bound field = .ok (bound.map Datetime.boundText) := by
  refine (TransactionDb.queryTimestamp_eq_ok fun d hd => (hbound d hd).1).mpr
    ⟨fun d hd => (hbound d hd).2, rfl⟩

/-- The query has its filters, unless its bounds are inverted. -/
lemma filters_windowQuery (hsince : ∀ d ∈ since, d.IsBound) (huntil : ∀ d ∈ untilTime, d.IsBound) :
    (Inverted since untilTime → (windowQuery since untilTime).filters =
      .error (.valueError "since must be earlier than or equal to until")) ∧
    (¬ Inverted since untilTime →
      (windowQuery since untilTime).filters = .ok (windowFilters since untilTime)) := by
  have hinverted : ((since.map Datetime.boundText).any fun s =>
      (untilTime.map Datetime.boundText).any fun u => u < s) = true ↔ Inverted since untilTime := by
    cases since with
    | none => simp [Inverted]
    | some s =>
      cases untilTime with
      | none => simp [Inverted]
      | some u =>
        have hlt := Datetime.boundText_lt (hsince s rfl) (huntil u rfl)
        simp only [Option.map_some, Option.any_some, decide_eq_true_eq, hlt, Inverted,
          Option.mem_def, Option.some.injEq, exists_eq_left']
  unfold TransactionQuery.filters windowQuery
  simp only [queryTimestamp_bound hsince, queryTimestamp_bound huntil, bind, Except.bind,
    queryStatuses]
  constructor
  · intro h
    rw [if_pos (hinverted.mpr h)]
    rfl
  · intro h
    rw [if_neg fun hany => h (hinverted.mp hany)]
    rfl

/-- **A row matches the query exactly if it has a creation time in the window.** -/
lemma selects_windowFilters (hrow : row.Timed) (hgiven : since.isSome ∨ untilTime.isSome)
    (hsince : ∀ d ∈ since, d.IsBound) (huntil : ∀ d ∈ untilTime, d.IsBound) :
    (windowFilters since untilTime).selects db row = true ↔
      ∃ created ∈ row.createdAt, InWindow since untilTime created := by
  have hsome : ((windowFilters since untilTime).since.isNone &&
      (windowFilters since untilTime).untilTime.isNone) = false := by
    rcases hgiven with h | h <;> simp [windowFilters, Option.isNone_eq_false_iff.mpr h]
  have hselects : (windowFilters since untilTime).selects db row = true ↔ row.utcText ≠ "" ∧
      (∀ s ∈ since, s.boundText ≤ row.utcText) ∧ ∀ u ∈ untilTime, row.utcText ≤ u.boundText := by
    rw [QueryFilters.selects, QueryFilters.acceptsRow, hsome]
    simp [windowFilters, Option.all_eq_true, and_assoc]
  rw [hselects]
  rcases hrow with ⟨hcreated, hutc⟩ | ⟨t, hnonneg, hlt, hcreated, hutc⟩
  · simp [TransactionRow.utcText, hcreated, hutc]
  · have htext : row.utcText = (Datetime.ofInstant t).isoformat := by
      rw [TransactionRow.utcText, hutc, Option.elim_some]
    have hne : row.utcText ≠ "" := htext ▸ Datetime.isoformat_ofInstant_ne hnonneg hlt
    have hfirst : (∀ s ∈ since, s.boundText ≤ row.utcText) ↔ ∀ s ∈ since, s.instant ≤ t := by
      refine forall₂_congr fun s hs => ?_
      obtain ⟨hs, hs'⟩ := (hsince s hs).range
      rw [htext]
      exact Datetime.isoformat_ofInstant_le hs hs' hnonneg hlt
    have hlast : (∀ u ∈ untilTime, row.utcText ≤ u.boundText) ↔ ∀ u ∈ untilTime, t ≤ u.instant := by
      refine forall₂_congr fun u hu => ?_
      obtain ⟨hu, hu'⟩ := (huntil u hu).range
      rw [htext]
      exact Datetime.isoformat_ofInstant_le hnonneg hlt hu hu'
    rw [hfirst, hlast, hcreated]
    simp [hne, InWindow]

/-- The order of the texts of creation times is that of the instants. -/
lemma TransactionRow.Dated.instant_le {a b : TransactionRow} (ha : a.Dated) (hb : b.Dated)
    (h : b.utcText ≤ a.utcText) :
    ∃ s ∈ a.createdAtUtc, ∃ t ∈ b.createdAtUtc, t.instant ≤ s.instant := by
  obtain ⟨s, hs, hs', -, hsUtc⟩ := ha
  obtain ⟨t, ht, ht', -, htUtc⟩ := hb
  refine ⟨_, hsUtc, _, htUtc, ?_⟩
  rw [TransactionRow.utcText, TransactionRow.utcText, hsUtc, htUtc, Option.elim_some,
    Option.elim_some, Datetime.isoformat_ofInstant_le ht ht' hs hs'] at h
  simpa using h

/-- What a query between two times returns: each transaction that was created in the window once,
with its creation time, latest first. -/
structure ExactWindow (since untilTime : Option Datetime) (db : TransactionDb)
    (found : List TransactionSummary) : Prop where
  nodup : (found.map TransactionSummary.id).Nodup
  mem_iff : ∀ id, id ∈ found.map TransactionSummary.id ↔ ∃ tx revision,
    db.load id = .ok (tx, revision) ∧ ∃ created ∈ tx.createdAt, InWindow since untilTime created
  createdAt : ∀ summary ∈ found, ∃ tx revision, db.load summary.id = .ok (tx, revision) ∧
    tx.createdAt = summary.createdAt
  order : found.Pairwise fun a b =>
    ∃ s ∈ a.createdAt, ∃ t ∈ b.createdAt, t.instant ≤ s.instant

/-- The rows of a query between two times are an exact window. -/
lemma SaveRun.exactWindow (h : SaveRun .empty calls db)
    (hgiven : since.isSome ∨ untilTime.isSome)
    (hsince : ∀ d ∈ since, d.IsBound) (huntil : ∀ d ∈ untilTime, d.IsBound) :
    ExactWindow since untilTime db
      ((db.queryOrder (windowFilters since untilTime) none).map TransactionRow.summary) := by
  obtain ⟨hdb, -⟩ := h.kept TransactionDb.consistent_empty
  have htimed := h.timed TransactionDb.consistent_empty (by simp [TransactionDb.empty])
  have hloads := h.loads
  obtain ⟨horder, hmem⟩ := db.queryOrder_spec hdb (windowFilters since untilTime) none
  -- the rows are those that were created in the window
  have hrows : ∀ row, row ∈ db.queryOrder (windowFilters since untilTime) none ↔
      row ∈ db.transactions ∧ ∃ created ∈ row.createdAt, InWindow since untilTime created := by
    intro row
    rw [hmem]
    refine and_congr_right fun hrow => ?_
    exact (and_iff_left rfl).trans (selects_windowFilters (htimed row hrow) hgiven hsince huntil)
  have hdated : ∀ row ∈ db.queryOrder (windowFilters since untilTime) none, row.Dated := by
    intro row hrow
    obtain ⟨hrow, created, hcreated, -⟩ := (hrows row).mp hrow
    rcases htimed row hrow with ⟨hnone, -⟩ | hdated
    · rw [hnone] at hcreated
      cases hcreated
    · exact hdated
  have hload : ∀ row ∈ db.transactions, ∃ tx revision, db.load row.id = .ok (tx, revision) ∧
      tx.createdAt = row.createdAt := by
    intro row hrow
    obtain ⟨tx, revision, hload⟩ := hloads row hrow
    obtain ⟨row', hheader, -, hcreated⟩ := TransactionDb.load_header hload
    rw [(TransactionDb.header_eq_some hdb).mpr ⟨hrow, rfl⟩] at hheader
    cases hheader
    exact ⟨tx, revision, hload, hcreated⟩
  constructor
  · rw [List.map_map]
    have hperm := List.perm_insertionSort (fun a b : TransactionRow => queryBefore a b = true)
      ((db.matching (windowFilters since untilTime)).filter (afterCursor none))
    exact (hperm.map TransactionRow.id).nodup_iff.mpr ((hdb.transactions.filter _).filter _)
  · intro id
    rw [List.map_map, List.mem_map]
    constructor
    · rintro ⟨row, hrow, rfl⟩
      obtain ⟨hrow, hcreated⟩ := (hrows row).mp hrow
      obtain ⟨tx, revision, hload, htx⟩ := hload row hrow
      exact ⟨tx, revision, hload, htx ▸ hcreated⟩
    · rintro ⟨tx, revision, hload, hcreated⟩
      obtain ⟨row, hheader, -, htx⟩ := TransactionDb.load_header hload
      obtain ⟨hrow, rfl⟩ := (TransactionDb.header_eq_some hdb).mp hheader
      exact ⟨row, (hrows row).mpr ⟨hrow, htx ▸ hcreated⟩, rfl⟩
  · rw [List.forall_mem_map]
    intro row hrow
    obtain ⟨t, -, -, hcreated, hutc⟩ := hdated row hrow
    obtain ⟨tx, revision, hload, htx⟩ := hload row ((hrows row).mp hrow).1
    refine ⟨tx, revision, hload, ?_⟩
    rw [htx, hcreated]
    exact hutc.symm
  · rw [List.pairwise_map]
    refine horder.imp_of_mem fun ha hb hab => (hdated _ ha).instant_le (hdated _ hb) ?_
    rcases hab with hlt | ⟨heq, -⟩
    · exact hlt.le
    · exact heq.ge

/-! ## The pages of a window -/

/-- **Time windows are exact.** On every database of saved transactions, a query between two times
is rejected exactly if the first is after the last as instants. Otherwise its pages come to an end,
and together they are the transactions that were created neither before the first bound nor after
the last, latest first.

**Proof sketch.** Bounds and saved creation times are both texts of UTC values, which are ordered
like the instants whether or not they have a fraction of a second; a row without a creation time is
rejected by the condition that comes with any bound. The pages tile the rows of the query. -/
theorem timeWindows_exact (h : SaveRun .empty calls db) (hgiven : since.isSome ∨ untilTime.isSome)
    (hsince : ∀ d ∈ since, d.IsBound) (huntil : ∀ d ∈ untilTime, d.IsBound) :
    (∀ limit, 1 ≤ limit ∧ limit ≤ queryMaxLimit →
      (Inverted since untilTime ↔ db.queryTransactions (windowQuery since untilTime) none limit =
        .error (.valueError "since must be earlier than or equal to until")) ∧
      (¬ Inverted since untilTime ↔ ∃ page,
        db.queryTransactions (windowQuery since untilTime) none limit = .ok page)) ∧
    (¬ Inverted since untilTime →
      (∀ limit, 1 ≤ limit ∧ limit ≤ queryMaxLimit → ∃ k pages,
        QueryPages (windowQuery since untilTime) none (List.replicate k (limit, db)) pages ∧
        TransactionPage.Complete pages) ∧
      ∀ (limits : List ℤ) pages, QueryPages (windowQuery since untilTime) none
          (limits.map fun limit => (limit, db)) pages → TransactionPage.Complete pages →
        ExactWindow since untilTime db (pages.flatMap TransactionPage.transactions)) := by
  obtain ⟨hdb, -⟩ := h.kept TransactionDb.consistent_empty
  obtain ⟨hrejected, haccepted⟩ := filters_windowQuery hsince huntil
  have hjoin : (windowFilters since untilTime).metadata.length < sqliteMaxJoin :=
    show 0 < sqliteMaxJoin by decide
  refine ⟨fun limit hlimit => ?_, fun hordered => ⟨fun limit hlimit => ?_, ?_⟩⟩
  · by_cases hinverted : Inverted since untilTime
    · have herror : db.queryTransactions (windowQuery since untilTime) none limit =
          .error (.valueError "since must be earlier than or equal to until") := by
        rw [TransactionDb.queryTransactions, if_neg (by omega), hrejected hinverted]
        rfl
      simp [hinverted, herror]
    · obtain ⟨page, hpage, -⟩ := queryTransactions_page hdb (haccepted hinverted) hjoin
        (show QueryFilters.Owns _ none by simp [QueryFilters.Owns]) hlimit
      simp [hinverted, hpage]
  · exact exists_uniformPages hdb (haccepted hordered) hjoin hlimit
  · intro limits pages hpages hdone
    rw [(hpages.static hdb (haccepted hordered)).1 hdone]
    exact h.exactWindow hgiven hsince huntil

/-- The sample is found between its creation time and the same instant in another time zone. -/
theorem timeWindows_exact_sample : ∃ (limits : List ℤ) (pages : List TransactionPage),
    QueryPages (windowQuery (some ⟨0, some 0⟩) (some eastern)) none
      (limits.map fun limit => (limit, auditSaved .empty)) pages ∧
    ExactWindow (some ⟨0, some 0⟩) (some eastern) (auditSaved .empty)
      (pages.flatMap TransactionPage.transactions) := by
  have hrun : SaveRun .empty [(.plain auditSample, .ok ())] (auditSaved .empty) :=
    .cons ⟨.empty, .empty, .commit rfl⟩ (.nil _)
  have hsince : ∀ d ∈ some (⟨0, some 0⟩ : Datetime), d.IsBound := by
    rintro d ⟨⟩
    exact ⟨rfl, by decide⟩
  have huntil : ∀ d ∈ some eastern, d.IsBound := by
    rintro d ⟨⟩
    exact ⟨rfl, by decide⟩
  have hordered : ¬ Inverted (some ⟨0, some 0⟩) (some eastern) := by
    rintro ⟨s, ⟨⟩, u, ⟨⟩, hlt⟩
    exact absurd hlt (by decide)
  obtain ⟨hpages, hexact⟩ := (timeWindows_exact hrun (Or.inl rfl) hsince huntil).2 hordered
  obtain ⟨k, pages, hrun, hdone⟩ := hpages 1 ⟨le_rfl, by decide⟩
  have hread : QueryPages (windowQuery (some ⟨0, some 0⟩) (some eastern)) none
      ((List.replicate k 1).map fun limit => (limit, auditSaved .empty)) pages := by
    rw [List.map_replicate]
    exact hrun
  exact ⟨_, pages, hread, hexact _ _ hread hdone⟩
