import RpaCore.Checkpoint.CreationTime
import RpaCore.Checkpoint.Saved
import RpaCore.Model.Timestamp

set_option relaxedAutoImplicit false
set_option autoImplicit false

/-!
# The listing functions against queries

`list_transactions` and `iter_transactions` compare `created_at` with the text of `since` as it is
given, `query_transactions` compares `created_at_utc` with its UTC value. On a database of saved
transactions the two columns are equal, so the functions agree on every row but those that were
created between the instant of `since` and what its wall clock reads.

## Main definitions

* `TransactionRow.Dated` — both columns hold one UTC value.
* `Datetime.Misread` — an instant on which the text of a boundary is wrong.
* `TransactionDb.ListingsAgree` — the listing functions return what the query pages return.

## Main results

* `listings_agree_iff` — when they do.
-/

/-! ## Boundaries -/

namespace Datetime

variable {d : Datetime} {t : ℤ}

/-- The instants at which a UTC time is compared wrongly with the text of `d`: those between the
instant of `d` and the reading of its clock. -/
def Misread (d : Datetime) (t : ℤ) : Prop :=
  (d.instant < d.micros ∧ d.instant ≤ t ∧ t ≤ d.micros) ∨ (d.micros < t ∧ t < d.instant)

/-- UTC values in the range are valid. -/
lemma isValid_ofInstant (h : 0 ≤ t) (h' : t < maxMicros) : (ofInstant t).IsValid where
  nonneg := h
  lt := h'
  offset := by
    intro o ho
    cases ho
    decide

/-- The instant of a UTC value. -/
@[simp] lemma instant_ofInstant (t : ℤ) : (ofInstant t).instant = t := by
  simp [instant, ofInstant]

/-- A conversion to UTC succeeds in the range. -/
lemma astimezoneUtc_eq_iff {u : Datetime} :
    d.astimezoneUtc = some u ↔
      (0 ≤ d.instant ∧ d.instant < maxMicros) ∧ u = ofInstant d.instant := by
  unfold astimezoneUtc
  split
  · next h => simp [h, eq_comm]
  · next h => simp [h]

/-- The text of a boundary is compared like its instant, except with the instants that it
misreads. -/
lemma isoformat_le_iff (hd : d.IsValid) (haware : d.isAware = true) (h : 0 ≤ t)
    (h' : t < maxMicros) :
    (d.isoformat ≤ (ofInstant t).isoformat ↔ d.instant ≤ t) ↔ ¬ d.Misread t := by
  obtain ⟨o, ho⟩ := Option.isSome_iff_exists.mp haware
  rw [isoformat_le_utc hd (isValid_ofInstant h h') ho rfl]
  have hinstant : d.instant = d.micros - o := by rw [instant, ho, Option.getD_some]
  have ht : (ofInstant t).micros = t := rfl
  unfold Misread
  rw [hinstant, ht]
  omega

/-- The texts of UTC values are compared like the instants. -/
lemma isoformat_ofInstant_le {s : ℤ} (hs : 0 ≤ s) (hs' : s < maxMicros) (h : 0 ≤ t)
    (h' : t < maxMicros) : (ofInstant s).isoformat ≤ (ofInstant t).isoformat ↔ s ≤ t := by
  rw [← String.not_lt, isoformat_lt_utc (isValid_ofInstant h h') (isValid_ofInstant hs hs') rfl rfl,
    not_lt]
  rfl

/-- The text of a UTC value is not empty. -/
lemma isoformat_ofInstant_ne (h : 0 ≤ t) (h' : t < maxMicros) :
    (ofInstant t).isoformat ≠ "" := by
  intro hempty
  have hlist := toList_isoformat (isValid_ofInstant h h') (o := 0) rfl
  rw [hempty] at hlist
  exact absurd (congrArg List.length hlist) (by simp [clockText])

end Datetime

/-! ## Rows of saved transactions -/

/-- Both columns of the creation time hold one UTC value. -/
def TransactionRow.Dated (row : TransactionRow) : Prop :=
  ∃ t, 0 ≤ t ∧ t < Datetime.maxMicros ∧ row.createdAt = some (.ofInstant t) ∧
    row.createdAtUtc = some (.ofInstant t)

/-- The two columns have one text. -/
lemma TransactionRow.Dated.createdText {row : TransactionRow} (h : row.Dated) :
    row.createdText = row.utcText := by
  obtain ⟨t, -, -, hcreated, hutc⟩ := h
  rw [TransactionRow.createdText, utcText, hcreated, hutc]

namespace TransactionDb

variable {db d db' : TransactionDb} {tx : Transaction} {expectedRevision : Option ℤ}
  {queueItemId claimToken id : String} {revision : ℤ}

/-- An aware creation time that is written is offered in UTC for both columns. -/
lemma ofTransaction_dated
    (h : db.write tx expectedRevision queueItemId claimToken = .ok (revision, d))
    (haware : tx.createdAware = true) : (TransactionRow.ofTransaction tx tx.times).Dated := by
  obtain ⟨createdAt, hcreated⟩ := write_created h
  cases htx : tx.createdAt with
  | none => simp [Transaction.createdAware, htx] at haware
  | some created =>
    have hcreatedAware : created.isAware = true := by
      simpa [Transaction.createdAware, htx] using haware
    simp only [timestampToStorage, htx, hcreatedAware, if_true] at hcreated
    split at hcreated
    · next u hu =>
      obtain ⟨⟨hnonneg, hlt⟩, -⟩ := Datetime.astimezoneUtc_eq_iff.mp hu
      have htimes : tx.times.createdAt = some (.ofInstant created.instant) := by
        simp only [Transaction.times, htx, Option.map_some, Datetime.normal, if_pos hcreatedAware]
      refine ⟨created.instant, hnonneg, hlt, htimes, ?_⟩
      change tx.times.createdAt.bind Datetime.utc? = _
      rw [htimes, Option.bind_some, Datetime.utc?, if_pos (Datetime.isAware_ofInstant _),
        Datetime.instant_ofInstant]
    · cases hcreated

/-- A write of an aware creation time stores it in both columns, unless they are filled. -/
lemma write_dated (hdated : ∀ row ∈ db.transactions, row.Dated)
    (h : db.write tx expectedRevision queueItemId claimToken = .ok (revision, d))
    (haware : tx.createdAware = true) (hdb : db.Consistent) :
    ∀ row ∈ d.transactions, row.Dated := by
  obtain ⟨hd, hwritten⟩ := write_written hdb h
  have hgiven := ofTransaction_dated h haware
  intro row hrow
  have hheader := (header_eq_some hd).mpr ⟨hrow, rfl⟩
  by_cases hid : row.id = tx.id
  · rw [hid, hwritten.header_self] at hheader
    have hprev : (db.previous tx).Dated := by
      unfold previous
      cases hold : db.header tx.id with
      | none => exact hgiven
      | some old => exact hdated old ((header_eq_some hdb).mp hold).1
    obtain ⟨t, hnonneg, hlt, hcreated, hutc⟩ := hprev
    cases hheader
    exact ⟨t, hnonneg, hlt, by simp [TransactionRow.overwrite, hcreated],
      by simp [TransactionRow.overwrite, hutc]⟩
  · rw [hwritten.header_of_ne hid] at hheader
    exact hdated row ((header_eq_some hdb).mp hheader).1

end TransactionDb

variable {db db' : TransactionDb} {calls : List (SaveCall × Except PyError Unit)}

/-- Saves of aware creation times store UTC values in both columns. -/
lemma SaveRun.dated (h : SaveRun db calls db') (hdb : db.Consistent)
    (hdated : ∀ row ∈ db.transactions, row.Dated)
    (haware : ∀ entry ∈ calls, entry.2.isOk = true → entry.1.tx.createdAware = true) :
    ∀ row ∈ db'.transactions, row.Dated := by
  induction h with
  | nil db => exact hdated
  | @cons db d db' call result calls step rest ih =>
    rw [List.forall_mem_cons] at haware
    rcases step.write with ⟨rfl, -⟩ | ⟨hok, -, _, _, _, _, hwrite⟩
    · exact ih hdb hdated haware.2
    · obtain ⟨hd, -⟩ := TransactionDb.write_written hdb hwrite
      exact ih hd (TransactionDb.write_dated hdated hwrite (haware.1 hok) hdb) haware.2

/-! ## Rows that are listed -/

namespace TransactionDb

variable {status : Option Status} {since : Option Datetime} {metadataFilter : Option PyVal}
  {metadata : List (String × PyVal)} {row : TransactionRow} {limit : ℤ}

/-- The rows that match the other filters and were created at or after the instant of `since`. -/
def Wanted (status : Option Status) (since : Option Datetime) (metadata : List (String × PyVal))
    (db : TransactionDb) (row : TransactionRow) : Prop :=
  db.listed status none metadata row = true ∧
    ∀ d ∈ since, ∃ created ∈ row.createdAt, d.instant ≤ created.instant

/-- A listed row matches the other filters and has a text not before that of `since`. -/
lemma listed_iff : db.listed status since metadata row = true ↔
    db.listed status none metadata row = true ∧ ∀ d ∈ since, d.isoformat ≤ row.createdText := by
  simp only [listed, Bool.and_eq_true, Option.all_none, and_true]
  cases since with
  | none => simp
  | some d => simp [and_right_comm]

/-- **A row is listed exactly if it is wanted, unless `since` misreads its creation time.** -/
lemma listed_iff_wanted (hrow : row.Dated)
    (hsince : ∀ d ∈ since, d.IsValid ∧ d.isAware = true) :
    (db.listed status since metadata row = true ↔ db.Wanted status since metadata row) ↔
      (db.listed status none metadata row = true → ∀ d ∈ since, ∀ created ∈ row.createdAt,
        ¬ d.Misread created.instant) := by
  obtain ⟨t, hnonneg, hlt, hcreated, -⟩ := hrow
  rw [listed_iff, Wanted]
  by_cases hothers : db.listed status none metadata row = true
  · cases since with
    | none => simp [hothers]
    | some d =>
      obtain ⟨hvalid, haware⟩ := hsince d rfl
      simp only [hothers, true_and, Option.mem_def, Option.some.injEq, forall_eq', hcreated,
        exists_eq_left', TransactionRow.createdText, Option.elim_some, true_implies,
        Datetime.instant_ofInstant]
      exact Datetime.isoformat_le_iff hvalid haware hnonneg hlt
  · simp [hothers]

/-- The query with the filters of a listing. -/
def listingQuery (status : Option Status) (since : Option Datetime)
    (metadataFilter : Option PyVal) : TransactionQuery :=
  ⟨status.map fun s => [s], since, none, none, metadataFilter⟩

/-- The filters of that query in normal form. -/
def listingFilters (status : Option Status) (since : Option Datetime)
    (metadata : List (String × PyVal)) : QueryFilters :=
  ⟨(status.map Status.text).toList, since.map fun d => (Datetime.ofInstant d.instant).isoformat,
    none, none, metadata⟩

/-- The boundary of a query is its UTC text. -/
lemma queryTimestamp_eq_ok {field : String} {text : Option String}
    (hsince : ∀ d ∈ since, d.isAware = true) :
    queryTimestamp since field = .ok text ↔ (∀ d ∈ since, d.astimezoneUtc ≠ none) ∧
      since.map (fun d => (Datetime.ofInstant d.instant).isoformat) = text := by
  cases since with
  | none => simp [queryTimestamp]
  | some d =>
    have haware : d.isAware = true := hsince d rfl
    simp only [queryTimestamp, haware, if_true, Option.mem_def, Option.some.injEq, forall_eq',
      Option.map_some]
    cases hutc : d.astimezoneUtc with
    | none => simp
    | some u =>
      obtain rfl := (Datetime.astimezoneUtc_eq_iff.mp hutc).2
      simp

/-- The query of a listing has its filters if its boundary can be converted to UTC. -/
lemma filters_listingQuery (hmetadata : metadataFilterToStorage metadataFilter = .ok metadata)
    (hsince : ∀ d ∈ since, d.isAware = true) {filters : QueryFilters} :
    (listingQuery status since metadataFilter).filters = .ok filters ↔
      (∀ d ∈ since, d.astimezoneUtc ≠ none) ∧ listingFilters status since metadata = filters := by
  have hstatuses :
      queryStatuses (status.map fun s => [s]) = .ok (status.map Status.text).toList := by
    cases status <;> rfl
  constructor
  · intro h
    obtain ⟨statuses, hs, h⟩ := Except.bind_eq_ok.mp h
    obtain ⟨text, htext, h⟩ := Except.bind_eq_ok.mp h
    obtain ⟨hutc, rfl⟩ := (queryTimestamp_eq_ok hsince).mp htext
    obtain ⟨untilTime, hu, h⟩ := Except.bind_eq_ok.mp h
    rw [show (listingQuery status since metadataFilter).statuses = status.map fun s => [s] from rfl,
      hstatuses] at hs
    cases hs
    cases hu
    simp only [Option.any_none, Option.any_false, Bool.false_eq_true, if_false] at h
    rw [show (listingQuery status since metadataFilter).metadataFilter = metadataFilter from rfl,
      hmetadata] at h
    cases h
    exact ⟨hutc, rfl⟩
  · rintro ⟨hutc, rfl⟩
    have htext : queryTimestamp since "since" =
        .ok (since.map fun d => (Datetime.ofInstant d.instant).isoformat) :=
      (queryTimestamp_eq_ok hsince).mpr ⟨hutc, rfl⟩
    have huntil : queryTimestamp none "until" = .ok none := rfl
    simp only [TransactionQuery.filters, listingQuery, listingFilters, hstatuses, htext, huntil,
      hmetadata, bind, Except.bind, pure, Except.pure, Option.any_none, Option.any_false,
      Bool.false_eq_true, if_false]

/-- **A row matches the query exactly if it is wanted.** -/
lemma selects_iff_wanted (hrow : row.Dated) (hsince : ∀ d ∈ since, d.astimezoneUtc ≠ none) :
    (listingFilters status since metadata).selects db row = true ↔
      db.Wanted status since metadata row := by
  obtain ⟨t, hnonneg, hlt, hcreated, hutc⟩ := hrow
  have hutcText : row.utcText = (Datetime.ofInstant t).isoformat := by
    rw [TransactionRow.utcText, hutc, Option.elim_some]
  have hne : row.utcText ≠ "" := hutcText ▸ Datetime.isoformat_ofInstant_ne hnonneg hlt
  have hstatus : ((status.map Status.text).toList.isEmpty ||
      decide (row.status.text ∈ (status.map Status.text).toList)) =
        status.all fun status => decide (row.status.text = status.text) := by
    cases status <;> simp
  have htime : ((since.map fun d => (Datetime.ofInstant d.instant).isoformat).all
      fun text => decide (text ≤ row.utcText)) = true ↔
        ∀ d ∈ since, ∃ created ∈ row.createdAt, d.instant ≤ created.instant := by
    cases since with
    | none => simp
    | some d =>
      obtain ⟨u, hu⟩ := Option.ne_none_iff_exists'.mp (hsince d rfl)
      obtain ⟨⟨hd, hd'⟩, -⟩ := Datetime.astimezoneUtc_eq_iff.mp hu
      have hle := Datetime.isoformat_ofInstant_le hd hd' hnonneg hlt
      simp [hutcText, hle, hcreated]
  rw [Wanted, ← htime, QueryFilters.selects, QueryFilters.acceptsRow, listed, listingFilters]
  simp only [hstatus, hne, ne_eq, not_false_iff, decide_true, Bool.or_true, Bool.and_true,
    Option.all_none, Bool.and_eq_true, and_right_comm]

/-! ## Listings of saved transactions -/

/-- Every stored transaction can be loaded. -/
def Loads (db : TransactionDb) : Prop :=
  ∀ row ∈ db.transactions, ∃ tx revision, db.load row.id = .ok (tx, revision)

/-- The loads of rows that can be loaded are their transactions. -/
lemma loadListed_ok {rows : List TransactionRow} (hdb : db.Consistent) (hloads : db.Loads)
    (hrows : ∀ row ∈ rows, row ∈ db.transactions) :
    ∃ txs, db.loadListed (rows.map TransactionRow.id) = .ok txs ∧
      txs.map Transaction.id = rows.map TransactionRow.id ∧
      ∀ tx ∈ txs, ∃ revision, db.load tx.id = .ok (tx, revision) := by
  induction rows with
  | nil => exact ⟨[], rfl, rfl, by simp⟩
  | cons row rows ih =>
    rw [List.forall_mem_cons] at hrows
    obtain ⟨txs, htxs, hids, hall⟩ := ih hrows.2
    obtain ⟨tx, revision, hload⟩ := hloads row hrows.1
    obtain ⟨header, hheader, hid, -⟩ := load_header hload
    have hrowId : tx.id = row.id := hid.trans ((header_eq_some hdb).mp hheader).2
    obtain ⟨loaded, hloaded, h⟩ := Except.bind_eq_ok.mp htxs
    refine ⟨tx :: txs, ?_, by rw [List.map_cons, List.map_cons, hids, hrowId], ?_⟩
    · cases h
      rw [loadListed, List.map_cons, List.mapM_cons, hload]
      simp only [hloaded, bind, Except.bind, pure, Except.pure]
      rfl
    · rw [List.forall_mem_cons, hrowId]
      exact ⟨⟨revision, hload⟩, hall⟩

/-- The limits that list every row: those of SQLite's integers that are negative or not less than
the number of rows. -/
def Unbounded (limit : ℤ) (db : TransactionDb) : Prop :=
  -2 ^ 63 ≤ limit ∧ limit < 2 ^ 63 ∧ (limit < 0 ∨ db.transactions.length ≤ limit)

/-- What the listing functions return. -/
lemma listings_ok (hdb : db.Consistent) (hloads : db.Loads) (status : Option Status)
    (since : Option Datetime) (hmetadata : metadataFilterToStorage metadataFilter = .ok metadata)
    (hlimit : db.Unbounded limit) :
    ∃ txs, db.listTransactions status since metadataFilter limit = .ok txs ∧
      db.iterTransactions status since metadataFilter = .ok txs ∧
      txs.map Transaction.id = db.listedIds status since metadata ∧
      ∀ tx ∈ txs, ∃ revision, db.load tx.id = .ok (tx, revision) := by
  have hrows : ∀ row ∈ (db.transactions.filter (db.listed status since metadata)).insertionSort
      (fun a b => listedBefore a b = true), row ∈ db.transactions := fun row hrow =>
    List.mem_of_mem_filter ((List.mem_insertionSort _).mp hrow)
  obtain ⟨txs, htxs, hids, hall⟩ := loadListed_ok hdb hloads hrows
  have hlength : (db.listedIds status since metadata).length ≤ db.transactions.length := by
    rw [listedIds, List.length_map, List.length_insertionSort]
    exact List.length_filter_le _ _
  have hlimited : limited limit (db.listedIds status since metadata) =
      db.listedIds status since metadata := by
    unfold limited
    split
    · rfl
    · exact List.take_of_length_le (by have := hlimit.2.2; omega)
  refine ⟨txs, ?_, ?_, hids, hall⟩
  · rw [listTransactions, hmetadata]
    change (if _ then _ else _) = _
    rw [if_neg (by have := hlimit.1; have := hlimit.2.1; omega), hlimited]
    exact htxs
  · rw [iterTransactions, hmetadata]
    exact htxs

/-- **The listing functions agree with the query**: both return the transactions that match and
were created at or after `since`, in the order of the ids of the query pages, which come to an
end with every limit. -/
def ListingsAgree (status : Option Status) (since : Option Datetime)
    (metadataFilter : Option PyVal) (metadata : List (String × PyVal)) (limit : ℤ)
    (db : TransactionDb) : Prop :=
  ∃ txs, db.listTransactions status since metadataFilter limit = .ok txs ∧
    db.iterTransactions status since metadataFilter = .ok txs ∧
    (∀ tx ∈ txs, ∃ revision, db.load tx.id = .ok (tx, revision)) ∧
    (∀ id, id ∈ txs.map Transaction.id ↔
      ∃ row, db.header id = some row ∧ db.Wanted status since metadata row) ∧
    (∀ pageLimit, 1 ≤ pageLimit ∧ pageLimit ≤ queryMaxLimit → ∃ k pages,
      QueryPages (listingQuery status since metadataFilter) none
        (List.replicate k (pageLimit, db)) pages ∧ TransactionPage.Complete pages) ∧
    ∀ (limits : List ℤ) pages, QueryPages (listingQuery status since metadataFilter) none
        (limits.map fun limit => (limit, db)) pages → TransactionPage.Complete pages →
      (pages.flatMap TransactionPage.transactions).map TransactionSummary.id =
        txs.map Transaction.id

/-- The rows that are listed are those of the query if the conditions agree. -/
lemma listedIds_eq (hdated : ∀ row ∈ db.transactions, row.Dated) {filters : QueryFilters}
    (h : ∀ row ∈ db.transactions,
      db.listed status since metadata row = true ↔ filters.selects db row = true) :
    db.listedIds status since metadata = (db.queryOrder filters none).map TransactionRow.id := by
  have hall : ∀ rows : List TransactionRow,
      rows.filter (afterCursor ((none : Option QueryCursor).map QueryCursor.position)) = rows :=
    fun rows => List.filter_eq_self.mpr fun _ _ => rfl
  have hfilter : db.transactions.filter (db.listed status since metadata) = db.matching filters :=
    List.filter_congr fun row hrow => Bool.eq_iff_iff.mpr (h row hrow)
  rw [listedIds, queryOrder, hall, hfilter]
  congr 1
  refine Keyset.insertionSort_congr fun a ha b hb => ?_
  rw [listedBefore, queryBefore, (hdated a (List.mem_of_mem_filter ha)).createdText,
    (hdated b (List.mem_of_mem_filter hb)).createdText]

end TransactionDb

/-- A query that pages to its end has filters and can join its metadata. -/
lemma QueryPages.filters {query : TransactionQuery} {cursor : Option QueryCursor}
    {reads : List (ℤ × TransactionDb)} {pages : List TransactionPage}
    (h : QueryPages query cursor reads pages) (hdone : TransactionPage.Complete pages) :
    ∃ filters, query.filters = .ok filters ∧ filters.metadata.length < sqliteMaxJoin := by
  obtain ⟨read, page, hpage⟩ : ∃ (read : ℤ × TransactionDb) (page : TransactionPage),
      read.2.queryTransactions query cursor read.1 = .ok page := by
    cases h with
    | stop => cases hdone
    | last read => exact ⟨_, _, read⟩
    | next read => exact ⟨_, _, read⟩
  obtain ⟨-, filters, hfilters, hjoin, -⟩ := TransactionDb.queryTransactions_ok hpage
  exact ⟨filters, hfilters, hjoin⟩

/-- Every transaction of a database that was filled by saves can be loaded. -/
lemma SaveRun.loads (h : SaveRun .empty calls db) : db.Loads := by
  obtain ⟨hdb, -⟩ := h.kept TransactionDb.consistent_empty
  intro row hrow
  have hheader := (TransactionDb.header_eq_some hdb).mpr ⟨hrow, rfl⟩
  have hne : db.header row.id ≠ none := by
    rw [hheader]
    exact Option.some_ne_none row
  obtain ⟨tx, -, hid, hkeeps⟩ := h.saved hne
  obtain ⟨header, -, -, hload, -⟩ := hkeeps.load hdb
  exact ⟨_, _, hid ▸ hload⟩

variable {status : Option Status} {since : Option Datetime} {metadataFilter : Option PyVal}
  {metadata : List (String × PyVal)} {limit : ℤ}

/-- **When the listing functions agree with the query** on a database of transactions that were
saved with aware creation times: exactly if SQLite can join the metadata of the filter, the
boundary has a UTC value, and no transaction that matches the other filters was created between the
instant of the boundary and the reading of its clock.

**Proof sketch.** Saved rows have one UTC value in both columns and can be loaded, so the listing
is the loads of its ids and the pages tile the rows of the query. The two conditions differ on a
row exactly if the text of the boundary misreads its instant. -/
theorem listings_agree_iff (h : SaveRun .empty calls db)
    (haware : ∀ entry ∈ calls, entry.2.isOk = true → entry.1.tx.createdAware = true)
    (hsince : ∀ d ∈ since, d.IsValid ∧ d.isAware = true)
    (hmetadata : metadataFilterToStorage metadataFilter = .ok metadata)
    (hlimit : db.Unbounded limit) :
    db.ListingsAgree status since metadataFilter metadata limit ↔
      metadata.length < sqliteMaxJoin ∧ (∀ d ∈ since, d.astimezoneUtc ≠ none) ∧
      ∀ row ∈ db.transactions, db.listed status none metadata row = true →
        ∀ d ∈ since, ∀ created ∈ row.createdAt, ¬ d.Misread created.instant := by
  obtain ⟨hdb, -⟩ := h.kept TransactionDb.consistent_empty
  have hdated := h.dated TransactionDb.consistent_empty (by simp [TransactionDb.empty]) haware
  have hsinceAware : ∀ d ∈ since, d.isAware = true := fun d hd => (hsince d hd).2
  obtain ⟨txs, hlist, hiter, hids, hloads⟩ :=
    TransactionDb.listings_ok hdb h.loads status since hmetadata hlimit
  have hmem : ∀ row ∈ db.transactions, row.id ∈ txs.map Transaction.id ↔
      db.listed status since metadata row = true := by
    intro row hrow
    rw [hids, TransactionDb.listedIds, List.mem_map]
    constructor
    · rintro ⟨row', hrow', hid⟩
      obtain ⟨hmem', hlisted⟩ := List.mem_filter.mp ((List.mem_insertionSort _).mp hrow')
      obtain rfl := hdb.transactions.eq hmem' hrow hid
      exact hlisted
    · exact fun hlisted =>
        ⟨row, (List.mem_insertionSort _).mpr (List.mem_filter.mpr ⟨hrow, hlisted⟩), rfl⟩
  constructor
  · rintro ⟨txs', hlist', -, -, hexact, hpages, -⟩
    obtain rfl : txs = txs' := Except.ok.inj (hlist.symm.trans hlist')
    obtain ⟨k, pages, hrun, hdone⟩ := hpages 1 (by decide)
    obtain ⟨filters, hfilters, hjoin⟩ := hrun.filters hdone
    obtain ⟨hutc, rfl⟩ := (TransactionDb.filters_listingQuery hmetadata hsinceAware).mp hfilters
    refine ⟨hjoin, hutc, fun row hrow => ?_⟩
    refine (TransactionDb.listed_iff_wanted (hdated row hrow) hsince).mp ?_
    rw [← hmem row hrow, hexact]
    constructor
    · rintro ⟨row', hrow', hwanted⟩
      obtain ⟨hmem', hid⟩ := (TransactionDb.header_eq_some hdb).mp hrow'
      obtain rfl := hdb.transactions.eq hmem' hrow hid
      exact hwanted
    · exact fun hwanted => ⟨row, (TransactionDb.header_eq_some hdb).mpr ⟨hrow, rfl⟩, hwanted⟩
  · rintro ⟨hjoin, hutc, hgap⟩
    have hwanted : ∀ row ∈ db.transactions, db.listed status since metadata row = true ↔
        db.Wanted status since metadata row := fun row hrow =>
      (TransactionDb.listed_iff_wanted (hdated row hrow) hsince).mpr (hgap row hrow)
    have hselects : ∀ row ∈ db.transactions, db.listed status since metadata row = true ↔
        (TransactionDb.listingFilters status since metadata).selects db row = true :=
      fun row hrow => (hwanted row hrow).trans
        (TransactionDb.selects_iff_wanted (hdated row hrow) hutc).symm
    have hfilters : (TransactionDb.listingQuery status since metadataFilter).filters =
        .ok (TransactionDb.listingFilters status since metadata) :=
      (TransactionDb.filters_listingQuery hmetadata hsinceAware).mpr ⟨hutc, rfl⟩
    refine ⟨txs, hlist, hiter, hloads, fun id => ?_, fun pageLimit hpageLimit => ?_,
      fun limits pages hrun hdone => ?_⟩
    · constructor
      · intro hid
        have hlisted := hid
        rw [hids, TransactionDb.listedIds, List.mem_map] at hlisted
        obtain ⟨row, hrow, rfl⟩ := hlisted
        have hrow := List.mem_of_mem_filter ((List.mem_insertionSort _).mp hrow)
        exact ⟨row, (TransactionDb.header_eq_some hdb).mpr ⟨hrow, rfl⟩,
          (hwanted row hrow).mp ((hmem row hrow).mp hid)⟩
      · rintro ⟨row, hrow, hw⟩
        obtain ⟨hmem', rfl⟩ := (TransactionDb.header_eq_some hdb).mp hrow
        exact (hmem row hmem').mpr ((hwanted row hmem').mpr hw)
    · exact exists_uniformPages hdb hfilters hjoin hpageLimit
    · rw [(hrun.static hdb hfilters).1 hdone, hids, TransactionDb.listedIds_eq hdated hselects,
        List.map_map]
      rfl

/-! ## Boundaries in other time zones -/

/-- One o'clock in the zone an hour east of UTC, which is midnight in UTC. -/
def eastern : Datetime := ⟨3600000000, some 3600000000⟩

/-- The sample is listed from its own creation time on. -/
theorem listings_agree_utc :
    (auditSaved .empty).ListingsAgree none (some ⟨0, some 0⟩) none [] (-1) := by
  have hrun : SaveRun .empty [(.plain auditSample, .ok ())] (auditSaved .empty) :=
    .cons ⟨.empty, .empty, .commit rfl⟩ (.nil _)
  refine (listings_agree_iff hrun ?_ ?_ rfl ?_).mpr ⟨by decide, ?_, ?_⟩
  · intro entry hentry _
    rw [List.mem_singleton.mp hentry]
    rfl
  · rintro d ⟨⟩
    exact ⟨Datetime.isValid_ofInstant le_rfl (by decide), rfl⟩
  · exact ⟨by decide, by decide, Or.inl (by decide)⟩
  · rintro d ⟨⟩
    decide
  · rintro row - - d ⟨⟩ created -
    unfold Datetime.Misread Datetime.instant
    simp only [Option.getD_some]
    omega

/-- The sample was created at midnight in UTC, but is not listed from that time on if it is given
with another offset. -/
theorem listings_differ : SaveRun .empty [(.plain auditSample, .ok ())] (auditSaved .empty) ∧
    auditSample.createdAware = true ∧ eastern.isAware = true ∧ eastern.instant = 0 ∧
    ¬ (auditSaved .empty).ListingsAgree none (some eastern) none [] (-1) := by
  refine ⟨.cons ⟨.empty, .empty, .commit rfl⟩ (.nil _), rfl, rfl, rfl, ?_⟩
  rintro ⟨txs, hlist, -, -, hexact, -⟩
  have hnone : (auditSaved .empty).listTransactions none (some eastern) none (-1) = .ok [] :=
    rfl
  obtain rfl := Except.ok.inj (hnone.symm.trans hlist)
  refine List.not_mem_nil ((hexact "t").mpr ⟨_, rfl, rfl, ?_⟩)
  rintro d ⟨⟩
  exact ⟨_, rfl, by decide⟩
