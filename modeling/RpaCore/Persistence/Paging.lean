import Mathlib.Data.List.Chain
import Mathlib.Data.Prod.Lex
import RpaCore.Checkpoint.Audit
import RpaCore.Persistence.Query

set_option relaxedAutoImplicit false
set_option autoImplicit false

/-!
# Pages of transactions

The pages of `query_transactions` are keyset pages: the order of a query is the order of the pairs
of a creation time, latest first, and an id. A traversal of a database that does not change tiles
the matching rows. A save moves the key of a transaction at most once, from the empty text towards
the front, so that saves between the reads never bring a transaction back.

## Main definitions

* `QueryFilters.selects`, `TransactionDb.queryOrder` — the matching rows, and their order.
* `QueryPages` — reads that follow `next_cursor`.

## Main results

* `TransactionDb.queryTransactions_eq` — a query is a keyset page.
* `transactionPages_exact` — what traversals return.
-/

/-! ## The order of a query -/

namespace TransactionRow

/-- What a query orders by: the creation time, descending, and the id. -/
def queryKey (row : TransactionRow) : Stringᵒᵈ ×ₗ String :=
  toLex (OrderDual.toDual row.utcText, row.id)

variable {a b : TransactionRow}

/-- The order of the keys, strictly. -/
lemma queryKey_lt_iff : a.queryKey < b.queryKey ↔
    b.utcText < a.utcText ∨ (a.utcText = b.utcText ∧ a.id < b.id) := by
  simp [queryKey, Prod.Lex.toLex_lt_toLex]

/-- `ORDER BY` is the order of the keys. -/
lemma queryBefore_iff : queryBefore a b = true ↔ a.queryKey ≤ b.queryKey := by
  simp [queryKey, queryBefore, Prod.Lex.toLex_le_toLex]

/-- A row without a creation time comes after the same row with one. -/
lemma queryKey_le (hid : a.id = b.id) (h : b.utcText = "" ∨ a.utcText = b.utcText) :
    a.queryKey ≤ b.queryKey := by
  rw [← queryBefore_iff, queryBefore]
  rcases h with h | h
  · by_cases heq : a.utcText = b.utcText
    · simp [heq, hid]
    · have hlt : "" < a.utcText := by
        have hne : a.utcText ≠ "" := fun h' => heq (h'.trans h.symm)
        rw [String.lt_iff_toList_lt]
        cases hl : a.utcText.toList with
        | nil => exact absurd (String.toList_inj.mp (hl.trans rfl)) hne
        | cons c cs => exact List.nil_lt_cons c cs
      simp [h, hlt]
  · simp [h, hid]

end TransactionRow

/-- The place of a cursor among the keys. -/
def QueryCursor.key (cursor : QueryCursor) : Stringᵒᵈ ×ₗ String :=
  toLex (OrderDual.toDual cursor.createdAtUtc, cursor.id)

/-- The position in a cursor. -/
def QueryCursor.position (cursor : QueryCursor) : String × String :=
  (cursor.createdAtUtc, cursor.id)

/-- The condition of a cursor is the strict order of the keys. -/
lemma afterCursor_eq (cursor : Option QueryCursor) (row : TransactionRow) :
    afterCursor (cursor.map QueryCursor.position) row =
      (cursor.map QueryCursor.key).all fun k => decide (k < row.queryKey) := by
  cases cursor with
  | none => rfl
  | some cursor =>
    have hlt : cursor.key < row.queryKey ↔ row.utcText < cursor.createdAtUtc ∨
        (row.utcText = cursor.createdAtUtc ∧ cursor.id < row.id) := by
      rw [QueryCursor.key, TransactionRow.queryKey, Prod.Lex.toLex_lt_toLex]
      exact or_congr Iff.rfl (and_congr_left fun _ => eq_comm)
    rw [Bool.eq_iff_iff, Option.map_some, Option.map_some, Option.all_some, decide_eq_true_eq, hlt]
    simp [afterCursor, QueryCursor.position]

/-! ## Matching rows -/

/-- The conditions of a query on a row. -/
def QueryFilters.selects (filters : QueryFilters) (db : TransactionDb) (row : TransactionRow) :
    Bool :=
  filters.acceptsRow row &&
    filters.metadata.all fun entry => db.metadata.any (MetadataRow.holds row.id entry)

/-- The cursor at a row. -/
def QueryFilters.cursorAt (filters : QueryFilters) (row : TransactionRow) : QueryCursor :=
  ⟨row.utcText, filters, row.id, queryPageFormatVersion⟩

/-- The query page that a keyset page makes. -/
def QueryFilters.pageOf (filters : QueryFilters) (page : Keyset.Page TransactionRow) :
    TransactionPage where
  transactions := page.records.map TransactionRow.summary
  hasMore := page.hasMore
  nextCursor := if page.hasMore then page.records.getLast?.map filters.cursorAt else none

/-- Joining with the rows that hold an entry leaves the rows that have one. -/
lemma joinMetadata_eq {metadata : List MetadataRow}
    (hk : Table.Keyed (fun row : MetadataRow => (row.transactionId, row.key)) metadata)
    (rows : List TransactionRow) (entry : String × PyVal) :
    joinMetadata metadata rows entry =
      rows.filter fun row => metadata.any (MetadataRow.holds row.id entry) := by
  induction rows with
  | nil => rfl
  | cons row rows ih =>
    have hcount : (metadata.filter (MetadataRow.holds row.id entry)).length ≤ 1 := by
      rw [← List.countP_eq_length_filter]
      refine hk.rowcount_le_one (k := (row.id, entry.1)) fun r hr => ?_
      simp only [MetadataRow.holds, Bool.and_eq_true, decide_eq_true_eq] at hr
      rw [hr.1.1, hr.1.2]
    have hany : metadata.any (MetadataRow.holds row.id entry) = true ↔
        metadata.filter (MetadataRow.holds row.id entry) ≠ [] := by
      rw [List.any_eq_true, ne_eq, List.filter_eq_nil_iff]
      push Not
      rfl
    unfold joinMetadata at ih ⊢
    rw [List.flatMap_cons, ih, List.filter_cons]
    cases hfound : metadata.filter (MetadataRow.holds row.id entry) with
    | nil => simp [hany, hfound]
    | cons r rs =>
      rw [hfound] at hcount
      obtain rfl : rs = [] := by
        simpa using hcount
      rw [if_pos (hany.mpr (by simp [hfound]))]
      rfl

/-- Joining with every entry leaves the rows that have all of them. -/
lemma foldl_joinMetadata {metadata : List MetadataRow}
    (hk : Table.Keyed (fun row : MetadataRow => (row.transactionId, row.key)) metadata)
    (entries : List (String × PyVal)) (rows : List TransactionRow) :
    entries.foldl (joinMetadata metadata) rows =
      rows.filter fun row => entries.all fun entry =>
        metadata.any (MetadataRow.holds row.id entry) := by
  induction entries generalizing rows with
  | nil => simp
  | cons entry entries ih =>
    rw [List.foldl_cons, ih, joinMetadata_eq hk, List.filter_filter]
    refine List.filter_congr fun row _ => ?_
    rw [List.all_cons, Bool.and_comm]

namespace TransactionDb

variable {db db' : TransactionDb} {query : TransactionQuery} {filters : QueryFilters}
  {cursor : Option QueryCursor} {limit : ℤ} {page : TransactionPage}

/-- The rows that match the filters. -/
def matching (filters : QueryFilters) (db : TransactionDb) : List TransactionRow :=
  db.transactions.filter (filters.selects db)

/-- The matching rows after a cursor, latest first and then by id. -/
def queryOrder (filters : QueryFilters) (cursor : Option QueryCursor) (db : TransactionDb) :
    List TransactionRow :=
  ((db.matching filters).filter (afterCursor (cursor.map QueryCursor.position))).insertionSort
    fun a b => queryBefore a b = true

/-- The matching rows after a cursor are the rows that its keyset page is a beginning of. -/
lemma queryOrder_eq (filters : QueryFilters) (cursor : Option QueryCursor) (db : TransactionDb) :
    db.queryOrder filters cursor =
      Keyset.select TransactionRow.queryKey (cursor.map QueryCursor.key) (db.matching filters) := by
  have hbefore : ∀ a b : TransactionRow, queryBefore a b = true ↔ a.queryKey ≤ b.queryKey :=
    fun _ _ => TransactionRow.queryBefore_iff
  rw [queryOrder, Keyset.sorted_eq_select hbefore (afterCursor_eq cursor)]

/-- The matching rows have distinct keys. -/
lemma matching_keyed (hdb : db.Consistent) (filters : QueryFilters) :
    Table.Keyed TransactionRow.queryKey (db.matching filters) := by
  have hid : ((db.matching filters).map TransactionRow.id).Nodup := hdb.transactions.filter _
  refine List.Nodup.of_map (fun k => (ofLex k).2) ?_
  rw [List.map_map]
  exact hid

/-- The rows of the `SELECT`. -/
lemma queryRows_eq (hdb : db.Consistent) (hjoin : filters.metadata.length < sqliteMaxJoin)
    (limit : ℕ) : db.queryRows filters (cursor.map QueryCursor.position) limit =
      .ok ((db.queryOrder filters cursor).take limit) := by
  rw [queryRows, if_neg (by omega), foldl_joinMetadata hdb.metadata, queryOrder, matching]
  simp only [List.filter_filter]
  congr 4
  funext row
  rw [QueryFilters.selects]
  cases filters.acceptsRow row <;>
    cases afterCursor (cursor.map QueryCursor.position) row <;> simp

/-- **A query is a keyset page** of the matching rows. -/
lemma queryTransactions_eq (hdb : db.Consistent) (hlimit : 1 ≤ limit ∧ limit ≤ queryMaxLimit)
    (hfilters : query.filters = .ok filters) (hjoin : filters.metadata.length < sqliteMaxJoin)
    (hcursor : ∀ c ∈ cursor, c.filters = filters ∧ c.version = queryPageFormatVersion) :
    db.queryTransactions query cursor limit = .ok (filters.pageOf (Keyset.page
      TransactionRow.queryKey (cursor.map QueryCursor.key) limit.toNat (db.matching filters))) := by
  have hposition : cursor.mapM (fun c => decodeQueryCursor c filters) =
      (.ok (cursor.map QueryCursor.position) : Except PyError _) := by
    cases cursor with
    | none => rfl
    | some c =>
      obtain ⟨hf, hv⟩ := hcursor c rfl
      simp only [Option.mapM_some, decodeQueryCursor, hf, hv, ne_eq, not_true_eq_false, if_false]
      rfl
  rw [queryTransactions, if_neg (by omega), hfilters]
  simp only [hposition, queryRows_eq hdb hjoin, bind, Except.bind, pure, Except.pure, queryOrder_eq]
  rfl

/-- What a query that returns has been given. -/
lemma queryTransactions_ok (h : db.queryTransactions query cursor limit = .ok page) :
    (1 ≤ limit ∧ limit ≤ queryMaxLimit) ∧ ∃ filters, query.filters = .ok filters ∧
      filters.metadata.length < sqliteMaxJoin ∧
      ∀ c ∈ cursor, c.filters = filters ∧ c.version = queryPageFormatVersion := by
  unfold queryTransactions at h
  split at h
  · cases h
  · next hlimit =>
    obtain ⟨filters, hfilters, h⟩ := Except.bind_eq_ok.mp h
    obtain ⟨position, hposition, h⟩ := Except.bind_eq_ok.mp h
    obtain ⟨rows, hrows, h⟩ := Except.bind_eq_ok.mp h
    refine ⟨by omega, filters, hfilters, ?_, ?_⟩
    · unfold queryRows at hrows
      split at hrows
      · cases hrows
      · omega
    · rintro c hc
      obtain rfl : cursor = some c := hc
      simp only [Option.mapM_some, decodeQueryCursor] at hposition
      split_ifs at hposition with hversion hsame
      · cases hposition
      · cases hposition
      · exact ⟨not_not.mp hsame, not_not.mp hversion⟩

end TransactionDb

/-! ## Traversals -/

/-- Reads that follow `next_cursor`, each with a limit and of a state of the database. -/
abbrev QueryPages (query : TransactionQuery) :
    Option QueryCursor → List (ℤ × TransactionDb) → List TransactionPage → Prop :=
  Keyset.Traversal (fun cursor read => read.2.queryTransactions query cursor read.1)
    TransactionPage.hasMore TransactionPage.nextCursor

/-- The last page says that there is no more. -/
abbrev TransactionPage.Complete : List TransactionPage → Prop :=
  Keyset.Ended TransactionPage.hasMore

variable {db : TransactionDb} {query : TransactionQuery} {filters : QueryFilters}
  {cursor : Option QueryCursor} {reads : List (ℤ × TransactionDb)} {pages : List TransactionPage}

/-- The cursor to a next page is at the last record of the page. -/
lemma QueryFilters.nextCursor_key (filters : QueryFilters) {page : Keyset.Page TransactionRow}
    (hmore : page.hasMore = true) :
    (filters.pageOf page).nextCursor.map QueryCursor.key = page.last TransactionRow.queryKey := by
  simp only [QueryFilters.pageOf, hmore, if_true, Keyset.Page.last, Option.map_map]
  rfl

/-- The cursor to a next page belongs to the query. -/
lemma QueryFilters.nextCursor_filters {page : Keyset.Page TransactionRow} :
    ∀ c ∈ (filters.pageOf page).nextCursor,
      c.filters = filters ∧ c.version = queryPageFormatVersion := by
  intro c hc
  simp only [QueryFilters.pageOf, Option.mem_def] at hc
  split at hc
  · obtain ⟨row, -, rfl⟩ := Option.map_eq_some_iff.mp hc
    exact ⟨rfl, rfl⟩
  · cases hc

/-- The matching rows that the reads of a traversal find. -/
def QueryFilters.found (filters : QueryFilters) (reads : List (ℤ × TransactionDb)) :
    List (ℕ × List TransactionRow) :=
  reads.map fun (limit, db) => (limit.toNat, db.matching filters)

/-- **A traversal consists of keyset pages.** -/
lemma QueryPages.eq (h : QueryPages query cursor reads pages)
    (hdb : ∀ read ∈ reads, read.2.Consistent) (hfilters : query.filters = .ok filters) :
    pages = (Keyset.pages TransactionRow.queryKey (cursor.map QueryCursor.key)
      (filters.found reads)).map filters.pageOf ∧ ∀ read ∈ filters.found reads, 0 < read.1 := by
  have hread : ∀ read ∈ reads, ∀ cursor page,
      read.2.queryTransactions query cursor read.1 = .ok page → 0 < read.1.toNat ∧
        page = filters.pageOf (Keyset.page TransactionRow.queryKey (cursor.map QueryCursor.key)
          read.1.toNat (read.2.matching filters)) := by
    intro read hmem cursor page hpage
    obtain ⟨hlimit, filters', hfilters', hjoin, hcursor⟩ := TransactionDb.queryTransactions_ok hpage
    rw [hfilters] at hfilters'
    cases hfilters'
    rw [TransactionDb.queryTransactions_eq (hdb read hmem) hlimit hfilters hjoin hcursor] at hpage
    cases hpage
    exact ⟨by omega, rfl⟩
  exact Keyset.Traversal.eq_map filters.pageOf h hread (fun _ => rfl)
    fun _ hmore => filters.nextCursor_key hmore

/-- The transactions of query pages are the summaries of the records. -/
lemma flatMap_pageOf (filters : QueryFilters) (kpages : List (Keyset.Page TransactionRow)) :
    (kpages.map filters.pageOf).flatMap TransactionPage.transactions =
      (kpages.flatMap Keyset.Page.records).map TransactionRow.summary := by
  rw [List.flatMap_map, List.map_flatMap]
  rfl

/-- A traversal of query pages ends as the one of keyset pages. -/
lemma complete_pageOf {kpages : List (Keyset.Page TransactionRow)} :
    TransactionPage.Complete (kpages.map filters.pageOf) ↔ Keyset.Complete kpages := by
  unfold TransactionPage.Complete Keyset.Ended Keyset.Complete
  rw [List.getLast?_map, Option.any_map]
  rfl

/-! ## A database that does not change -/

/-- The limits that `query_transactions` accepts. -/
def ValidLimits (limits : List ℤ) : Prop := ∀ limit ∈ limits, 1 ≤ limit ∧ limit ≤ queryMaxLimit

/-- A cursor of the query, if any. -/
def QueryFilters.Owns (filters : QueryFilters) (cursor : Option QueryCursor) : Prop :=
  ∀ c ∈ cursor, c.filters = filters ∧ c.version = queryPageFormatVersion

/-- The reads of a query that can be read go through. -/
lemma exists_queryPages (hdb : db.Consistent) (hfilters : query.filters = .ok filters)
    (hjoin : filters.metadata.length < sqliteMaxJoin) (hcursor : filters.Owns cursor)
    {limits : List ℤ} (hlimits : ValidLimits limits) :
    ∃ k pages, QueryPages query cursor ((limits.take k).map fun limit => (limit, db)) pages ∧
      pages = (Keyset.pagesOf TransactionRow.queryKey (cursor.map QueryCursor.key)
        (db.matching filters) (limits.map Int.toNat)).map filters.pageOf := by
  induction limits generalizing cursor with
  | nil => exact ⟨0, [], .stop cursor, rfl⟩
  | cons limit limits ih =>
    have hread := TransactionDb.queryTransactions_eq hdb (hlimits _ List.mem_cons_self) hfilters
      hjoin hcursor
    by_cases hmore : (Keyset.page TransactionRow.queryKey (cursor.map QueryCursor.key) limit.toNat
        (db.matching filters)).hasMore = true
    · obtain ⟨k, pages, hpages, heq⟩ := ih QueryFilters.nextCursor_filters
        fun n hn => hlimits n (List.mem_cons_of_mem _ hn)
      refine ⟨k + 1, _, .next hread hmore hpages, ?_⟩
      rw [heq, QueryFilters.nextCursor_key filters hmore]
      simp [Keyset.pagesOf, Keyset.pages, hmore]
    · rw [Bool.not_eq_true] at hmore
      refine ⟨1, _, .last hread hmore, ?_⟩
      simp [Keyset.pagesOf, Keyset.pages, hmore]

/-- The rows of a database that does not change are the same at every read. -/
lemma found_static (limits : List ℤ) :
    filters.found (limits.map fun limit => (limit, db)) =
      (limits.map Int.toNat).map fun limit => (limit, db.matching filters) := by
  simp [QueryFilters.found]

/-- **The pages of a database that does not change tile the matching rows.** -/
theorem QueryPages.static (hdb : db.Consistent) (hfilters : query.filters = .ok filters)
    {limits : List ℤ}
    (h : QueryPages query cursor (limits.map fun limit => (limit, db)) pages) :
    (TransactionPage.Complete pages → pages.flatMap TransactionPage.transactions =
      (db.queryOrder filters cursor).map TransactionRow.summary) ∧
    ∀ front page back, pages = front ++ page :: back →
      ∃ rest, (db.queryOrder filters cursor).map TransactionRow.summary =
          (front ++ [page]).flatMap TransactionPage.transactions ++ rest ∧
        (page.hasMore = true ↔ rest ≠ []) := by
  obtain ⟨rfl, hpos⟩ := h.eq (by simpa using fun _ _ => hdb) hfilters
  have hk := TransactionDb.matching_keyed hdb filters
  rw [found_static] at hpos ⊢
  have hpos' : ∀ n ∈ limits.map Int.toNat, 0 < n := fun n hn =>
    hpos _ (List.mem_map_of_mem (f := fun limit => (limit, db.matching filters)) hn)
  rw [TransactionDb.queryOrder_eq]
  refine ⟨fun hdone => ?_, fun front page back hsplit => ?_⟩
  · rw [flatMap_pageOf]
    exact congrArg (List.map TransactionRow.summary)
      (Keyset.pagesOf_complete hk hpos' (complete_pageOf.mp hdone))
  · obtain ⟨kfront, ktail, hkeyset, rfl, htail⟩ := List.map_eq_append_iff.mp hsplit
    obtain ⟨kpage, kback, rfl, rfl, rfl⟩ := List.map_eq_cons_iff.mp htail
    obtain ⟨rest, hrest, hiff⟩ := Keyset.pagesOf_split hk hpos' hkeyset
    refine ⟨rest.map TransactionRow.summary, ?_, ?_⟩
    · rw [hrest, List.map_append, ← flatMap_pageOf filters]
      simp
    · rw [ne_eq, List.map_eq_nil_iff]
      exact hiff

/-! ## Pages on the command line -/

/-- The first rows up to a cap, if there is one. -/
def capped {α : Type} (cap : Option ℤ) (rows : List α) : List α :=
  match cap with
  | none => rows
  | some cap => rows.take cap.toNat

/-- A page with its limit: the first rows, whether there are more, and what its cursor continues
with. -/
lemma queryTransactions_page (hdb : db.Consistent) (hfilters : query.filters = .ok filters)
    (hjoin : filters.metadata.length < sqliteMaxJoin) (hcursor : filters.Owns cursor) {limit : ℤ}
    (hlimit : 1 ≤ limit ∧ limit ≤ queryMaxLimit) :
    ∃ page, db.queryTransactions query cursor limit = .ok page ∧
      page.transactions =
        ((db.queryOrder filters cursor).take limit.toNat).map TransactionRow.summary ∧
      (page.hasMore = true ↔ limit.toNat < (db.queryOrder filters cursor).length) ∧
      filters.Owns page.nextCursor ∧
      (page.hasMore = true → page.nextCursor.isSome = true ∧
        db.queryOrder filters page.nextCursor =
          (db.queryOrder filters cursor).drop limit.toNat) := by
  have hk := TransactionDb.matching_keyed hdb filters
  have hpos : 0 < limit.toNat := by omega
  refine ⟨_, TransactionDb.queryTransactions_eq hdb hlimit hfilters hjoin hcursor, ?_, ?_,
    QueryFilters.nextCursor_filters, fun hmore => ?_⟩
  · rw [TransactionDb.queryOrder_eq, ← Keyset.page_records]
    rfl
  · rw [TransactionDb.queryOrder_eq, ← Keyset.page_hasMore]
    rfl
  · have hmore : (Keyset.page TransactionRow.queryKey (cursor.map QueryCursor.key) limit.toNat
        (db.matching filters)).hasMore = true := hmore
    obtain ⟨r, front, -, hlast⟩ := Keyset.last_of_hasMore hpos hmore
    have hnext := QueryFilters.nextCursor_key filters hmore
    constructor
    · rw [hlast] at hnext
      obtain ⟨c, hc, -⟩ := Option.map_eq_some_iff.mp hnext
      rw [hc]
      rfl
    · have htile := Keyset.select_eq_page (cursor.map QueryCursor.key) hk hpos
      rw [if_pos hmore, Keyset.page_records] at htile
      rw [TransactionDb.queryOrder_eq, TransactionDb.queryOrder_eq, hnext]
      have hsplit := List.take_append_drop limit.toNat (Keyset.select TransactionRow.queryKey
        (cursor.map QueryCursor.key) (db.matching filters))
      exact List.append_cancel_left (htile.symm.trans hsplit.symm)

/-- What is left of a cap after a page. -/
def TransactionPage.capLeft (page : TransactionPage) (cap : Option ℤ) : Option ℤ :=
  cap.map fun remaining => remaining - page.transactions.length

/-- The generator ends after a page. -/
def TransactionPage.Ends (page : TransactionPage) (cap : Option ℤ) : Prop :=
  page.hasMore = false ∨ ∃ remaining ∈ page.capLeft cap, remaining ≤ 0

/-- One advance of the generator that is its last one. -/
lemma iterTransactionPages_last {page : TransactionPage} {cap : Option ℤ}
    (states : List TransactionDb)
    (hread : db.queryTransactions query cursor (iterPageLimit cap) = .ok page)
    (hends : page.Ends cap) : ∃ records,
      iterTransactionPages query cap cursor (db :: states) = .ok [(page, records)] := by
  have hstop : (!page.hasMore || (page.capLeft cap).any fun remaining => remaining ≤ 0) = true := by
    rcases hends with h | ⟨remaining, hmem, hle⟩
    · simp [h]
    · simp [Option.mem_def.mp hmem, hle]
  refine ⟨db.loadListed (page.transactions.map TransactionSummary.id), ?_⟩
  rw [iterTransactionPages, hread]
  simp only [bind, Except.bind]
  exact if_pos hstop

/-- One advance of the generator that is not its last one. -/
lemma iterTransactionPages_next {page : TransactionPage} {cap : Option ℤ}
    {states : List TransactionDb}
    {rest : List (TransactionPage × Except PyError (List Transaction))}
    (hread : db.queryTransactions query cursor (iterPageLimit cap) = .ok page)
    (hends : ¬ page.Ends cap)
    (hrest : iterTransactionPages query (page.capLeft cap) page.nextCursor states = .ok rest) :
    ∃ records, iterTransactionPages query cap cursor (db :: states) =
      .ok ((page, records) :: rest) := by
  have hstop :
      ¬ (!page.hasMore || (page.capLeft cap).any fun remaining => remaining ≤ 0) = true := by
    intro h
    rcases Bool.or_eq_true_iff.mp h with h | h
    · exact hends (Or.inl (by simpa using h))
    · cases hleft : page.capLeft cap with
      | none =>
        rw [hleft] at h
        cases h
      | some remaining =>
        rw [hleft] at h
        exact hends (Or.inr ⟨remaining, hleft, by simpa using h⟩)
  refine ⟨db.loadListed (page.transactions.map TransactionSummary.id), ?_⟩
  rw [iterTransactionPages, hread]
  simp only [bind, Except.bind]
  refine (if_neg hstop).trans ?_
  rw [show (cap.map fun remaining : ℤ => remaining - page.transactions.length) =
    page.capLeft cap from rfl, hrest]
  rfl

/-- **The pages of the command line are the first matching rows up to the cap**; the last page has
more exactly if rows are left, and its cursor continues with them.

**Proof sketch.** Each page is a keyset page whose limit is what is left of the cap, at most the
size of a page; if it has more, it has as many rows as its limit. Induction on the reads. -/
lemma iterTransactionPages_static (hdb : db.Consistent) (hfilters : query.filters = .ok filters)
    (hjoin : filters.metadata.length < sqliteMaxJoin) (hcursor : filters.Owns cursor)
    {cap : Option ℤ} (hcap : ∀ c ∈ cap, 1 ≤ c) {n : ℕ}
    (hn : (db.queryOrder filters cursor).length < n) :
    ∃ yields last, iterTransactionPages query cap cursor (List.replicate n db) = .ok yields ∧
      (yields.map Prod.fst).getLast? = some last ∧
      (yields.map Prod.fst).flatMap TransactionPage.transactions =
        (capped cap (db.queryOrder filters cursor)).map TransactionRow.summary ∧
      (last.hasMore = true ↔ ∃ c ∈ cap, c < (db.queryOrder filters cursor).length) ∧
      ∀ c ∈ cap, last.hasMore = true → last.nextCursor.isSome ∧ filters.Owns last.nextCursor ∧
        db.queryOrder filters last.nextCursor =
          (db.queryOrder filters cursor).drop c.toNat := by
  induction n generalizing cursor cap with
  | zero => omega
  | succ n ih =>
    have hlimit : 1 ≤ iterPageLimit cap ∧ iterPageLimit cap ≤ queryMaxLimit ∧
        ∀ c ∈ cap, iterPageLimit cap ≤ c := by
      cases cap with
      | none => exact ⟨by decide, by decide, by simp⟩
      | some c =>
        have hc := hcap c rfl
        simp only [iterPageLimit, queryPageSize, queryMaxLimit, Option.mem_def, Option.some.injEq,
          forall_eq']
        omega
    obtain ⟨page, hread, hrecords, hmore, howns, hnext⟩ :=
      queryTransactions_page hdb hfilters hjoin hcursor ⟨hlimit.1, hlimit.2.1⟩
    have hlength : page.hasMore = true → (page.transactions.length : ℤ) = iterPageLimit cap := by
      intro h
      rw [hmore] at h
      rw [hrecords, List.length_map, List.length_take]
      omega
    generalize hS : db.queryOrder filters cursor = rows at *
    rw [List.replicate_succ]
    by_cases hfull : page.hasMore = true
    · obtain ⟨hsome, hdrop⟩ := hnext hfull
      have hlen := hlength hfull
      have hlt := hmore.mp hfull
      by_cases hends : page.Ends cap
      · -- the page fills the cap
        obtain ⟨records, hrun⟩ := iterTransactionPages_last (List.replicate n db) hread hends
        rcases hends with hlast | ⟨left, hleft, hle⟩
        · rw [hlast] at hfull
          cases hfull
        · obtain ⟨c, rfl, rfl⟩ := Option.map_eq_some_iff.mp hleft
          have hc : iterPageLimit (some c) = c := by
            have := hlimit.2.2 c rfl
            omega
          rw [hc] at hrecords hlt hdrop
          refine ⟨_, page, hrun, rfl, ?_, ?_, ?_⟩
          · rw [List.map_singleton, List.flatMap_singleton, hrecords]
            rfl
          · exact iff_of_true hfull ⟨c, rfl, by omega⟩
          · rintro c' hc' -
            cases hc'
            exact ⟨hsome, howns, hdrop⟩
      · -- the next pages are read from what is left
        have hsum : ∀ c ∈ cap, c.toNat = (iterPageLimit cap).toNat +
            (c - page.transactions.length).toNat := by
          intro c hc
          have := hlimit.2.2 c hc
          omega
        have hcap' : ∀ c ∈ page.capLeft cap, 1 ≤ c := by
          intro c hc
          by_contra hlt
          exact hends (Or.inr ⟨c, hc, by omega⟩)
        obtain ⟨rest, last, hrest, hlast, hrows, hiff, hafter⟩ := ih howns hcap' (by
          rw [hdrop, List.length_drop]
          omega)
        obtain ⟨records, hrun⟩ := iterTransactionPages_next hread hends hrest
        rw [hdrop] at hrows hiff hafter
        rw [List.length_drop] at hiff
        refine ⟨_, last, hrun, ?_, ?_, ?_, ?_⟩
        · rw [List.map_cons, List.getLast?_cons, hlast]
          rfl
        · rw [List.map_cons, List.flatMap_cons, hrows, hrecords, ← List.map_append]
          congr 1
          cases cap with
          | none => exact List.take_append_drop _ rows
          | some c =>
            rw [capped, hsum c rfl, List.take_add]
            rfl
        · rw [hiff]
          constructor
          · rintro ⟨left, hleft, hlt'⟩
            obtain ⟨c, hc, rfl⟩ := Option.map_eq_some_iff.mp hleft
            exact ⟨c, hc, by omega⟩
          · rintro ⟨c, hc, hlt'⟩
            exact ⟨_, Option.map_eq_some_iff.mpr ⟨c, hc, rfl⟩, by omega⟩
        · intro c hc hmore
          obtain ⟨hsome', howns', hrest'⟩ :=
            hafter _ (Option.map_eq_some_iff.mpr ⟨c, hc, rfl⟩) hmore
          refine ⟨hsome', howns', ?_⟩
          rw [hrest', List.drop_drop, hsum c hc]
    · -- everything is on this page
      have hends : page.Ends cap := Or.inl (by simpa using hfull)
      obtain ⟨records, hrun⟩ := iterTransactionPages_last (List.replicate n db) hread hends
      have hall : ¬ (iterPageLimit cap).toNat < rows.length := fun h => hfull (hmore.mpr h)
      refine ⟨_, page, hrun, rfl, ?_, ?_, fun c _ h => absurd h hfull⟩
      · rw [List.map_singleton, List.flatMap_singleton, hrecords,
          List.take_of_length_le (not_lt.mp hall)]
        cases cap with
        | none => rfl
        | some c =>
          have hc := hlimit.2.2 c rfl
          rw [capped, List.take_of_length_le (by omega)]
      · refine iff_of_false hfull ?_
        rintro ⟨c, hc, hlt⟩
        have := hlimit.2.2 c hc
        omega

/-! ## Saves between the reads -/

namespace TransactionDb

variable {tx : Transaction} {expectedRevision : Option ℤ} {queueItemId claimToken : String}
  {revision : ℤ} {db' d : TransactionDb}

/-- Every transaction is still there, and its key has not moved towards the end. -/
def KeysForward (db db' : TransactionDb) : Prop :=
  ∀ id row, db.header id = some row → ∃ row', db'.header id = some row' ∧
    row'.queryKey ≤ row.queryKey

/-- Keys that move twice have not moved towards the end. -/
lemma KeysForward.trans (h : db.KeysForward d) (h' : d.KeysForward db') : db.KeysForward db' := by
  intro id row hrow
  obtain ⟨row₁, hrow₁, hle₁⟩ := h id row hrow
  obtain ⟨row₂, hrow₂, hle₂⟩ := h' id row₁ hrow₁
  exact ⟨row₂, hrow₂, le_trans hle₂ hle₁⟩

/-- A write gives a row its first creation time, or leaves it. -/
lemma Written.keysForward
    (h : Written tx expectedRevision queueItemId claimToken db revision db') :
    db.KeysForward db' := by
  intro id row hrow
  by_cases hid : id = tx.id
  · subst hid
    refine ⟨_, h.header_self, ?_⟩
    have hprev : db.previous tx = row := by simp [previous, hrow]
    rw [hprev]
    refine TransactionRow.queryKey_le rfl ?_
    by_cases hnone : row.createdAtUtc = none
    · exact Or.inl (by simp [TransactionRow.utcText, hnone])
    · exact Or.inr (by simp [TransactionRow.utcText, TransactionRow.overwrite, hnone])
  · exact ⟨row, by rw [h.header_of_ne hid, hrow], le_refl _⟩

end TransactionDb

/-- A series of saves moves no key towards the end. -/
lemma SaveRun.keysForward {db db' : TransactionDb} {calls : List (SaveCall × Except PyError Unit)}
    (hdb : db.Consistent) (h : SaveRun db calls db') : db'.Consistent ∧ db.KeysForward db' := by
  induction h with
  | nil db => exact ⟨hdb, fun id row hrow => ⟨row, hrow, le_refl _⟩⟩
  | cons step rest ih =>
    rcases step.cases hdb with ⟨rfl, -⟩ | ⟨-, -, hd, _, _, _, _, hwritten⟩
    · exact ih hdb
    · obtain ⟨hconsistent, hforward⟩ := ih hd
      exact ⟨hconsistent, hwritten.keysForward.trans hforward⟩

/-- The states that the reads of a traversal find, with saves between them. -/
def SavesBetween (states : List TransactionDb) : Prop :=
  states.IsChain fun db db' => ∃ calls, SaveRun db calls db'

/-- Between any two reads the keys have only moved forward. -/
lemma SavesBetween.pairwise {states : List TransactionDb} (h : SavesBetween states)
    (hfirst : ∀ db ∈ states.head?, db.Consistent) :
    (∀ db ∈ states, db.Consistent) ∧ states.Pairwise TransactionDb.KeysForward := by
  induction states with
  | nil => exact ⟨by simp, List.Pairwise.nil⟩
  | cons db states ih =>
    have hdb : db.Consistent := hfirst db rfl
    cases states with
    | nil => exact ⟨by simpa using hdb, List.pairwise_singleton _ _⟩
    | cons d states =>
      obtain ⟨⟨calls, hrun⟩, hrest⟩ := List.isChain_cons_cons.mp h
      obtain ⟨hd, hforward⟩ := hrun.keysForward hdb
      obtain ⟨hall, hpairs⟩ := ih hrest (by simpa using hd)
      refine ⟨fun db' hdb' => ?_, List.pairwise_cons.mpr ⟨fun db' hdb' => ?_, hpairs⟩⟩
      · rcases List.mem_cons.mp hdb' with rfl | hdb'
        · exact hdb
        · exact hall db' hdb'
      · rcases List.mem_cons.mp hdb' with rfl | hdb'
        · exact hforward
        · exact hforward.trans ((List.pairwise_cons.mp hpairs).1 db' hdb')

/-- **A traversal returns no transaction twice**, also when saves come between its reads.

**Proof sketch.** The rows of a traversal have increasing keys, and a save never moves the key of a
transaction towards the end. -/
theorem QueryPages.nodup (h : QueryPages query cursor reads pages)
    (hsaves : SavesBetween (reads.map Prod.snd))
    (hfirst : ∀ db ∈ (reads.map Prod.snd).head?, db.Consistent) :
    ((pages.flatMap TransactionPage.transactions).map TransactionSummary.id).Nodup := by
  obtain ⟨hdb, hpairs⟩ := hsaves.pairwise hfirst
  have hconsistent : ∀ read ∈ reads, read.2.Consistent :=
    fun read hread => hdb _ (List.mem_map_of_mem hread)
  cases hfilters : query.filters with
  | error err =>
    cases h with
    | stop => exact List.nodup_nil
    | last read =>
      obtain ⟨-, filters, hok, -⟩ := TransactionDb.queryTransactions_ok read
      rw [hfilters] at hok
      cases hok
    | next read =>
      obtain ⟨-, filters, hok, -⟩ := TransactionDb.queryTransactions_ok read
      rw [hfilters] at hok
      cases hok
  | ok filters =>
    obtain ⟨rfl, hpos⟩ := h.eq hconsistent hfilters
    rw [flatMap_pageOf, List.map_map]
    refine Keyset.pages_distinct TransactionRow.id hpos ?_ ?_ ?_
    · intro read hread
      obtain ⟨⟨limit, db⟩, hmem, rfl⟩ := List.mem_map.mp hread
      exact TransactionDb.matching_keyed (hconsistent _ hmem) filters
    · intro read hread
      obtain ⟨⟨limit, db⟩, hmem, rfl⟩ := List.mem_map.mp hread
      exact (hconsistent _ hmem).transactions.filter _
    · refine List.pairwise_map.mpr ((List.pairwise_map.mp hpairs).imp_of_mem ?_)
      rintro ⟨limit, db⟩ ⟨limit', db'⟩ hmem hmem' hforward r hr r' hr' hid
      obtain ⟨hr, -⟩ := List.mem_filter.mp hr
      obtain ⟨hr', -⟩ := List.mem_filter.mp hr'
      obtain ⟨row', hrow', hle⟩ := hforward r.id r
        ((hconsistent _ hmem).transactions.find?_key.mpr ⟨hr, rfl⟩)
      obtain ⟨hmemrow, hidrow⟩ := (hconsistent _ hmem').transactions.find?_key.mp hrow'
      obtain rfl := (hconsistent _ hmem').transactions.eq hmemrow hr' (hidrow.trans hid)
      exact hle

/-- The rows of a query are the matching rows after the cursor, latest first and then by id. -/
lemma TransactionDb.queryOrder_spec (hdb : db.Consistent) (filters : QueryFilters)
    (cursor : Option QueryCursor) :
    ((db.queryOrder filters cursor).Pairwise fun a b =>
      b.utcText < a.utcText ∨ (a.utcText = b.utcText ∧ a.id < b.id)) ∧
    ∀ row, row ∈ db.queryOrder filters cursor ↔ row ∈ db.transactions ∧
      filters.selects db row = true ∧
        afterCursor (cursor.map QueryCursor.position) row = true := by
  constructor
  · rw [queryOrder_eq]
    exact (Keyset.pairwise_select _ (matching_keyed hdb filters)).imp
      fun h => TransactionRow.queryKey_lt_iff.mp h
  · intro row
    rw [queryOrder, List.mem_insertionSort, List.mem_filter, matching, List.mem_filter, and_assoc]

/-- Enough reads of a query that can be read come to an end. -/
lemma exists_completePages (hdb : db.Consistent) (hfilters : query.filters = .ok filters)
    (hjoin : filters.metadata.length < sqliteMaxJoin) (hcursor : filters.Owns cursor)
    {limits : List ℤ} (hlimits : ValidLimits limits)
    (hlength : (db.queryOrder filters cursor).length < limits.length) :
    ∃ k pages, QueryPages query cursor ((limits.take k).map fun limit => (limit, db)) pages ∧
      TransactionPage.Complete pages := by
  obtain ⟨k, pages, hpages, rfl⟩ := exists_queryPages hdb hfilters hjoin hcursor hlimits
  refine ⟨k, _, hpages, complete_pageOf.mpr ?_⟩
  refine Keyset.complete_pagesOf (TransactionDb.matching_keyed hdb filters) ?_ ?_
  · intro m hm
    obtain ⟨limit, hlimit, rfl⟩ := List.mem_map.mp hm
    have := hlimits limit hlimit
    omega
  · rw [← TransactionDb.queryOrder_eq, List.length_map]
    exact hlength

/-- Pages of one size come to an end. -/
lemma exists_uniformPages (hdb : db.Consistent) (hfilters : query.filters = .ok filters)
    (hjoin : filters.metadata.length < sqliteMaxJoin) {limit : ℤ}
    (hlimit : 1 ≤ limit ∧ limit ≤ queryMaxLimit) :
    ∃ k pages, QueryPages query none (List.replicate k (limit, db)) pages ∧
      TransactionPage.Complete pages := by
  have hlimits : ValidLimits (List.replicate ((db.queryOrder filters none).length + 1) limit) :=
    fun l hl => List.eq_of_mem_replicate hl ▸ hlimit
  obtain ⟨k, pages, hpages, hdone⟩ := exists_completePages hdb hfilters hjoin
    (show filters.Owns none by simp [QueryFilters.Owns]) hlimits (by simp)
  rw [List.take_replicate, List.map_replicate] at hpages
  exact ⟨_, pages, hpages, hdone⟩

/-- **Transaction pages are complete and free of duplicates.** On a database that does not change,
the pages from a cursor on tile the matching rows after it, a page has more exactly if rows are
left, and enough reads come to an end; the pages of the command line are the first rows up to the
cap, and the cursor of the last one continues with the row after them. If saves come before and
between the reads, still no transaction is returned twice.

**Proof sketch.** A query page is a keyset page of the matching rows, whose keys are distinct; the
rest is the library on keyset pages, and that saves move keys only forward. -/
theorem transactionPages_exact (hdb : db.Consistent) (hfilters : query.filters = .ok filters) :
    (((db.queryOrder filters cursor).Pairwise fun a b =>
        b.utcText < a.utcText ∨ (a.utcText = b.utcText ∧ a.id < b.id)) ∧
      ∀ row, row ∈ db.queryOrder filters cursor ↔ row ∈ db.transactions ∧
        filters.selects db row = true ∧
          afterCursor (cursor.map QueryCursor.position) row = true) ∧
    (∀ (limits : List ℤ) pages,
        QueryPages query cursor (limits.map fun limit => (limit, db)) pages →
      (TransactionPage.Complete pages → pages.flatMap TransactionPage.transactions =
        (db.queryOrder filters cursor).map TransactionRow.summary) ∧
      ∀ front page back, pages = front ++ page :: back →
        ∃ rest, (db.queryOrder filters cursor).map TransactionRow.summary =
            (front ++ [page]).flatMap TransactionPage.transactions ++ rest ∧
          (page.hasMore = true ↔ rest ≠ [])) ∧
    (filters.metadata.length < sqliteMaxJoin → filters.Owns cursor →
      (∀ limits : List ℤ, ValidLimits limits →
          (db.queryOrder filters cursor).length < limits.length →
        ∃ k pages, QueryPages query cursor ((limits.take k).map fun limit => (limit, db)) pages ∧
          TransactionPage.Complete pages) ∧
      ∀ cap : Option ℤ, (∀ c ∈ cap, 1 ≤ c) → ∀ n, (db.queryOrder filters cursor).length < n →
        ∃ yields last, iterTransactionPages query cap cursor (List.replicate n db) = .ok yields ∧
          (yields.map Prod.fst).getLast? = some last ∧
          (yields.map Prod.fst).flatMap TransactionPage.transactions =
            (capped cap (db.queryOrder filters cursor)).map TransactionRow.summary ∧
          (last.hasMore = true ↔ ∃ c ∈ cap, c < (db.queryOrder filters cursor).length) ∧
          ∀ c ∈ cap, last.hasMore = true → ∃ next, last.nextCursor = some next ∧
            ∀ limit, 1 ≤ limit ∧ limit ≤ queryMaxLimit → ∃ page,
              db.queryTransactions query (some next) limit = .ok page ∧
                page.transactions = (((db.queryOrder filters cursor).drop c.toNat).take
                  limit.toNat).map TransactionRow.summary) ∧
    ∀ reads pages, SavesBetween (db :: reads.map Prod.snd) → QueryPages query cursor reads pages →
      ((pages.flatMap TransactionPage.transactions).map TransactionSummary.id).Nodup := by
  refine ⟨db.queryOrder_spec hdb filters cursor, fun limits pages h => h.static hdb hfilters,
    fun hjoin hcursor => ⟨fun limits hlimits hlength => ?_, fun cap hcap n hn => ?_⟩,
    fun reads pages hsaves h => ?_⟩
  · exact exists_completePages hdb hfilters hjoin hcursor hlimits hlength
  · obtain ⟨yields, last, hrun, hlast, hrows, hiff, hafter⟩ :=
      iterTransactionPages_static hdb hfilters hjoin hcursor hcap hn
    refine ⟨yields, last, hrun, hlast, hrows, hiff, fun c hc hmore => ?_⟩
    obtain ⟨hsome, howns, hrest⟩ := hafter c hc hmore
    obtain ⟨next, hnext⟩ := Option.isSome_iff_exists.mp hsome
    refine ⟨next, hnext, fun limit hlimit => ?_⟩
    obtain ⟨page, hread, hrecords, -⟩ :=
      queryTransactions_page hdb hfilters hjoin howns hlimit
    rw [hnext] at hread hrest hrecords
    exact ⟨page, hread, by rw [hrecords, hrest]⟩
  · obtain ⟨hall, -⟩ := hsaves.pairwise (by simpa using hdb)
    refine h.nodup (List.IsChain.tail hsaves) fun d hd => hall d ?_
    exact List.mem_cons_of_mem _ (List.mem_of_mem_head? hd)

/-- The query for every transaction. -/
def sampleQuery : TransactionQuery := ⟨none, none, none, none, none⟩

/-- A second transaction, created later. -/
def laterSample : Transaction :=
  .create "ref" "u" ⟨1, some 0⟩ [.create "first" 1] .empty

/-- A database with two transactions, the filters of the query and two pages of one transaction
each, the second one read with the cursor of the first. -/
def twoPages :
    Except PyError (TransactionDb × QueryFilters × TransactionPage × TransactionPage) := do
  let db ← TransactionDb.empty.save auditSample
  let db ← db.save laterSample
  let filters ← sampleQuery.filters
  let page ← db.queryTransactions sampleQuery none 1
  let last ← db.queryTransactions sampleQuery page.nextCursor 1
  return (db, filters, page, last)

/-- The two pages are the two transactions, the later one first. -/
theorem transactionPages_exact_sample : ∃ db page last,
    QueryPages sampleQuery none [(1, db), (1, db)] [page, last] ∧ page.hasMore = true ∧
      TransactionPage.Complete [page, last] ∧
        ([page, last].flatMap TransactionPage.transactions).map TransactionSummary.id =
          ["u", "t"] := by
  have hchecked : twoPages.toOption.any
      (fun (r : TransactionDb × QueryFilters × TransactionPage × TransactionPage) =>
        r.2.2.1.hasMore && !r.2.2.2.hasMore && decide
          (((r.1.queryOrder r.2.1 none).map TransactionRow.summary).map TransactionSummary.id =
            ["u", "t"])) = true := by
    decide +kernel
  cases htwo : twoPages with
  | error err =>
    rw [htwo] at hchecked
    cases hchecked
  | ok r =>
    rw [htwo] at hchecked
    obtain ⟨first, hfirst, h⟩ := Except.bind_eq_ok.mp htwo
    obtain ⟨db, hsecond, h⟩ := Except.bind_eq_ok.mp h
    obtain ⟨filters, hfilters, h⟩ := Except.bind_eq_ok.mp h
    obtain ⟨page, hpage, h⟩ := Except.bind_eq_ok.mp h
    obtain ⟨last, hlast, h⟩ := Except.bind_eq_ok.mp h
    cases h
    simp only [Except.toOption, Option.any_some, Bool.and_eq_true, Bool.not_eq_true',
      decide_eq_true_eq] at hchecked
    obtain ⟨⟨hmore, hdone⟩, hids⟩ := hchecked
    have hsaved : SaveRun .empty
        [(.plain auditSample, .ok ()), (.plain laterSample, .ok ())] db := by
      refine .cons (d := first) ⟨.empty, .empty, .commit ?_⟩
        (.cons ⟨.empty, .empty, .commit ?_⟩ (.nil _))
      · simp only [SaveCall.run, Store.save, hfirst]
        rfl
      · simp only [SaveCall.run, Store.save, hsecond]
        rfl
    obtain ⟨hdb, -⟩ := hsaved.kept TransactionDb.consistent_empty
    have hrun : QueryPages sampleQuery none [(1, db), (1, db)] [page, last] :=
      .next hpage hmore (.last hlast hdone)
    have hcomplete : TransactionPage.Complete [page, last] := by simp [Keyset.Ended, hdone]
    obtain ⟨-, hpages, -⟩ := @transactionPages_exact _ _ _ none hdb hfilters
    refine ⟨db, page, last, hrun, hmore, hcomplete, ?_⟩
    rw [(hpages [1, 1] _ hrun).1 hcomplete, hids]
