import Mathlib.Data.List.Chain
import Mathlib.Data.Prod.Lex
import Mathlib.Data.String.Basic
import Mathlib.Logic.Relation
import RpaCore.Queue.Read

set_option relaxedAutoImplicit false
set_option autoImplicit false

/-!
# Pages of queue records

The pages of the queue queries are keyset pages, by creation time and id for items and by number
for attempts and poison events. No operation changes these keys or removes a record, so that the
operations that come between the reads neither repeat a record nor drop one that stays selected.

## Main definitions

* `QueueInterleaving` — the states that the reads of a traversal find.

## Main results

* `queryQueueItems_page`, `queryEvents_eq` — the queries are keyset pages.
* `queuePages_stable` — what traversals return.
-/

/-! ## Operations between the reads -/

namespace QueueDb

/-- What a statement of any worker does to the tables. -/
def Step (db db' : QueueDb) : Prop :=
  ∃ (op : QueueOp) (s s' : QueueSystem) (r : op.Res), op.Exec s r s' ∧ s.db = db ∧ s'.db = db'

/-- A statement keeps the records. -/
lemma Step.grows {db db' : QueueDb} (h : db.Step db') : db.Grows db' := by
  obtain ⟨op, s, s', r, hexec, rfl, rfl⟩ := h
  rcases hexec.db with heq | ⟨v, hrun⟩
  · rw [heq]
    exact .refl _
  · exact QueueOp.run_grows hrun

/-- Statements keep the records. -/
lemma grows_of_steps {db db' : QueueDb} (h : Relation.ReflTransGen Step db db') :
    db.Grows db' := by
  induction h with
  | refl => exact .refl db
  | tail _ hlast ih => exact ih.trans hlast.grows

end QueueDb

/-- The states that reads find when any statements of any workers come between them. -/
def QueueInterleaving (states : List QueueDb) : Prop :=
  states.IsChain (Relation.ReflTransGen QueueDb.Step)

/-- The calls of a run send such statements. -/
lemma QueueDb.steps_of_run {t : List QueueLabel} {P P' : QueuePool}
    (h : queueMachine.Run QueueCall P t P') :
    Relation.ReflTransGen QueueDb.Step P.shared.db P'.shared.db := by
  refine h.induct (I := fun _ s => Relation.ReflTransGen QueueDb.Step P.shared.db s.db) .refl ?_ ?_
  · intro _ _ _ _ _ _ hI
    exact hI
  · intro _ _ op r _ s s' _ hexec hI
    exact hI.tail ⟨op, s, s', r, hexec, rfl, rfl⟩

/-- All states have keys, and the later ones have the records of the earlier ones. -/
lemma QueueInterleaving.grows {states : List QueueDb} (h : QueueInterleaving states)
    (hfirst : ∀ db ∈ states.head?, db.Numbered) :
    (∀ db ∈ states, db.Numbered) ∧ states.Pairwise QueueDb.Grows := by
  induction states with
  | nil => exact ⟨by simp, List.Pairwise.nil⟩
  | cons db states ih =>
    have hdb : db.Numbered := hfirst db rfl
    cases states with
    | nil => exact ⟨by simpa using hdb, List.pairwise_singleton _ _⟩
    | cons d states =>
      obtain ⟨hsteps, hrest⟩ := List.isChain_cons_cons.mp h
      have hgrows := QueueDb.grows_of_steps hsteps
      obtain ⟨hall, hpairs⟩ := ih hrest (by simpa using hgrows.numbered hdb)
      refine ⟨fun db' hdb' => ?_, List.pairwise_cons.mpr ⟨fun db' hdb' => ?_, hpairs⟩⟩
      · rcases List.mem_cons.mp hdb' with rfl | hdb'
        · exact hdb
        · exact hall db' hdb'
      · rcases List.mem_cons.mp hdb' with rfl | hdb'
        · exact hgrows
        · exact hgrows.trans ((List.pairwise_cons.mp hpairs).1 db' hdb')

/-! ## Items -/

/-- The key of an item, in the lexicographic order. -/
def QueueRow.pageKey (row : QueueRow) : String ×ₗ String := toLex row.orderKey

/-- The place of an item cursor. -/
def QueuePosition.itemPlace : QueuePosition → String ×ₗ String
  | .item createdAt id => toLex (createdAt, id)
  | .sequence _ => toLex ("", "")

/-- `ORDER BY created_at ASC, id ASC` is the order of the keys. -/
lemma QueueRow.before_iff {a b : QueueRow} :
    QueueDb.before a b = true ↔ a.pageKey ≤ b.pageKey := by
  simp [QueueRow.pageKey, QueueRow.orderKey, QueueDb.before, Prod.Lex.toLex_le_toLex]

/-- The filters of an item query. -/
def itemFilters (statuses : Option (List QueueStatus)) : QueueFilters :=
  .items (statuses.map fun statuses =>
    (statuses.map QueueStatus.text).dedup.insertionSort fun a b => a ≤ b)

/-- An item page shows a keyset page. -/
structure ShowsItems (jsonLoads : String → Except PyError PyVal) (filters : QueueFilters)
    (page : Keyset.Page QueueRow) (shown : QueuePage QueueItem) : Prop where
  records : page.records.mapM (rowToItem jsonLoads) = .ok shown.records
  hasMore : shown.hasMore = page.hasMore
  nextCursor : shown.nextCursor = if page.hasMore then page.records.getLast?.map fun row =>
    ⟨filters, .item row.createdAt.isoformat row.id, queueCursorVersion⟩ else none

/-- **An item query is a keyset page** of the items with a selected status. -/
lemma queryQueueItems_page {jsonLoads : String → Except PyError PyVal}
    {statuses : Option (List QueueStatus)} {cursor : Option QueueCursor} {limit : ℤ} {db : QueueDb}
    {shown : QueuePage QueueItem}
    (h : db.queryQueueItems jsonLoads statuses cursor limit = .ok shown) :
    0 < limit.toNat ∧ ShowsItems jsonLoads (itemFilters statuses) (Keyset.page QueueRow.pageKey
      (cursor.map fun c => c.position.itemPlace) limit.toNat
        (db.items.filter (statusSelected statuses))) shown := by
  obtain ⟨_, hlimit, h⟩ := Except.bind_eq_ok.mp h
  obtain ⟨position, hposition, h⟩ := Except.bind_eq_ok.mp h
  obtain ⟨records, hrecords, h⟩ := Except.bind_eq_ok.mp h
  cases h
  have hpos : 0 < limit.toNat := by
    unfold validatedLimit at hlimit
    split at hlimit
    · cases hlimit
    · omega
  have hplace : ∀ row : QueueRow, (position.all fun x => decide (x.1 < row.createdAt.isoformat) ||
      (decide (row.createdAt.isoformat = x.1) && decide (x.2 < row.id))) =
      ((cursor.map fun c => c.position.itemPlace).all fun k => decide (k < row.pageKey)) := by
    intro row
    rcases optionMapM_ok hposition with ⟨rfl, rfl⟩ | ⟨c, ⟨createdAt, id⟩, rfl, hc, rfl⟩
    · rfl
    · obtain ⟨place, hdecoded, htexts⟩ := Except.bind_eq_ok.mp hc
      have hplace : c.position = .item createdAt id := by
        unfold decodedCursor at hdecoded
        split_ifs at hdecoded
        cases hdecoded
        cases hpos : c.position with
        | item createdAt' id' =>
          rw [hpos] at htexts
          cases htexts
          rfl
        | sequence n =>
          rw [hpos] at htexts
          cases htexts
      have hlt : toLex (createdAt, id) < row.pageKey ↔ createdAt < row.createdAt.isoformat ∨
          (row.createdAt.isoformat = createdAt ∧ id < row.id) := by
        rw [QueueRow.pageKey, QueueRow.orderKey, Prod.Lex.toLex_lt_toLex]
        exact or_congr Iff.rfl (and_congr_left fun _ => eq_comm)
      rw [Option.map_some, Option.all_some, Option.all_some, hplace, QueuePosition.itemPlace,
        Bool.eq_iff_iff, decide_eq_true_eq, hlt]
      simp
  have hbefore : ∀ a b : QueueRow, QueueDb.before a b = true ↔ a.pageKey ≤ b.pageKey :=
    fun _ _ => QueueRow.before_iff
  have hsplit : (db.items.filter fun row => statusSelected statuses row &&
      position.all fun x => decide (x.1 < row.createdAt.isoformat) ||
        (decide (row.createdAt.isoformat = x.1) && decide (x.2 < row.id))) =
      (db.items.filter (statusSelected statuses)).filter fun row =>
        position.all fun x => decide (x.1 < row.createdAt.isoformat) ||
          (decide (row.createdAt.isoformat = x.1) && decide (x.2 < row.id)) := by
    rw [List.filter_filter]
    exact List.filter_congr fun row _ => Bool.and_comm _ _
  rw [hsplit, Keyset.sorted_eq_select hbefore hplace] at hrecords ⊢
  exact ⟨hpos, ⟨hrecords, rfl, rfl⟩⟩

/-- A decoded item has the key of its row. -/
lemma rowToItem_key {jsonLoads : String → Except PyError PyVal} {row : QueueRow} {item : QueueItem}
    (h : rowToItem jsonLoads row = .ok item) :
    (item.createdAt.isoformat, item.id) = row.orderKey := by
  obtain ⟨payload, -, h⟩ := Except.bind_eq_ok.mp h
  obtain ⟨_, -, h⟩ := Except.bind_eq_ok.mp h
  cases h
  rfl

/-- Decoded rows have the keys of the rows. -/
lemma mapM_rowToItem_key {jsonLoads : String → Except PyError PyVal} {rows : List QueueRow}
    {items : List QueueItem} (h : rows.mapM (rowToItem jsonLoads) = .ok items) :
    items.map (fun item => (item.createdAt.isoformat, item.id)) = rows.map QueueRow.orderKey := by
  induction rows generalizing items with
  | nil =>
    cases h
    rfl
  | cons row rows ih =>
    rw [List.mapM_cons] at h
    obtain ⟨item, hitem, h⟩ := Except.bind_eq_ok.mp h
    obtain ⟨rest, hrest, h⟩ := Except.bind_eq_ok.mp h
    cases h
    rw [List.map_cons, List.map_cons, rowToItem_key hitem, ih hrest]

/-- The items on pages have the keys of the rows on the keyset pages. -/
lemma ShowsItems.keys {jsonLoads : String → Except PyError PyVal} {filters : QueueFilters}
    {pages : List (Keyset.Page QueueRow)} {shown : List (QueuePage QueueItem)}
    (h : List.Forall₂ (ShowsItems jsonLoads filters) pages shown) :
    (shown.flatMap QueuePage.records).map (fun item => (item.createdAt.isoformat, item.id)) =
      (pages.flatMap Keyset.Page.records).map QueueRow.orderKey := by
  induction h with
  | nil => rfl
  | cons himage _ ih =>
    rw [List.flatMap_cons, List.flatMap_cons, List.map_append, List.map_append, ih,
      mapM_rowToItem_key himage.records]

/-- Reads of item pages that follow `next_cursor`. -/
abbrev QueueItemPages (jsonLoads : String → Except PyError PyVal)
    (statuses : Option (List QueueStatus)) :
    Option QueueCursor → List (ℤ × QueueDb) → List (QueuePage QueueItem) → Prop :=
  Keyset.Traversal (fun cursor read => read.2.queryQueueItems jsonLoads statuses cursor read.1)
    QueuePage.hasMore QueuePage.nextCursor

/-- An item keeps its key. -/
lemma QueueDb.Grows.orderKey {db db' : QueueDb} (h : db.Grows db') (hdb' : db'.Numbered)
    {row row' : QueueRow} (hrow : row ∈ db.items) (hrow' : row' ∈ db'.items)
    (hid : row.id = row'.id) : row'.orderKey = row.orderKey := by
  obtain ⟨row₁, hrow₁, hkey⟩ :=
    List.mem_map.mp (h.items.subset (List.mem_map_of_mem (f := QueueRow.orderKey) hrow))
  have hid₁ : row₁.id = row.id := congrArg Prod.snd hkey
  rw [← hdb'.items.eq hrow₁ hrow' (hid₁.trans hid)]
  exact hkey

/-- The rows with a selected status that the reads find. -/
def selectedItems (statuses : Option (List QueueStatus)) (reads : List (ℤ × QueueDb)) :
    List (ℕ × List QueueRow) :=
  reads.map fun read => (read.1.toNat, read.2.items.filter (statusSelected statuses))

/-- **Item pages neither repeat nor drop an item.**

**Proof sketch.** The pages show keyset pages by creation time and id, and an item keeps both. -/
theorem queueItemPages_stable {db : QueueDb} (hdb : db.Numbered) {reads : List (ℤ × QueueDb)}
    (hstates : QueueInterleaving (db :: reads.map Prod.snd))
    {jsonLoads : String → Except PyError PyVal} {statuses : Option (List QueueStatus)}
    {cursor : Option QueueCursor} {pages : List (QueuePage QueueItem)}
    (h : QueueItemPages jsonLoads statuses cursor reads pages) :
    ((pages.flatMap QueuePage.records).Pairwise fun a b =>
      a.createdAt.isoformat < b.createdAt.isoformat ∨
        (a.createdAt.isoformat = b.createdAt.isoformat ∧ a.id < b.id)) ∧
    ((pages.flatMap QueuePage.records).map QueueItem.id).Nodup ∧
    (cursor = none → Keyset.Ended QueuePage.hasMore pages → ∀ id,
      (∀ read ∈ reads, ∃ row ∈ read.2.items, row.id = id ∧ statusSelected statuses row = true) →
        ((pages.flatMap QueuePage.records).map QueueItem.id).count id = 1) := by
  obtain ⟨hnumbered, hpairs⟩ := hstates.grows (by simpa using hdb)
  have hreads : ∀ read ∈ reads, read.2.Numbered := fun read hread =>
    hnumbered _ (List.mem_cons_of_mem _ (List.mem_map_of_mem hread))
  obtain ⟨hshows, hlimits⟩ := h.shows (ShowsItems jsonLoads (itemFilters statuses))
    (fun read _ cursor shown hread => queryQueueItems_page hread) (fun hshow => hshow.hasMore)
    (fun hshow hmore => by
      rw [hshow.nextCursor, if_pos hmore, Keyset.Page.last, Option.map_map]
      rfl)
  have hkeys : (pages.flatMap QueuePage.records).map
      (fun item => (item.createdAt.isoformat, item.id)) = ((Keyset.pages QueueRow.pageKey
        (cursor.map fun c => c.position.itemPlace) (selectedItems statuses reads)).flatMap
          Keyset.Page.records).map QueueRow.orderKey := ShowsItems.keys hshows
  have hkeyed : ∀ read ∈ selectedItems statuses reads, Table.Keyed QueueRow.id read.2 := by
    intro read hread
    obtain ⟨s, hs, rfl⟩ := List.mem_map.mp hread
    exact (hreads s hs).items.filter _
  have hkeyed' : ∀ read ∈ selectedItems statuses reads, Table.Keyed QueueRow.pageKey read.2 := by
    intro read hread
    refine List.Nodup.of_map (fun k => (ofLex k).2) ?_
    rw [List.map_map]
    exact hkeyed read hread
  have hsorted : ((Keyset.pages QueueRow.pageKey (cursor.map fun c => c.position.itemPlace)
      (selectedItems statuses reads)).flatMap Keyset.Page.records).Pairwise
        fun a b => a.pageKey < b.pageKey := Keyset.pages_pairwise _ hlimits hkeyed'
  have hnodup : (((Keyset.pages QueueRow.pageKey (cursor.map fun c => c.position.itemPlace)
      (selectedItems statuses reads)).flatMap Keyset.Page.records).map QueueRow.id).Nodup := by
    refine Keyset.pages_distinct QueueRow.id hlimits hkeyed' hkeyed ?_
    refine List.pairwise_map.mpr ((List.pairwise_map.mp (List.pairwise_cons.mp hpairs).2).imp_of_mem
      ?_)
    intro s s' hs hs' hgrows row hrow row' hrow' hid
    have hkey := hgrows.orderKey (hreads s' hs') (List.mem_of_mem_filter hrow)
      (List.mem_of_mem_filter hrow') hid
    rw [QueueRow.pageKey, QueueRow.pageKey, hkey]
  have hids : (pages.flatMap QueuePage.records).map QueueItem.id =
      ((Keyset.pages QueueRow.pageKey (cursor.map fun c => c.position.itemPlace)
        (selectedItems statuses reads)).flatMap Keyset.Page.records).map QueueRow.id := by
    have := congrArg (List.map Prod.snd) hkeys
    rwa [List.map_map, List.map_map] at this
  refine ⟨?_, hids ▸ hnodup, ?_⟩
  · have hpairs := (List.pairwise_map (f := QueueRow.orderKey)
      (R := fun a b => toLex a < toLex b)).mpr hsorted
    rw [← hkeys] at hpairs
    refine (List.pairwise_map.mp hpairs).imp fun hlt => ?_
    rwa [Prod.Lex.toLex_lt_toLex] at hlt
  · rintro rfl hended id hid
    have hdone := (Keyset.ended_iff hshows fun hshow => hshow.hasMore).mp hended
    cases reads with
    | nil => cases hdone
    | cons first reads =>
      obtain ⟨row, hrow, rfl, -⟩ := hid first List.mem_cons_self
      have hsel : ∀ read ∈ selectedItems statuses (first :: reads),
          ∃ r ∈ read.2, r.pageKey = row.pageKey := by
        intro read hread
        obtain ⟨s, hs, rfl⟩ := List.mem_map.mp hread
        obtain ⟨row', hrow', hid', hstatus⟩ := hid s hs
        have hgrows : first.2.Grows s.2 := by
          rcases List.mem_cons.mp hs with rfl | hs
          · exact .refl _
          · exact (List.pairwise_cons.mp (List.pairwise_cons.mp hpairs).2).1 _
              (List.mem_map_of_mem hs)
        refine ⟨row', List.mem_filter.mpr ⟨hrow', hstatus⟩, ?_⟩
        rw [QueueRow.pageKey, QueueRow.pageKey,
          hgrows.orderKey (hreads s hs) hrow hrow' hid'.symm]
      obtain ⟨r, hr, hkey⟩ := Keyset.mem_pages hlimits hkeyed' hsel (by simp) hdone
      refine List.count_eq_one_of_mem (hids ▸ hnodup) ?_
      rw [hids]
      have hrid : r.id = row.id := congrArg (fun k => (ofLex k).2) hkey
      exact hrid ▸ List.mem_map_of_mem hr

/-- A read with a valid limit, of items that decode. -/
structure DecodesItems (jsonLoads : String → Except PyError PyVal) (read : ℤ × QueueDb) : Prop where
  limit : 1 ≤ read.1 ∧ read.1 ≤ queryQueueMaxLimit
  decodes : ∀ row ∈ read.2.items, ∃ item, rowToItem jsonLoads row = .ok item

/-- A valid limit passes its check. -/
lemma validatedLimit_ok {limit : ℤ} (h : 1 ≤ limit ∧ limit ≤ queryQueueMaxLimit) :
    validatedLimit limit = .ok () := by
  unfold validatedLimit
  rw [if_neg (by omega)]

/-- Reads of items that decode go through. -/
lemma exists_queueItemPages {jsonLoads : String → Except PyError PyVal}
    (statuses : Option (List QueueStatus)) {reads : List (ℤ × QueueDb)}
    (hreads : ∀ read ∈ reads, DecodesItems jsonLoads read) :
    ∃ n pages, QueueItemPages jsonLoads statuses none (reads.take n) pages ∧
      (Keyset.Ended QueuePage.hasMore pages ∨ n = reads.length) := by
  refine Keyset.exists_traversal
    (fun cursor => ∀ c ∈ cursor, c.version = queueCursorVersion ∧
      c.filters = itemFilters statuses ∧ ∃ createdAt id, c.position = .item createdAt id)
    (by simp) ?_
  intro read hread cursor hcursor
  obtain ⟨position, hposition⟩ : ∃ position, (cursor.mapM fun cursor =>
      decodedCursor cursor (itemFilters statuses) >>= positionTexts) = .ok position := by
    cases cursor with
    | none => exact ⟨none, rfl⟩
    | some c =>
      obtain ⟨hversion, hfilters, createdAt, id, hplace⟩ := hcursor c rfl
      refine ⟨some (createdAt, id), ?_⟩
      have hdecoded : decodedCursor c (itemFilters statuses) = .ok (.item createdAt id) := by
        rw [decodedCursor, if_neg (not_not.mpr hversion), if_neg (not_not.mpr hfilters), hplace]
      rw [Option.mapM_some, hdecoded]
      rfl
  obtain ⟨records, hrecords⟩ : ∃ records, ((((read.2.items.filter fun row =>
      statusSelected statuses row && position.all fun x =>
        decide (x.1 < row.createdAt.isoformat) || (decide (row.createdAt.isoformat = x.1) &&
          decide (x.2 < row.id))).insertionSort fun a b => QueueDb.before a b = true).take
            (read.1.toNat + 1)).take read.1.toNat).mapM (rowToItem jsonLoads) = .ok records := by
    refine exists_mapM_ok fun row hrow => (hreads read hread).decodes row ?_
    have hrow := List.mem_of_mem_take (List.mem_of_mem_take hrow)
    exact List.mem_of_mem_filter ((List.mem_insertionSort _).mp hrow)
  refine ⟨_, Except.bind_eq_ok.mpr ⟨_, validatedLimit_ok (hreads read hread).limit,
    Except.bind_eq_ok.mpr ⟨position, hposition, Except.bind_eq_ok.mpr ⟨records, hrecords, rfl⟩⟩⟩,
    ?_⟩
  intro c hc
  simp only [Option.mem_def] at hc
  split_ifs at hc
  obtain ⟨row, -, rfl⟩ := Option.map_eq_some_iff.mp hc
  exact ⟨rfl, rfl, _, _, rfl⟩

/-! ## Events -/

section Events

variable {ρ : Type} {filters : Option String → QueueFilters} {sequence : ρ → ℕ}
  {owner : ρ → String} {itemId : Option String}

/-- The place of an event cursor. -/
def QueuePosition.eventPlace : QueuePosition → ℕ
  | .item _ _ => 0
  | .sequence n => n.toNat

/-- The event page that a keyset page makes. -/
def eventPage (filters : QueueFilters) (sequence : ρ → ℕ) (page : Keyset.Page ρ) :
    QueuePage ρ where
  records := page.records
  hasMore := page.hasMore
  nextCursor := if page.hasMore then page.records.getLast?.map fun row =>
    ⟨filters, .sequence (sequence row), queueCursorVersion⟩ else none

/-- The events of an item, or of all items. -/
def eventSelected (owner : ρ → String) (itemId : Option String) (row : ρ) : Bool :=
  itemId.all fun itemId => owner row = itemId

/-- **An event query is a keyset page** of the events of the item. -/
lemma queryEvents_eq {cursor : Option QueueCursor} {limit : ℤ} {events : List ρ}
    {shown : QueuePage ρ}
    (h : QueueDb.queryEvents filters sequence owner itemId cursor limit events = .ok shown) :
    0 < limit.toNat ∧ shown = eventPage (filters itemId) sequence (Keyset.page sequence
      (cursor.map fun c => c.position.eventPlace) limit.toNat
        (events.filter (eventSelected owner itemId))) := by
  obtain ⟨_, hlimit, h⟩ := Except.bind_eq_ok.mp h
  obtain ⟨_, -, h⟩ := Except.bind_eq_ok.mp h
  obtain ⟨position, hposition, h⟩ := Except.bind_eq_ok.mp h
  cases h
  have hpos : 0 < limit.toNat := by
    unfold validatedLimit at hlimit
    split at hlimit
    · cases hlimit
    · omega
  have hplace : ∀ row : ρ, (position.all fun n => decide (n < (sequence row : ℤ))) =
      ((cursor.map fun c => c.position.eventPlace).all fun k => decide (k < sequence row)) := by
    intro row
    rcases optionMapM_ok hposition with ⟨rfl, rfl⟩ | ⟨c, n, rfl, hc, rfl⟩
    · rfl
    · obtain ⟨place, hdecoded, hsequence⟩ := Except.bind_eq_ok.mp hc
      have hplace : c.position = .sequence n ∧ 0 ≤ n := by
        unfold decodedCursor at hdecoded
        split_ifs at hdecoded
        cases hdecoded
        unfold positionSequence at hsequence
        split at hsequence
        · cases hsequence
        · next m heq =>
          split_ifs at hsequence with hrange
          cases hsequence
          exact ⟨heq, hrange.1⟩
      rw [Option.map_some, Option.all_some, Option.all_some, hplace.1, QueuePosition.eventPlace,
        decide_eq_decide]
      omega
  have hsplit : (events.filter fun row => itemId.all (fun itemId => decide (owner row = itemId)) &&
      position.all fun n => decide (n < (sequence row : ℤ))) =
      (events.filter (eventSelected owner itemId)).filter fun row =>
        position.all fun n => decide (n < (sequence row : ℤ)) := by
    rw [List.filter_filter]
    exact List.filter_congr fun row _ => Bool.and_comm _ _
  rw [hsplit, Keyset.sorted_eq_select (fun _ _ => Iff.rfl) hplace]
  exact ⟨hpos, rfl⟩

/-- **Event pages neither repeat nor drop an event.**

**Proof sketch.** The pages are keyset pages by number, and an event keeps its number and item. -/
theorem eventPages_stable (events : QueueDb → List ρ)
    (hkeyed : ∀ {db : QueueDb}, db.Numbered → Table.Keyed sequence (events db))
    (hkept : ∀ {db db' : QueueDb}, db.Grows db' →
      (events db).map (fun row => (sequence row, owner row)) <+:
        (events db').map fun row => (sequence row, owner row))
    {db : QueueDb} (hdb : db.Numbered) {reads : List (ℤ × QueueDb)}
    (hstates : QueueInterleaving (db :: reads.map Prod.snd)) {cursor : Option QueueCursor}
    {pages : List (QueuePage ρ)}
    (h : Keyset.Traversal (fun cursor read => QueueDb.queryEvents filters sequence owner itemId
      cursor read.1 (events read.2)) QueuePage.hasMore QueuePage.nextCursor cursor reads pages) :
    ((pages.flatMap QueuePage.records).map sequence).Pairwise (· < ·) ∧
    (cursor = none → Keyset.Ended QueuePage.hasMore pages → ∀ row ∈ events db,
      eventSelected owner itemId row = true →
        ((pages.flatMap QueuePage.records).map sequence).count (sequence row) = 1) := by
  obtain ⟨hnumbered, hpairs⟩ := hstates.grows (by simpa using hdb)
  have hreads : ∀ read ∈ reads, read.2.Numbered := fun read hread =>
    hnumbered _ (List.mem_cons_of_mem _ (List.mem_map_of_mem hread))
  obtain ⟨rfl, hlimits⟩ := h.eq_map (eventPage (filters itemId) sequence)
    (fun read _ cursor shown hread => queryEvents_eq hread) (fun _ => rfl)
    (fun page hmore => by
      rw [eventPage, if_pos hmore, Keyset.Page.last, Option.map_map]
      exact congrArg (Option.map · _) (funext fun row => Int.toNat_natCast _))
  have hrecords : ∀ kpages : List (Keyset.Page ρ),
      (kpages.map (eventPage (filters itemId) sequence)).flatMap QueuePage.records =
        kpages.flatMap Keyset.Page.records := by
    intro kpages
    rw [List.flatMap_map]
    rfl
  have hkeyed' : ∀ read ∈ reads.map fun read =>
      (read.1.toNat, (events read.2).filter (eventSelected owner itemId)),
      Table.Keyed sequence read.2 := by
    intro read hread
    obtain ⟨s, hs, rfl⟩ := List.mem_map.mp hread
    exact (hkeyed (hreads s hs)).filter _
  have hsorted := Keyset.pages_pairwise (cursor.map fun c => c.position.eventPlace) hlimits hkeyed'
  rw [hrecords]
  refine ⟨List.pairwise_map.mpr hsorted, ?_⟩
  rintro rfl hended row hrow hselected
  have hdone : Keyset.Complete (Keyset.pages sequence none (reads.map fun read =>
      (read.1.toNat, (events read.2).filter (eventSelected owner itemId)))) := by
    unfold Keyset.Ended at hended
    rw [List.getLast?_map, Option.any_map] at hended
    exact hended
  have hsel : ∀ read ∈ reads.map fun read =>
      (read.1.toNat, (events read.2).filter (eventSelected owner itemId)),
      ∃ r ∈ read.2, sequence r = sequence row := by
    intro read hread
    obtain ⟨s, hs, rfl⟩ := List.mem_map.mp hread
    have hgrows : db.Grows s.2 :=
      (List.pairwise_cons.mp hpairs).1 _ (List.mem_map_of_mem hs)
    obtain ⟨r, hr, hkey⟩ := List.mem_map.mp ((hkept hgrows).subset
      (List.mem_map_of_mem (f := fun row => (sequence row, owner row)) hrow))
    obtain ⟨hsequence, howner⟩ := Prod.mk.inj hkey
    refine ⟨r, List.mem_filter.mpr ⟨hr, ?_⟩, hsequence⟩
    unfold eventSelected at hselected ⊢
    rwa [howner]
  obtain ⟨r, hr, hkey⟩ := Keyset.mem_pages hlimits hkeyed' hsel (by simp) hdone
  refine List.count_eq_one_of_mem ?_ ?_
  · exact (List.pairwise_map.mpr hsorted).imp fun hlt => Nat.ne_of_lt hlt
  · exact List.mem_map.mpr ⟨r, hr, hkey⟩

/-- Reads of events with valid limits, and numbers that SQLite stores, go through. -/
lemma exists_eventPages (events : QueueDb → List ρ)
    (hitem : validatedOptionalItemId itemId = .ok ()) {reads : List (ℤ × QueueDb)}
    (hlimits : ∀ read ∈ reads, 1 ≤ read.1 ∧ read.1 ≤ queryQueueMaxLimit)
    (hnumbers : ∀ read ∈ reads, ∀ row ∈ events read.2, sequence row < 2 ^ 63) :
    ∃ n pages, Keyset.Traversal (fun cursor read =>
      QueueDb.queryEvents filters sequence owner itemId cursor read.1 (events read.2))
        QueuePage.hasMore QueuePage.nextCursor none (reads.take n)
        pages ∧ (Keyset.Ended QueuePage.hasMore pages ∨ n = reads.length) := by
  refine Keyset.exists_traversal
    (fun cursor => ∀ c ∈ cursor, c.version = queueCursorVersion ∧
      c.filters = filters itemId ∧ ∃ k < 2 ^ 63, c.position = .sequence (k : ℕ)) (by simp) ?_
  intro read hread cursor hcursor
  obtain ⟨position, hposition⟩ : ∃ position, (cursor.mapM fun cursor =>
      decodedCursor cursor (filters itemId) >>= positionSequence) = .ok position := by
    cases cursor with
    | none => exact ⟨none, rfl⟩
    | some c =>
      obtain ⟨hversion, hfilters, k, hk, hplace⟩ := hcursor c rfl
      refine ⟨some k, ?_⟩
      have hdecoded : decodedCursor c (filters itemId) = .ok (.sequence k) := by
        rw [decodedCursor, if_neg (not_not.mpr hversion), if_neg (not_not.mpr hfilters), hplace]
      have hsequence : positionSequence (.sequence k) = .ok (k : ℤ) := by
        rw [positionSequence, if_pos (by omega)]
      rw [Option.mapM_some, hdecoded]
      exact Except.bind_eq_ok.mpr ⟨k, hsequence, rfl⟩
  refine ⟨_, Except.bind_eq_ok.mpr ⟨_, validatedLimit_ok (hlimits read hread),
    Except.bind_eq_ok.mpr ⟨_, hitem, Except.bind_eq_ok.mpr ⟨position, hposition, rfl⟩⟩⟩, ?_⟩
  intro c hc
  simp only [Option.mem_def] at hc
  split_ifs at hc
  obtain ⟨row, hrow, rfl⟩ := Option.map_eq_some_iff.mp hc
  have hrow := List.mem_of_mem_take (List.mem_of_mem_take (List.mem_of_getLast? hrow))
  have hrow := List.mem_of_mem_filter ((List.mem_insertionSort _).mp hrow)
  exact ⟨rfl, rfl, _, hnumbers read hread row hrow, rfl⟩

end Events

/-- Reads of attempt pages that follow `next_cursor`. -/
abbrev QueueAttemptPages (itemId : Option String) :
    Option QueueCursor → List (ℤ × QueueDb) → List (QueuePage QueueAttemptRow) → Prop :=
  Keyset.Traversal (fun cursor read => read.2.queryQueueAttempts itemId cursor read.1)
    QueuePage.hasMore QueuePage.nextCursor

/-- Reads of poison event pages that follow `next_cursor`. -/
abbrev QueuePoisonPages (itemId : Option String) :
    Option QueueCursor → List (ℤ × QueueDb) → List (QueuePage QueuePoisonRow) → Prop :=
  Keyset.Traversal (fun cursor read => read.2.queryQueuePoisonEvents itemId cursor read.1)
    QueuePage.hasMore QueuePage.nextCursor

/-- **Queue pages neither repeat nor drop stable records.** Whatever statements any workers send
before and between the reads: items are returned in the order of creation time and id, no item
twice, and an item that every read finds with a selected status exactly once if the traversal
starts at the first page and comes to its end; likewise attempts and poison events, where every
record of the item that was there before the first page is returned. Reads of records that decode
go through.

**Proof sketch.** The queries are keyset pages, and a statement neither changes a key nor removes a
record. -/
theorem queuePages_stable {db : QueueDb} (hdb : db.Numbered) {reads : List (ℤ × QueueDb)}
    (hstates : QueueInterleaving (db :: reads.map Prod.snd)) :
    (∀ jsonLoads statuses, ((∀ read ∈ reads, DecodesItems jsonLoads read) →
      ∃ n pages, QueueItemPages jsonLoads statuses none (reads.take n) pages ∧
        (Keyset.Ended QueuePage.hasMore pages ∨ n = reads.length)) ∧
      ∀ cursor pages, QueueItemPages jsonLoads statuses cursor reads pages →
        ((pages.flatMap QueuePage.records).Pairwise fun a b =>
          a.createdAt.isoformat < b.createdAt.isoformat ∨
            (a.createdAt.isoformat = b.createdAt.isoformat ∧ a.id < b.id)) ∧
        ((pages.flatMap QueuePage.records).map QueueItem.id).Nodup ∧
        (cursor = none → Keyset.Ended QueuePage.hasMore pages → ∀ id,
          (∀ read ∈ reads, ∃ row ∈ read.2.items, row.id = id ∧ statusSelected statuses row = true) →
            ((pages.flatMap QueuePage.records).map QueueItem.id).count id = 1)) ∧
    (∀ itemId, (validatedOptionalItemId itemId = .ok () →
        (∀ read ∈ reads, 1 ≤ read.1 ∧ read.1 ≤ queryQueueMaxLimit) →
        (∀ read ∈ reads, ∀ row ∈ read.2.attempts, row.sequence < 2 ^ 63) →
      ∃ n pages, QueueAttemptPages itemId none (reads.take n) pages ∧
        (Keyset.Ended QueuePage.hasMore pages ∨ n = reads.length)) ∧
      ∀ cursor pages, QueueAttemptPages itemId cursor reads pages →
        ((pages.flatMap QueuePage.records).map QueueAttemptRow.sequence).Pairwise (· < ·) ∧
        (cursor = none → Keyset.Ended QueuePage.hasMore pages → ∀ row ∈ db.attempts,
          eventSelected QueueAttemptRow.itemId itemId row = true →
            ((pages.flatMap QueuePage.records).map QueueAttemptRow.sequence).count row.sequence =
              1)) ∧
    ∀ itemId, (validatedOptionalItemId itemId = .ok () →
        (∀ read ∈ reads, 1 ≤ read.1 ∧ read.1 ≤ queryQueueMaxLimit) →
        (∀ read ∈ reads, ∀ row ∈ read.2.poison, row.sequence < 2 ^ 63) →
      ∃ n pages, QueuePoisonPages itemId none (reads.take n) pages ∧
        (Keyset.Ended QueuePage.hasMore pages ∨ n = reads.length)) ∧
      ∀ cursor pages, QueuePoisonPages itemId cursor reads pages →
        ((pages.flatMap QueuePage.records).map QueuePoisonRow.sequence).Pairwise (· < ·) ∧
        (cursor = none → Keyset.Ended QueuePage.hasMore pages → ∀ row ∈ db.poison,
          eventSelected QueuePoisonRow.itemId itemId row = true →
            ((pages.flatMap QueuePage.records).map QueuePoisonRow.sequence).count row.sequence =
              1) := by
  refine ⟨fun jsonLoads statuses => ⟨exists_queueItemPages statuses, fun cursor pages h =>
    queueItemPages_stable hdb hstates h⟩, fun itemId => ⟨fun hitem hlimits hnumbers =>
      exists_eventPages QueueDb.attempts hitem hlimits hnumbers, fun cursor pages h => ?_⟩,
    fun itemId => ⟨fun hitem hlimits hnumbers =>
      exists_eventPages QueueDb.poison hitem hlimits hnumbers, fun cursor pages h => ?_⟩⟩
  · exact eventPages_stable QueueDb.attempts QueueDb.Numbered.attempts QueueDb.Grows.attempts hdb
      hstates h
  · exact eventPages_stable QueueDb.poison QueueDb.Numbered.poison QueueDb.Grows.poison hdb hstates
      h

/-- The pool after process 0 has added an item and a second one, created later. -/
def twoItemsPool : QueuePool :=
  addedPool.solve (QueueOp.answer ⟨0, some 0⟩) 0
    ((plainQueue.add { plainItem with id := "j", createdAt := ⟨1, some 0⟩ }).program fun _ => .done)

/-- The pool after process 1 has then claimed the first item. -/
def firstClaimedPool : QueuePool :=
  twoItemsPool.solve (QueueOp.answer ⟨0, some 0⟩) 1 (plainQueue.nextItemCall "w" 1)

/-- The pages of one pending item each, where the first item is claimed between the reads. -/
def pendingPages : Except PyError (QueuePage QueueItem × QueuePage QueueItem) := do
  let page ← twoItemsPool.shared.db.queryQueueItems plainQueue.jsonLoads (some [.pending]) none 1
  let last ← firstClaimedPool.shared.db.queryQueueItems plainQueue.jsonLoads (some [.pending])
    page.nextCursor 1
  return (page, last)

/-- A page is read, an item is claimed, and the next page is read: the item that stays pending is
returned once. -/
theorem queuePages_stable_claimBetween : ∃ page last,
    QueueItemPages plainQueue.jsonLoads (some [.pending]) none
      [(1, twoItemsPool.shared.db), (1, firstClaimedPool.shared.db)] [page, last] ∧
    page.hasMore = true ∧ Keyset.Ended QueuePage.hasMore [page, last] ∧
      (([page, last].flatMap QueuePage.records).map QueueItem.id).count "j" = 1 := by
  have hidle : QueueRun [] idlePool := .nil _
  have hnone : idlePool.shared.ShortTokens := by
    simp [QueueSystem.ShortTokens, QueueSystem.init, idlePool]
  obtain ⟨hadd, hshort⟩ := Machine.Run.solve (QueueOp.exec_answer ⟨0, some 0⟩) hidle hnone
    (p := 0) rfl (QueueCall.add plainQueue plainItem ⟨rfl, rfl, rfl, rfl⟩)
  obtain ⟨htwo, hshort⟩ := Machine.Run.solve (QueueOp.exec_answer ⟨0, some 0⟩) hadd hshort (p := 0)
    rfl (QueueCall.add plainQueue { plainItem with id := "j", createdAt := ⟨1, some 0⟩ }
      ⟨rfl, rfl, rfl, rfl⟩)
  obtain ⟨hclaim, -⟩ := Machine.Run.solve (QueueOp.exec_answer ⟨0, some 0⟩)
    (Machine.Run.nil twoItemsPool) hshort (p := 1) rfl (QueueCall.nextItem plainQueue "w" 1)
  have hstates : QueueInterleaving (QueueDb.empty :: [((1 : ℤ), twoItemsPool.shared.db),
      (1, firstClaimedPool.shared.db)].map Prod.snd) :=
    .cons_cons (QueueDb.steps_of_run htwo) (.cons_cons (QueueDb.steps_of_run hclaim) (.singleton _))
  have hempty : QueueDb.empty.Numbered := ⟨List.nodup_nil, List.nodup_nil, List.nodup_nil⟩
  have hchecked : pendingPages.toOption.any (fun r => r.1.hasMore && !r.2.hasMore) = true := by
    decide +kernel
  cases hpages : pendingPages with
  | error err =>
    rw [hpages] at hchecked
    cases hchecked
  | ok r =>
    rw [hpages] at hchecked
    obtain ⟨page, hpage, h⟩ := Except.bind_eq_ok.mp hpages
    obtain ⟨last, hlast, h⟩ := Except.bind_eq_ok.mp h
    cases h
    simp only [Except.toOption, Option.any_some, Bool.and_eq_true, Bool.not_eq_true'] at hchecked
    obtain ⟨hmore, hdone⟩ := hchecked
    have hrun : QueueItemPages plainQueue.jsonLoads (some [.pending]) none
        [(1, twoItemsPool.shared.db), (1, firstClaimedPool.shared.db)] [page, last] :=
      .next hpage hmore (.last hlast hdone)
    have hended : Keyset.Ended QueuePage.hasMore [page, last] := by simp [Keyset.Ended, hdone]
    refine ⟨page, last, hrun, hmore, hended, ?_⟩
    refine (((queuePages_stable hempty hstates).1 plainQueue.jsonLoads (some [.pending])).2 none _
      hrun).2.2 rfl hended "j" ?_
    simp only [List.forall_mem_cons]
    exact ⟨by decide +kernel, by decide +kernel, by simp⟩
