import RpaCore.Persistence.Accepted
import RpaCore.Persistence.Paging
import RpaCore.Recovery.Resume

set_option relaxedAutoImplicit false
set_option autoImplicit false

/-!
# Transactions next to each other

Saving a transaction leaves the rows of the others alone, so nothing that is read of another one
changes. Whether it succeeds may depend on another one, since two transactions may spell the key of
a step row in the same way.

## Main definitions

* `TransactionDb.SameReads` — two databases with which a transaction is read alike.

## Main results

* `TransactionDb.SameReads.of_part` — reading a transaction uses its own rows.
* `save_independent_iff` — when saving one transaction is independent of another.
-/

namespace TransactionDb

variable {db db' : TransactionDb} {id : String} {filters : QueryFilters}
  {cursor : Option QueryCursor}

/-- What `load_transaction`, `resume_transaction` and all pages of `query_transactions` return for
a transaction is the same. -/
structure SameReads (id : String) (db db' : TransactionDb) : Prop where
  load : db'.load id = db.load id
  resume : ∀ steps retryBusinessFailures definitionIdentity now,
    db'.resumeTransaction id steps retryBusinessFailures definitionIdentity now =
      db.resumeTransaction id steps retryBusinessFailures definitionIdentity now
  query : ∀ query cursor (limits limits' : List ℤ) pages pages',
    QueryPages query cursor (limits.map fun limit => (limit, db)) pages →
    TransactionPage.Complete pages →
    QueryPages query cursor (limits'.map fun limit => (limit, db')) pages' →
    TransactionPage.Complete pages' →
      (pages'.flatMap TransactionPage.transactions).filter (fun summary => summary.id = id) =
        (pages.flatMap TransactionPage.transactions).filter fun summary => summary.id = id

/-- A transaction matches a query by its own rows. -/
lemma filter_matching (filters : QueryFilters) (db : TransactionDb) (id : String) :
    (db.matching filters).filter (fun row => row.id = id) = (db.part id).matching filters := by
  rw [matching, matching, List.filter_filter, part, List.filter_filter]
  refine List.filter_congr fun row _ => ?_
  by_cases hid : row.id = id
  · simp only [hid, decide_true, Bool.true_and, Bool.and_true, QueryFilters.selects]
    congr 1
    refine List.all_congr rfl fun entry => ?_
    rw [Bool.eq_iff_iff, List.any_eq_true, List.any_eq_true]
    refine exists_congr fun held => ?_
    rw [List.mem_filter, and_assoc]
    refine and_congr_right fun _ => ⟨fun h => ⟨?_, h⟩, And.right⟩
    simp only [MetadataRow.holds, Bool.and_eq_true] at h
    exact h.1.1
  · simp [hid]

/-- The rows of a query that belong to a transaction are those its own rows give. -/
lemma filter_queryOrder (hdb : db.Consistent) (filters : QueryFilters)
    (cursor : Option QueryCursor) (id : String) :
    (db.queryOrder filters cursor).filter (fun row => row.id = id) =
      (db.part id).queryOrder filters cursor := by
  have hperm : ((db.queryOrder filters cursor).filter fun row => row.id = id).Perm
      ((db.part id).queryOrder filters cursor) := by
    refine ((List.perm_insertionSort _ _).filter _).trans (.trans ?_
      (List.perm_insertionSort _ _).symm)
    rw [List.filter_filter, ← filter_matching, List.filter_filter]
    refine .of_eq (List.filter_congr fun row _ => Bool.and_comm _ _)
  -- there is at most one such row
  have hnodup : (((db.queryOrder filters cursor).filter fun row => row.id = id).map
      TransactionRow.id).Nodup := by
    have hmatching : ((db.matching filters).map TransactionRow.id).Nodup :=
      hdb.transactions.filter _
    refine List.Nodup.sublist (List.filter_sublist.map _) ?_
    exact ((List.perm_insertionSort _ _).map _).nodup_iff.mpr
      (hmatching.sublist (List.filter_sublist.map _))
  generalize hl : (db.queryOrder filters cursor).filter (fun row => row.id = id) = l at hperm hnodup
  match l with
  | [] => exact hperm.nil_eq
  | [row] => exact List.singleton_perm.mp hperm
  | a :: b :: rest =>
    have hid : ∀ row ∈ a :: b :: rest, row.id = id := by
      intro row hrow
      rw [← hl] at hrow
      simpa using (List.mem_filter.mp hrow).2
    rw [List.map_cons, List.map_cons, List.nodup_cons] at hnodup
    have heq : a.id = b.id := (hid a (by simp)).trans (hid b (by simp)).symm
    simp [heq] at hnodup

/-- **Reading a transaction uses its own rows.** -/
lemma SameReads.of_part (hdb : db.Consistent) (hdb' : db'.Consistent)
    (hpart : db'.part id = db.part id) : SameReads id db db' := by
  have hload : db'.load id = db.load id := by
    rw [TransactionDb.load, ← readRows_part, hpart, readRows_part, TransactionDb.load]
  refine ⟨hload, fun _ _ _ _ => by rw [resumeTransaction, hload, resumeTransaction], ?_⟩
  intro query cursor limits limits' pages pages' h hcomplete h' hcomplete'
  have hfilter : ∀ d : TransactionDb, d.Consistent → ∀ filters : QueryFilters,
      ((d.queryOrder filters cursor).map TransactionRow.summary).filter
        (fun summary => summary.id = id) =
          ((d.part id).queryOrder filters cursor).map TransactionRow.summary := by
    intro d hd filters
    rw [List.filter_map, ← filter_queryOrder hd]
    rfl
  cases hf : query.filters with
  | error err =>
    -- a page cannot be read
    have hnone : ∀ (d : TransactionDb) cursor limit page,
        d.queryTransactions query cursor limit ≠ .ok page := by
      intro d cursor limit page hpage
      obtain ⟨-, filters, hfilters, -⟩ := queryTransactions_ok hpage
      rw [hf] at hfilters
      cases hfilters
    generalize (limits.map fun limit => (limit, db)) = reads at h
    cases h with
    | stop => exact absurd hcomplete (by simp [TransactionPage.Complete, Keyset.Ended])
    | last answer => exact absurd answer (hnone _ _ _ _)
    | next answer => exact absurd answer (hnone _ _ _ _)
  | ok filters =>
    rw [(QueryPages.static hdb hf h).1 hcomplete, (QueryPages.static hdb' hf h').1 hcomplete',
      hfilter db hdb, hfilter db' hdb', hpart]

end TransactionDb

/-- **When saving a transaction is independent of another one.** In every database filled by saves,
for transactions with different ids: saving `tx` succeeds with the other transaction stored iff it
does without it, and changes nothing that is read of the other one, if and only if

* no stored step of the other transaction has the row key of a step of `tx`, or
* `tx` is refused in any case: it is not accepted, or a third transaction has such a step.

**Proof sketch.** What is read of a transaction comes from its own rows, which a save of another
one keeps. Whether a save succeeds is `TransactionDb.save_isOk_iff`, and only the step rows of the
other transactions matter for it. -/
theorem save_independent_iff {db : TransactionDb}
    {calls : List (SaveCall × Except PyError Unit)} (h : SaveRun .empty calls db)
    {tx : Transaction} {id : String} (hne : id ≠ tx.id) :
    (((∃ db', db.save tx = .ok db') ↔ ∃ db', (db.without id).save tx = .ok db') ∧
      ∀ db', db.save tx = .ok db' → db.SameReads id db') ↔
    ((∀ row ∈ db.steps, row.transactionId = id → row.id ∉ tx.steps.map (Step.rowId tx.id)) ∨
      ¬ db.Accepts tx ∨ ¬ (db.without id).FreeFor tx) := by
  obtain ⟨hdb, -⟩ := h.kept TransactionDb.consistent_empty
  have hreads : ∀ db', db.save tx = .ok db' → TransactionDb.SameReads id db db' := by
    intro db' hsave
    obtain ⟨_, -, hwrite⟩ := Except.bind_eq_ok.mp hsave
    obtain ⟨⟨revision, written⟩, hwrite, heq⟩ := Except.bind_eq_ok.mp hwrite
    cases heq
    obtain ⟨hdb', hwritten⟩ := TransactionDb.write_written hdb hwrite
    exact .of_part hdb hdb' (hwritten.others id hne)
  have hfree : db.FreeFor tx ↔ (db.without id).FreeFor tx ∧
      ∀ row ∈ db.steps, row.transactionId = id → row.id ∉ tx.steps.map (Step.rowId tx.id) := by
    constructor
    · intro hfree
      exact ⟨fun row hrow => hfree row (List.mem_of_mem_filter hrow),
        fun row hrow hid => hfree row hrow (hid ▸ hne)⟩
    · rintro ⟨hothers, hown⟩ row hrow hrowne
      by_cases hid : row.transactionId = id
      · exact hown row hrow hid
      · exact hothers row (List.mem_filter.mpr ⟨hrow, by simpa using hid⟩) hrowne
  rw [TransactionDb.save_isOk_iff hdb, TransactionDb.save_isOk_iff (hdb.without id),
    TransactionDb.accepts_without hne, hfree, and_iff_left hreads]
  tauto

/-! ## Two spellings of one key -/

/-- A transaction `a` with the step `b:c`. -/
def plainId : Transaction := .create "T" "a" ⟨0, some 0⟩ [.create "b:c" 1] .empty

/-- A transaction `a:b` with the step `c`. -/
def colonId : Transaction := .create "T" "a:b" ⟨0, some 0⟩ [.create "c" 1] .empty

/-- The database after a save of the first one. -/
def plainSaved : TransactionDb :=
  match TransactionDb.empty.save plainId with
  | .ok db => db
  | .error _ => .empty

/-- That database is filled by a save. -/
lemma plainSaved_run : SaveRun .empty [(.plain plainId, .ok ())] plainSaved :=
  .cons ⟨.empty, .empty, .commit rfl⟩ (.nil _)

/-- A transaction of a third spelling is independent. -/
theorem save_independent_other :
    (∃ db', plainSaved.save { colonId with id := "b" } = .ok db') ↔
      ∃ db', (plainSaved.without "a").save { colonId with id := "b" } = .ok db' := by
  have hne : "a" ≠ ({ colonId with id := "b" } : Transaction).id := by decide
  exact ((save_independent_iff plainSaved_run hne).mpr (Or.inl (by decide))).1

/-- **Step keys collide.** After `a` was saved, saving `a:b` raises an `IntegrityError`; without
`a` it succeeds. -/
theorem colon_collision : SaveRun .empty [(.plain plainId, .ok ())] plainSaved ∧
    plainId.id ≠ colonId.id ∧
    plainSaved.save colonId = .error (.integrity "UNIQUE constraint failed: steps.id") ∧
    ∃ db', (plainSaved.without plainId.id).save colonId = .ok db' :=
  ⟨plainSaved_run, by decide, rfl, _, rfl⟩
