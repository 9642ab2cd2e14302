import RpaCore.Persistence.RoundTrip

set_option relaxedAutoImplicit false
set_option autoImplicit false

/-!
# When a save succeeds

`save_transaction` validates, compares the identity of the definition, converts the timestamps and
inserts the rows of the transaction. An insertion fails for a key that is taken: the key of a
metadata or artifact row contains the id of the transaction, but a step row has one text as its key,
which another transaction may spell as well.

## Main definitions

* `TransactionDb.Accepts` — what a save requires apart from the steps of other transactions.
* `TransactionDb.FreeFor` — no other transaction has a step row with the key of one of its steps.
* `TransactionDb.without` — the rows of all transactions but one.

## Main results

* `Step.rowId_inj` — within one transaction the keys of the steps are distinct.
* `TransactionDb.save_isOk_iff` — a save succeeds iff it is accepted and the keys are free.
-/

/-! ## Keys of step rows -/

/-- A text without a colon is what stands behind the last colon. -/
lemma eq_of_append_colon {x y d d' : List Char} (hd : ':' ∉ d) (hd' : ':' ∉ d')
    (h : x ++ ':' :: d = y ++ ':' :: d') : d = d' := by
  have htake : ∀ {z e : List Char}, ':' ∉ e →
      (z ++ ':' :: e).reverse.takeWhile (· ≠ ':') = e.reverse := by
    intro z e he
    have hall : ∀ c ∈ e.reverse, decide (c ≠ ':') = true := by
      intro c hc
      rw [decide_eq_true_eq]
      rintro rfl
      exact he (List.mem_reverse.mp hc)
    rw [List.reverse_append, List.reverse_cons, List.append_assoc,
      List.takeWhile_append_of_pos hall]
    simp
  rw [← List.reverse_inj, ← htake hd, ← htake hd', h]

/-- The digits of a number contain no colon. -/
lemma colon_notMem_repr (n : ℕ) : ':' ∉ (Nat.repr n).toList := by
  intro hmem
  rw [Nat.toList_repr] at hmem
  have := Nat.isDigit_of_mem_toDigits (by decide) (by decide) hmem
  simp at this

/-- The key of a step determines its execution order, within one transaction. -/
lemma Step.rowId_inj {id : String} {a b : Step} (ha : 0 < a.executionOrder)
    (hb : 0 < b.executionOrder) (h : a.rowId id = b.rowId id) :
    a.executionOrder = b.executionOrder := by
  obtain ⟨n, hn⟩ := Int.eq_ofNat_of_zero_le ha.le
  obtain ⟨m, hm⟩ := Int.eq_ofNat_of_zero_le hb.le
  have hlist := congrArg String.toList h
  rw [rowId, rowId, hn, hm] at hlist
  change (id ++ ":" ++ a.name ++ ":" ++ Nat.repr n).toList =
    (id ++ ":" ++ b.name ++ ":" ++ Nat.repr m).toList at hlist
  simp only [String.toList_append, List.append_assoc, List.append_cancel_left_eq] at hlist
  have hdigits := eq_of_append_colon (colon_notMem_repr n) (colon_notMem_repr m) hlist
  rw [Nat.toList_repr, Nat.toList_repr] at hdigits
  have hnum := congrArg (fun ds => Nat.ofDigitChars 10 ds 0) hdigits
  simp only [Nat.ofDigitChars_ten_toDigits] at hnum
  rw [hn, hm, hnum]

/-- The keys of the steps of a valid transaction are distinct. -/
lemma Transaction.Valid.nodup_rowIds {tx : Transaction} (h : tx.Valid) :
    (tx.steps.map (Step.rowId tx.id)).Nodup := by
  have hwired := h.wired
  refine List.Nodup.map_on (fun a ha b hb heq => ?_) (List.Nodup.of_map _ hwired.orders)
  exact List.inj_on_of_nodup_map hwired.orders ha hb
    (Step.rowId_inj (hwired.positive a ha) (hwired.positive b hb) heq)

/-! ## Successful saves -/

/-- Insertions of rows with free and distinct keys succeed. -/
lemma Table.insertAll_of {ρ κ E : Type} [DecidableEq κ] (key : ρ → κ) (e : E) (t rs : List ρ)
    (hrs : Table.Keyed key rs) (hfree : ∀ r ∈ rs, key r ∉ t.map key) :
    Table.insertAll key e t rs = .ok (t ++ rs) := by
  induction rs generalizing t with
  | nil => simp [Table.insertAll, pure, Except.pure]
  | cons r rs ih =>
    obtain ⟨hnotin, hrest⟩ := List.nodup_cons.mp hrs
    rw [List.forall_mem_cons] at hfree
    rw [Table.insertAll, List.foldlM_cons, Table.insertUnique, if_neg hfree.1]
    have hrec := ih (t := t ++ [r]) hrest fun r' hr' => by
      rw [List.map_append, List.mem_append, not_or]
      refine ⟨hfree.2 r' hr', fun hmem => hnotin ?_⟩
      rw [List.map_singleton, List.mem_singleton] at hmem
      exact hmem ▸ List.mem_map_of_mem hr'
    rw [Table.insertAll] at hrec
    exact hrec.trans (by rw [List.append_assoc, List.singleton_append])

namespace TransactionDb

variable {db db' : TransactionDb} {tx : Transaction}

/-- **What a save requires** of a transaction and of its own header: it is valid, it keeps the
identity of its definition, its timestamps can be stored, and its metadata keys and its artifact
ids are distinct. -/
structure Accepts (db : TransactionDb) (tx : Transaction) : Prop where
  valid : tx.Valid
  identity : ∀ row, db.header tx.id = some row → row.definitionIdentity = tx.definitionIdentity
  times : ∃ times, storedTimes tx (db.header tx.id) = .ok times
  metadata : (tx.metadata.storedEntries.map Prod.fst).Nodup
  artifacts : (tx.artifacts.map Artifact.id).Nodup

/-- No other transaction has a step row with the key of a step. -/
def FreeFor (db : TransactionDb) (tx : Transaction) : Prop :=
  ∀ row ∈ db.steps, row.transactionId ≠ tx.id → row.id ∉ tx.steps.map (Step.rowId tx.id)

/-- The keys of the metadata rows of a transaction are distinct iff the keys of the metadata
are. -/
lemma keyed_ofMetadata {metadata : PyVal} (id : String) :
    Table.Keyed (fun row : MetadataRow => (row.transactionId, row.key))
      (MetadataRow.ofMetadata id metadata) ↔ (metadata.storedEntries.map Prod.fst).Nodup := by
  have hmap : (MetadataRow.ofMetadata id metadata).map
      (fun row : MetadataRow => (row.transactionId, row.key)) =
        (metadata.storedEntries.map Prod.fst).map fun key => (id, key) := by
    simp [MetadataRow.ofMetadata, Function.comp_def]
  rw [Table.Keyed, hmap]
  exact List.nodup_map_iff fun k l heq => (Prod.mk.inj heq).2

/-- The keys of the artifact rows of a transaction are distinct iff the ids of the artifacts
are. -/
lemma keyed_ofArtifacts {artifacts : List Artifact} (id : String) :
    Table.Keyed (fun row : ArtifactRow => (row.transactionId, row.id))
      (ArtifactRow.ofArtifacts id artifacts) ↔ (artifacts.map Artifact.id).Nodup := by
  have hmap : (ArtifactRow.ofArtifacts id artifacts).map
      (fun row : ArtifactRow => (row.transactionId, row.id)) =
        (artifacts.map Artifact.id).map fun artifactId => (id, artifactId) := by
    have hfst : artifacts.zipIdx.map Prod.fst = artifacts := List.zipIdx_map_fst 0 artifacts
    rw [ArtifactRow.ofArtifacts, List.map_map, List.map_map]
    conv_rhs => rw [← hfst, List.map_map]
    rfl
  rw [Table.Keyed, hmap]
  exact List.nodup_map_iff fun k l heq => (Prod.mk.inj heq).2

/-- The header of the transaction is there after a write of the headers. -/
lemma writeHeader_none (hdb : db.Consistent) (tx : Transaction) : ∃ transactions,
    writeHeader tx tx.times none "" "" db.transactions = .ok transactions ∧
      transactions.find? (fun row => row.id = tx.id) ≠ none := by
  obtain ⟨transactions, hwrite⟩ : ∃ transactions,
      writeHeader tx tx.times none "" "" db.transactions = .ok transactions := ⟨_, rfl⟩
  refine ⟨transactions, hwrite, fun hnone => ?_⟩
  obtain ⟨-, -, hown, -⟩ := writeHeader_ok hdb.transactions hwrite
  have hmem : (db.previous tx).overwrite tx tx.times (none : Option ℤ).isSome "" "" ∈
      transactions.filter fun row => row.id = tx.id := by
    rw [hown]
    exact List.mem_singleton_self _
  obtain ⟨hmem, hid⟩ := List.mem_filter.mp hmem
  exact List.find?_eq_none.mp hnone _ hmem hid

/-- **When a save succeeds**: it is accepted, and no other transaction has a step row with the key
of one of its steps.

**Proof sketch.** The statements of `_write_transaction_rows` in order. The keys of metadata and
artifact rows contain the id of the transaction, whose old rows have been deleted. -/
theorem save_isOk_iff (hdb : db.Consistent) :
    (∃ db', db.save tx = .ok db') ↔ db.Accepts tx ∧ db.FreeFor tx := by
  constructor
  · rintro ⟨db', hsave⟩
    obtain ⟨_, hvalid, hsave⟩ := Except.bind_eq_ok.mp hsave
    obtain ⟨⟨revision, written⟩, hwrite, -⟩ := Except.bind_eq_ok.mp hsave
    unfold write at hwrite
    simp only at hwrite
    split at hwrite
    · cases hwrite
    · next hidentity =>
      obtain ⟨times, htimes, hwrite⟩ := Except.bind_eq_ok.mp hwrite
      obtain ⟨transactions, -, hwrite⟩ := Except.bind_eq_ok.mp hwrite
      obtain ⟨steps, hsteps, hwrite⟩ := Except.bind_eq_ok.mp hwrite
      obtain ⟨metadata, hmetadata, hwrite⟩ := Except.bind_eq_ok.mp hwrite
      obtain ⟨artifacts, hartifacts, -⟩ := Except.bind_eq_ok.mp hwrite
      obtain ⟨-, -, hstepsFree⟩ := Table.insertAll_ok hsteps
      obtain ⟨-, hmetadataKeyed, -⟩ := Table.insertAll_ok hmetadata
      obtain ⟨-, hartifactsKeyed, -⟩ := Table.insertAll_ok hartifacts
      refine ⟨⟨hvalid, fun row hrow => by simpa [hrow] using hidentity, ⟨times, htimes⟩, ?_, ?_⟩,
        fun row hrow hne hmem => ?_⟩
      · exact (keyed_ofMetadata tx.id).mp
          ((hmetadataKeyed (hdb.metadata.filter _)).sublist ((List.sublist_append_right _ _).map _))
      · exact (keyed_ofArtifacts tx.id).mp
          ((hartifactsKeyed (hdb.artifacts.filter _)).sublist
            ((List.sublist_append_right _ _).map _))
      · obtain ⟨st, hst, hid⟩ := List.mem_map.mp hmem
        refine hstepsFree _ (List.mem_map_of_mem hst) ?_
        rw [show (StepRow.ofStep tx.id st).id = st.rowId tx.id from rfl, hid]
        exact List.mem_map_of_mem (List.mem_filter.mpr ⟨hrow, by simpa using hne⟩)
  · rintro ⟨haccepts, hfree⟩
    obtain ⟨times, htimes⟩ := haccepts.times
    obtain rfl := storedTimes_ok htimes
    obtain ⟨transactions, htransactions, hheader⟩ := writeHeader_none hdb tx
    have hsteps := fun e : PyError => Table.insertAll_of StepRow.id e
      (db.steps.filter fun row => row.transactionId ≠ tx.id) (tx.steps.map (StepRow.ofStep tx.id))
      (by rw [Table.Keyed, List.map_map]; exact haccepts.valid.nodup_rowIds) (by
        intro r hr hmem
        obtain ⟨st, hst, rfl⟩ := List.mem_map.mp hr
        obtain ⟨row, hrow, hid⟩ := List.mem_map.mp hmem
        obtain ⟨hrow, hne⟩ := List.mem_filter.mp hrow
        exact hfree row hrow (by simpa using hne) (hid ▸ List.mem_map_of_mem hst))
    have hmetadata := fun e : PyError => Table.insertAll_of
      (fun row : MetadataRow => (row.transactionId, row.key)) e
      (db.metadata.filter fun row => row.transactionId ≠ tx.id)
      (MetadataRow.ofMetadata tx.id tx.metadata)
      ((keyed_ofMetadata tx.id).mpr haccepts.metadata) (by
        intro r hr hmem
        obtain ⟨row, hrow, hkey⟩ := List.mem_map.mp hmem
        have hne := (List.mem_filter.mp hrow).2
        simp [(Prod.mk.inj hkey).1, metadataRows_owner r hr] at hne)
    have hartifacts := fun e : PyError => Table.insertAll_of
      (fun row : ArtifactRow => (row.transactionId, row.id)) e
      (db.artifacts.filter fun row => row.transactionId ≠ tx.id)
      (ArtifactRow.ofArtifacts tx.id tx.artifacts)
      ((keyed_ofArtifacts tx.id).mpr haccepts.artifacts) (by
        intro r hr hmem
        obtain ⟨row, hrow, hkey⟩ := List.mem_map.mp hmem
        have hne := (List.mem_filter.mp hrow).2
        simp [(Prod.mk.inj hkey).1, artifactRows_owner r hr] at hne)
    obtain ⟨row, hrow⟩ := Option.ne_none_iff_exists'.mp hheader
    have hidentity : ¬ ((db.header tx.id).any fun row =>
        row.definitionIdentity ≠ tx.definitionIdentity) = true := by
      cases hx : db.header tx.id with
      | none => simp
      | some row => simpa using haccepts.identity row hx
    have hwrite : ∃ r, db.write tx none "" "" = .ok r := by
      unfold write
      simp only
      rw [if_neg hidentity]
      refine Except.exists_bind_ok htimes (Except.exists_bind_ok htransactions
        (Except.exists_bind_ok (hsteps _) (Except.exists_bind_ok (hmetadata _)
          (Except.exists_bind_ok (hartifacts _) ?_))))
      simp only [header, hrow]
      exact ⟨_, rfl⟩
    obtain ⟨r, hr⟩ := hwrite
    exact ⟨r.2, Except.bind_eq_ok.mpr ⟨(), haccepts.valid, Except.bind_eq_ok.mpr ⟨r, hr, rfl⟩⟩⟩

/-! ## Without a transaction -/

/-- The rows of all transactions but one. -/
def without (id : String) (db : TransactionDb) : TransactionDb where
  transactions := db.transactions.filter fun row => row.id ≠ id
  steps := db.steps.filter fun row => row.transactionId ≠ id
  exceptions := db.exceptions.filter fun row => row.stepId ∉ db.stepIds id
  history := db.history.filter fun row => row.transactionId ≠ id
  metadata := db.metadata.filter fun row => row.transactionId ≠ id
  artifacts := db.artifacts.filter fun row => row.transactionId ≠ id

/-- The rows of the other transactions are consistent. -/
lemma Consistent.without (hdb : db.Consistent) (id : String) : (db.without id).Consistent where
  transactions := hdb.transactions.filter _
  steps := hdb.steps.filter _
  exceptions := by
    intro exc hexc
    obtain ⟨hmem, hkept⟩ := List.mem_filter.mp hexc
    obtain ⟨row, hrow, hid⟩ := List.mem_map.mp (hdb.exceptions exc hmem)
    refine List.mem_map.mpr ⟨row, List.mem_filter.mpr ⟨hrow, ?_⟩, hid⟩
    simp only [ne_eq, decide_not, Bool.not_eq_true', decide_eq_false_iff_not] at hkept ⊢
    intro heq
    exact hkept (hid ▸ List.mem_map_of_mem (List.mem_filter.mpr ⟨hrow, by simpa using heq⟩))
  history := hdb.history.filter _
  owned := by
    intro entry hentry
    obtain ⟨hmem, hne⟩ := List.mem_filter.mp hentry
    obtain ⟨row, hrow, hid⟩ := List.mem_map.mp (hdb.owned entry hmem)
    exact List.mem_map.mpr ⟨row, List.mem_filter.mpr ⟨hrow, by simpa [hid] using hne⟩, hid⟩
  metadata := hdb.metadata.filter _
  artifacts := hdb.artifacts.filter _

/-- The headers of the other transactions. -/
lemma header_without {id other : String} (hne : other ≠ id) (db : TransactionDb) :
    (db.without id).header other = db.header other := by
  rw [header, header, without, List.find?_filter]
  congr 1
  funext row
  by_cases hid : row.id = other
  · simp [hid, hne]
  · simp [hid]

/-- What a save requires of its own header does not depend on another transaction. -/
lemma accepts_without {id : String} (hne : id ≠ tx.id) :
    (db.without id).Accepts tx ↔ db.Accepts tx := by
  have hheader := header_without hne.symm db
  constructor <;> rintro ⟨hvalid, hidentity, htimes, hmetadata, hartifacts⟩
  · exact ⟨hvalid, hheader ▸ hidentity, hheader ▸ htimes, hmetadata, hartifacts⟩
  · exact ⟨hvalid, hheader.symm ▸ hidentity, hheader.symm ▸ htimes, hmetadata, hartifacts⟩

end TransactionDb
