import RpaCore.Checkpoint.Basic
import RpaCore.Persistence.Stored

set_option relaxedAutoImplicit false
set_option autoImplicit false

/-!
# Audit data is written once

Saves of arbitrary copies of transactions, plain and fenced, in any order and with any failures.
The identity of the definition, the creation time and the history rows of a stored transaction are
never rewritten, and its revision counts its saves.

## Main definitions

* `SaveStep`, `SaveRun` — one save, and a series of them.
* `TransactionDb.Audited` — what a later database keeps of an earlier one.

## Main results

* `auditData_writeOnce` — what any series of saves keeps.
-/

/-! ## Series of saves -/

/-- One save by any caller, on any state of the queue: it commits, raises, or is ended by an error
of a statement, after which SQLite rolls it back. -/
def SaveStep (call : SaveCall) (result : Except PyError Unit) (db db' : TransactionDb) : Prop :=
  ∃ queue queue', Atomically (fun _ => True)
    (fun store => (call.run store).map fun store' => ((), store')) ⟨queue, db⟩ result ⟨queue', db'⟩

/-- A series of saves, with what each of them returned or raised. -/
inductive SaveRun : TransactionDb → List (SaveCall × Except PyError Unit) → TransactionDb → Prop
  | nil (db : TransactionDb) : SaveRun db [] db
  | cons {db d db' : TransactionDb} {call : SaveCall} {result : Except PyError Unit}
      {calls : List (SaveCall × Except PyError Unit)} (step : SaveStep call result db d)
      (rest : SaveRun d calls db') : SaveRun db ((call, result) :: calls) db'

/-- The save succeeded and was one of the transaction `id`. -/
def SavedAs (id : String) (entry : SaveCall × Except PyError Unit) : Bool :=
  entry.1.tx.id = id && entry.2.isOk

namespace TransactionDb

/-- What a later database keeps of an earlier one. -/
structure Audited (db db' : TransactionDb) : Prop where
  header : ∀ id row, db.header id = some row → ∃ row', db'.header id = some row' ∧
    row'.definitionIdentity = row.definitionIdentity ∧
      (row.createdAt ≠ none → row'.createdAt = row.createdAt)
  history : ∀ row ∈ db.history, row ∈ db'.history

variable {db d db' : TransactionDb} {tx : Transaction} {expectedRevision : Option ℤ}
  {queueItemId claimToken id : String} {revision : ℤ}

/-- A database keeps everything of itself. -/
lemma Audited.refl (db : TransactionDb) : db.Audited db :=
  ⟨fun _ row h => ⟨row, h, rfl, fun _ => rfl⟩, fun _ h => h⟩

/-- What is kept twice is kept. -/
lemma Audited.trans (h : db.Audited d) (h' : d.Audited db') : db.Audited db' where
  header id row hrow := by
    obtain ⟨row₁, hrow₁, hidentity₁, hcreated₁⟩ := h.header id row hrow
    obtain ⟨row₂, hrow₂, hidentity₂, hcreated₂⟩ := h'.header id row₁ hrow₁
    refine ⟨row₂, hrow₂, hidentity₂.trans hidentity₁, fun hne => ?_⟩
    have heq := hcreated₁ hne
    exact (hcreated₂ (heq ▸ hne)).trans heq
  history row hrow := h'.history row (h.history row hrow)

/-- The header of another transaction stays in a write. -/
lemma Written.header_of_ne
    (h : Written tx expectedRevision queueItemId claimToken db revision db') (hne : id ≠ tx.id) :
    db'.header id = db.header id := by
  rw [← header_part, h.others id hne, header_part]

/-- The header a write leaves. -/
lemma Written.header_self
    (h : Written tx expectedRevision queueItemId claimToken db revision db') :
    db'.header tx.id = some ((db.previous tx).overwrite tx tx.times expectedRevision.isSome
      queueItemId claimToken) := by
  rw [← header_part, header, h.transactions]
  have hid : ((db.previous tx).overwrite tx tx.times expectedRevision.isSome queueItemId
      claimToken).id = tx.id := previous_id tx db
  simp [hid]

/-- A write raises the revision of its transaction by one, and no other revision. -/
lemma Written.revisionOf
    (h : Written tx expectedRevision queueItemId claimToken db revision db') (id : String) :
    db'.revisionOf id = db.revisionOf id + if tx.id = id then 1 else 0 := by
  by_cases hid : tx.id = id
  · subst hid
    rw [if_pos rfl, TransactionDb.revisionOf, h.header_self, ← previous_revision]
    rfl
  · rw [if_neg hid, Int.add_zero]
    unfold TransactionDb.revisionOf
    rw [h.header_of_ne (Ne.symm hid)]

/-- **A write keeps the audit data**: its `UPDATE` leaves the identity and a creation time alone,
and its history rows are added beside the stored ones. -/
theorem Written.audited
    (h : Written tx expectedRevision queueItemId claimToken db revision db') :
    db.Audited db' where
  header id row hrow := by
    by_cases hid : id = tx.id
    · subst hid
      have hprev : db.previous tx = row := by simp [previous, hrow]
      refine ⟨_, h.header_self, ?_, fun hne => ?_⟩
      · rw [hprev]
        rfl
      · rw [hprev]
        exact if_neg hne
    · exact ⟨row, by rw [h.header_of_ne hid, hrow], rfl, fun _ => rfl⟩
  history row hrow := by
    by_cases hid : row.transactionId = tx.id
    · have hold : row ∈ (db.part tx.id).history :=
        List.mem_filter.mpr ⟨hrow, by simpa using hid⟩
      have hnew : row ∈ (db'.part tx.id).history := by
        rw [h.history]
        exact Table.mem_foldl_insertOrIgnore hold
      exact (List.mem_filter.mp hnew).1
    · have hold : row ∈ (db.part row.transactionId).history :=
        List.mem_filter.mpr ⟨hrow, by simp⟩
      rw [← h.others _ hid] at hold
      exact (List.mem_filter.mp hold).1

end TransactionDb

/-! ## What saves keep -/

variable {db d db' : TransactionDb} {call : SaveCall} {result : Except PyError Unit}
  {calls : List (SaveCall × Except PyError Unit)} {err : PyError}

/-- One save: a failing one changes nothing, and a successful one writes a valid transaction. -/
lemma SaveStep.write (h : SaveStep call result db d) :
    (d = db ∧ result.isOk = false) ∨ (result.isOk = true ∧ call.tx.Valid ∧
      ∃ expectedRevision queueItemId claimToken revision,
        db.write call.tx expectedRevision queueItemId claimToken = .ok (revision, d)) := by
  obtain ⟨queue, queue', h⟩ := h
  cases h with
  | raise => exact Or.inl ⟨rfl, rfl⟩
  | kept => exact Or.inl ⟨rfl, rfl⟩
  | commit h =>
    cases hrun : call.run ⟨queue, db⟩ with
    | error err =>
      rw [hrun] at h
      cases h
    | ok store =>
      rw [hrun] at h
      cases h
      exact Or.inr ⟨rfl, SaveCall.run_ok hrun⟩

/-- What a save leaves: the tables as they were, or those of a write. -/
lemma SaveStep.cases (hdb : db.Consistent) (h : SaveStep call result db d) :
    (d = db ∧ result.isOk = false) ∨ (result.isOk = true ∧ call.tx.Valid ∧ d.Consistent ∧
      ∃ expectedRevision queueItemId claimToken revision,
        TransactionDb.Written call.tx expectedRevision queueItemId claimToken db revision d) := by
  refine h.write.imp_right ?_
  rintro ⟨hok, hvalid, expectedRevision, queueItemId, claimToken, revision, hwrite⟩
  obtain ⟨hconsistent, hwritten⟩ := TransactionDb.write_written hdb hwrite
  exact ⟨hok, hvalid, hconsistent, _, _, _, _, hwritten⟩

/-- A failing save leaves the tables as they were. -/
lemma SaveStep.error (h : SaveStep call (.error err) db d) : d = db := by
  obtain ⟨queue, queue', h⟩ := h
  cases h with
  | raise => rfl
  | kept => rfl

/-- What a series of saves keeps, and the revisions it leaves. -/
lemma SaveRun.kept (hdb : db.Consistent) (h : SaveRun db calls db') :
    db'.Consistent ∧ db.Audited db' ∧
      ∀ id, db'.revisionOf id = db.revisionOf id + calls.countP (SavedAs id) := by
  induction h with
  | nil db => exact ⟨hdb, .refl db, by simp⟩
  | @cons db d db' call result calls step rest ih =>
    rcases step.cases hdb with ⟨rfl, hresult⟩ | ⟨hresult, -, hd, _, _, _, _, hwritten⟩
    · obtain ⟨hconsistent, haudited, hrevision⟩ := ih hdb
      refine ⟨hconsistent, haudited, fun id => ?_⟩
      rw [hrevision id, List.countP_cons_of_neg (by simp [SavedAs, hresult])]
    · obtain ⟨hconsistent, haudited, hrevision⟩ := ih hd
      refine ⟨hconsistent, hwritten.audited.trans haudited, fun id => ?_⟩
      rw [hrevision id, hwritten.revisionOf id]
      by_cases hid : call.tx.id = id
      · rw [if_pos hid, List.countP_cons_of_pos (by simp [SavedAs, hresult, hid])]
        omega
      · rw [if_neg hid, List.countP_cons_of_neg (by simp [SavedAs, hid]), Int.add_zero]

/-- A series of saves splits at each of its calls. -/
lemma SaveRun.split {calls₁ calls₂ : List (SaveCall × Except PyError Unit)}
    (h : SaveRun db (calls₁ ++ calls₂) db') : ∃ d, SaveRun db calls₁ d ∧ SaveRun d calls₂ db' := by
  induction calls₁ generalizing db with
  | nil => exact ⟨db, .nil db, h⟩
  | cons c calls₁ ih =>
    cases h with
    | cons step rest =>
      obtain ⟨d, h₁, h₂⟩ := ih rest
      exact ⟨d, .cons step h₁, h₂⟩

/-- **Audit data is written once**: after any series of saves each stored identity, creation time
and history row is as it was, each revision has grown by the number of successful saves of its
transaction, and a failing save has changed no table.

**Proof sketch.** Each successful save is a write, which keeps the audit data of every transaction
and raises one revision; induction on the series. -/
theorem auditData_writeOnce (hdb : db.Consistent) (h : SaveRun db calls db') :
    (∀ id row, db.header id = some row → ∃ row', db'.header id = some row' ∧
      row'.definitionIdentity = row.definitionIdentity ∧
        (row.createdAt ≠ none → row'.createdAt = row.createdAt)) ∧
    (∀ row ∈ db.history, row ∈ db'.history) ∧
    (∀ id, db'.revisionOf id = db.revisionOf id + calls.countP (SavedAs id)) ∧
    ∀ calls₁ call err calls₂, calls = calls₁ ++ (call, .error err) :: calls₂ →
      ∃ d, SaveRun db calls₁ d ∧ SaveStep call (.error err) d d ∧ SaveRun d calls₂ db' := by
  obtain ⟨-, haudited, hrevision⟩ := h.kept hdb
  refine ⟨haudited.header, haudited.history, hrevision, ?_⟩
  rintro calls₁ call err calls₂ rfl
  obtain ⟨d, h₁, h₂⟩ := h.split
  cases h₂ with
  | cons step rest =>
    obtain rfl := step.error
    exact ⟨_, h₁, step, rest⟩

/-! ## A series on one transaction -/

/-- A transaction of one step, created at a fixed time. -/
def auditSample : Transaction :=
  .create "ref" "t" ⟨0, some 0⟩ [.create "first" 1] .empty

/-- The database after a plain save of the sample. -/
def auditSaved (db : TransactionDb) : TransactionDb :=
  match db.save auditSample with
  | .ok saved => saved
  | .error _ => db

/-- Two saves of one transaction with a fenced save between them that no claim allows. -/
theorem auditData_writeOnce_sample : ∃ db', SaveRun .empty
    [(.plain auditSample, .ok ()),
      (.fenced auditSample "item" "worker" "token" 1 false, .error (Store.staleClaim "item")),
      (.plain auditSample, .ok ())] db' ∧ db'.revisionOf "t" = 2 := by
  have hfirst : SaveStep (.plain auditSample) (.ok ()) .empty (auditSaved .empty) :=
    ⟨.empty, .empty, .commit rfl⟩
  have hfenced : SaveStep (.fenced auditSample "item" "worker" "token" 1 false)
      (.error (Store.staleClaim "item")) (auditSaved .empty) (auditSaved .empty) :=
    ⟨.empty, .empty, .raise rfl⟩
  have hsecond : SaveStep (.plain auditSample) (.ok ()) (auditSaved .empty)
      (auditSaved (auditSaved .empty)) := ⟨.empty, .empty, .commit rfl⟩
  have hrun := SaveRun.cons hfirst (.cons hfenced (.cons hsecond (.nil _)))
  refine ⟨_, hrun, ?_⟩
  rw [(auditData_writeOnce TransactionDb.consistent_empty hrun).2.2.1 "t"]
  decide
