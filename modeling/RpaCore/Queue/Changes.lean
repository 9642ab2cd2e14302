import RpaCore.Queue.Effects
import RpaCore.Queue.Methods

set_option relaxedAutoImplicit false
set_option autoImplicit false

/-!
# What a committed statement changes

Every statement of the queue that commits makes one of a few changes to the items and attempts, or
several of them one after the other. What the statements preserve is proved once for each change.

## Main definitions

* `QueueOp.Ends` — the statement ends the claim of a row, with an outcome.
* `QueueDb.Change` — the changes.

## Main results

* `QueueOp.changes` — a statement that commits is a chain of changes.
-/

/-- The statement ends the claim of an item that has the given row, with this outcome of the
attempt. -/
def QueueOp.Ends (row : QueueRow) (outcome : QueueAttemptOutcome) :
    (op : QueueOp) → op.Val → Prop
  | .complete itemId claimedBy claimToken _, _ =>
    QueueDb.isHeld itemId claimedBy claimToken row = true ∧ outcome = .successful
  | .failCommit _ itemId claimedBy claimToken _ _ _, answer =>
    QueueDb.isHeld itemId claimedBy claimToken row = true ∧ outcome = answer
  | .reclaimStale _ _, _ => row.status = .inProgress ∧ outcome = .leaseExpired
  | .forceTransition _ itemId _ _ _ _, _ => row.id = itemId ∧ outcome = .adminOverride
  | _, _ => False

namespace QueueDb

/-- A row that was never claimed. -/
structure Unclaimed (row : QueueRow) : Prop where
  status : row.status = .pending
  claimedBy : row.claimedBy = ""
  claimedAt : row.claimedAt = none
  token : row.claimToken = ""

/-- One change of the items and attempts by a statement that is answered with `v`. -/
inductive Change (op : QueueOp) (v : op.Val) (db db' : QueueDb) : Prop
  | same (hitems : db'.items = db.items) (hattempts : db'.attempts = db.attempts)
  | add {q : SqliteQueue} {item : QueueItem} {row : QueueRow} (hop : op = .add q item)
      (hnew : row.id ∉ db.items.map QueueRow.id) (hrow : Unclaimed row)
      (htx : row.transactionId = item.transactionId) (hitems : db'.items = db.items ++ [row])
      (hattempts : db'.attempts = db.attempts)
  | drop {selected : QueueRow} {now : Datetime} {f : QueueRow → QueueRow}
      (hf : ∀ r, stillSelected selected now r = true → Released r (f r))
      (hitems : db'.items = Table.update (stillSelected selected now) f db.items)
      (hattempts : db'.attempts = db.attempts)
  | claim {selected : QueueRow} {workerId : String} {now : Datetime} {token : ClaimToken}
      {row row' : QueueRow} (hop : (⟨op, v⟩ : (op : QueueOp) × op.Val) =
        ⟨.claim selected workerId now token, some row'⟩)
      (hclaims : db.Claims db' selected workerId now token row)
      (hrow' : row' = { row with
        status := .inProgress
        claimedBy := workerId
        claimedAt := some now
        claimToken := token.text
        availableAt := none })
  | bind {itemId transactionId claimedBy claimToken : String} {row : QueueRow}
      (hop : op = .bindTransaction itemId transactionId claimedBy claimToken)
      (hmem : row ∈ db.items) (hheld : isHeld itemId claimedBy claimToken row = true)
      (hitems : db'.items = Table.update (isHeld itemId claimedBy claimToken)
        (fun r => { r with transactionId := transactionId }) db.items)
      (hattempts : db'.attempts = db.attempts)
  | renew {itemId claimedBy claimToken : String} {now : Datetime} {row : QueueRow}
      (hop : op = .renewLease itemId claimedBy claimToken now)
      (hmem : row ∈ db.items) (hheld : isHeld itemId claimedBy claimToken row = true)
      (hitems : db'.items = Table.update (isHeld itemId claimedBy claimToken)
        (fun r => { r with claimedAt := some now }) db.items)
      (hattempts : db'.attempts = db.attempts)
  | release {p : QueueRow → Bool} {f : QueueRow → QueueRow} {row : QueueRow}
      {outcome : QueueAttemptOutcome} {now : Datetime}
      (hr : db.Releases db' p f row outcome now) (hop : op.Ends row outcome v)

/-- A fresh item is added with an unclaimed row. -/
lemma add_ok {db db' : QueueDb} {q : SqliteQueue} {item : QueueItem} (hfresh : item.IsFresh)
    (h : db.add q item = .ok db') : ∃ row, row.id ∉ db.items.map QueueRow.id ∧ Unclaimed row ∧
      row.transactionId = item.transactionId ∧ row.id = item.id ∧
      row.retryCount = item.retryCount ∧ db'.items = db.items ++ [row] ∧
      db'.attempts = db.attempts := by
  obtain ⟨hstatus, hby, hclaimed, htoken⟩ := hfresh
  unfold add at h
  split at h
  · cases h
  · cases hav : availableAtText item.availableAt with
    | error err =>
      rw [hav] at h
      cases h
    | ok due =>
      rw [hav] at h
      simp only [bind, Except.bind] at h
      split at h
      · cases h
      · next hnew =>
        cases h
        exact ⟨_, hnew, ⟨hstatus, hby, hclaimed, htoken⟩, rfl, rfl, rfl, rfl, rfl⟩

/-- The keys of a table of items survive every change. -/
lemma Change.keyed {op : QueueOp} {v : op.Val} {db db' : QueueDb} (h : Change op v db db')
    (hkeyed : Table.Keyed QueueRow.id db.items) : Table.Keyed QueueRow.id db'.items := by
  cases h with
  | same hitems => rwa [hitems]
  | add _ hnew _ _ hitems => exact hitems ▸ hkeyed.append hnew
  | drop hf hitems => exact hitems ▸ hkeyed.update fun r _ hr => (hf r hr).id
  | claim _ hclaims => exact hclaims.items ▸ hkeyed.update fun _ _ _ => rfl
  | bind _ _ _ hitems => exact hitems ▸ hkeyed.update fun _ _ _ => rfl
  | renew _ _ _ hitems => exact hitems ▸ hkeyed.update fun _ _ _ => rfl
  | release hr => exact hr.items ▸ hkeyed.update fun r _ hp => (hr.released r hp).id

end QueueDb

/-- **A statement that commits is a chain of changes.** Only the reclaim loop makes more than one,
an expiry for each stale item.

**Proof sketch.** By the lemma of each function. -/
theorem QueueOp.changes {op : QueueOp} (hlegit : op.Legit) {db db' : QueueDb}
    (hkeyed : Table.Keyed QueueRow.id db.items) {v : op.Val} (h : op.run db = .ok (v, db')) :
    Relation.ReflTransGen (QueueDb.Change op v) db db' := by
  cases op with
  | clock =>
    cases h
    exact .refl
  | newToken =>
    cases h
    exact .refl
  | add q item =>
    obtain ⟨row, hnew, hrow, htx, -, -, hitems, hattempts⟩ :=
      QueueDb.add_ok hlegit (QueueOp.tables_of_map h)
    exact .single (.add rfl hnew hrow htx hitems hattempts)
  | reclaimStale q now =>
    refine (foldlM_ok_induction (P := fun d => Table.Keyed QueueRow.id d.items ∧
      Relation.ReflTransGen (QueueDb.Change (.reclaimStale q now) v) db d) ?_
      (QueueOp.tables_of_map h) ⟨hkeyed, .refl⟩).2
    rintro d stale d' - ⟨hd, hchain⟩ hone
    have hchange : QueueDb.Change (.reclaimStale q now) v d d' := by
      rcases QueueDb.reclaimOne_ok hd hone with rfl | ⟨p, f, row, -, hprog, -, -, hr⟩
      · exact .same rfl rfl
      · exact .release hr ⟨hprog, rfl⟩
    exact ⟨hchange.keyed hd, hchain.tail hchange⟩
  | selectNext now =>
    cases h
    exact .refl
  | quarantine selected now errorType createdAt =>
    cases h
    rcases QueueDb.quarantine_cases selected now errorType createdAt hkeyed with
      ⟨hi, ha⟩ | ⟨f, row, -, -, -, hf, -, -, hi, ha⟩
    · exact .single (.same hi ha)
    · exact .single (.drop hf hi ha)
  | claim selected workerId now token =>
    rcases QueueDb.claim_ok hkeyed h with ⟨rfl, rfl⟩ | ⟨row, hclaims, rfl⟩
    · exact .refl
    · exact .single (.claim rfl hclaims rfl)
  | bindTransaction itemId transactionId claimedBy claimToken =>
    obtain ⟨row, hmem, hheld, rfl⟩ := QueueDb.updateHeld_ok (QueueOp.tables_of_map h)
    exact .single (.bind rfl hmem hheld rfl rfl)
  | renewLease itemId claimedBy claimToken now =>
    obtain ⟨row, hmem, hheld, rfl⟩ := QueueDb.updateHeld_ok (QueueOp.tables_of_map h)
    exact .single (.renew rfl hmem hheld rfl rfl)
  | complete itemId claimedBy claimToken finishedAt =>
    obtain ⟨f, row, hheld, -, hr⟩ := QueueDb.complete_ok (QueueOp.tables_of_map h)
    exact .single (.release hr ⟨hheld, rfl⟩)
  | failRead itemId claimedBy claimToken =>
    obtain ⟨_, -, heq⟩ := Except.map_eq_ok.mp h
    cases heq
    exact .refl
  | failCommit q itemId claimedBy claimToken retry readCount now =>
    obtain ⟨f, row, hheld, -, -, hr⟩ := QueueDb.failCommit_ok h
    exact .single (.release hr ⟨hheld, rfl⟩)
  | forceTransition q itemId requested reason retry now =>
    obtain ⟨f, row, hid, -, hr⟩ := QueueDb.forceTransition_ok hlegit (QueueOp.tables_of_map h)
    exact .single (.release hr ⟨hid, rfl⟩)

/-- What every change keeps, a statement that commits keeps. -/
lemma QueueOp.run_induction {op : QueueOp} (hlegit : op.Legit) {db db' : QueueDb} {v : op.Val}
    {P : QueueDb → Prop} (hkeyed : ∀ d, P d → Table.Keyed QueueRow.id d.items)
    (hstep : ∀ d d', P d → QueueDb.Change op v d d' → P d') (h : op.run db = .ok (v, db'))
    (hP : P db) : P db' := by
  have hchain := QueueOp.changes hlegit (hkeyed db hP) h
  clear h
  induction hchain with
  | refl => exact hP
  | tail _ hlast ih => exact hstep _ _ ih hlast
