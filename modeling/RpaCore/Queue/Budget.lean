import RpaCore.Queue.Claims

set_option relaxedAutoImplicit false
set_option autoImplicit false

/-!
# The retry budget

An item is delivered by a claim. What ends a claim is counted in the retry count of the item, or
finishes the item; `fail`, an expired lease and an override each compute the count and the decision
on their own. Seen from one item these are the steps of a small machine, in which the number of
attempts stays within the retries that are allowed.

## Main definitions

* `Delivery`, `Delivery.Step`, `Delivery.InBudget` — one item, its steps and the invariant.
* `QueueDb.Advances` — every item makes such steps.

## Main results

* `Delivery.Step.inBudget` — a step stays within the budget.
* `QueueOp.advances` — a statement that adds no item advances the items.
-/

/-! ## One item -/

/-- How far an item has come: its status, its retry count and the number of its attempts. -/
structure Delivery where
  status : QueueStatus
  retryCount : ℤ
  attempts : ℕ

namespace Delivery

variable {maxRetries : ℕ} {d d' : Delivery}

/-- What may happen to an item: it is claimed, it is finished without being counted, or it is
counted, and then it may become pending while retries are left. -/
inductive Step (maxRetries : ℕ) (d : Delivery) : Delivery → Prop
  | claim (h : d.status = .pending) : Step maxRetries d ⟨.inProgress, d.retryCount, d.attempts + 1⟩
  | finish {status : QueueStatus} (h : status = .successful ∨ status = .failed) :
      Step maxRetries d ⟨status, d.retryCount, d.attempts⟩
  | spend : Step maxRetries d ⟨.failed, d.retryCount + 1, d.attempts⟩
  | retry (h : d.retryCount + 1 ≤ maxRetries) :
      Step maxRetries d ⟨.pending, d.retryCount + 1, d.attempts⟩

/-- **Within the budget**: all attempts but the last one have been counted, and a pending item has
no other attempts. -/
structure InBudget (maxRetries : ℕ) (d : Delivery) : Prop where
  attempts : d.attempts ≤ d.retryCount + 1
  bound : d.attempts ≤ maxRetries + 1
  pending : d.status = .pending → d.retryCount ≤ maxRetries ∧ d.attempts ≤ d.retryCount

/-- A new item is within every budget. -/
lemma inBudget_new : InBudget maxRetries ⟨.pending, 0, 0⟩ :=
  ⟨by simp, by simp, fun _ => by simp⟩

/-- A step stays within the budget. -/
lemma Step.inBudget (h : Step maxRetries d d') (hd : d.InBudget maxRetries) :
    d'.InBudget maxRetries := by
  obtain ⟨hattempts, hbound, hpending⟩ := hd
  cases h with
  | claim hstatus =>
    obtain ⟨hmax, hcounted⟩ := hpending hstatus
    exact ⟨by simpa using hcounted, by dsimp only; omega, by simp⟩
  | finish hstatus => exact ⟨hattempts, hbound, by rcases hstatus with rfl | rfl <;> simp⟩
  | spend => exact ⟨by dsimp only; omega, hbound, by simp⟩
  | retry hmax => exact ⟨by dsimp only; omega, hbound, fun _ => ⟨hmax, hattempts⟩⟩

/-- A step does not lower the retry count. -/
lemma Step.retryCount_le (h : Step maxRetries d d') : d.retryCount ≤ d'.retryCount := by
  cases h <;> dsimp only <;> omega

/-- The steps of an item, one after the other. -/
abbrev Steps (maxRetries : ℕ) : Delivery → Delivery → Prop :=
  Relation.ReflTransGen (Step maxRetries)

/-- Any number of steps stays within the budget. -/
lemma Steps.inBudget (h : Steps maxRetries d d') (hd : d.InBudget maxRetries) :
    d'.InBudget maxRetries := by
  induction h with
  | refl => exact hd
  | tail _ hlast ih => exact hlast.inBudget ih

/-- Any number of steps does not lower the retry count. -/
lemma Steps.retryCount_le (h : Steps maxRetries d d') : d.retryCount ≤ d'.retryCount := by
  induction h with
  | refl => exact le_rfl
  | tail _ hlast ih => exact ih.trans hlast.retryCount_le

end Delivery

/-! ## The items of a queue -/

namespace QueueDb

variable {maxRetries : ℕ} {db db' db'' : QueueDb}

/-- The keys of the attempts. -/
def attemptKeys (db : QueueDb) : List (String × String) :=
  db.attempts.map fun a => (a.itemId, a.claimToken)

/-- The number of attempts of an item. -/
def attemptCount (db : QueueDb) (id : String) : ℕ := db.attemptKeys.countP fun k => k.1 = id

/-- How far the item of a row has come. -/
def delivery (db : QueueDb) (row : QueueRow) : Delivery :=
  ⟨row.status, row.retryCount, db.attemptCount row.id⟩

/-- Every item makes some steps, and as long as a claim of it lasts its retry count stays. -/
structure Advances (maxRetries : ℕ) (db db' : QueueDb) : Prop where
  ids : db'.items.map QueueRow.id = db.items.map QueueRow.id
  keys : ∀ k ∈ db.attemptKeys, k ∈ db'.attemptKeys
  rows : ∀ row' ∈ db'.items, ∃ row ∈ db.items, row.id = row'.id ∧
    Delivery.Steps maxRetries (db.delivery row) (db'.delivery row') ∧
    (row'.claimToken ≠ "" → row.claimToken = row'.claimToken ∧ row.retryCount = row'.retryCount ∨
      (row'.id, row'.claimToken) ∉ db.attemptKeys)

/-- Nothing happens. -/
lemma Advances.refl (db : QueueDb) : db.Advances maxRetries db :=
  ⟨rfl, fun _ hk => hk, fun row hrow => ⟨row, hrow, rfl, .refl, fun _ => Or.inl ⟨rfl, rfl⟩⟩⟩

/-- One thing happens after the other. -/
lemma Advances.trans (h : db.Advances maxRetries db') (h' : db'.Advances maxRetries db'') :
    db.Advances maxRetries db'' := by
  refine ⟨h'.ids.trans h.ids, fun k hk => h'.keys k (h.keys k hk), fun row'' hrow'' => ?_⟩
  obtain ⟨row', hrow', hid', hsteps', hclaim'⟩ := h'.rows row'' hrow''
  obtain ⟨row, hrow, hid, hsteps, hclaim⟩ := h.rows row' hrow'
  refine ⟨row, hrow, hid.trans hid', hsteps.trans hsteps', fun htoken => ?_⟩
  rcases hclaim' htoken with ⟨htoken', hcount'⟩ | hfresh
  · rw [← htoken', ← hcount', ← hid']
    exact hclaim (htoken' ▸ htoken)
  · exact Or.inr fun hk => hfresh (h.keys _ hk)

/-- An update of the items that opens no attempt. -/
lemma Advances.update {p : QueueRow → Bool} {f : QueueRow → QueueRow}
    (hitems : db'.items = Table.update p f db.items) (hkeys : db'.attemptKeys = db.attemptKeys)
    (hf : ∀ r ∈ db.items, p r = true → (f r).id = r.id ∧
      Delivery.Steps maxRetries (db.delivery r)
        ⟨(f r).status, (f r).retryCount, db.attemptCount r.id⟩ ∧
      ((f r).claimToken = "" ∨ (f r).claimToken = r.claimToken ∧ (f r).retryCount = r.retryCount)) :
    db.Advances maxRetries db' := by
  have hcount : ∀ id, db'.attemptCount id = db.attemptCount id := fun id => by
    rw [attemptCount, hkeys, attemptCount]
  refine ⟨?_, fun k hk => hkeys ▸ hk, fun row' hrow' => ?_⟩
  · rw [hitems, Table.map_update fun r hr hp => (hf r hr hp).1]
  · rw [hitems] at hrow'
    obtain ⟨r, hr, rfl⟩ := Table.mem_update.mp hrow'
    refine ⟨r, hr, ?_⟩
    split
    · next hp =>
      obtain ⟨hid, hsteps, htoken⟩ := hf r hr hp
      refine ⟨hid.symm, ?_, fun hne => Or.inl ?_⟩
      · rwa [delivery, delivery, hcount, hid]
      · exact (htoken.resolve_left hne).imp Eq.symm Eq.symm
    · exact ⟨rfl, by rw [delivery, delivery, hcount], fun _ => Or.inl ⟨rfl, rfl⟩⟩

/-- The attempts after an item was released have the same keys. -/
lemma Releases.attemptKeys {p : QueueRow → Bool} {f : QueueRow → QueueRow} {row : QueueRow}
    {outcome : QueueAttemptOutcome} {now : Datetime}
    (hr : db.Releases db' p f row outcome now) : db'.attemptKeys = db.attemptKeys := by
  rw [QueueDb.attemptKeys, hr.attempts]
  split
  · rfl
  · exact Table.map_update fun _ _ _ => rfl

/-- An item is released, with one step. -/
lemma Releases.advances {p : QueueRow → Bool} {f : QueueRow → QueueRow} {row : QueueRow}
    {outcome : QueueAttemptOutcome} {now : Datetime} (hkeyed : Table.Keyed QueueRow.id db.items)
    (hr : db.Releases db' p f row outcome now)
    (h : Delivery.Step maxRetries (db.delivery row)
      ⟨(f row).status, (f row).retryCount, db.attemptCount row.id⟩) :
    db.Advances maxRetries db' := by
  refine Advances.update hr.items hr.attemptKeys fun r hmem hp => ?_
  obtain rfl : r = row := hkeyed.eq hmem hr.mem (hr.only r hp)
  exact ⟨(hr.released r hp).id, .single h, Or.inl (hr.released r hp).token⟩

/-- An item that is counted makes one step. -/
lemma Counted.step {q : SqliteQueue} {row row' : QueueRow} (h : Counted q row.retryCount row') :
    Delivery.Step q.maxRetries (db.delivery row)
      ⟨row'.status, row'.retryCount, db.attemptCount row.id⟩ := by
  rw [h.count]
  rcases h.status with hs | ⟨hs, hmax⟩ <;> rw [hs]
  · exact .spend
  · exact .retry hmax

/-- A claim makes one step. -/
lemma Claims.advances (hkeyed : Table.Keyed QueueRow.id db.items) {selected : QueueRow}
    {workerId : String} {now : Datetime} {token : ClaimToken} {row : QueueRow}
    (h : db.Claims db' selected workerId now token row) : db.Advances maxRetries db' := by
  have hid := (stillSelected_iff.mp h.found).1
  have hkeys : db'.attemptKeys = db.attemptKeys ++ [(selected.id, token.text)] := by
    simp [attemptKeys, h.attempts]
  have hcount : ∀ id, db'.attemptCount id =
      db.attemptCount id + if selected.id = id then 1 else 0 := by
    intro id
    rw [attemptCount, hkeys, List.countP_append, List.countP_singleton, attemptCount]
    simp
  refine ⟨?_, fun k hk => hkeys ▸ List.mem_append_left _ hk, fun row' hrow' => ?_⟩
  · rw [h.items]
    exact Table.map_update fun _ _ _ => rfl
  · rw [h.items] at hrow'
    obtain ⟨r, hr, rfl⟩ := Table.mem_update.mp hrow'
    refine ⟨r, hr, ?_⟩
    by_cases hp : stillSelected selected now r = true
    · obtain ⟨hid', hpending, -, -⟩ := stillSelected_iff.mp hp
      rw [if_pos hp]
      refine ⟨rfl, .single ?_, fun _ => Or.inr ?_⟩
      · rw [delivery, delivery, hcount, if_pos hid'.symm]
        exact .claim hpending
      · rw [hid']
        exact h.fresh
    · have hne : selected.id ≠ r.id := fun heq =>
        hp (hkeyed.eq hr h.mem (heq.symm.trans hid.symm) ▸ h.found)
      rw [if_neg hp]
      refine ⟨rfl, ?_, fun _ => Or.inl ⟨rfl, rfl⟩⟩
      rw [delivery, delivery, hcount, if_neg hne, Nat.add_zero]

/-- The attempt of a claim that a row carries. -/
lemma Accounted.mem_attemptKeys (h : db.Accounted) {row : QueueRow} (hrow : row ∈ db.items)
    (htoken : row.claimToken ≠ "") : (row.id, row.claimToken) ∈ db.attemptKeys := by
  have hprog := (h.rows row hrow).token.mpr htoken
  have hholds : db.Holds row.id row.claimedBy row.claimToken :=
    ⟨row, hrow, isHeld_iff.mpr ⟨rfl, hprog, rfl, rfl, htoken⟩⟩
  obtain ⟨a, ha, hi, ht, -⟩ := Holds.open hholds h
  exact List.mem_map.mpr ⟨a, ha, by rw [hi, ht]⟩

/-- The reclaim loop releases every stale item with its own retry count.

**Proof sketch.** The loop works on the rows it selected at its beginning. A row it finds under the
token of a selected one still has the retry count of that row. -/
lemma advances_reclaimStale {q : SqliteQueue} {now : Datetime} (hacc : db.Accounted)
    (h : db.reclaimStale q now = .ok db') : db.Advances q.maxRetries db' := by
  refine (foldlM_ok_induction (P := fun d => d.Accounted ∧ db.Advances q.maxRetries d) ?_ h
    ⟨hacc, .refl db⟩).2
  rintro d stale d' hstale ⟨hd, hadv⟩ hone
  rcases reclaimOne_ok hd.keyed hone with rfl | ⟨p, f, row, hid, hprog, htoken, hcounted, hr⟩
  · exact ⟨hd, hadv⟩
  · have hselected : stale ∈ db.items := List.mem_of_mem_filter hstale
    have hne : row.claimToken ≠ "" := (hd.rows row hr.mem).token.mp hprog
    obtain ⟨row₀, hrow₀, hid₀, -, hclaim⟩ := hadv.rows row hr.mem
    obtain rfl : row₀ = stale := hacc.keyed.eq hrow₀ hselected (hid₀.trans hid)
    have hcount : row₀.retryCount = row.retryCount := by
      rcases hclaim hne with ⟨-, hcount⟩ | hfresh
      · exact hcount
      · rw [hid, htoken] at hfresh
        exact absurd (hacc.mem_attemptKeys hselected (htoken ▸ hne)) hfresh
    refine ⟨hd.releases hr, hadv.trans (hr.advances hd.keyed ?_)⟩
    exact Counted.step (hcount ▸ hcounted row)

end QueueDb

/-! ## Statements -/

/-- A statement of a worker whose queue allows this number of retries; `fail` commits with a retry
count that it has read under the claim. -/
def QueueOp.Budgeted (maxRetries : ℕ) (evs : List (Event QueueOp QueueOp.Res)) : QueueOp → Prop
  | .reclaimStale q _ => q.maxRetries = maxRetries
  | .failCommit q itemId claimedBy claimToken _ readCount _ => q.maxRetries = maxRetries ∧
      ⟨.failRead itemId claimedBy claimToken, .ok readCount⟩ ∈ evs
  | .forceTransition q _ requested _ _ _ => requested = .failed → q.maxRetries = maxRetries
  | _ => True

/-- **A statement that adds no item advances the items**, if `fail` has read the retry count of the
claim that it ends.

**Proof sketch.** By the lemma of each function. -/
lemma QueueOp.advances {maxRetries : ℕ} {evs : List (Event QueueOp QueueOp.Res)} {op : QueueOp}
    {db db' : QueueDb} {v : op.Val} (hlegit : op.Legit) (hbudgeted : op.Budgeted maxRetries evs)
    (hacc : db.Accounted) (hadd : ∀ q item, op ≠ .add q item)
    (hread : ∀ itemId claimedBy claimToken n,
      ⟨.failRead itemId claimedBy claimToken, .ok n⟩ ∈ evs → ∀ row ∈ db.items,
        QueueDb.isHeld itemId claimedBy claimToken row = true → row.retryCount = n)
    (h : op.run db = .ok (v, db')) : db.Advances maxRetries db' := by
  cases op with
  | clock =>
    cases h
    exact .refl _
  | newToken =>
    cases h
    exact .refl _
  | add q item => exact absurd rfl (hadd q item)
  | reclaimStale q now =>
    obtain rfl : q.maxRetries = maxRetries := hbudgeted
    exact QueueDb.advances_reclaimStale hacc (QueueOp.tables_of_map h)
  | selectNext now =>
    cases h
    exact .refl _
  | quarantine selected now errorType createdAt =>
    cases h
    rcases QueueDb.quarantine_cases selected now errorType createdAt hacc.keyed with
      ⟨hi, ha⟩ | ⟨f, row, -, -, hfailed, hf, -, -, hi, ha⟩
    · refine .update (p := fun _ => false) (f := fun r => r) ?_ ?_ (by simp)
      · rw [hi, Table.update_eq_self (by simp)]
      · rw [QueueDb.attemptKeys, ha, QueueDb.attemptKeys]
    · refine .update hi ?_ fun r _ hp => ⟨(hf r hp).id, .single ?_, Or.inl (hf r hp).token⟩
      · rw [QueueDb.attemptKeys, ha, QueueDb.attemptKeys]
      · rw [(hfailed r).1, (hfailed r).2]
        exact .finish (Or.inr rfl)
  | claim selected workerId now token =>
    rcases QueueDb.claim_ok hacc.keyed h with ⟨rfl, rfl⟩ | ⟨row, hclaims, rfl⟩
    · exact .refl _
    · exact hclaims.advances hacc.keyed
  | bindTransaction itemId transactionId claimedBy claimToken =>
    obtain ⟨row, hmem, hheld, rfl⟩ := QueueDb.updateHeld_ok (QueueOp.tables_of_map h)
    exact .update rfl rfl fun r _ _ => ⟨rfl, .refl, Or.inr ⟨rfl, rfl⟩⟩
  | renewLease itemId claimedBy claimToken now =>
    obtain ⟨row, hmem, hheld, rfl⟩ := QueueDb.updateHeld_ok (QueueOp.tables_of_map h)
    exact .update rfl rfl fun r _ _ => ⟨rfl, .refl, Or.inr ⟨rfl, rfl⟩⟩
  | complete itemId claimedBy claimToken finishedAt =>
    obtain ⟨f, row, hheld, hf, hr⟩ := QueueDb.complete_ok (QueueOp.tables_of_map h)
    refine hr.advances hacc.keyed ?_
    rw [(hf row).1, (hf row).2]
    exact .finish (Or.inl rfl)
  | failRead itemId claimedBy claimToken =>
    obtain ⟨_, -, heq⟩ := Except.map_eq_ok.mp h
    cases heq
    exact .refl _
  | failCommit q itemId claimedBy claimToken retry readCount now =>
    obtain ⟨rfl, hmem⟩ := hbudgeted
    obtain ⟨f, row, hheld, -, hcounted, hr⟩ := QueueDb.failCommit_ok h
    have hcount : row.retryCount = readCount := hread _ _ _ _ hmem row hr.mem hheld
    exact hr.advances hacc.keyed (QueueDb.Counted.step (hcount ▸ hcounted row))
  | forceTransition q itemId requested reason retry now =>
    obtain ⟨f, row, -, hf, hr⟩ := QueueDb.forceTransition_ok hlegit (QueueOp.tables_of_map h)
    refine hr.advances hacc.keyed ?_
    rcases hf with ⟨-, hstatus, hcount⟩ | ⟨hrequested, hcounted⟩
    · rw [hstatus, hcount]
      exact .finish (Or.inl rfl)
    · obtain rfl : q.maxRetries = maxRetries := hbudgeted hrequested
      exact hcounted.step
