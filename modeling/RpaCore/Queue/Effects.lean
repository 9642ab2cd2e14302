import RpaCore.Queue.Basic

set_option relaxedAutoImplicit false
set_option autoImplicit false

/-!
# What the write transactions of the queue do

One lemma for each function of `RpaCore.Queue.Basic`: if it commits, which row it found and which
tables it leaves. The transactions that end a claim have the same form, so they are described by
one relation, `QueueDb.Releases`: one item leaves its claim, if it has one, and the attempt of
that claim is closed with an outcome.

## Main definitions

* `QueueDb.Releases` — an item leaves its claim, with an outcome of the attempt.
* `QueueDb.Claims` — an item is claimed.

## Main results

* `QueueDb.complete_ok`, `QueueDb.failCommit_ok`, `QueueDb.reclaimOne_ok`,
  `QueueDb.forceTransition_ok`, `QueueDb.claim_ok`, … — the lemmas.
-/

namespace QueueDb

/-- The new row of an item that leaves its claim. -/
structure Released (row row' : QueueRow) : Prop where
  id : row'.id = row.id
  status : row'.status ≠ .inProgress
  token : row'.claimToken = ""
  claimedAt : row'.claimedAt = none
  available : row'.availableAt.isSome = true → row'.status = .pending
  transaction : row'.transactionId = row.transactionId

/-- The new row of an item whose retry count went up: pending while retries are left, or failed. -/
structure Counted (q : SqliteQueue) (n : ℤ) (row' : QueueRow) : Prop where
  count : row'.retryCount = n + 1
  status : row'.status = .failed ∨ row'.status = .pending ∧ n + 1 ≤ q.maxRetries

/-- One item, which satisfies `p` and had the row `row`, leaves its claim: the rows that satisfy
`p` are changed by `f`, and the open attempt under the token of the row is closed. -/
structure Releases (db db' : QueueDb) (p : QueueRow → Bool) (f : QueueRow → QueueRow)
    (row : QueueRow) (outcome : QueueAttemptOutcome) (now : Datetime) : Prop where
  mem : row ∈ db.items
  found : p row = true
  only : ∀ r, p r = true → r.id = row.id
  released : ∀ r, p r = true → Released r (f r)
  items : db'.items = Table.update p f db.items
  attempts : db'.attempts = if row.claimToken = "" then db.attempts
    else (db.closeAttempt row.id row.claimToken outcome now).attempts

/-- The selected item is claimed under a token that no attempt of it had. -/
structure Claims (db db' : QueueDb) (selected : QueueRow) (workerId : String) (now : Datetime)
    (token : ClaimToken) (row : QueueRow) : Prop where
  mem : row ∈ db.items
  found : stillSelected selected now row = true
  fresh : (selected.id, token.text) ∉ db.attempts.map fun a => (a.itemId, a.claimToken)
  items : db'.items = Table.update (stillSelected selected now) (fun row =>
    { row with
      status := .inProgress
      claimedBy := workerId
      claimedAt := some now
      claimToken := token.text
      availableAt := none }) db.items
  attempts : db'.attempts = db.attempts ++ [{
    sequence := nextSequence (db.attempts.map QueueAttemptRow.sequence)
    itemId := selected.id
    claimToken := token.text
    claimedBy := workerId
    startedAt := now
    finishedAt := none
    outcome := none }]

/-! ## The guards -/

/-- A held row is the item in progress under the claim. -/
lemma isHeld_iff {itemId claimedBy claimToken : String} {row : QueueRow} :
    isHeld itemId claimedBy claimToken row = true ↔ row.id = itemId ∧ row.status = .inProgress ∧
      row.claimedBy = claimedBy ∧ row.claimToken = claimToken ∧ claimToken ≠ "" := by
  simp only [isHeld, Bool.and_eq_true, decide_eq_true_eq, and_assoc]
  constructor
  · rintro ⟨h1, h2, h3, h4, h5⟩
    exact ⟨h1, h2, h3, h4, h4 ▸ h5⟩
  · rintro ⟨h1, h2, h3, h4, h5⟩
    exact ⟨h1, h2, h3, h4, h4.symm ▸ h5⟩

/-- A row that is still selected is pending under the id of the selected one. -/
lemma stillSelected_iff {selected : QueueRow} {now : Datetime} {row : QueueRow} :
    stillSelected selected now row = true ↔ row.id = selected.id ∧ row.status = .pending ∧
      row.availableAt = selected.availableAt ∧ isDue now row.availableAt = true := by
  simp [stillSelected, and_assoc]

/-! ## Updates under a claim -/

/-- An update under a claim commits iff it finds the item under that claim. -/
lemma updateHeld_ok {itemId claimedBy claimToken : String} {f : QueueRow → QueueRow}
    {db db' : QueueDb} (h : db.updateHeld itemId claimedBy claimToken f = .ok db') :
    ∃ row ∈ db.items, isHeld itemId claimedBy claimToken row = true ∧
      db' = { db with items := Table.update (isHeld itemId claimedBy claimToken) f db.items } := by
  unfold updateHeld at h
  split at h
  · cases h
  · next hcount =>
    cases h
    obtain ⟨row, hrow, hheld⟩ := Table.exists_of_rowcount_pos
      (p := isHeld itemId claimedBy claimToken) (t := db.items) (by omega)
    exact ⟨row, hrow, hheld, rfl⟩

/-- Without the item under that claim it raises `QueueLeaseLostError`. -/
lemma updateHeld_error {itemId claimedBy claimToken : String} {f : QueueRow → QueueRow}
    {db : QueueDb} (h : ∀ row ∈ db.items, ¬ isHeld itemId claimedBy claimToken row = true) :
    db.updateHeld itemId claimedBy claimToken f = .error (leaseLost itemId claimedBy) := by
  have hzero : Table.rowcount (isHeld itemId claimedBy claimToken) db.items = 0 :=
    List.countP_eq_zero.mpr h
  unfold updateHeld
  rw [if_pos (by omega)]

/-- What ends a claim under the guard of that claim releases the item. -/
lemma releases_of_updateHeld {itemId claimedBy claimToken : String} {f : QueueRow → QueueRow}
    {db db₁ : QueueDb} (outcome : QueueAttemptOutcome) (now : Datetime)
    (h : db.updateHeld itemId claimedBy claimToken f = .ok db₁)
    (hf : ∀ r, isHeld itemId claimedBy claimToken r = true → Released r (f r)) :
    ∃ row, isHeld itemId claimedBy claimToken row = true ∧
      db.Releases (db₁.closeAttempt itemId claimToken outcome now)
        (isHeld itemId claimedBy claimToken) f row outcome now := by
  obtain ⟨row, hrow, hheld, rfl⟩ := updateHeld_ok h
  obtain ⟨hid, -, -, htoken, hne⟩ := isHeld_iff.mp hheld
  refine ⟨row, hheld, hrow, hheld, fun r hr => ?_, hf, rfl, ?_⟩
  · rw [(isHeld_iff.mp hr).1, hid]
  · rw [htoken, hid, if_neg hne]
    rfl

/-- `complete` releases the item as successful. -/
lemma complete_ok {itemId claimedBy claimToken : String} {finishedAt : Datetime} {db db' : QueueDb}
    (h : db.complete itemId claimedBy claimToken finishedAt = .ok db') :
    ∃ f row, isHeld itemId claimedBy claimToken row = true ∧
      (∀ r, (f r).status = .successful ∧ (f r).retryCount = r.retryCount) ∧
      db.Releases db' (isHeld itemId claimedBy claimToken) f row .successful finishedAt := by
  unfold complete at h
  cases hu : db.updateHeld itemId claimedBy claimToken fun row =>
      { row with status := .successful, claimedAt := none, claimToken := "", availableAt := none }
    with
  | error err =>
    rw [hu] at h
    cases h
  | ok db₁ =>
    rw [hu] at h
    cases h
    obtain ⟨row, hheld, hrel⟩ := releases_of_updateHeld .successful finishedAt hu
      fun r _ => ⟨rfl, by simp, rfl, rfl, by simp, rfl⟩
    refine ⟨_, row, hheld, fun r => ?_, hrel⟩
    exact ⟨rfl, rfl⟩

/-- `fail` releases the item: pending with a retry, otherwise failed. -/
lemma failCommit_ok {q : SqliteQueue} {itemId claimedBy claimToken : String} {retry : Bool}
    {readCount : ℤ} {now : Datetime} {db db' : QueueDb} {outcome : QueueAttemptOutcome}
    (h : db.failCommit q itemId claimedBy claimToken retry readCount now = .ok (outcome, db')) :
    ∃ f row, isHeld itemId claimedBy claimToken row = true ∧
      (∀ r, (f r).status = .pending ∧ outcome = .retryScheduled ∨
        (f r).status = .failed ∧ outcome = .failed) ∧
      (∀ r, Counted q readCount (f r)) ∧
      db.Releases db' (isHeld itemId claimedBy claimToken) f row outcome now := by
  unfold failCommit at h
  generalize hstatus : (if retry = true ∧ readCount + 1 ≤ (q.maxRetries : ℤ) then
    QueueStatus.pending else .failed) = newStatus at h
  have hcounted : newStatus = .failed ∨ newStatus = .pending ∧ readCount + 1 ≤ q.maxRetries := by
    rw [← hstatus]
    split
    · next hretry => exact Or.inr ⟨rfl, hretry.2⟩
    · exact Or.inl rfl
  have hcases : newStatus = .pending ∨ newStatus = .failed :=
    hcounted.symm.imp_left And.left
  simp only [hstatus] at h
  cases hd : q.deadline newStatus now (readCount + 1) with
  | error err =>
    rw [hd] at h
    cases h
  | ok due =>
    have hdue : due.isSome = true → newStatus = .pending := SqliteQueue.deadline_ok hd
    rw [hd] at h
    simp only [bind, Except.bind] at h
    split at h
    · cases h
    · next db₁ hu =>
      cases h
      obtain ⟨row, hheld, hrel⟩ := releases_of_updateHeld
        (if newStatus = .pending then .retryScheduled else .failed) now hu
        fun r _ => ⟨rfl, by rcases hcases with h | h <;> simp [h], rfl, rfl, hdue, rfl⟩
      refine ⟨_, row, hheld, fun r => ?_, fun r => ⟨rfl, hcounted⟩, hrel⟩
      rcases hcases with h | h <;> simp [h]

/-- Without the item under the claim, `fail` does not commit: it raises `QueueLeaseLostError`
unless the deadline could not be computed. -/
lemma failCommit_error {itemId claimedBy claimToken : String} (q : SqliteQueue) (retry : Bool)
    (readCount : ℤ) (now : Datetime) {db : QueueDb}
    (h : ∀ row ∈ db.items, ¬ isHeld itemId claimedBy claimToken row = true) :
    (∃ newStatus err, q.deadline newStatus now (readCount + 1) = .error err ∧
      db.failCommit q itemId claimedBy claimToken retry readCount now = .error err) ∨
    db.failCommit q itemId claimedBy claimToken retry readCount now =
      .error (leaseLost itemId claimedBy) := by
  unfold failCommit
  simp only [updateHeld_error h]
  generalize (if retry = true ∧ readCount + 1 ≤ (q.maxRetries : ℤ) then
    QueueStatus.pending else .failed) = newStatus
  cases hd : q.deadline newStatus now (readCount + 1) with
  | error err => exact Or.inl ⟨newStatus, err, hd, rfl⟩
  | ok due => exact Or.inr rfl

/-! ## The lease timeout -/

/-- The reclaim loop releases the selected item, unless it has changed since. -/
lemma reclaimOne_ok {q : SqliteQueue} {now : Datetime} {db db' : QueueDb} {stale : QueueRow}
    (hkeyed : Table.Keyed QueueRow.id db.items)
    (h : db.reclaimOne q now stale = .ok db') :
    db' = db ∨ ∃ p f row, row.id = stale.id ∧ row.status = .inProgress ∧
      row.claimToken = stale.claimToken ∧ (∀ r, Counted q stale.retryCount (f r)) ∧
      db.Releases db' p f row .leaseExpired now := by
  unfold reclaimOne at h
  generalize hstatus : (if stale.retryCount + 1 ≤ (q.maxRetries : ℤ) then
    QueueStatus.pending else .failed) = newStatus at h
  have hcounted : newStatus = .failed ∨
      newStatus = .pending ∧ stale.retryCount + 1 ≤ q.maxRetries := by
    rw [← hstatus]
    split
    · next hretry => exact Or.inr ⟨rfl, hretry⟩
    · exact Or.inl rfl
  have hcases : newStatus ≠ .inProgress := by
    rcases hcounted with h | ⟨h, -⟩ <;> simp [h]
  simp only [hstatus] at h
  cases hd : q.deadline newStatus now (stale.retryCount + 1) with
  | error err =>
    rw [hd] at h
    cases h
  | ok due =>
    have hdue : due.isSome = true → newStatus = .pending := SqliteQueue.deadline_ok hd
    rw [hd] at h
    simp only [bind, Except.bind] at h
    generalize hguard : (fun row : QueueRow => decide (row.id = stale.id) &&
      decide (row.status = QueueStatus.inProgress) &&
        decide (row.claimToken = stale.claimToken)) = guard at h
    have hg : ∀ r, guard r = true ↔
        r.id = stale.id ∧ r.status = .inProgress ∧ r.claimToken = stale.claimToken := by
      intro r
      rw [← hguard]
      simp [and_assoc]
    by_cases hfound : ∃ row ∈ db.items, guard row = true
    · obtain ⟨row, hrow, hr⟩ := hfound
      obtain ⟨hid, hprog, htoken⟩ := (hg row).mp hr
      have hcount : Table.rowcount guard db.items = 1 :=
        hkeyed.rowcount_eq_one (fun r hr => ((hg r).mp hr).1) hrow hr
      let f := fun row : QueueRow =>
        { row with
          status := newStatus
          retryCount := stale.retryCount + 1
          claimedBy := if newStatus = QueueStatus.pending then "" else stale.claimedBy
          claimedAt := none
          claimToken := ""
          availableAt := due }
      refine Or.inr ⟨guard, f, row, hid, hprog, htoken, fun _ => ⟨rfl, hcounted⟩, hrow, hr,
        fun r hr' => ((hg r).mp hr').1.trans hid.symm,
        fun r _ => ⟨rfl, hcases, rfl, rfl, hdue, rfl⟩, ?_, ?_⟩
      · split at h <;> (cases h; rfl)
      · rw [hcount] at h
        by_cases ht : stale.claimToken = ""
        · simp only [ht, ne_eq, not_true_eq_false, decide_false, Bool.and_false] at h
          cases h
          rw [if_pos (htoken.trans ht)]
        · simp only [ht, ne_eq, not_false_eq_true, decide_true, Bool.and_self, if_true] at h
          cases h
          rw [hid, htoken, if_neg ht]
          rfl
    · left
      have hnone : ∀ r ∈ db.items, ¬ guard r = true := fun r hr hr' => hfound ⟨r, hr, hr'⟩
      have hcount : Table.rowcount guard db.items = 0 := List.countP_eq_zero.mpr hnone
      simp only [hcount, Table.update_eq_self hnone] at h
      cases h
      rfl

/-! ## Administrative overrides -/

/-- An override releases the item whatever its status was: it completes the item, or counts it. -/
lemma forceTransition_ok {q : SqliteQueue} {itemId : String} {requested : QueueStatus}
    {reason : String} {retry : Bool} {now : Datetime} {db db' : QueueDb}
    (hrequested : requested = .successful ∨ requested = .failed)
    (h : db.forceTransition q itemId requested reason retry now = .ok db') :
    ∃ f row, row.id = itemId ∧
      (requested = .successful ∧ (f row).status = .successful ∧
          (f row).retryCount = row.retryCount ∨
        requested = .failed ∧ Counted q row.retryCount (f row)) ∧
      db.Releases db' (fun row => row.id = itemId) f row .adminOverride now := by
  unfold forceTransition at h
  split at h
  · cases h
  · next row hrow =>
    generalize hcount : (if requested = .failed then row.retryCount + 1 else row.retryCount) = count
      at h
    dsimp only at h
    generalize hstatus : (if requested = .failed ∧ retry = true ∧ count ≤ (q.maxRetries : ℤ)
      then QueueStatus.pending else requested) = newStatus at h
    have hcounted : requested = .successful ∧ newStatus = .successful ∧ count = row.retryCount ∨
        requested = .failed ∧ count = row.retryCount + 1 ∧
          (newStatus = .failed ∨ newStatus = .pending ∧ row.retryCount + 1 ≤ q.maxRetries) := by
      rcases hrequested with rfl | rfl
      · rw [if_neg (by simp)] at hcount hstatus
        exact Or.inl ⟨rfl, hstatus.symm, hcount.symm⟩
      · rw [if_pos rfl] at hcount
        subst hcount
        refine Or.inr ⟨rfl, rfl, ?_⟩
        rw [← hstatus]
        split
        · next hretry => exact Or.inr ⟨rfl, hretry.2.2⟩
        · exact Or.inl rfl
    have hcases : newStatus ≠ .inProgress := by
      rcases hcounted with ⟨-, h, -⟩ | ⟨-, -, h | ⟨h, -⟩⟩ <;> simp [h]
    cases hd : q.deadline newStatus now count with
    | error err =>
      rw [hd] at h
      cases h
    | ok due =>
      have hdue : due.isSome = true → newStatus = .pending := SqliteQueue.deadline_ok hd
      have hid : row.id = itemId := by simpa using List.find?_some hrow
      let f := fun row : QueueRow =>
        { row with
          status := newStatus
          retryCount := count
          claimedBy := ""
          claimedAt := none
          claimToken := ""
          availableAt := due }
      rw [hd] at h
      cases h
      refine ⟨f, row, hid, hcounted.imp_right fun h => ⟨h.1, h.2.1, h.2.2⟩,
        List.mem_of_find?_eq_some hrow, by simpa using hid, fun r hr => ?_,
        fun r _ => ⟨rfl, hcases, rfl, rfl, hdue, rfl⟩, ?_, ?_⟩
      · rw [hid]
        simpa using hr
      · split <;> rfl
      · by_cases ht : row.claimToken = ""
        · simp [ht]
        · simp only [ne_eq, ht, not_false_eq_true, if_true, if_false, hid]
          rfl

/-! ## Selected rows -/

/-- A quarantine releases the selected item as failed, unless it has changed since. -/
lemma quarantine_cases (selected : QueueRow) (now : Datetime) (errorType : String)
    (createdAt : Datetime) {db : QueueDb} (hkeyed : Table.Keyed QueueRow.id db.items) :
    ((db.quarantine selected now errorType createdAt).items = db.items ∧
      (db.quarantine selected now errorType createdAt).attempts = db.attempts) ∨
    ∃ f row, row.id = selected.id ∧ row.status = .pending ∧
      (∀ r, (f r).status = .failed ∧ (f r).retryCount = r.retryCount) ∧
      (∀ r, stillSelected selected now r = true → Released r (f r)) ∧ row ∈ db.items ∧
      stillSelected selected now row = true ∧
      (db.quarantine selected now errorType createdAt).items =
        Table.update (stillSelected selected now) f db.items ∧
      (db.quarantine selected now errorType createdAt).attempts = db.attempts := by
  by_cases hfound : ∃ row ∈ db.items, stillSelected selected now row = true
  · obtain ⟨row, hrow, hr⟩ := hfound
    obtain ⟨hid, hpending, -, -⟩ := stillSelected_iff.mp hr
    have hcount : Table.rowcount (stillSelected selected now) db.items = 1 :=
      hkeyed.rowcount_eq_one (fun r hr => (stillSelected_iff.mp hr).1) hrow hr
    let f := fun row : QueueRow =>
      { row with
        status := .failed
        claimedBy := ""
        claimedAt := none
        claimToken := ""
        availableAt := none }
    refine Or.inr ⟨f, row, hid, hpending, fun _ => ⟨rfl, rfl⟩,
      fun r _ => ⟨rfl, by simp [f], rfl, rfl, by simp [f], rfl⟩, hrow, hr, ?_, ?_⟩ <;>
    · unfold quarantine
      rw [hcount]
      rfl
  · have hnone : ∀ r ∈ db.items, ¬ stillSelected selected now r = true :=
      fun r hr hr' => hfound ⟨r, hr, hr'⟩
    have hcount : Table.rowcount (stillSelected selected now) db.items = 0 :=
      List.countP_eq_zero.mpr hnone
    left
    unfold quarantine
    simp [hcount, Table.update_eq_self hnone]

/-- A claim that commits claims the selected item, unless it has changed since. -/
lemma claim_ok {selected : QueueRow} {workerId : String} {now : Datetime} {token : ClaimToken}
    {db db' : QueueDb} {r : Option QueueRow} (hkeyed : Table.Keyed QueueRow.id db.items)
    (h : db.claim selected workerId now token = .ok (r, db')) :
    (r = none ∧ db' = db) ∨ ∃ row, db.Claims db' selected workerId now token row ∧
      r = some { row with
        status := .inProgress
        claimedBy := workerId
        claimedAt := some now
        claimToken := token.text
        availableAt := none } := by
  unfold claim at h
  split at h
  · cases h
    exact Or.inl ⟨rfl, rfl⟩
  · next hcount =>
    right
    obtain ⟨row, hrow, hr⟩ := Table.exists_of_rowcount_pos
      (p := stillSelected selected now) (t := db.items) (by omega)
    obtain ⟨hid, -, -, -⟩ := stillSelected_iff.mp hr
    unfold openAttempt at h
    dsimp only at h
    split at h
    · cases h
    · next hfresh =>
      cases h
      refine ⟨row, ⟨hrow, hr, hfresh, rfl, rfl⟩, ?_⟩
      have hmem := Table.mem_update_of (f := fun row : QueueRow =>
        { row with
          status := .inProgress
          claimedBy := workerId
          claimedAt := some now
          claimToken := token.text
          availableAt := none }) hrow hr
      have hkeyed' := hkeyed.update (p := stillSelected selected now) (f := fun row : QueueRow =>
        { row with
          status := .inProgress
          claimedBy := workerId
          claimedAt := some now
          claimToken := token.text
          availableAt := none }) fun _ _ _ => rfl
      dsimp only
      cases hfind : (Table.update (stillSelected selected now) (fun row : QueueRow =>
        { row with
          status := .inProgress
          claimedBy := workerId
          claimedAt := some now
          claimToken := token.text
          availableAt := none }) db.items).find? (fun row => decide (row.id = selected.id)) with
      | none =>
        have := List.find?_eq_none.mp hfind _ hmem
        simp [hid] at this
      | some row' =>
        have hid' : row'.id = selected.id := by simpa using List.find?_some hfind
        rw [hkeyed'.eq (List.mem_of_find?_eq_some hfind) hmem (hid'.trans hid.symm)]

end QueueDb
