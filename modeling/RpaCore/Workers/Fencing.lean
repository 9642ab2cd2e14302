import RpaCore.Workers.Runs

set_option relaxedAutoImplicit false
set_option autoImplicit false

/-!
# Lost claims

A worker whose lease has expired may be alive still, and go on with its item. Its claim is the
fence: what it sends under the claim is refused, now and in every later state, whoever holds the
item then and whether anybody does.

## Main definitions

* `WorkerOp.presents` — the claim that a statement is sent under.

## Main results

* `WorkerOp.Exec.of_not_holds` — a statement under a claim that is not current changes nothing.
* `Ledger.claim_step` — a claim that has ended has ended for ever.
* `lostClaim_refused` — what is sent under a claim that was lost is refused.
-/

/-! ## Statements under a claim -/

/-- The claim that a statement is sent under: the item, the worker and the token. -/
def WorkerOp.presents : WorkerOp → Option (String × String × String)
  | .queue op => op.presents
  | .saveFenced _ queueItemId claimedBy claimToken _ _ => some (queueItemId, claimedBy, claimToken)
  | _ => none

/-- The exception that a statement of the databases is answered with. -/
def WorkerOp.raised : (op : WorkerOp) → op.Res → Option PyError
  | .queue op, r => op.raised r
  | .saveFenced _ _ _ _ _ _, r => r.raised
  | .saveTransaction _, r => r.raised
  | .load _, r => r.raised
  | .outside _, _ => none

section Statements

variable {t : List WorkerLabel} {s s' : WorkerSystem} {op : WorkerOp} {r : op.Res}
  {itemId claimedBy claimToken : String}

/-- **A statement under a claim that is not current** raises, and changes nothing. -/
theorem WorkerOp.Exec.of_not_holds (hdb : s.transactions.Consistent) (h : op.Exec s r s')
    (hop : op.presents = some (itemId, claimedBy, claimToken))
    (hlost : ¬ s.queue.db.Holds itemId claimedBy claimToken) :
    s' = s ∧ ∃ err, op.raised r = some err := by
  cases op with
  | queue op =>
    obtain ⟨hexec, htransactions⟩ := h
    obtain ⟨hsame, err, hraised, -⟩ := QueueOp.Exec.of_not_holds hexec hop hlost
    obtain ⟨queue, transactions⟩ := s
    obtain ⟨queue', transactions'⟩ := s'
    obtain rfl : queue' = queue := hsame
    obtain rfl : transactions' = transactions := htransactions
    exact ⟨rfl, err, hraised⟩
  | saveFenced tx queueItemId holder token expectedRevision initial =>
    cases hop
    rcases WorkerOp.Exec.fenced hdb h with ⟨rfl, err, rfl⟩ | ⟨revision, rfl, hfenced⟩
    · exact ⟨rfl, err, rfl⟩
    · obtain ⟨row, hrow, hmay⟩ := hfenced.claim
      exact absurd ⟨row, hrow, (Bool.and_eq_true_iff.mp hmay).1⟩ hlost
  | _ => cases hop

/-- The first save of an item leaves its claim as it is. -/
lemma Fenced.holds {tx : Transaction} {queueItemId holder token : String}
    {expectedRevision revision : ℤ} {initial : Bool}
    (h : Fenced s s' tx queueItemId holder token expectedRevision initial revision)
    (hholds : s.queue.db.Holds itemId claimedBy claimToken) :
    s'.queue.db.Holds itemId claimedBy claimToken := by
  rcases h.queue with ⟨-, hqueue⟩ | ⟨-, -, -, hitems, -⟩
  · rw [hqueue]
    exact hholds
  · obtain ⟨row, hrow, hheld⟩ := hholds
    unfold QueueDb.Holds
    rw [hitems]
    by_cases hmay : Store.mayWrite queueItemId holder token tx.id row = true
    · exact ⟨_, Table.mem_update_of hrow hmay, hheld⟩
    · exact ⟨row, Table.mem_update_of_not hrow hmay, hheld⟩

/-- An attempt that is closed stays closed. -/
lemma Ledger.keepsClosed (h : Ledger t s) {evs : List (Event WorkerOp WorkerOp.Res)} {b : Bool}
    (hobserves : Observes b evs op) (hexec : op.Exec s r s') :
    s.queue.db.KeepsClosed s'.queue.db := by
  have hsame : s'.queue.db.attempts = s.queue.db.attempts → s.queue.db.KeepsClosed s'.queue.db := by
    intro heq a ha _
    rw [heq]
    exact ha
  cases op with
  | queue op => exact (h.accounted.exec (hobserves.legit op rfl) hexec.1).2
  | saveFenced tx queueItemId holder token expectedRevision initial =>
    rcases WorkerOp.Exec.fenced h.consistent hexec with ⟨rfl, -⟩ | ⟨revision, rfl, hfenced⟩
    · exact hsame rfl
    · rcases hfenced.queue with ⟨-, hqueue⟩ | ⟨-, -, -, -, hattempts⟩
      · exact hsame (by rw [hqueue])
      · exact hsame hattempts
  | saveTransaction tx =>
    rcases WorkerOp.Exec.plain h.consistent hexec with ⟨rfl, -⟩ | ⟨rfl, hqueue, -⟩
    · exact hsame rfl
    · exact hsame (by rw [hqueue])
  | load id =>
    obtain rfl := (WorkerOp.Exec.load hexec).1
    exact hsame rfl
  | outside op =>
    obtain rfl : s' = s := hexec
    exact hsame rfl

/-- **A step keeps the current claim, or closes its attempt.** -/
theorem Ledger.claim_step (h : Ledger t s) {evs : List (Event WorkerOp WorkerOp.Res)} {b : Bool}
    (hobserves : Observes b evs op) (hexec : op.Exec s r s')
    (hholds : s.queue.db.Holds itemId claimedBy claimToken) :
    s'.queue.db.Holds itemId claimedBy claimToken ∨
      ∃ outcome, s'.queue.db.ClosedAs itemId claimToken outcome := by
  cases op with
  | queue op =>
    rcases hexec.1.db with heq | ⟨v, hrun⟩
    · rw [heq]
      exact Or.inl hholds
    · refine (hholds.run h.accounted (hobserves.legit op rfl) hrun).imp_right ?_
      rintro ⟨row, outcome, -, -, hclosed⟩
      exact ⟨outcome, hclosed⟩
  | saveFenced tx queueItemId holder token expectedRevision initial =>
    rcases WorkerOp.Exec.fenced h.consistent hexec with ⟨rfl, -⟩ | ⟨revision, rfl, hfenced⟩
    · exact Or.inl hholds
    · exact Or.inl (hfenced.holds hholds)
  | saveTransaction tx =>
    rcases WorkerOp.Exec.plain h.consistent hexec with ⟨rfl, -⟩ | ⟨rfl, hqueue, -⟩
    · exact Or.inl hholds
    · rw [hqueue]
      exact Or.inl hholds
  | load id =>
    obtain rfl := (WorkerOp.Exec.load hexec).1
    exact Or.inl hholds
  | outside op =>
    obtain rfl : s' = s := hexec
    exact Or.inl hholds

end Statements

/-! ## Runs -/

section Runs

variable {t t' t'' : List WorkerLabel} {P P' P'' : WorkerPool}
  {itemId claimedBy claimToken : String} {outcome : QueueAttemptOutcome}

/-- An attempt that is closed is closed in every later state. -/
lemma WorkerRun.closed_later (h : WorkerRun t P) (h' : workerMachine.Run WorkerCall P t' P')
    (hclosed : P.shared.queue.db.ClosedAs itemId claimToken outcome) :
    P'.shared.queue.db.ClosedAs itemId claimToken outcome :=
  WorkerRun.later h h' (I := fun _ s => s.queue.db.ClosedAs itemId claimToken outcome) hclosed
    (fun _ _ _ _ hI => hI)
    fun _ _ _ _ _ _ _ _ hledger _ hobserves hexec hI =>
      hI.mono (hledger.keepsClosed hobserves hexec)

/-- A claim that is current is current in a later state, or its attempt is closed there. -/
lemma WorkerRun.claim_later (h : WorkerRun t P) (h' : workerMachine.Run WorkerCall P t' P')
    (hholds : P.shared.queue.db.Holds itemId claimedBy claimToken) :
    P'.shared.queue.db.Holds itemId claimedBy claimToken ∨
      ∃ outcome, P'.shared.queue.db.ClosedAs itemId claimToken outcome := by
  refine WorkerRun.later h h' (I := fun _ s => s.queue.db.Holds itemId claimedBy claimToken ∨
    ∃ outcome, s.queue.db.ClosedAs itemId claimToken outcome) (Or.inl hholds)
    (fun _ _ _ _ hI => hI) ?_
  rintro u p prog evs op r s s' hledger - hobserves hexec (hholds | ⟨outcome, hclosed⟩)
  · exact hledger.claim_step hobserves hexec hholds
  · exact Or.inr ⟨outcome, hclosed.mono (hledger.keepsClosed hobserves hexec)⟩

/-- **A lost claim is lost for ever.** Once a claim that was current is not, because its item was
completed, failed, reclaimed after its lease or decided by hand, it is not in any later state, and
every statement that is sent under it from then on raises and changes nothing: no save of the
transaction, no completion, no failure, no binding and no renewal. -/
theorem lostClaim_refused (h : WorkerRun t P)
    (hholds : P.shared.queue.db.Holds itemId claimedBy claimToken)
    (h' : workerMachine.Run WorkerCall P t' P')
    (hlost : ¬ P'.shared.queue.db.Holds itemId claimedBy claimToken)
    (h'' : workerMachine.Run WorkerCall P' t'' P'') :
    ¬ P''.shared.queue.db.Holds itemId claimedBy claimToken ∧
    ∀ t₁ p op r t₂, t'' = t₁ ++ .answer p ⟨op, r⟩ :: t₂ →
      op.presents = some (itemId, claimedBy, claimToken) →
      ∃ Q Q', workerMachine.Run WorkerCall P' t₁ Q ∧ Q'.shared = Q.shared ∧
        workerMachine.Run WorkerCall Q' t₂ P'' ∧ ∃ err, op.raised r = some err := by
  have hrun : WorkerRun (t ++ t') P' := Machine.Run.append h h'
  obtain ⟨outcome, hclosed⟩ := (WorkerRun.claim_later h h' hholds).resolve_left hlost
  -- the claim is not current from then on
  have hlater : ∀ u Q, workerMachine.Run WorkerCall P' u Q →
      Q.shared.transactions.Consistent ∧ ¬ Q.shared.queue.db.Holds itemId claimedBy claimToken := by
    intro u Q hu
    have hledger := WorkerRun.ledger (Machine.Run.append hrun hu : WorkerRun _ Q)
    exact ⟨hledger.consistent, (WorkerRun.closed_later hrun hu hclosed).not_holds hledger.accounted⟩
  refine ⟨(hlater t'' P'' h'').2, ?_⟩
  rintro t₁ p op r t₂ rfl hop
  obtain ⟨Q, Q', hbefore, hstep, hafter⟩ := Machine.Run.middle h''
  obtain ⟨hconsistent, hnot⟩ := hlater t₁ Q hbefore
  cases hstep with
  | answer _ hexec =>
    obtain ⟨hsame, hraised⟩ := WorkerOp.Exec.of_not_holds hconsistent hexec hop hnot
    exact ⟨Q, _, hbefore, hsame, hafter, hraised⟩

/-- The processes after process 1 has claimed the item. -/
def claimedWorkers : WorkerPool :=
  addedWorkers.solve (WorkerOp.answer ⟨0, some 0⟩) 1 (queueProgram (plainQueue.nextItemCall "w" 1))

/-- The processes after the item was failed by hand. -/
def forcedWorkers : WorkerPool :=
  claimedWorkers.solve (WorkerOp.answer ⟨0, some 0⟩) 2
    (queueProgram ((plainQueue.forceFail "i" "r" false).program fun _ => .done))

/-- The steps of process 1, which completes its item all the same. -/
def lateLabels : List WorkerLabel :=
  forcedWorkers.solveLabels (WorkerOp.answer ⟨0, some 0⟩) 1
    (queueProgram ((SqliteQueue.complete "i" "w" "a").program fun _ => .done))

/-- A statement of the step is sent under the claim. -/
def PoolLabel.sentUnder (claim : String × String × String) : WorkerLabel → Bool
  | .answer _ ev => ev.op.presents = some claim
  | .start _ _ => false

/-- That is refused. -/
theorem lostClaim_refused_late : ∃ t₁ p op r t₂, lateLabels = t₁ ++ .answer p ⟨op, r⟩ :: t₂ ∧
    op.presents = some ("i", "w", "a") ∧ ∃ err, op.raised r = some err := by
  obtain ⟨hadd, hshort⟩ := addedWorkers_run
  have hrun := RunOf.workerRun (fun _ hcall => hcall.workerCall) hadd
  obtain ⟨hclaimed, hshort⟩ := Machine.Run.solve (WorkerOp.exec_answer ⟨0, some 0⟩) hrun hshort
    (p := 1) rfl (WorkerCall.queue (QueueCall.nextItem plainQueue "w" 1))
  obtain ⟨hforced, hshort⟩ := Machine.Run.solve (WorkerOp.exec_answer ⟨0, some 0⟩)
    (.nil claimedWorkers : workerMachine.Run WorkerCall claimedWorkers [] claimedWorkers) hshort
    (p := 2) rfl (WorkerCall.queue (QueueCall.forceFail plainQueue "i" "r" false))
  obtain ⟨hlate, -⟩ := Machine.Run.solve (WorkerOp.exec_answer ⟨0, some 0⟩)
    (.nil forcedWorkers : workerMachine.Run WorkerCall forcedWorkers [] forcedWorkers) hshort
    (p := 1) rfl (WorkerCall.queue (QueueCall.complete "i" "w" "a"))
  have hholds : claimedWorkers.shared.queue.db.Holds "i" "w" "a" := by
    unfold QueueDb.Holds
    decide +kernel
  have hlost : ¬ forcedWorkers.shared.queue.db.Holds "i" "w" "a" := by
    unfold QueueDb.Holds
    decide +kernel
  obtain ⟨-, hrefused⟩ := lostClaim_refused hclaimed hholds hforced hlost hlate
  have hany : lateLabels.any (PoolLabel.sentUnder ("i", "w", "a")) = true := by decide +kernel
  obtain ⟨l, hmem, hunder⟩ := List.any_eq_true.mp hany
  obtain ⟨t₁, t₂, hsplit⟩ := List.append_of_mem hmem
  cases l with
  | start p prog => cases hunder
  | answer p ev =>
    obtain ⟨op, r⟩ := ev
    have hop : op.presents = some ("i", "w", "a") := of_decide_eq_true hunder
    obtain ⟨-, -, -, -, -, herr⟩ := hrefused t₁ p op r t₂ hsplit hop
    exact ⟨t₁, p, op, r, t₂, hsplit, hop, herr⟩

end Runs
