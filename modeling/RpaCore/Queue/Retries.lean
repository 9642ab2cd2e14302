import RpaCore.Queue.Budget
import Mathlib.Algebra.Order.BigOperators.Group.Finset

set_option relaxedAutoImplicit false
set_option autoImplicit false

/-!
# Retries over whole runs

The queues of all workers allow the same number of retries. Then every item that was added with no
retries stays within its budget, so it is claimed at most once more often than it may be retried.

## Main definitions

* `RetryCall`, `RetryRun` — the calls of such workers, and their runs.
* `Budgets` — the invariant.

## Main results

* `RetryCall.wp` — `fail` commits with a count that it has read.
* `RetryRun.budgets` — the invariant holds in every run.
* `retry_budget` — the bound on claims.
-/

/-! ## Calls -/

/-- The calls of workers whose queues allow `maxRetries` retries. -/
inductive RetryCall (maxRetries : ℕ) :
    Prog QueueOp QueueOp.Res (Except PyError QueueAnswer) → Prop
  | add (q : SqliteQueue) (item : QueueItem) (h : item.IsFresh) :
      RetryCall maxRetries ((q.add item).program fun _ => .done)
  | nextItem (q : SqliteQueue) (hq : q.maxRetries = maxRetries) (workerId : String) (rounds : ℕ) :
      RetryCall maxRetries (q.nextItemCall workerId rounds)
  | bindTransaction (itemId transactionId claimedBy claimToken : String) :
      RetryCall maxRetries ((SqliteQueue.bindTransaction itemId transactionId claimedBy
        claimToken).program fun _ => .done)
  | renewLease (itemId claimedBy claimToken : String) :
      RetryCall maxRetries
        ((SqliteQueue.renewLease itemId claimedBy claimToken).program fun _ => .done)
  | complete (itemId claimedBy claimToken : String) :
      RetryCall maxRetries
        ((SqliteQueue.complete itemId claimedBy claimToken).program fun _ => .done)
  | fail (q : SqliteQueue) (hq : q.maxRetries = maxRetries)
      (itemId claimedBy claimToken : String) (retry : Bool) :
      RetryCall maxRetries ((q.fail itemId claimedBy claimToken retry).program .outcome)
  | forceComplete (q : SqliteQueue) (hq : q.maxRetries = maxRetries) (itemId reason : String) :
      RetryCall maxRetries ((q.forceComplete itemId reason).program fun _ => .done)
  | forceFail (q : SqliteQueue) (hq : q.maxRetries = maxRetries) (itemId reason : String)
      (retry : Bool) :
      RetryCall maxRetries ((q.forceFail itemId reason retry).program fun _ => .done)

section Calls

variable {maxRetries : ℕ} {prog : Prog QueueOp QueueOp.Res (Except PyError QueueAnswer)}
  {evs : List (Event QueueOp QueueOp.Res)}

/-- They are calls of the queue. -/
lemma RetryCall.queueCall (h : RetryCall maxRetries prog) : QueueCall prog := by
  cases h with
  | add q item h => exact .add q item h
  | nextItem q _ workerId rounds => exact .nextItem q workerId rounds
  | bindTransaction => exact .bindTransaction _ _ _ _
  | renewLease => exact .renewLease _ _ _
  | complete => exact .complete _ _ _
  | fail q _ itemId claimedBy claimToken retry => exact .fail q itemId claimedBy claimToken retry
  | forceComplete q _ itemId reason => exact .forceComplete q itemId reason
  | forceFail q _ itemId reason retry => exact .forceFail q itemId reason retry

/-- The monitor of the statements. -/
abbrev RetryCall.monitor (maxRetries : ℕ) :
    Monitor QueueOp QueueOp.Res (List (Event QueueOp QueueOp.Res)) :=
  traceMonitor (fun evs op => op.Budgeted maxRetries evs) fun _ _ _ => True

/-- The weakest precondition of a call is that of its method. -/
lemma RetryCall.wp_program {α : Type} {p : QueueM α} {f : α → QueueAnswer}
    (h : p.wp (RetryCall.monitor maxRetries) (fun _ _ _ => True) (fun _ _ _ => True) () evs) :
    (p.program f).wp (RetryCall.monitor maxRetries) (fun _ _ => True) evs :=
  QueueM.program_wp.mpr h

/-- A computed value sends nothing. -/
lemma RetryCall.wp_answer {α : Type} (x : Except PyError α) :
    (Proc.ofExcept x : QueueM α).wp (RetryCall.monitor maxRetries) (fun _ _ _ => True)
      (fun _ _ _ => True) () evs := by
  cases x <;> trivial

/-- The loop of `next_item` counts nothing. -/
lemma SqliteQueue.wp_nextItemLoop_budgeted (q : SqliteQueue) (workerId : String) (n : ℕ) :
    (q.nextItemLoop workerId n).wp (RetryCall.monitor maxRetries) (fun _ _ _ => True)
      (fun _ _ _ => True) () evs := by
  induction n generalizing evs with
  | zero => trivial
  | succ n ih =>
    simp only [nextItemLoop, Proc.wp_bind, now, newToken, Proc.wp_call, Proc.wp_ofExcept]
    refine ⟨trivial, fun moment _ => ⟨trivial, fun answer _ => ?_⟩⟩
    cases answer with
    | error err => trivial
    | ok row =>
      cases row with
      | none => trivial
      | some row =>
        simp only [Proc.wp_bind, Proc.wp_ofExcept]
        split
        · split
          · split
            · trivial
            · simp only [Proc.wp_bind, Proc.wp_call, Proc.wp_ofExcept]
              refine ⟨trivial, fun now _ => ⟨trivial, fun createdAt _ => ⟨trivial, ?_⟩⟩⟩
              intro answer _
              cases answer with
              | error err => trivial
              | ok => exact ih
          · simp only [Proc.wp_bind, Proc.wp_call, Proc.wp_ofExcept]
            refine ⟨trivial, fun now _ => ⟨trivial, fun token _ => ⟨trivial, ?_⟩⟩⟩
            intro answer _
            cases answer with
            | error err => trivial
            | ok updated =>
              cases updated with
              | none => exact ih
              | some updated => trivial
        · trivial

/-- An override counts an item with the retries of its queue. -/
lemma SqliteQueue.wp_forceTransition_budgeted {q : SqliteQueue} (hq : q.maxRetries = maxRetries)
    (itemId : String) (requested : QueueStatus) (reason : String) (retry : Bool) :
    (q.forceTransition itemId requested reason retry).wp (RetryCall.monitor maxRetries)
      (fun _ _ _ => True) (fun _ _ _ => True) () evs := by
  unfold forceTransition
  split
  · trivial
  · exact ⟨trivial, fun now _ => ⟨fun _ => hq, fun answer _ => RetryCall.wp_answer answer⟩⟩

/-- **What these calls send.** -/
lemma RetryCall.wp (h : RetryCall maxRetries prog) :
    prog.wp (RetryCall.monitor maxRetries) (fun _ _ => True) [] := by
  cases h with
  | add q item _ =>
    exact wp_program ⟨trivial, fun answer _ => wp_answer answer⟩
  | nextItem q hq workerId rounds =>
    refine wp_program ?_
    simp only [SqliteQueue.nextItem, SqliteQueue.now, Proc.wp_bind, Proc.wp_call,
      Proc.wp_ofExcept]
    refine ⟨trivial, fun now _ => ⟨hq, fun answer _ => ?_⟩⟩
    cases answer with
    | error err => trivial
    | ok => exact q.wp_nextItemLoop_budgeted workerId rounds
  | bindTransaction =>
    exact wp_program ⟨trivial, fun answer _ => wp_answer answer⟩
  | renewLease =>
    exact wp_program ⟨trivial, fun now _ => ⟨trivial, fun answer _ => wp_answer answer⟩⟩
  | complete =>
    exact wp_program ⟨trivial, fun now _ => ⟨trivial, fun answer _ => wp_answer answer⟩⟩
  | fail q hq itemId claimedBy claimToken retry =>
    refine wp_program ?_
    simp only [SqliteQueue.fail, SqliteQueue.now, Proc.wp_bind, Proc.wp_call, Proc.wp_ofExcept]
    refine ⟨trivial, fun answer _ => ?_⟩
    cases answer with
    | error err => trivial
    | ok count =>
      refine ⟨trivial, fun now _ => ⟨⟨hq, ?_⟩, fun answer _ => ?_⟩⟩
      · exact List.mem_append_left _ List.mem_cons_self
      · cases answer <;> trivial
  | forceComplete q hq itemId reason =>
    exact wp_program (q.wp_forceTransition_budgeted hq itemId .successful reason false)
  | forceFail q hq itemId reason retry =>
    exact wp_program (q.wp_forceTransition_budgeted hq itemId .failed reason retry)

end Calls

/-! ## Runs -/

/-- The runs of any number of such workers from an empty queue. -/
def RetryRun (maxRetries : ℕ) (t : List QueueLabel) (P : QueuePool) : Prop :=
  queueMachine.Run (RetryCall maxRetries) idlePool t P

/-- The item was added in the run with no retries. -/
def StartsPending (t : List QueueLabel) (id : String) : Prop :=
  ∃ p q item, .answer p ⟨.add q item, .ok ()⟩ ∈ t ∧ item.id = id ∧ item.retryCount = 0

/-- **The budget of a run**: as long as a claim lasts the retry count that `fail` has read under it
is the one of its item, and every item that was added with no retries is within its budget. -/
structure Budgets (maxRetries : ℕ) (t : List QueueLabel) (db : QueueDb) : Prop where
  reads : ∀ p itemId claimedBy claimToken n,
    .answer p ⟨.failRead itemId claimedBy claimToken, .ok n⟩ ∈ t → claimToken ≠ "" ∧
      (itemId, claimToken) ∈ db.attemptKeys ∧
      ∀ row ∈ db.items, row.id = itemId → row.claimToken = claimToken → row.retryCount = n
  added : ∀ id, StartsPending t id → id ∈ db.items.map QueueRow.id
  rows : ∀ row ∈ db.items, StartsPending t row.id → (db.delivery row).InBudget maxRetries

section Runs

variable {maxRetries : ℕ} {t t' : List QueueLabel} {P P' : QueuePool} {db : QueueDb}
  {s s' : QueueSystem}

/-- Such a run is a run of the queue. -/
lemma RetryRun.queueRun (h : RetryRun maxRetries t P) : QueueRun t P :=
  Machine.Run.mono (fun _ hcall => hcall.queueCall) h

/-- What the workers send. -/
lemma RetryRun.sends (h : RetryRun maxRetries t P) {t₁ t₂ : List QueueLabel} {p : ℕ}
    {ev : Event QueueOp QueueOp.Res} (ht : t = t₁ ++ .answer p ev :: t₂) :
    ∃ evs, (∀ e ∈ evs, .answer p e ∈ t₁) ∧ ev.op.Budgeted maxRetries evs := by
  obtain ⟨hpre, -⟩ := Machine.Run.calls (fun _ evs op => op.Budgeted maxRetries evs)
    (fun _ _ _ _ => True) (fun _ _ _ => True) (fun _ hcall => hcall.wp) h fun _ => ⟨_, rfl⟩
  obtain ⟨prog, evs, hcur, hbudgeted⟩ := hpre t₁ p ev t₂ ht
  refine ⟨evs, fun e he => ?_, hbudgeted (honest_of_forall (fun _ _ _ => trivial) _ _)⟩
  obtain ⟨a, b, rfl⟩ := callOf_mem hcur he
  simp

/-- A step that adds no item to the queue starts none. -/
lemma StartsPending.of_append {l : QueueLabel} {id : String}
    (hl : ∀ p q item, l ≠ .answer p ⟨.add q item, .ok ()⟩) (h : StartsPending (t ++ [l]) id) :
    StartsPending t id := by
  obtain ⟨p, q, item, hmem, hitem⟩ := h
  rcases List.mem_append.mp hmem with hmem | hmem
  · exact ⟨p, q, item, hmem, hitem⟩
  · exact absurd (List.mem_singleton.mp hmem).symm (hl p q item)

/-- A retry count that `fail` has read is the one of the claimed item. -/
lemma QueueOp.Exec.failRead {itemId claimedBy claimToken : String} {n : ℤ}
    (h : QueueOp.Exec s (.failRead itemId claimedBy claimToken) (.ok n) s') :
    s'.db = s.db ∧ ∃ row ∈ s.db.items,
      QueueDb.isHeld itemId claimedBy claimToken row = true ∧ row.retryCount = n := by
  obtain ⟨-, hatom⟩ := h
  generalize s'.db = d at hatom ⊢
  cases hatom with
  | commit hrun =>
    change (s.db.failRead itemId claimedBy claimToken).map (fun n => (n, s.db)) = _ at hrun
    unfold QueueDb.failRead at hrun
    split at hrun
    · next row hrow =>
      cases hrun
      exact ⟨rfl, row, List.mem_of_find?_eq_some hrow, List.find?_some hrow, rfl⟩
    · cases hrun

/-- An item that was added. -/
lemma QueueOp.Exec.add {q : SqliteQueue} {item : QueueItem}
    (h : QueueOp.Exec s (.add q item) (.ok ()) s') : s.db.add q item = .ok s'.db := by
  obtain ⟨-, hatom⟩ := h
  generalize s'.db = d at hatom ⊢
  cases hatom with
  | commit hrun =>
    change (s.db.add q item).map (fun db' => ((), db')) = _ at hrun
    cases hx : s.db.add q item with
    | error e =>
      rw [hx] at hrun
      cases hrun
    | ok d =>
      rw [hx] at hrun
      cases hrun
      rfl

/-- The items after an answer: one more if it added an item, otherwise the same, advanced. -/
lemma QueueOp.Exec.advances {op : QueueOp} {r : op.Res} {evs : List (Event QueueOp QueueOp.Res)}
    (h : op.Exec s r s') (hlegit : op.Legit) (hbudgeted : op.Budgeted maxRetries evs)
    (hacc : s.db.Accounted)
    (hread : ∀ itemId claimedBy claimToken n,
      ⟨.failRead itemId claimedBy claimToken, .ok n⟩ ∈ evs → ∀ row ∈ s.db.items,
        QueueDb.isHeld itemId claimedBy claimToken row = true → row.retryCount = n) :
    (∃ q item, (⟨op, r⟩ : Event QueueOp QueueOp.Res) = ⟨.add q item, .ok ()⟩ ∧
      s.db.add q item = .ok s'.db) ∨
    (∀ q item, (⟨op, r⟩ : Event QueueOp QueueOp.Res) ≠ ⟨.add q item, .ok ()⟩) ∧
      s.db.Advances maxRetries s'.db := by
  by_cases hadd : ∃ q item, (⟨op, r⟩ : Event QueueOp QueueOp.Res) = ⟨.add q item, .ok ()⟩
  · obtain ⟨q, item, heq⟩ := hadd
    cases heq
    exact Or.inl ⟨q, item, rfl, h.add⟩
  · refine Or.inr ⟨fun q item heq => hadd ⟨q, item, heq⟩, ?_⟩
    rcases h.db with hdb | ⟨v, hrun⟩
    · rw [hdb]
      exact .refl _
    · by_cases hop : ∃ q item, op = .add q item
      · obtain ⟨q, item, rfl⟩ := hop
        obtain ⟨-, hatom⟩ := h
        generalize s'.db = d at hatom ⊢
        cases hatom with
        | commit => exact absurd ⟨q, item, rfl⟩ hadd
        | raise => exact .refl _
        | kept => exact .refl _
      · exact QueueOp.advances hlegit hbudgeted hacc (fun q item heq => hop ⟨q, item, heq⟩) hread
          hrun

/-- Advancing the items keeps the budget. -/
lemma Budgets.advances {db' : QueueDb} (h : Budgets maxRetries t db)
    (hadv : db.Advances maxRetries db') : Budgets maxRetries t db' := by
  refine ⟨fun p itemId claimedBy claimToken n hmem => ?_, fun id hid => ?_,
    fun row' hrow' hstart => ?_⟩
  · obtain ⟨hne, hkey, hrows⟩ := h.reads p itemId claimedBy claimToken n hmem
    refine ⟨hne, hadv.keys _ hkey, fun row' hrow' hid htoken => ?_⟩
    obtain ⟨row, hrow, hid', -, hclaim⟩ := hadv.rows row' hrow'
    rcases hclaim (htoken ▸ hne) with ⟨htoken', hcount⟩ | hfresh
    · rw [← hcount]
      exact hrows row hrow (hid'.trans hid) (htoken'.trans htoken)
    · rw [hid, htoken] at hfresh
      exact absurd hkey hfresh
  · rw [hadv.ids]
    exact h.added id hid
  · obtain ⟨row, hrow, hid, hsteps, -⟩ := hadv.rows row' hrow'
    exact hsteps.inBudget (h.rows row hrow (hid ▸ hstart))

/-- An answer keeps the budget. -/
lemma Budgets.answer {p : ℕ} {op : QueueOp} {r : op.Res} {evs : List (Event QueueOp QueueOp.Res)}
    (h : Budgets maxRetries t s.db) (hacc : s.db.Accounted) (hlegit : op.Legit)
    (hevs : ∀ e ∈ evs, .answer p e ∈ t) (hbudgeted : op.Budgeted maxRetries evs)
    (hexec : op.Exec s r s') : Budgets maxRetries (t ++ [.answer p ⟨op, r⟩]) s'.db := by
  have hread : ∀ itemId claimedBy claimToken n,
      ⟨.failRead itemId claimedBy claimToken, .ok n⟩ ∈ evs → ∀ row ∈ s.db.items,
        QueueDb.isHeld itemId claimedBy claimToken row = true → row.retryCount = n := by
    intro itemId claimedBy claimToken n hmem row hrow hheld
    obtain ⟨hid, -, -, htoken, -⟩ := QueueDb.isHeld_iff.mp hheld
    exact (h.reads p itemId claimedBy claimToken n (hevs _ hmem)).2.2 row hrow hid htoken
  rcases hexec.advances hlegit hbudgeted hacc hread with
    ⟨q, item, heq, hadd⟩ | ⟨hne, hadv⟩
  · -- a new item
    cases heq
    obtain ⟨row₁, hnew, hunclaimed, -, hid₁, hcount₁, hitems, hattempts⟩ :=
      QueueDb.add_ok hlegit hadd
    have hkeys : s'.db.attemptKeys = s.db.attemptKeys := by
      rw [QueueDb.attemptKeys, hattempts, QueueDb.attemptKeys]
    have hdelivery : ∀ row, s'.db.delivery row = s.db.delivery row := fun row => by
      rw [QueueDb.delivery, QueueDb.attemptCount, hkeys, QueueDb.delivery, QueueDb.attemptCount]
    have hids : ∀ id, id ∈ s'.db.items.map QueueRow.id ↔
        id ∈ s.db.items.map QueueRow.id ∨ id = row₁.id := fun id => by
      rw [hitems, List.map_append, List.mem_append, List.map_singleton, List.mem_singleton]
    have hknown : ∀ k ∈ s.db.attemptKeys, k.1 ∈ s.db.items.map QueueRow.id := by
      intro k hk
      obtain ⟨a, ha, rfl⟩ := List.mem_map.mp hk
      exact hacc.known a ha
    have hstarts : ∀ id, StartsPending (t ++ [.answer p ⟨.add q item, .ok ()⟩]) id →
        StartsPending t id ∨ id = row₁.id ∧ row₁.retryCount = 0 := by
      rintro id ⟨p', q', item', hmem, hid, hcount⟩
      rcases List.mem_append.mp hmem with hmem | hmem
      · exact Or.inl ⟨p', q', item', hmem, hid, hcount⟩
      · cases List.mem_singleton.mp hmem
        exact Or.inr ⟨hid.symm.trans hid₁.symm, hcount₁.trans hcount⟩
    refine ⟨fun p' itemId claimedBy claimToken n hmem => ?_, fun id hid => ?_,
      fun row hrow hstart => ?_⟩
    · have hmem' := (List.mem_append.mp hmem).resolve_right fun hlast => by
        cases List.mem_singleton.mp hlast
      obtain ⟨hne, hkey, hrows⟩ := h.reads p' itemId claimedBy claimToken n hmem'
      refine ⟨hne, hkeys ▸ hkey, fun row hrow hid htoken => ?_⟩
      rw [hitems] at hrow
      rcases List.mem_append.mp hrow with hrow | hrow
      · exact hrows row hrow hid htoken
      · rw [List.mem_singleton.mp hrow] at hid
        exact absurd (hknown _ hkey) (hid ▸ hnew)
    · refine (hids id).mpr ?_
      rcases hstarts id hid with hid | ⟨hid, -⟩
      · exact Or.inl (h.added id hid)
      · exact Or.inr hid
    · rw [hdelivery]
      rw [hitems] at hrow
      rcases List.mem_append.mp hrow with hrow | hrow
      · rcases hstarts row.id hstart with hstart | ⟨hid, -⟩
        · exact h.rows row hrow hstart
        · exact absurd (List.mem_map_of_mem hrow) (hid ▸ hnew)
      · rw [List.mem_singleton.mp hrow] at hstart ⊢
        rcases hstarts row₁.id hstart with hstart | ⟨-, hzero⟩
        · exact absurd (h.added _ hstart) hnew
        · have hnone : s.db.attemptCount row₁.id = 0 :=
            List.countP_eq_zero.mpr fun k hk hk' => hnew (of_decide_eq_true hk' ▸ hknown k hk)
          rw [QueueDb.delivery, hunclaimed.status, hzero, hnone]
          exact Delivery.inBudget_new
  · -- the items advance
    have hb := h.advances hadv
    have hstarts : ∀ id, StartsPending (t ++ [.answer p ⟨op, r⟩]) id → StartsPending t id :=
      fun id => StartsPending.of_append fun p' q item heq => hne q item (by
        injection heq)
    refine ⟨fun p' itemId claimedBy claimToken n hmem => ?_,
      fun id hid => hb.added id (hstarts id hid),
      fun row hrow hstart => hb.rows row hrow (hstarts _ hstart)⟩
    rcases List.mem_append.mp hmem with hmem | hmem
    · exact hb.reads p' itemId claimedBy claimToken n hmem
    · cases List.mem_singleton.mp hmem
      obtain ⟨hdb, row, hrow, hheld, hcount⟩ := hexec.failRead
      obtain ⟨hid, -, -, htoken, hne'⟩ := QueueDb.isHeld_iff.mp hheld
      rw [hdb]
      refine ⟨hne', ?_, fun row' hrow' hid' _ => ?_⟩
      · rw [← hid, ← htoken]
        exact hacc.mem_attemptKeys hrow (htoken ▸ hne')
      · rw [hacc.keyed.eq hrow' hrow (hid'.trans hid.symm)]
        exact hcount

/-- **The budget of every run.** -/
theorem RetryRun.budgets (h : RetryRun maxRetries t P) : Budgets maxRetries t P.shared.db := by
  refine (Machine.Run.induct (I := fun t s => s.db.Accounted ∧ Budgets maxRetries t s.db) h
    ?_ ?_ ?_).2
  · exact ⟨QueueDb.accounted_empty, by simp, by simp [StartsPending],
      by simp [idlePool, QueueSystem.init, QueueDb.empty]⟩
  · rintro t₁ p prog t₂ s - ⟨hacc, hb⟩
    have hstarts : ∀ id, StartsPending (t₁ ++ [.start p prog]) id → StartsPending t₁ id :=
      fun id => StartsPending.of_append fun _ _ _ => by simp
    refine ⟨hacc, fun p' itemId claimedBy claimToken n hmem => ?_,
      fun id hid => hb.added id (hstarts id hid),
      fun row hrow hstart => hb.rows row hrow (hstarts _ hstart)⟩
    exact hb.reads p' itemId claimedBy claimToken n (by simpa using hmem)
  · rintro t₁ p op r t₂ s s' ht hexec ⟨hacc, hb⟩
    obtain ⟨_, _, _, hsends⟩ := h.queueRun.sends.1 t₁ p ⟨op, r⟩ t₂ ht
    obtain ⟨evs, hevs, hbudgeted⟩ := h.sends ht
    exact ⟨(hacc.exec hsends.legit hexec).1,
      hb.answer hacc hsends.legit hevs hbudgeted hexec⟩

/-- A step adds an item, or advances the items. -/
lemma RetryRun.step (h : RetryRun maxRetries t P) {l : QueueLabel}
    (hstep : queueMachine.Step (RetryCall maxRetries) P l P') :
    (∃ p q item, l = .answer p ⟨.add q item, .ok ()⟩ ∧ item.IsFresh ∧
      P.shared.db.add q item = .ok P'.shared.db) ∨
    P.shared.db.Advances maxRetries P'.shared.db := by
  have hrun : RetryRun maxRetries (t ++ [l]) P' := .snoc h hstep
  cases hstep with
  | start => exact Or.inr (.refl _)
  | @answer p op k r s' hcall hexec =>
    obtain ⟨_, _, _, hsends⟩ := hrun.queueRun.sends.1 t p ⟨op, r⟩ [] rfl
    have hlast : t ++ [.answer p ⟨op, r⟩] = t ++ .answer p ⟨op, r⟩ :: [] := rfl
    obtain ⟨evs, hevs, hbudgeted⟩ := hrun.sends hlast
    have hread : ∀ itemId claimedBy claimToken n,
        ⟨.failRead itemId claimedBy claimToken, .ok n⟩ ∈ evs → ∀ row ∈ P.shared.db.items,
          QueueDb.isHeld itemId claimedBy claimToken row = true → row.retryCount = n := by
      intro itemId claimedBy claimToken n hmem row hrow hheld
      obtain ⟨hid, -, -, htoken, -⟩ := QueueDb.isHeld_iff.mp hheld
      exact (h.budgets.reads p itemId claimedBy claimToken n (hevs _ hmem)).2.2 row hrow hid htoken
    rcases QueueOp.Exec.advances hexec hsends.legit hbudgeted h.queueRun.accounted hread with
      ⟨q, item, heq, hadd⟩ | ⟨-, hadv⟩
    · cases heq
      exact Or.inl ⟨p, q, item, rfl, hsends.legit, hadd⟩
    · exact Or.inr hadv

/-- The rest of a run keeps the items, and lowers no retry count. -/
lemma RetryRun.retryCount_le (h : RetryRun maxRetries t P)
    (h' : queueMachine.Run (RetryCall maxRetries) P t' P') {row : QueueRow}
    (hrow : row ∈ P.shared.db.items) : ∃ row' ∈ P'.shared.db.items, row'.id = row.id ∧
      row.retryCount ≤ row'.retryCount := by
  induction h' with
  | nil => exact ⟨row, hrow, rfl, le_rfl⟩
  | @snoc Q Q' t₁ l hrun hstep ih =>
    obtain ⟨row₁, hrow₁, hid₁, hle₁⟩ := ih
    have hQ : RetryRun maxRetries (t ++ t₁) Q := Machine.Run.append h hrun
    rcases hQ.step hstep with ⟨p, q, item, -, hfresh, hadd⟩ | hadv
    · obtain ⟨new, -, -, -, -, -, hitems, -⟩ := QueueDb.add_ok hfresh hadd
      exact ⟨row₁, hitems ▸ List.mem_append_left _ hrow₁, hid₁, hle₁⟩
    · obtain ⟨row', hrow', hid'⟩ := List.mem_map.mp (hadv.ids ▸ List.mem_map_of_mem hrow₁)
      obtain ⟨row₂, hrow₂, hid₂, hsteps, -⟩ := hadv.rows row' hrow'
      obtain rfl : row₂ = row₁ := hQ.queueRun.accounted.keyed.eq hrow₂ hrow₁ (hid₂.trans hid')
      exact ⟨row', hrow', hid'.trans hid₁, hle₁.trans hsteps.retryCount_le⟩

/-- A run without additions keeps the ids. -/
lemma RetryRun.ids_eq (h : RetryRun maxRetries t P)
    (h' : queueMachine.Run (RetryCall maxRetries) P t' P')
    (hnone : ∀ p q item r, .answer p ⟨.add q item, r⟩ ∉ t') :
    P'.shared.db.items.map QueueRow.id = P.shared.db.items.map QueueRow.id := by
  induction h' with
  | nil => rfl
  | @snoc Q Q' t₁ l hrun hstep ih =>
    have hQ : RetryRun maxRetries (t ++ t₁) Q := Machine.Run.append h hrun
    rcases hQ.step hstep with ⟨p, q, item, rfl, -⟩ | hadv
    · exact absurd (List.mem_append_right _ (List.mem_singleton_self _)) (hnone p q item _)
    · rw [hadv.ids]
      exact ih fun p q item r hmem => hnone p q item r (List.mem_append_left _ hmem)

/-- The attempts of an item are its claims. -/
lemma QueueRun.attemptCount (h : QueueRun t P) (id : String) :
    P.shared.db.attemptCount id = (claims t).countP fun c => c.itemId = id := by
  have hkeys : P.shared.db.attemptKeys = (claims t).map fun c => (c.itemId, c.token.text) := by
    have := congrArg (List.map fun k : String × String × String => (k.1, k.2.2)) h.minted.keys
    simpa [QueueDb.claimKeys, QueueDb.attemptKeys, Claim.key, Function.comp_def] using this
  rw [QueueDb.attemptCount, hkeys, List.countP_map]
  rfl

/-- If every item has at most `n` attempts, there are at most `n` claims for each item. -/
lemma QueueRun.length_claims_le (h : QueueRun t P) {n : ℕ}
    (hn : ∀ row ∈ P.shared.db.items, P.shared.db.attemptCount row.id ≤ n) :
    (claims t).length ≤ P.shared.db.items.length * n := by
  have hacc := h.accounted
  have hlength : (claims t).length = P.shared.db.attemptKeys.toFinset.card := by
    have hnodup : P.shared.db.attemptKeys.Nodup := hacc.attemptKeyed
    rw [List.toFinset_card_of_nodup hnodup, QueueDb.attemptKeys, List.length_map]
    simpa [QueueDb.claimKeys] using (congrArg List.length h.minted.keys).symm
  have hknown : ∀ k ∈ P.shared.db.attemptKeys,
      k.1 ∈ (P.shared.db.items.map QueueRow.id).toFinset := by
    intro k hk
    obtain ⟨a, ha, rfl⟩ := List.mem_map.mp hk
    exact List.mem_toFinset.mpr (hacc.known a ha)
  have hfiber : ∀ id ∈ (P.shared.db.items.map QueueRow.id).toFinset,
      (P.shared.db.attemptKeys.toFinset.filter fun k => k.1 = id).card ≤ n := by
    intro id hid
    obtain ⟨row, hrow, rfl⟩ := List.mem_map.mp (List.mem_toFinset.mp hid)
    refine le_trans ?_ (hn row hrow)
    have hfilter := List.toFinset_filter P.shared.db.attemptKeys fun k => k.1 = row.id
    simp only [decide_eq_true_eq] at hfilter
    rw [← hfilter, QueueDb.attemptCount, List.countP_eq_length_filter]
    exact List.toFinset_card_le _
  calc (claims t).length = P.shared.db.attemptKeys.toFinset.card := hlength
    _ ≤ n * (P.shared.db.items.map QueueRow.id).toFinset.card :=
      Finset.card_le_mul_card_image_of_maps_to
        (fun k hk => hknown k (List.mem_toFinset.mp hk)) n hfiber
    _ ≤ n * P.shared.db.items.length := by
      refine Nat.mul_le_mul_left n ((List.toFinset_card_le _).trans ?_)
      rw [List.length_map]
    _ = P.shared.db.items.length * n := Nat.mul_comm _ _

end Runs

/-- **The retry budget bounds deliveries.** Let all queues allow `maxRetries` retries. In every run
of any number of workers from an empty queue, in any interleaving:

* no item is lost and no retry count decreases, from any state of the run to any later one;
* an item that was added with no retries is claimed at most `maxRetries + 1` times, and while it
  is pending it has had at most as many attempts as retries, and no more than `maxRetries` retries;
* if all `n` items were added so, then whatever is called without adding items, there are at most
  `n * (maxRetries + 1)` claims in all.

**Proof sketch.** What a statement does to an item is a step of `Delivery`, which keeps the budget.
For `fail` this needs that the count it has read is still the one of the item when it commits:
as long as a claim lasts, only its end changes the count. -/
theorem retry_budget {maxRetries : ℕ} {t : List QueueLabel} {P : QueuePool}
    (h : RetryRun maxRetries t P) :
    (∀ t' P', queueMachine.Run (RetryCall maxRetries) P t' P' → ∀ row ∈ P.shared.db.items,
      (∃ row' ∈ P'.shared.db.items, row'.id = row.id) ∧
      ∀ row' ∈ P'.shared.db.items, row'.id = row.id → row.retryCount ≤ row'.retryCount) ∧
    (∀ row ∈ P.shared.db.items, StartsPending t row.id →
      (row.status = .pending → row.retryCount ≤ maxRetries ∧
        P.shared.db.attemptCount row.id ≤ row.retryCount) ∧
      (claims t).countP (fun c => c.itemId = row.id) ≤ maxRetries + 1) ∧
    ∀ t' P', queueMachine.Run (RetryCall maxRetries) P t' P' →
      (∀ p q item r, .answer p ⟨.add q item, r⟩ ∉ t') →
      (∀ row ∈ P.shared.db.items, StartsPending t row.id) →
      (claims (t ++ t')).length ≤ P.shared.db.items.length * (maxRetries + 1) := by
  refine ⟨fun t' P' h' row hrow => ?_, fun row hrow hstart => ?_, fun t' P' h' hnone hstart => ?_⟩
  · obtain ⟨row₁, hrow₁, hid₁, hle⟩ := h.retryCount_le h' hrow
    have hend : RetryRun maxRetries (t ++ t') P' := Machine.Run.append h h'
    refine ⟨⟨row₁, hrow₁, hid₁⟩, fun row' hrow' hid => ?_⟩
    rwa [hend.queueRun.accounted.keyed.eq hrow' hrow₁ (hid.trans hid₁.symm)]
  · have hb := h.budgets.rows row hrow hstart
    refine ⟨hb.pending, ?_⟩
    rw [← h.queueRun.attemptCount]
    exact hb.bound
  · have hend : RetryRun maxRetries (t ++ t') P' := Machine.Run.append h h'
    have hids := h.ids_eq h' hnone
    have hlength : P'.shared.db.items.length = P.shared.db.items.length := by
      simpa using congrArg List.length hids
    rw [← hlength]
    refine hend.queueRun.length_claims_le fun row' hrow' => ?_
    obtain ⟨row, hrow, hid⟩ := List.mem_map.mp (hids ▸ List.mem_map_of_mem hrow')
    obtain ⟨p, q, item, hmem, hitem⟩ := hstart row hrow
    exact (hend.budgets.rows row' hrow' ⟨p, q, item, List.mem_append_left _ hmem,
      hid ▸ hitem⟩).bound

/-- One item with no retries, added and claimed: it has one claim, of the four it may have. -/
theorem retry_budget_claimed : ∃ t, RetryRun 3 t claimedPool ∧
    (claims t).countP (fun c => c.itemId = "i") ≤ 4 ∧
      ∀ t' P', queueMachine.Run (RetryCall 3) claimedPool t' P' →
        (∀ p q item r, .answer p ⟨.add q item, r⟩ ∉ t') → (claims (t ++ t')).length ≤ 4 := by
  have hnone : idlePool.shared.ShortTokens := by
    simp [QueueSystem.ShortTokens, QueueSystem.init, idlePool]
  obtain ⟨hadd, hshort⟩ := Machine.Run.solve (QueueOp.exec_answer ⟨0, some 0⟩)
    (Machine.Run.nil idlePool : queueMachine.Run (RetryCall 3) idlePool [] idlePool) hnone
    (p := 0) rfl (RetryCall.add plainQueue plainItem ⟨rfl, rfl, rfl, rfl⟩)
  obtain ⟨hnext, -⟩ := Machine.Run.solve (QueueOp.exec_answer ⟨0, some 0⟩) hadd hshort
    (p := 1) rfl (RetryCall.nextItem plainQueue rfl "w" 1)
  have hstart : ∀ row ∈ claimedPool.shared.db.items,
      StartsPending ([] ++ idlePool.solveLabels (QueueOp.answer ⟨0, some 0⟩) 0
        ((plainQueue.add plainItem).program fun _ => .done) ++
        addedPool.solveLabels (QueueOp.answer ⟨0, some 0⟩) 1 (plainQueue.nextItemCall "w" 1))
        row.id := by
    intro row hrow
    obtain rfl := List.mem_singleton.mp hrow
    exact ⟨0, plainQueue, plainItem, List.mem_append_left _ (List.mem_cons_of_mem _
      List.mem_cons_self), rfl, rfl⟩
  obtain ⟨-, hitem, hdrain⟩ := retry_budget hnext
  exact ⟨_, hnext, (hitem _ List.mem_cons_self (hstart _ List.mem_cons_self)).2,
    fun t' P' h' hno => hdrain t' P' h' hno hstart⟩
