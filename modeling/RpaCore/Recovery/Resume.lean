import RpaCore.Checkpoint.Saved
import RpaCore.Engine.Rerun
import RpaCore.Recovery.Basic

set_option relaxedAutoImplicit false
set_option autoImplicit false

/-!
# Resuming a successful transaction

A stored transaction that is `SUCCESSFUL` is resumed as it is, without a history entry that records
the resume. Running it again does nothing exactly if it has no `SKIPPED` step, since a run makes
these runnable first.

## Main definitions

* `TransactionDb.resumeTransaction` — `resume_transaction`.
* `Engine.Shows` — the transactions that runs of the engine show.

## Main results

* `resume_successful_noOp_iff` — when resuming and running a successful transaction does nothing.
-/

/-- `resume_transaction`, at the clock reading `now`. -/
def TransactionDb.resumeTransaction (id : String) (steps : List Step)
    (retryBusinessFailures : Bool) (definitionIdentity : Option String) (now : Datetime)
    (db : TransactionDb) : Except PyError Transaction := do
  let (tx, _) ← db.load id
  tx.prepareResumed steps retryBusinessFailures definitionIdentity now

/-- A run of an engine leaves the transaction, or gave it to a checkpoint; a run that refuses its
transaction shows nothing. -/
def Engine.Shows (tx : Transaction) : Prop :=
  ∃ (e : Engine) (ctx : RunContext) (tx₀ : Transaction)
    (env : EngineTrace → (op : EngineOp) → op.Res), tx₀.Admitted ∧
    (tx = ((e.run ctx tx₀).run env []).1.2.tx ∨ tx ∈ snapshots ((e.run ctx tx₀).run env []).2)

/-- What is given to a checkpoint is shown. -/
lemma Engine.shows_of_snapshot {e : Engine} {ctx : RunContext} {tx₀ tx : Transaction}
    {env : EngineTrace → (op : EngineOp) → op.Res}
    (h : tx ∈ snapshots ((e.run ctx tx₀).run env []).2) : Engine.Shows tx := by
  obtain ⟨ev, hev, -⟩ := List.mem_filterMap.mp h
  exact ⟨e, ctx, tx₀, env, Engine.admitted_of_mem hev, Or.inr h⟩

/-- A transaction that a run shows is in progress or completed, and has an id. -/
lemma Engine.Shows.shown {tx : Transaction} (h : Engine.Shows tx) : tx.Shown ∧ tx.id ≠ "" := by
  obtain ⟨e, ctx, tx₀, env, hadmitted, htx⟩ := h
  rcases Engine.run_shows e ctx tx₀ env with ⟨hrefused, -⟩ | ⟨hlineage, hfinal⟩
  · exact absurd hadmitted hrefused
  · have : IsTrans Transaction Transaction.Grows := ⟨fun _ _ _ h h' => h.trans h'⟩
    obtain ⟨hgrown, -⟩ := List.pairwise_cons.mp hlineage.chain.pairwise
    rcases htx with rfl | hmem
    · refine ⟨hfinal, ?_⟩
      rw [(hgrown _ (List.mem_append_right _ List.mem_cons_self)).id]
      exact hadmitted.id
    · refine ⟨hlineage.all_shown tx hmem, ?_⟩
      rw [(hgrown tx (List.mem_append_left _ hmem)).id]
      exact hadmitted.id

/-- The steps of a successful transaction that a run shows are complete. -/
lemma Engine.Shows.complete {tx : Transaction} (h : Engine.Shows tx)
    (hstatus : tx.status = .successful) : ∀ st ∈ tx.steps, st.isComplete = true := by
  rcases h.shown.1 with hopen | hcompleted
  · rw [hopen.status] at hstatus
    cases hstatus
  · rcases hcompleted.outcome with hsucceeded | hfailed
    · exact hsucceeded.steps
    · rw [hfailed.status] at hstatus
      cases hstatus

/-- The last stored history row of a transaction records a resume. -/
def TransactionDb.isResumed (id : String) (db : TransactionDb) : Bool :=
  (db.historyOf id).getLast?.any fun row => row.event = .transactionResumed

/-- **When resuming a successful transaction is a no-op through execution.** A transaction that was
shown `SUCCESSFUL` by a run of the engine and that was saved last is resumed, with any steps; and a
run of what is returned does nothing if and only if the last stored history row records a resume,
or no step of the transaction is `SKIPPED`.

**Proof sketch.** Loading gives a valid transaction with the steps that were saved, all of them
complete; resuming returns it as it is; the rest is `Engine.noOp_iff`. -/
theorem resume_successful_noOp_iff {db db' : TransactionDb} (hdb : db.Consistent)
    {calls : List (SaveCall × Except PyError Unit)} (h : SaveRun db calls db') {id : String}
    {tx : Transaction} (htx : (savedStates id calls).getLast? = some tx)
    (hshows : Engine.Shows tx) (hstatus : tx.status = .successful) (steps : List Step)
    (retryBusinessFailures : Bool) (definitionIdentity : Option String) (now : Datetime) :
    ∃ resumed, db'.resumeTransaction id steps retryBusinessFailures definitionIdentity now =
      .ok resumed ∧ ∀ e ctx env, Engine.NoOp e ctx resumed env ↔
        db'.isResumed id = true ∨ ∀ st ∈ tx.steps, st.status ≠ .skipped := by
  obtain ⟨hconsistent, -⟩ := h.kept hdb
  obtain ⟨rfl, hkeeps⟩ := h.keeps hdb htx
  obtain ⟨row, -, hrow, hload, hvalid⟩ := hkeeps.load hconsistent
  have hcomplete := hshows.complete hstatus
  have hmem : ∀ st, st ∈ (tx.reloaded row (db'.historyOf tx.id)).steps ↔ st ∈ tx.steps :=
    fun st => Transaction.mem_orderedSteps
  refine ⟨tx.reloaded row (db'.historyOf tx.id), ?_, fun e ctx env => ?_⟩
  · rw [TransactionDb.resumeTransaction, hload]
    change (tx.reloaded row (db'.historyOf tx.id)).prepareResumed steps _ _ _ = _
    rw [Transaction.prepareResumed, if_pos]
    exact hrow.status.trans hstatus
  · have hadmitted : (tx.reloaded row (db'.historyOf tx.id)).Admitted :=
      ⟨(show row.id ≠ "" from hrow.id ▸ hshows.shown.2), hvalid⟩
    rw [Engine.noOp_iff hadmitted fun st hst => hcomplete st ((hmem st).mp hst)]
    refine or_congr ?_ (forall_congr' fun st => imp_congr_left (hmem st))
    rw [Transaction.isResumed, TransactionDb.isResumed, Transaction.reloaded, List.getLast?_map,
      Option.any_map]

/-! ## A step that skips itself -/

/-- The result of a body that leaves no data and ends as it is said. -/
def bareResult (raised : Option PyError) (status : Status) : StepResult where
  raised := raised
  status := status
  arguments := .dict []
  state := .dict []
  metadata := .dict []
  artifacts := []

/-- Every body ends with the same result, and the callback accepts everything. -/
def alwaysEnds (r : StepResult) (_ : EngineTrace) : (op : EngineOp) → op.Res
  | .checkpoint _ => none
  | .execute _ _ => r
  | .captureScreenshot _ => .ok ""

/-- The transaction that a run leaves whose step ends with the status `status`. -/
def leftAs (status : Status) : Transaction :=
  (((Engine.create 0).run Engine.stillContext Engine.oneStep).run
    (alwaysEnds (bareResult none status)) []).1.2.tx

/-- The body of a loaded step, which is not a concrete one. -/
def notImplemented : StepResult :=
  bareResult (some (.other "NotImplementedError" "Step 'a' must implement execute()")) .inProgress

/-- A transaction without skipped steps is left alone. -/
theorem resume_successful_noOp_succeeded : ∃ db' resumed,
    TransactionDb.empty.save (leftAs .successful) = .ok db' ∧
      db'.resumeTransaction "1" [] false none ⟨0, some 0⟩ = .ok resumed ∧
        Engine.NoOp (Engine.create 0) Engine.stillContext resumed (alwaysEnds notImplemented) := by
  obtain ⟨db', hsave⟩ : ∃ db', TransactionDb.empty.save (leftAs .successful) = .ok db' := ⟨_, rfl⟩
  have hrun : SaveRun .empty [(.plain (leftAs .successful), .ok ())] db' := by
    refine .cons ⟨.empty, .empty, .commit ?_⟩ (.nil _)
    simp only [SaveCall.run, Store.save, hsave]
    rfl
  have hshows : Engine.Shows (leftAs .successful) :=
    ⟨_, _, _, _, Engine.admitted_oneStep, Or.inl rfl⟩
  have hsteps : ∀ st ∈ (leftAs .successful).steps, st.status ≠ .skipped := by decide
  obtain ⟨resumed, hresumed, hiff⟩ := resume_successful_noOp_iff TransactionDb.consistent_empty
    hrun (show (savedStates "1" _).getLast? = some (leftAs .successful) from rfl) hshows rfl []
    false none ⟨0, some 0⟩
  exact ⟨db', resumed, hsave, hresumed, (hiff _ _ _).mpr (Or.inr hsteps)⟩

/-- **A skipped step is executed after all.** The transaction of a step that skipped itself was left
`SUCCESSFUL` by a run of the engine and saved; resuming it succeeds, and a run of what is returned
calls the body of the loaded step and leaves the transaction `FAILED`. -/
theorem skipped_executed : ∃ db' resumed,
    Engine.Shows (leftAs .skipped) ∧ (leftAs .skipped).status = .successful ∧
      TransactionDb.empty.save (leftAs .skipped) = .ok db' ∧
        db'.resumeTransaction "1" [Step.create "a" 1] false none ⟨0, some 0⟩ = .ok resumed ∧
          (((Engine.create 0).run Engine.stillContext resumed).run (alwaysEnds notImplemented)
            []).1.2.tx.status = .failed ∧
          ¬ Engine.NoOp (Engine.create 0) Engine.stillContext resumed
            (alwaysEnds notImplemented) := by
  obtain ⟨db', resumed, hsave, hresumed, hfailed, ev, hev, hexecuted⟩ : ∃ db' resumed,
      TransactionDb.empty.save (leftAs .skipped) = .ok db' ∧
        db'.resumeTransaction "1" [Step.create "a" 1] false none ⟨0, some 0⟩ = .ok resumed ∧
          (((Engine.create 0).run Engine.stillContext resumed).run (alwaysEnds notImplemented)
            []).1.2.tx.status = .failed ∧
          ∃ ev ∈ (((Engine.create 0).run Engine.stillContext resumed).run
            (alwaysEnds notImplemented) []).2, ev.op.isExecution = true :=
    ⟨_, _, rfl, rfl, rfl, _, List.mem_cons_of_mem _ (List.mem_cons_of_mem _ List.mem_cons_self),
      rfl⟩
  refine ⟨db', resumed, ⟨_, _, _, _, Engine.admitted_oneStep, Or.inl rfl⟩, rfl, hsave, hresumed,
    hfailed, ?_⟩
  intro hnoop
  rw [hnoop.calls ev hev] at hexecuted
  cases hexecuted
