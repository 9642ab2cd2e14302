import RpaCore.Engine.Boundaries
import RpaCore.Recovery.Repeated

set_option relaxedAutoImplicit false
set_option autoImplicit false

/-!
# A halting failure and a crash

A step raises a business failure that halts the remaining steps, and the process stops at one of the
checkpoints that follow. The snapshot that was saved last is loaded and resumed, and run again. The
steps that waited behind the failed one stay untouched in every such run, unless the process stopped
at the very first checkpoint after the failure: that one was taken before they were skipped.

## Main definitions

* `StopsAfterHalt` — a run that stops at a checkpoint after a halting failure.

## Main results

* `Engine.kept_not_executed` — a step that a resume has kept is not executed.
* `Engine.pending_executed` — a step that a resume has left pending may be executed.
* `halting_resumed_iff` — where a process may stop without a halting failure being forgotten.
-/

namespace Engine

variable {e : Engine} {ctx : RunContext} {blocked : Option (List ℤ)} {s : EngineState}
  {t : EngineTrace} {o : ℤ} {st : Step} {tx : Transaction}

/-! ## Steps that a resume has kept -/

/-- The monitor of runs that do not execute the step with the given order. -/
def sparing (o : ℤ) : Monitor EngineOp EngineOp.Res EngineTrace :=
  executing fun _ step _ => step.executionOrder ≠ o

/-- A pass leaves a step alone that is done, and blocked if it is not complete. -/
lemma wp_executePass_sparing (hw : s.tx.Wired) (hst : s.tx.stepAt o = some st)
    (hkept : st.isComplete = true ∨ Transaction.IsDone st ∧ ∃ orders ∈ blocked, o ∈ orders) :
    (executePass e ctx blocked).wp (sparing o)
      (fun _ s' _ => s'.tx.Wired ∧ s'.tx.stepAt o = some st) (fun _ _ _ => True) s t := by
  have hdone : Transaction.IsDone st := hkept.elim Or.inl And.left
  refine wp_executePass_of_attempt (I := fun s _ => s.tx.Wired ∧ s.tx.stepAt o = some st)
    (fun _ _ h => h.1) (fun s t step own h hown _ hpasses => ?_) ⟨hw, hst⟩
  have horder : own.executionOrder = step.executionOrder :=
    Transaction.executionOrder_of_stepAt hown
  have hne : step.executionOrder ≠ o := by
    rintro rfl
    refine hpasses ?_
    rw [Passes, Bool.or_eq_true]
    rcases hkept with hcomplete | ⟨-, orders, horders, hmem⟩
    · exact Or.inl (by simp [Transaction.isCompleteAt, h.2, hcomplete])
    · exact Or.inr ((Option.any_eq_true _ _).mpr ⟨orders, horders, by simpa using hmem⟩)
  refine Proc.wp_mono (wp_attempt_tried h.1 hown (by simpa [horder] using hne)) ?_
    fun _ _ _ h => h
  rintro flow s' t' ⟨ending, -, -, htried⟩
  refine ⟨htried.grows, htried.grows.wired h.1, ?_⟩
  rw [htried.others o (Ne.symm hne), h.2, Option.map_some,
    if_neg fun hskip => hdone.not_pending hskip.2.2]

/-- A step that has failed with a business failure is among the blocked ones. -/
lemma mem_businessFailedOrders (hst : s.tx.stepAt o = some st) (hdone : Transaction.IsDone st) :
    st.isComplete = true ∨ Transaction.IsDone st ∧
      ∃ orders ∈ some s.tx.businessFailedOrders, o ∈ orders := by
  rcases hdone with hcomplete | ⟨hfailed, hends⟩
  · exact Or.inl hcomplete
  · refine Or.inr ⟨Or.inr ⟨hfailed, hends⟩, _, rfl, ?_⟩
    refine List.mem_map.mpr ⟨st, List.mem_filter.mpr ⟨List.mem_filter.mpr
      ⟨Transaction.mem_of_stepAt hst, by simpa using hfailed⟩, hends⟩,
      Transaction.executionOrder_of_stepAt hst⟩

/-- **A step that a resume has kept is not executed**: neither a complete one nor one that has
failed with a business failure.

**Proof sketch.** Every pass of the run finds the step complete or blocked, and leaves it as it
is. -/
theorem kept_not_executed (hresumed : tx.isResumed = true) (hst : tx.stepAt o = some st)
    (hdone : Transaction.IsDone st) (e : Engine) (ctx : RunContext)
    (env : EngineTrace → (op : EngineOp) → op.Res) :
    ∀ y ∈ executionsOf ((e.run ctx tx).run env []).2, y.order ≠ o := by
  have hwp : (body e ctx).wp (sparing o) (fun _ _ _ => True) (fun _ _ _ => True) ⟨tx, 0⟩ [] := by
    refine wp_body (fun _ _ => trivial) fun hvalid => wp_checkpoint_executing fun t _ => ?_
    have hw := (EngineState.grows_begin ctx ⟨tx, 0⟩).wired hvalid.wired
    have hbegin : ((⟨tx, 0⟩ : EngineState).begin ctx).tx.stepAt o = some st := by
      rw [Transaction.stepAt, steps_begin, EngineState.resetSkippedSteps, if_pos hresumed]
      exact hst
    have hfirst : st.isComplete = true ∨ Transaction.IsDone st ∧
        ∃ orders ∈ tx.initialBlocked, o ∈ orders := by
      have hmem := mem_businessFailedOrders (s := ⟨tx, 0⟩) hst hdone
      rwa [Transaction.initialBlocked, if_pos hresumed]
    refine Proc.wp_mono (Q := fun _ _ _ => True) (R := fun _ _ _ => True) ?_ (fun _ s₁ t₁ _ => ?_)
      fun err s₁ t₁ _ => ?_
    · simp only [passes, Proc.wp_bind, Proc.wp_get]
      refine Proc.wp_mono (wp_executePass_sparing hw hbegin hfirst) ?_ fun _ _ _ h => h
      intro _ s₁ t₁ h₁
      refine Proc.wp_mono (wp_retryLoop (I := fun s _ => s.tx.Wired ∧ s.tx.stepAt o = some st)
        (fun s t h _ => ?_) (fun _ _ _ _ => trivial) h₁) (fun _ _ _ _ => trivial) fun _ _ _ h => h
      have hw' := ((EngineState.grows_resetRetryable s).trans
        (EngineState.grows_scheduleRetry ctx _)).wired h.1
      have hst' : (s.resetRetryable.scheduleRetry ctx).tx.stepAt o = some st := by
        refine (EngineState.stepAt_resetRetryable s o).trans ?_
        rw [h.2, Option.map_some, if_neg (by simpa using not_endsInSystem_of_done hdone)]
      refine Proc.wp_mono (wp_executePass_sparing hw' hst'
        (mem_businessFailedOrders hst' hdone)) (fun _ s₂ t₂ h₂ => ?_) fun _ _ _ h => h
      exact wp_checkpoint_executing fun _ _ => h₂
    · exact wp_checkpoint_executing fun _ _ => trivial
    · refine wp_handleInterrupt (fun _ => trivial) fun _ => ?_
      refine Proc.wp_mono (wp_checkpoint_executing (Q := fun _ _ _ => True) fun _ _ => trivial)
        (fun _ _ _ _ => trivial) fun _ _ _ _ => ?_
      split <;> trivial
  intro y hy
  obtain ⟨a, b, hsplit⟩ := List.append_of_mem hy
  exact executions_pre env hwp hsplit

/-! ## Steps that a resume has left pending -/

/-- A run without checkpoints. -/
def silentContext : RunContext := { stillContext with hasCheckpoint := false }

/-- The monitor of runs whose bodies all return. -/
def succeeding : Monitor EngineOp EngineOp.Res EngineTrace :=
  traceMonitor (fun _ _ => True) fun _ op r =>
    match op with
    | .execute _ _ => r = bareResult none .inProgress
    | _ => True

/-- The step is pending and still to come, or was executed. -/
def Comes (o : ℤ) (rest : List Step) (s : EngineState) (t : EngineTrace) : Prop :=
  (s.tx.pendingAt o = true ∧ o ∈ rest.map Step.executionOrder) ∨ ∃ y ∈ executionsOf t, y.order = o

/-- An attempt at a step executes it, or leaves the step that is to come. -/
lemma wp_attempt_succeeding {step : Step} {rest : List Step} (h : Comes o (step :: rest) s t)
    (hst : s.tx.stepAt step.executionOrder = some st) :
    (attempt e silentContext step).wp succeeding
      (fun flow s' t' => flow = .next ∧ s.tx.Grows s'.tx ∧ Comes o rest s' t')
      (fun _ _ _ => False) s t := by
  rw [wp_attempt, wp_checkpoint_off rfl]
  have hcall : ((s.startStep silentContext step).tx.stepAt step.executionOrder).getD step =
      { st with status := .inProgress } := by
    rw [EngineState.stepAt_startStep, hst, Option.map_some, if_pos rfl, Option.getD_some]
  have horder : st.executionOrder = step.executionOrder :=
    Transaction.executionOrder_of_stepAt hst
  refine ⟨trivial, fun r hr => ?_⟩
  obtain rfl : r = bareResult none .inProgress := hr
  have hgrows := ((EngineState.grows_startStep silentContext step s).trans
    (EngineState.grows_absorb step _ (bareResult none .inProgress))).trans
    (EngineState.grows_finishStep silentContext step _ (bareResult none .inProgress))
  refine wp_settleStep (fun _ => (wp_checkpoint_off rfl).mpr ⟨rfl, hgrows, ?_⟩)
    (fun exc _ hfails _ => ?_) (fun _ hraised => ?_) fun _ hraised _ => ?_
  · change Comes o rest _ (t ++ [⟨.execute _ _, _⟩])
    rw [Comes, executionsOf_execute, hcall]
    rcases h with ⟨hpending, hmem⟩ | ⟨y, hy, rfl⟩
    · by_cases heq : o = step.executionOrder
      · exact Or.inr ⟨_, List.mem_append_right _ (List.mem_singleton_self _),
          horder.trans heq.symm⟩
      · rw [List.map_cons, List.mem_cons] at hmem
        refine Or.inl ⟨?_, hmem.resolve_left heq⟩
        simpa [Transaction.pendingAt, heq] using hpending
    · exact Or.inr ⟨y, List.mem_append_left _ hy, rfl⟩
  · simp [StepResult.Fails, bareResult] at hfails
  · cases hraised
  · cases hraised

/-- A pass whose bodies return executes every pending step that is not blocked. -/
lemma wp_executePass_succeeding (hw : s.tx.Wired) (hpending : s.tx.pendingAt o = true)
    (hblocked : ∀ orders ∈ blocked, o ∉ orders) :
    (executePass e silentContext blocked).wp succeeding
      (fun _ _ t' => ∃ y ∈ executionsOf t', y.order = o) (fun _ _ _ => False) s t := by
  rw [wp_executePass]
  refine wp_passLoop (I := fun rest s t => Comes o rest s t ∧
    ∀ step ∈ rest, ∃ st, s.tx.stepAt step.executionOrder = some st) ?_ ?_ ?_ ⟨Or.inl ⟨hpending, ?_⟩,
      fun step hstep => ⟨step, hw.stepAt (Transaction.mem_orderedSteps.mp hstep)⟩⟩
  · rintro s t ⟨⟨-, hmem⟩ | hexecuted, -⟩
    · cases hmem
    · exact hexecuted
  · rintro step rest s t ⟨hcomes, hthere⟩ hpasses
    refine ⟨hcomes.imp_left fun ⟨hpending, hmem⟩ => ⟨hpending, ?_⟩,
      fun step' hstep' => hthere step' (List.mem_cons_of_mem _ hstep')⟩
    rw [List.map_cons, List.mem_cons] at hmem
    refine hmem.resolve_left ?_
    rintro rfl
    -- a pending step is neither complete nor blocked
    rw [Passes, Bool.or_eq_true] at hpasses
    rcases hpasses with hcomplete | hblock
    · obtain ⟨st, hst, hstatus⟩ := (Option.any_eq_true _ _).mp hpending
      simp only [decide_eq_true_eq] at hstatus
      simp [Transaction.isCompleteAt, hst, Step.isComplete, hstatus] at hcomplete
    · obtain ⟨orders, horders, hmem⟩ := (Option.any_eq_true _ _).mp hblock
      exact hblocked orders horders (by simpa using hmem)
  · rintro step rest s t ⟨hcomes, hthere⟩ -
    obtain ⟨st, hst⟩ := hthere step List.mem_cons_self
    refine Proc.wp_mono (wp_attempt_succeeding hcomes hst) ?_ fun _ _ _ h => h
    rintro flow s' t' ⟨rfl, hgrows, hcomes'⟩
    refine ⟨hcomes', fun step' hstep' => ?_⟩
    obtain ⟨st', hst'⟩ := hthere step' (List.mem_cons_of_mem _ hstep')
    obtain ⟨st'', hst'', -⟩ := hgrows.stepAt hst'
    exact ⟨st'', hst''⟩
  · obtain ⟨st, hst, -⟩ := (Option.any_eq_true _ _).mp hpending
    exact List.mem_map.mpr ⟨st, Transaction.mem_orderedSteps.mpr (Transaction.mem_of_stepAt hst),
      Transaction.executionOrder_of_stepAt hst⟩

/-- **A step that a resume has left pending may be executed**: it is in a run in which every body
returns. -/
theorem pending_executed (hadmitted : tx.Admitted) (hresumed : tx.isResumed = true)
    (hpending : tx.pendingAt o = true) :
    ∃ y ∈ executionsOf (((create 0).run silentContext tx).run
      (alwaysEnds (bareResult none .inProgress)) []).2, y.order = o := by
  have hwp : (body (create 0) silentContext).wp succeeding
      (fun _ _ t => ∃ y ∈ executionsOf t, y.order = o) (fun _ _ _ => False) ⟨tx, 0⟩ [] := by
    refine wp_body (fun err herr => absurd herr hadmitted.not_refused) fun hvalid =>
      (wp_checkpoint_off rfl).mpr ?_
    have hw := (EngineState.grows_begin silentContext ⟨tx, 0⟩).wired hvalid.wired
    have hsame : ((⟨tx, 0⟩ : EngineState).begin silentContext).tx.pendingAt o = true := by
      rw [Transaction.pendingAt, Transaction.stepAt, steps_begin, EngineState.resetSkippedSteps,
        if_pos hresumed]
      exact hpending
    have hblocked : ∀ orders ∈ tx.initialBlocked, o ∉ orders := by
      rw [Transaction.initialBlocked, if_pos hresumed]
      rintro orders ⟨⟩ hmem
      obtain ⟨st, hst, hstatus⟩ := (Option.any_eq_true _ _).mp hpending
      have hdone := Transaction.businessFailedOrders_done hvalid.wired hmem hst
      exact hdone.not_pending (by simpa using hstatus)
    simp only [passes, Proc.wp_bind, Proc.wp_get]
    refine Proc.wp_mono (wp_executePass_succeeding hw hsame hblocked) (fun _ s₁ t₁ h₁ => ?_)
      fun _ _ _ h => h.elim
    rw [show (create 0).maxRetries - s₁.tx.retryCount = 0 from Nat.zero_sub _]
    exact (wp_checkpoint_off rfl).mpr h₁
  have hpost := (Prog.wp_run_trace (alwaysEnds (bareResult none .inProgress)) hwp
    fun t op => by cases op <;> trivial).2
  change Proc.post _ _ (((create 0).run silentContext tx).run _ []).1
    (((create 0).run silentContext tx).run _ []).2 at hpost
  generalize ((create 0).run silentContext tx).run (alwaysEnds (bareResult none .inProgress)) [] =
    result at hpost ⊢
  obtain ⟨⟨err | _, s⟩, t⟩ := result
  · exact hpost.elim
  · exact hpost

end Engine

/-! ## Where a process may stop -/

/-- **A run that stops at a checkpoint after a halting failure**: the body of a step has raised one,
the calls `between` that and a checkpoint were answered as usual, and the snapshot `snap` of that
checkpoint is the last one that was saved. Earlier snapshots may have been saved or not. -/
structure StopsAfterHalt (e : Engine) (ctx : RunContext) (tx : Transaction)
    (env : EngineTrace → (op : EngineOp) → op.Res) (db : TransactionDb) (failed : Step)
    (given : Transaction) (between : EngineTrace) (snap : Transaction) (db' : TransactionDb) :
    Prop where
  run : ∃ a r answer c, ((e.run ctx tx).run env []).2 =
      a ++ ⟨.execute failed given, r⟩ :: (between ++ ⟨.checkpoint snap, answer⟩ :: c) ∧
    r.ending = some (.businessFailed true) ∧
    ∃ calls states, SaveRun db calls db' ∧ savedStates tx.id calls = states ++ [snap] ∧
      states.Sublist (snapshots (a ++ ⟨.execute failed given, r⟩ :: between))
  ordinary : ∀ ev ∈ between, ev.op.Ordinary ev.res

/-- What is stored of a transaction is an earlier state of it, and its history is numbered from
one. -/
structure StoredEarlier (db : TransactionDb) (tx : Transaction) : Prop where
  consistent : db.Consistent
  sequential : tx.Sequential
  stored : ∃ last, db.LastSaved tx.id last ∧ ∀ t ∈ last, t.Evolves tx

/-- **Saves of snapshots of a run**, in the order in which it shows them, leave the last of them
stored.

**Proof sketch.** The snapshots evolve from the transaction that the run was given, and that one
from what was stored before. -/
theorem SaveRun.last_stored {e : Engine} {ctx : RunContext} {tx : Transaction}
    {env : EngineTrace → (op : EngineOp) → op.Res} {db db' : TransactionDb}
    {calls : List (SaveCall × Except PyError Unit)} {last : Option Transaction}
    (h : SaveRun db calls db') (hdb : db.Consistent) (hsequential : tx.Sequential)
    (hlast : db.LastSaved tx.id last) (hbefore : ∀ t ∈ last, t.Evolves tx)
    (hsub : (savedStates tx.id calls).Sublist (snapshots ((e.run ctx tx).run env []).2)) :
    db'.Consistent ∧ db'.LastSaved tx.id (last.toList ++ savedStates tx.id calls).getLast? ∧
      ∀ t ∈ savedStates tx.id calls, t.Sequential := by
  have hall : (tx :: savedStates tx.id calls).Pairwise Transaction.Evolves ∧
      ∀ t ∈ savedStates tx.id calls, t.Sequential := by
    rcases Engine.run_shows e ctx tx env with ⟨-, -, hnone⟩ | ⟨hlineage, -⟩
    · rw [hnone, List.sublist_nil] at hsub
      rw [hsub]
      exact ⟨List.pairwise_singleton _ _, by simp⟩
    · have hchain : (tx :: (snapshots ((e.run ctx tx).run env []).2 ++
          [((e.run ctx tx).run env []).1.2.tx])).IsChain Transaction.Evolves :=
        hlineage.chain.imp fun _ _ hgrows => hgrows.evolves
      have : IsTrans Transaction Transaction.Evolves := ⟨fun _ _ _ h h' => h.trans h'⟩
      have hmore := hsub.trans (List.sublist_append_left _ [((e.run ctx tx).run env []).1.2.tx])
      exact ⟨hchain.pairwise.sublist (hmore.cons_cons tx), fun t ht =>
        hlineage.sequential hsequential t (hmore.subset ht)⟩
  obtain ⟨hfirst, hrest⟩ := List.pairwise_cons.mp hall.1
  have hevolves : (last.toList ++ savedStates tx.id calls).Pairwise Transaction.Evolves := by
    refine List.pairwise_append.mpr ⟨by cases last <;> simp, hrest, fun a ha b hb => ?_⟩
    exact (hbefore a (by simpa using ha)).trans (hfirst b hb)
  obtain ⟨hconsistent, hsaved⟩ := h.lastSaved hdb hlast hevolves.isChain
    fun t ht => (hall.2 t ht).increasing
  exact ⟨hconsistent, hsaved, hall.2⟩

/-- **What a resume returns of the snapshot that was saved last**: a successful one as it is stored,
another one reset. -/
theorem TransactionDb.LastSaved.resumed {db : TransactionDb} {id : String} {snap tx : Transaction}
    {steps : List Step} {f : Bool} {identity : Option String} {now : Datetime}
    (h : db.LastSaved id (some snap)) (hdb : db.Consistent) (hsequential : snap.Sequential)
    (hresume : db.resumeTransaction id steps f identity now = .ok tx) :
    (snap.status = .successful ∧ tx = snap.stored) ∨
    (snap.stored.prepareResumed steps f identity now = .ok tx ∧ snap.stored.status ≠ .successful ∧
      snap.stored.Valid ∧ tx = snap.stored.resumed f now) := by
  obtain ⟨hid, hvalid, hstores⟩ := h
  obtain ⟨revision, hload⟩ := hstores.load hdb hsequential.increasing hvalid
  rw [hid] at hload
  rw [TransactionDb.resumeTransaction, hload] at hresume
  exact (Transaction.prepareResumed_ok hresume).imp (fun h => h) fun h => ⟨hresume, h⟩

namespace StopsAfterHalt

variable {e : Engine} {ctx : RunContext} {tx : Transaction}
  {env : EngineTrace → (op : EngineOp) → op.Res} {db db' : TransactionDb} {failed : Step}
  {given snap : Transaction} {between : EngineTrace}

/-- The snapshot that was saved last is stored. -/
lemma lastSaved (h : StopsAfterHalt e ctx tx env db failed given between snap db')
    (hstored : StoredEarlier db tx) :
    db'.Consistent ∧ db'.LastSaved tx.id (some snap) ∧ snap.Sequential := by
  obtain ⟨a, r, answer, c, hrun, -, calls, states, hsaves, hsaved, hsub⟩ := h.run
  obtain ⟨last, hlast, hbefore⟩ := hstored.stored
  have hsplit : snapshots ((e.run ctx tx).run env []).2 =
      snapshots (a ++ ⟨.execute failed given, r⟩ :: between) ++ (snap :: snapshots c) := by
    rw [hrun]
    simp [snapshots]
  have hsnapshots : (savedStates tx.id calls).Sublist
      (snapshots ((e.run ctx tx).run env []).2) := by
    rw [hsaved, hsplit]
    exact hsub.append ((List.nil_sublist _).cons_cons snap)
  obtain ⟨hconsistent, hlastSaved, hsequential⟩ :=
    hsaves.last_stored hstored.consistent hstored.sequential hlast hbefore hsnapshots
  rw [hsaved, ← List.append_assoc, List.getLast?_concat] at hlastSaved
  exact ⟨hconsistent, hlastSaved, hsequential snap (by rw [hsaved]; simp)⟩

/-- The snapshot is one of the run. -/
lemma shows_snap (h : StopsAfterHalt e ctx tx env db failed given between snap db') :
    Engine.Shows snap := by
  obtain ⟨a, r, answer, c, hrun, -⟩ := h.run
  have hmem : snap ∈ snapshots ((e.run ctx tx).run env []).2 := by
    rw [hrun]
    simp [snapshots]
  exact Engine.shows_of_snapshot hmem

/-- **What a resume returns after the process has stopped**: the stored snapshot, reset. -/
lemma resumed (h : StopsAfterHalt e ctx tx env db failed given between snap db')
    (hstored : StoredEarlier db tx) (hopen : ∃ st ∈ snap.steps, st.isComplete = false)
    {steps : List Step} {identity : Option String} {now : Datetime} {tx' : Transaction}
    (hresume : db'.resumeTransaction tx.id steps false identity now = .ok tx') :
    snap.stored.Valid ∧ tx' = snap.stored.resumed false now := by
  obtain ⟨hconsistent, hlast, hsequential⟩ := h.lastSaved hstored
  rcases hlast.resumed hconsistent hsequential hresume with ⟨hstatus, -⟩ | ⟨-, -, hstored, heq⟩
  · obtain ⟨st, hst, hpending⟩ := hopen
    rw [h.shows_snap.complete hstatus st hst] at hpending
    cases hpending
  · exact ⟨hstored, heq⟩

end StopsAfterHalt

/-- A stored step is as it was. -/
lemma Transaction.stepAt_stored {tx : Transaction} {st : Step} {o : ℤ} (hvalid : tx.Valid)
    (hst : tx.stepAt o = some st) : tx.stored.stepAt o = some st := by
  have hperm : tx.stored.steps.Perm tx.steps := List.perm_insertionSort _ _
  have hwired : tx.stored.Wired := ⟨(hperm.map _).nodup_iff.mpr hvalid.wired.names,
    (hperm.map _).nodup_iff.mpr hvalid.wired.orders,
    fun st hst => hvalid.wired.positive st (hperm.subset hst)⟩
  rw [← Transaction.executionOrder_of_stepAt hst]
  exact hwired.stepAt (hperm.symm.subset (Transaction.mem_of_stepAt hst))

/-- A resume of a stored snapshot keeps its skipped step, or leaves its pending one. -/
lemma Transaction.stepAt_stored_resumed {tx : Transaction} (hvalid : tx.stored.Valid) {st : Step}
    (hst : st ∈ tx.steps) (f : Bool) (now : Datetime) :
    (tx.stored.resumed f now).stepAt st.executionOrder = some (tx.stored.restored f st) := by
  have hmem : tx.stored.restored f st ∈ (tx.stored.resumed f now).steps := by
    rw [Transaction.resumed, Transaction.steps_reset]
    refine List.mem_map_of_mem ?_
    rw [Transaction.orderedSteps_stored]
    exact Transaction.mem_orderedSteps.mpr hst
  exact (hvalid.resumed f now).wired.stepAt hmem

/-- What is resumed of a snapshot that a run has shown is admitted. -/
lemma Engine.Shows.admitted_resumed {tx : Transaction} (h : Engine.Shows tx)
    (hvalid : tx.stored.Valid) (f : Bool) (now : Datetime) :
    (tx.stored.resumed f now).Admitted := by
  refine ⟨?_, hvalid.resumed f now⟩
  obtain ⟨history, heq⟩ := tx.stored.resumed_eq f now
  rw [heq]
  exact h.shown.2

/-- A step with a halting failure is failed. -/
lemma Transaction.failed_of_haltingFailure {st : Step} {failure : ℤ × ℕ}
    (h : haltingFailure st = some failure) : st.status = .failed := by
  unfold haltingFailure at h
  split at h
  · split_ifs at h with hfailed
    simp only [Bool.and_eq_true, decide_eq_true_eq] at hfailed
    exact hfailed.1
  · cases h

/-- **Where a process may stop without a halting failure being forgotten.** The body of a step
raises one in a run of a fresh or resumed transaction, the process stops at a later checkpoint, and
the snapshot of that checkpoint is what is stored. It is resumed, keeping business failures. A step
that waited behind the failed one stays unexecuted in every run of what is returned, if and only if
the process did not stop at the first checkpoint after the failure.

**Proof sketch.** The first snapshot has the step pending and every later one has it skipped with
the entry that explains the skip (`Engine.run_halted`). A resume keeps the one status as well as the
other, and a run leaves a skipped step alone and reaches a pending one. -/
theorem halting_resumed_iff {e : Engine} {ctx : RunContext} {tx : Transaction}
    {env : EngineTrace → (op : EngineOp) → op.Res} {db db' : TransactionDb} {failed : Step}
    {given snap resumed : Transaction} {between : EngineTrace}
    (h : StopsAfterHalt e ctx tx env db failed given between snap db') (hgiven : tx.Given)
    (hstored : StoredEarlier db tx) {steps : List Step} {identity : Option String} {now : Datetime}
    (hresume : db'.resumeTransaction tx.id steps false identity now = .ok resumed)
    {o : ℤ} (hwaits : Waits failed given o) :
    (∀ (e' : Engine) (ctx' : RunContext) (env' : EngineTrace → (op : EngineOp) → op.Res),
      ∀ y ∈ executionsOf ((e'.run ctx' resumed).run env' []).2, y.order ≠ o) ↔
    snapshots between ≠ [] := by
  obtain ⟨a, r, answer, c, hrun, hends, -⟩ := h.run
  obtain ⟨hfirst, hlater⟩ := Engine.run_halted hgiven hrun hends h.ordinary
  have hresumed : ∀ tx : Transaction, (tx.resumed false now).isResumed = true :=
    fun tx => Transaction.isResumed_reset
  by_cases hstop : snapshots between = []
  · -- the step was stored pending
    obtain ⟨st, hst, hstatus⟩ := (Option.any_eq_true _ _).mp (hfirst hstop o hwaits)
    simp only [decide_eq_true_eq] at hstatus
    have hmem := Transaction.mem_of_stepAt hst
    obtain ⟨hvalid, rfl⟩ := h.resumed hstored ⟨st, hmem, by simp [Step.isComplete, hstatus]⟩ hresume
    have hat := Transaction.stepAt_stored_resumed hvalid hmem false now
    rw [Transaction.executionOrder_of_stepAt hst] at hat
    have hpending : (snap.stored.resumed false now).pendingAt o = true := by
      rw [Transaction.pendingAt, hat, Option.any_some, Transaction.restored]
      simp [Transaction.resumedStatus, Transaction.resumedStepStatus, hstatus]
    obtain ⟨y, hy, horder⟩ := Engine.pending_executed
      (h.shows_snap.admitted_resumed hvalid false now) (hresumed snap.stored) hpending
    exact iff_of_false (fun hall => hall _ _ _ y hy horder) (not_not.mpr hstop)
  · -- the step was stored skipped, with the entry that explains the skip
    have hhalted := hlater hstop
    obtain ⟨_, ⟨own, hown, hfailure⟩, -⟩ := id hhalted
    have hopen : own.isComplete = false := by
      simp [Step.isComplete, Transaction.failed_of_haltingFailure hfailure]
    obtain ⟨hvalid, rfl⟩ := h.resumed hstored ⟨own, hown, hopen⟩ hresume
    have hkept : snap.stored.Halted failed given :=
      hhalted.congr (fun st => Transaction.mem_orderedSteps) fun entry hentry => hentry
    obtain ⟨st, hst, rfl, hskipped, hpreserved⟩ := hkept.preservesSkip hwaits
    have hat := Transaction.stepAt_stored_resumed hvalid (Transaction.mem_orderedSteps.mp hst)
      false now
    refine iff_of_true (fun e' ctx' env' => Engine.kept_not_executed (hresumed snap.stored) hat
      (Or.inl ?_) e' ctx' env') hstop
    rw [Transaction.restored]
    simp [Step.isComplete, Transaction.resumedStatus, Transaction.resumedStepStatus, hskipped,
      hpreserved]

/-- A transaction with two steps that can be resumed. -/
def twoStepSample : Transaction :=
  .create "T" "1" ⟨0, some 0⟩ [.create "a" 1, .create "b" 2] ⟨"refunds", by decide⟩

/-- The result of a body that raises a halting business failure. -/
def haltingResult : StepResult :=
  bareResult (some (.business { (default : BusinessException) with
    haltsRemainingSteps := true })) .inProgress

/-- **The first checkpoint after the failure forgets it**: the process stops there, and a run of
what is resumed executes the step behind the failed one. -/
theorem halting_resumed_iff_forgotten : ∃ snap db' resumed,
    TransactionDb.empty.save snap = .ok db' ∧
      snap ∈ snapshots (((Engine.create 0).run Engine.stillContext twoStepSample).run
        (alwaysEnds haltingResult) []).2 ∧
      snap.steps.map Step.status = [.failed, .pending] ∧
      db'.resumeTransaction "1" [.create "a" 1, .create "b" 2] false (some "refunds")
        ⟨0, some 0⟩ = .ok resumed ∧
      ∃ (e : Engine) (ctx : RunContext) (env : EngineTrace → (op : EngineOp) → op.Res),
        ∃ y ∈ executionsOf ((e.run ctx resumed).run env []).2, y.order = 2 := by
  obtain ⟨a, failed, given, snap, c, hrun, horder, hpending, hstatuses, hid, db', hsave, resumed,
      hresume⟩ : ∃ a failed given snap c,
      (((Engine.create 0).run Engine.stillContext twoStepSample).run
        (alwaysEnds haltingResult) []).2 = a ++ ⟨.execute failed given, haltingResult⟩ ::
          ([] ++ ⟨.checkpoint snap, (none : Option PyError)⟩ :: c) ∧
      failed.executionOrder = 1 ∧ given.pendingAt 2 = true ∧
      snap.steps.map Step.status = [.failed, .pending] ∧ snap.id = "1" ∧
      ∃ db', TransactionDb.empty.save snap = .ok db' ∧
      ∃ resumed, db'.resumeTransaction "1" [.create "a" 1, .create "b" 2] false (some "refunds")
        ⟨0, some 0⟩ = .ok resumed :=
    ⟨[_, _], _, _, _, [_, _], rfl, rfl, rfl, rfl, rfl, _, rfl, _, rfl⟩
  have hsaves : SaveRun .empty [(.plain snap, .ok ())] db' := by
    refine .cons ⟨.empty, .empty, .commit ?_⟩ (.nil _)
    simp only [SaveCall.run, Store.save, hsave]
    rfl
  have hsaved : SavedAs twoStepSample.id (.plain snap, .ok ()) = true := by
    rw [SavedAs, Bool.and_eq_true]
    exact ⟨decide_eq_true hid, rfl⟩
  have hstops : StopsAfterHalt (Engine.create 0) Engine.stillContext twoStepSample
      (alwaysEnds haltingResult) .empty failed given [] snap db' := by
    refine ⟨⟨a, haltingResult, none, c, hrun, rfl, _, [], hsaves, ?_, List.nil_sublist _⟩,
      by simp⟩
    rw [savedStates, List.filter_cons_of_pos hsaved]
    rfl
  have hgiven : twoStepSample.Given := Or.inl (.fresh (by decide) rfl)
  have hstored : StoredEarlier .empty twoStepSample :=
    ⟨TransactionDb.consistent_empty, rfl, none, rfl, by simp⟩
  have hiff := halting_resumed_iff hstops hgiven hstored hresume (o := 2)
    ⟨by rw [horder]; decide, hpending⟩
  refine ⟨snap, db', resumed, hsave, ?_, hstatuses, hresume, ?_⟩
  · rw [hrun]
    simp [snapshots]
  · by_contra hnone
    push Not at hnone
    exact hiff.mp hnone rfl
