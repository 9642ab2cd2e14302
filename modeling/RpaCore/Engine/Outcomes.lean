import RpaCore.Engine.Halting

set_option relaxedAutoImplicit false
set_option autoImplicit false

/-!
# The outcomes of a run

What a run has decided about its steps when it calls the next step body: a step whose body returned,
skipped its step or violated a business rule is in the status of that outcome, and a step that
failed technically is executed again before any other. Together with the checkpoints this is the
write-ahead law: the transaction that was checkpointed right before the call holds every outcome.

## Main definitions

* `Execution.Stands`, `OutcomesStand` — the outcomes that a call of a step body finds.
* `Engine.Outcomes`, `Engine.Accounts`, `Engine.Settles` — the outcomes within a pass and after it.
* `Engine.WrittenAhead` — what has happened, and was checkpointed, when a step body is called.

## Main results

* `Engine.outcomes_stand` — every call of a step body finds the earlier outcomes.
* `Engine.writeAhead` — the write-ahead law for every run.
-/

/-- **The outcome stands** in a transaction: it is no technical failure, and the step is in the
status that it leaves. -/
def Execution.Stands (tx : Transaction) (x : Execution) : Prop :=
  ∃ ending st, x.ending = some ending ∧ ending ≠ .systemFailed ∧
    tx.stepAt x.order = some st ∧ st.key = x.step.key ∧ st.status = ending.status

/-- **The earlier outcomes** when the body of a step is called: each stands, or is a technical
failure whose step is executed again, later in the list or by this call. -/
def OutcomesStand (ex : List Execution) (st : Step) (tx : Transaction) : Prop :=
  ∀ a x b, ex = a ++ x :: b → x.Stands tx ∨ x.ending = some .systemFailed ∧
    ((∃ y ∈ b, y.order = x.order) ∨ x.order = st.executionOrder)

namespace Engine

variable {e : Engine} {ctx : RunContext} {blocked : Option (List ℤ)} {step st : Step}
  {rest : List Step} {s s' : EngineState} {ex : List Execution} {x : Execution} {retry : ℕ}
  {due : Option ℤ} {ending : Ending} {t : EngineTrace} {tx : Transaction}

/-! ## Within a pass and after it -/

/-- The outcomes so far, apart from a technical failure of the step at `due`, which waits for its
retry. -/
structure Outcomes (due : Option ℤ) (s : EngineState) (ex : List Execution) : Prop where
  stand : ∀ a x b, ex = a ++ x :: b → x.Stands s.tx ∨ x.ending = some .systemFailed ∧
    ((∃ y ∈ b, y.order = x.order) ∨ due = some x.order)
  done : ∀ x ∈ ex, x.ending ≠ some .systemFailed → ∀ st, s.tx.stepAt x.order = some st →
    Transaction.IsDone st

/-- **The outcomes within a pass**: what was decided is passed over, and a step that waits for its
retry is the next one to be executed. -/
structure Accounts (blocked : Option (List ℤ)) (rest : List Step) (s : EngineState)
    (ex : List Execution) : Prop where
  passed : ∀ x ∈ ex, x.ending ≠ some .systemFailed → ∀ step ∈ rest, step.executionOrder = x.order →
    Passes blocked step s
  due : ∃ due, Outcomes due s ex ∧ ∀ o ∈ due,
    (∃ step ∈ rest, step.executionOrder = o ∧ ¬ Passes blocked step s) ∧
      ∀ step ∈ rest, step.executionOrder < o → Passes blocked step s

/-- **The outcomes after a pass**: a step that waits for its retry is the first one that is not
done. -/
def Settles (s : EngineState) (ex : List Execution) : Prop :=
  ∃ due, Outcomes due s ex ∧ ∀ o ∈ due,
    (∃ st, s.tx.stepAt o = some st ∧ st.status = .failed ∧ st.endsInSystem = true) ∧
      ∀ o' < o, ∀ st, s.tx.stepAt o' = some st → Transaction.IsDone st

/-- Nothing is decided at the beginning. -/
lemma accounts_nil (blocked : Option (List ℤ)) (rest : List Step) (s : EngineState) :
    Accounts blocked rest s [] :=
  ⟨by simp, none, ⟨fun a x b h => by simp at h, by simp⟩, by simp⟩

/-- A step that is passed over. -/
lemma Accounts.skip (h : Accounts blocked (step :: rest) s ex) (hpasses : Passes blocked step s) :
    Accounts blocked rest s ex := by
  obtain ⟨due, houtcomes, hdue⟩ := h.due
  refine ⟨fun x hx hends step' hstep' => h.passed x hx hends step' (List.mem_cons_of_mem _ hstep'),
    due, houtcomes, fun o ho => ?_⟩
  obtain ⟨⟨step', hstep', horder, hnot⟩, hbefore⟩ := hdue o ho
  refine ⟨⟨step', ?_, horder, hnot⟩, fun step' hstep' =>
    hbefore step' (List.mem_cons_of_mem _ hstep')⟩
  rcases List.mem_cons.mp hstep' with rfl | hstep'
  · exact absurd hpasses hnot
  · exact hstep'

/-- What was decided is about other steps than the next one to be executed. -/
lemma Accounts.order_ne (h : Accounts blocked (step :: rest) s ex)
    (hpasses : ¬ Passes blocked step s) (hx : x ∈ ex) (hends : x.ending ≠ some .systemFailed) :
    x.order ≠ step.executionOrder :=
  fun horder => hpasses (h.passed x hx hends step List.mem_cons_self horder.symm)

/-- The next step to be executed is the one that waits for its retry, if there is one. -/
lemma Accounts.next_due (h : Accounts blocked (step :: rest) s ex)
    (hpaces : Paces e blocked (step :: rest) retry s ex) (hpasses : ¬ Passes blocked step s) :
    ∃ due, Outcomes due s ex ∧ ∀ o ∈ due, o = step.executionOrder := by
  obtain ⟨due, houtcomes, hdue⟩ := h.due
  refine ⟨due, houtcomes, fun o ho => ?_⟩
  obtain ⟨⟨step', hstep', rfl, -⟩, hbefore⟩ := hdue o ho
  rcases List.mem_cons.mp hstep' with rfl | hlater
  · rfl
  · have hlt := (List.pairwise_cons.mp hpaces.sorted).1 step' hlater
    exact absurd (hbefore step List.mem_cons_self hlt) hpasses

/-- The call of the next body finds the earlier outcomes. -/
lemma Accounts.outcomesStand (ctx : RunContext) (h : Accounts blocked (step :: rest) s ex)
    (hpaces : Paces e blocked (step :: rest) retry s ex) (hpasses : ¬ Passes blocked step s)
    (horder : st.executionOrder = step.executionOrder) :
    OutcomesStand ex st (s.startStep ctx step).tx := by
  obtain ⟨due, houtcomes, hdue⟩ := h.next_due hpaces hpasses
  intro a x b hsplit
  rcases houtcomes.stand a x b hsplit with hstands | ⟨hsystem, hagain | hwaits⟩
  · refine Or.inl ?_
    obtain ⟨ending, own, hending, hends, hat, hrest⟩ := hstands
    have hne : x.order ≠ step.executionOrder :=
      h.order_ne hpasses (hsplit ▸ by simp) (by simpa [hending] using hends)
    exact ⟨ending, own, hending, hends, by simpa [hne] using hat, hrest⟩
  · exact Or.inr ⟨hsystem, Or.inl hagain⟩
  · exact Or.inr ⟨hsystem, Or.inr ((hdue _ hwaits).trans horder.symm)⟩

/-- One more outcome. -/
lemma Outcomes.tried (h : Outcomes due s ex) (hdue : ∀ o ∈ due, o = step.executionOrder)
    (hne : ∀ y ∈ ex, y.ending ≠ some .systemFailed → y.order ≠ step.executionOrder)
    (htried : Tried step ending s s') (hst : s.tx.stepAt step.executionOrder = some st)
    (hkey : x.step.key = st.key) (hending : x.ending = some ending) :
    Outcomes (if ending = .systemFailed then some x.order else none) s' (ex ++ [x]) := by
  have horder : x.order = step.executionOrder :=
    (congrArg Prod.snd hkey).trans (Transaction.executionOrder_of_stepAt hst)
  refine ⟨fun a y b hsplit => ?_, List.forall_mem_append.mpr ⟨fun y hy hends st' =>
    htried.done (hne y hy hends) (h.done y hy hends), List.forall_mem_singleton.mpr ?_⟩⟩
  · rcases List.eq_append_cons_of_snoc hsplit with ⟨rfl, rfl, rfl⟩ | ⟨b', rfl, hearlier⟩
    · by_cases hsystem : ending = .systemFailed
      · exact Or.inr ⟨by rw [hending, hsystem], Or.inr (if_pos hsystem)⟩
      · obtain ⟨own, hown, hstatus, -⟩ := htried.own
        obtain ⟨own', hown', hgrown⟩ := htried.grows.stepAt hst
        rw [hown] at hown'
        cases hown'
        exact Or.inl ⟨ending, own, hending, hsystem, horder ▸ hown, (hkey.trans hgrown.1).symm,
          hstatus⟩
    · rcases h.stand a y b' hearlier with hstands | ⟨hsystem, ⟨z, hz, hagain⟩ | hwaits⟩
      · refine Or.inl ?_
        obtain ⟨ending', own, hending', hends, hat, hrest⟩ := hstands
        have hmem : y ∈ ex := hearlier ▸ by simp
        have hdecided : y.ending ≠ some .systemFailed := by simpa [hending'] using hends
        refine ⟨ending', own, hending', hends, ?_, hrest⟩
        rw [htried.others _ (hne y hmem hdecided), hat, Option.map_some, if_neg]
        exact fun hskip => (h.done y hmem hdecided own hat).not_pending hskip.2.2
      · exact Or.inr ⟨hsystem, Or.inl ⟨z, by simp [hz], hagain⟩⟩
      · exact Or.inr ⟨hsystem, Or.inl ⟨x, by simp, horder.trans (hdue _ hwaits).symm⟩⟩
  · intro hends st' hst'
    exact htried.own_done (by simpa [hending] using hends) (horder ▸ hst')

/-- An attempt that goes on. -/
lemma Accounts.next (h : Accounts blocked (step :: rest) s ex)
    (hpaces : Paces e blocked (step :: rest) retry s ex) (hpasses : ¬ Passes blocked step s)
    (htried : Tried step ending s s') (hgo : ending.stops = false)
    (hst : s.tx.stepAt step.executionOrder = some st) (hkey : x.step.key = st.key)
    (hending : x.ending = some ending) : Accounts blocked rest s' (ex ++ [x]) := by
  obtain ⟨due, houtcomes, hdue⟩ := h.next_due hpaces hpasses
  have hsystem : ending ≠ .systemFailed := by
    rintro rfl
    cases hgo
  have hhalts : ending ≠ .businessFailed true := by
    rintro rfl
    cases hgo
  have hlater := (List.pairwise_cons.mp hpaces.sorted).1
  have htried' := houtcomes.tried hdue (fun y hy => h.order_ne hpasses hy) htried hst hkey hending
  rw [if_neg hsystem] at htried'
  refine ⟨List.forall_mem_append.mpr ⟨fun y hy hends step' hstep' horder => ?_,
    List.forall_mem_singleton.mpr fun _ step' hstep' horder => ?_⟩, none, htried', by simp⟩
  · have hpassed := h.passed y hy hends step' (List.mem_cons_of_mem _ hstep') horder
    have hsame := htried.stepAt_of_ne hhalts (ne_of_gt (hlater step' hstep'))
    rwa [Passes, Transaction.isCompleteAt, hsame]
  · have hown : x.order = step.executionOrder :=
      (congrArg Prod.snd hkey).trans (Transaction.executionOrder_of_stepAt hst)
    exact absurd (horder.trans hown) (ne_of_gt (hlater step' hstep'))

/-- A pass at its end. -/
lemma Accounts.ended (h : Accounts blocked [] s ex) : Settles s ex := by
  obtain ⟨due, houtcomes, hdue⟩ := h.due
  refine ⟨due, houtcomes, fun o ho => ?_⟩
  obtain ⟨⟨step, hstep, -⟩, -⟩ := hdue o ho
  cases hstep

/-- A failure that stops the pass. -/
lemma Accounts.stopped (h : Accounts blocked (step :: rest) s ex)
    (hpaces : Paces e blocked (step :: rest) retry s ex) (hpasses : ¬ Passes blocked step s)
    (htried : Tried step ending s s') (hst : s.tx.stepAt step.executionOrder = some st)
    (hkey : x.step.key = st.key) (hending : x.ending = some ending) : Settles s' (ex ++ [x]) := by
  obtain ⟨due, houtcomes, hdue⟩ := h.next_due hpaces hpasses
  have hown : x.order = step.executionOrder :=
    (congrArg Prod.snd hkey).trans (Transaction.executionOrder_of_stepAt hst)
  refine ⟨_, houtcomes.tried hdue (fun y hy => h.order_ne hpasses hy) htried hst hkey hending,
    fun o ho => ?_⟩
  split at ho
  · next hsystem =>
    obtain rfl : x.order = o := Option.some.inj ho
    obtain ⟨own, hat, hstatus, hends⟩ := htried.own
    rw [hsystem] at hstatus hends
    refine ⟨⟨own, hown ▸ hat, hstatus, (hends rfl).2⟩, fun o' hlt st' hst' => ?_⟩
    -- what is behind the step that failed is done
    refine htried.done (by omega) (fun st'' hst'' => hpaces.behind o' st'' hst'' fun hin => ?_) hst'
    rcases List.mem_cons.mp hin with heq | hin
    · omega
    · obtain ⟨step', hstep', rfl⟩ := List.mem_map.mp hin
      have := (List.pairwise_cons.mp hpaces.sorted).1 step' hstep'
      omega
  · cases ho

/-- The next pass, when there are steps to retry. -/
lemma Settles.again (ctx : RunContext) (h : Settles s ex) (hw : s.tx.Wired) :
    Accounts (some (s.resetRetryable.scheduleRetry ctx).tx.businessFailedOrders)
      (s.resetRetryable.scheduleRetry ctx).tx.orderedSteps (s.resetRetryable.scheduleRetry ctx)
      ex := by
  obtain ⟨due, houtcomes, hdue⟩ := h
  set s₀ := s.resetRetryable.scheduleRetry ctx with hs₀
  have hw₀ := ((EngineState.grows_resetRetryable s).trans
    (EngineState.grows_scheduleRetry ctx _)).wired hw
  have hat : ∀ o, s₀.tx.stepAt o = (s.tx.stepAt o).map fun st =>
      if st.status = .failed && st.endsInSystem then { st with status := .pending } else st :=
    EngineState.stepAt_resetRetryable s
  -- a step that is done keeps its status and is passed over
  have hkept : ∀ o st, s.tx.stepAt o = some st → Transaction.IsDone st →
      s₀.tx.stepAt o = some st := by
    intro o st hst hdone
    rw [hat, hst, Option.map_some, if_neg (by simpa using not_endsInSystem_of_done hdone)]
  have hpassed : ∀ step ∈ s₀.tx.orderedSteps, (∀ st, s.tx.stepAt step.executionOrder = some st →
      Transaction.IsDone st) → Passes (some s₀.tx.businessFailedOrders) step s₀ := by
    intro step hstep hdone
    have hmem := Transaction.mem_orderedSteps.mp hstep
    have hself := hw₀.stepAt hmem
    rw [hat] at hself
    obtain ⟨st, hst, -⟩ := Option.map_eq_some_iff.mp hself
    have hsame := hkept _ st hst (hdone st hst)
    rw [hw₀.stepAt hmem] at hsame
    cases hsame
    exact (passes_iff hw₀ hmem (Or.inr (hdone step hst))).mpr (hdone step hst).not_pending
  refine ⟨fun x hx hends step hstep horder =>
    hpassed step hstep (horder ▸ houtcomes.done x hx hends), due,
    ⟨fun a x b hsplit => ?_, fun x hx hends st hst => ?_⟩, fun o ho => ⟨?_, ?_⟩⟩
  · refine (houtcomes.stand a x b hsplit).imp_left ?_
    rintro ⟨ending, st, hending, hends, hst, hrest⟩
    refine ⟨ending, st, hending, hends, hkept _ st hst ?_, hrest⟩
    exact houtcomes.done x (hsplit ▸ by simp) (by simpa [hending] using hends) st hst
  · rw [hat] at hst
    obtain ⟨st', hst', hreset⟩ := Option.map_eq_some_iff.mp hst
    have hdone := houtcomes.done x hx hends st' hst'
    rw [if_neg (by simpa using not_endsInSystem_of_done hdone)] at hreset
    exact hreset ▸ hdone
  · obtain ⟨⟨st, hst, hfailed, hends⟩, -⟩ := hdue o ho
    have hreset := hat o
    rw [hst, Option.map_some, if_pos (by simp [hfailed, hends])] at hreset
    have hin := Transaction.mem_of_stepAt hreset
    refine ⟨_, Transaction.mem_orderedSteps.mpr hin,
      Transaction.executionOrder_of_stepAt hreset, ?_⟩
    rw [passes_iff hw₀ hin (Or.inl rfl)]
    simp
  · exact fun step hstep hlt => hpassed step hstep ((hdue o ho).2 _ hlt)

/-! ## Whole runs -/

/-- **A pass of any run** keeps the outcomes. -/
theorem wp_executePass_settles (hpaces : Paces e blocked s.tx.orderedSteps retry s (executionsOf t))
    (h : Accounts blocked s.tx.orderedSteps s (executionsOf t)) :
    (executePass e ctx blocked).wp (executing OutcomesStand)
      (fun _ s' t' => Rests e retry s' (executionsOf t') ∧ Settles s' (executionsOf t'))
      (fun _ _ _ => True) s t := by
  rw [wp_executePass]
  refine wp_passLoop (I := fun rest s t => Paces e blocked rest retry s (executionsOf t) ∧
    Accounts blocked rest s (executionsOf t)) (fun _ _ h => ⟨h.1.ended, h.2.ended⟩)
    (fun _ _ _ _ h hpasses => ⟨h.1.skip hpasses, h.2.skip hpasses⟩)
    (fun step rest s t h hpasses => ?_) ⟨hpaces, h⟩
  obtain ⟨hpaces, h⟩ := h
  obtain ⟨st, hst⟩ := hpaces.ahead step List.mem_cons_self
  have horder : st.executionOrder = step.executionOrder :=
    Transaction.executionOrder_of_stepAt hst
  refine Proc.wp_mono (wp_attempt_tried hpaces.wired hst
    (h.outcomesStand ctx hpaces hpasses horder)) ?_ fun _ _ _ h => h
  rintro flow s' t' ⟨ending, hexec, rfl, htried⟩
  rw [hexec]
  cases hstops : ending.stops with
  | false =>
    exact ⟨hpaces.next hpasses htried hstops horder rfl,
      h.next hpaces hpasses htried hstops hst rfl rfl⟩
  | true =>
    exact ⟨hpaces.stopped hpasses htried hstops horder rfl rfl,
      h.stopped hpaces hpasses htried hst rfl rfl⟩

/-- The retry loop keeps the outcomes. -/
lemma wp_retryLoop_settles {n : ℕ} (hn : n = e.maxRetries - retry)
    (hrests : Rests e retry s (executionsOf t)) (h : Settles s (executionsOf t)) :
    (retryLoop e ctx n).wp (executing OutcomesStand) (fun _ _ _ => True) (fun _ _ _ => True)
      s t := by
  induction n generalizing retry s t with
  | zero => trivial
  | succ n ih =>
    rw [retryLoop_succ]
    simp only [Proc.wp_bind, Proc.wp_get]
    refine Proc.wp_ite (fun _ => trivial) fun hsome => ?_
    simp only [retryPass, Proc.wp_bind, Proc.wp_get, Proc.wp_modify]
    refine wp_sleepBeforeRetry_executing ?_
    refine Proc.wp_mono (wp_executePass_settles
      (hrests.again ctx (by simpa using hsome) (by omega)) (h.again ctx hrests.wired)) ?_
      fun _ _ _ h => h
    rintro _ s₁ t₁ ⟨hrests₁, h₁⟩
    exact wp_checkpoint_executing fun t₂ ht₂ => ih (by omega) (ht₂ ▸ hrests₁) (ht₂ ▸ h₁)

/-- **Every call of a step body finds the earlier outcomes**, in any run of any transaction.

**Proof sketch.** A pass stops at a technical failure with every step before it done, and the next
pass passes them over; so the step that failed is the next one to be executed. -/
theorem outcomes_stand (e : Engine) (ctx : RunContext) (tx : Transaction)
    (env : EngineTrace → (op : EngineOp) → op.Res) {a b : List Execution} {x : Execution}
    (hx : executionsOf ((e.run ctx tx).run env []).2 = a ++ x :: b) :
    OutcomesStand a x.step x.tx := by
  have hbody : (body e ctx).wp (executing OutcomesStand) (fun _ _ _ => True) (fun _ _ _ => True)
      ⟨tx, 0⟩ [] := by
    refine wp_body (fun err _ => trivial) fun hvalid => ?_
    refine wp_checkpoint_executing fun t ht => ?_
    have hbegin : executionsOf t = [] := ht
    refine Proc.wp_mono (Q := fun _ _ _ => True) (R := fun _ _ _ => True) ?_
      (fun _ _ _ _ => wp_checkpoint_executing fun _ _ => trivial) fun err s₁ t₁ _ => ?_
    · simp only [passes, Proc.wp_bind, Proc.wp_get]
      refine Proc.wp_mono (wp_executePass_settles (hbegin ▸ paces_begin e ctx hvalid)
        (hbegin ▸ accounts_nil _ _ _)) ?_ fun _ _ _ h => h
      rintro _ s₁ t₁ ⟨hrests, h₁⟩
      exact wp_retryLoop_settles (by rw [hrests.count]) hrests h₁
    · refine wp_handleInterrupt (fun _ => trivial) fun _ => ?_
      refine Proc.wp_mono (wp_checkpoint_executing (Q := fun _ _ _ => True) fun _ _ => trivial)
        (fun _ _ _ _ => trivial) fun _ _ _ _ => ?_
      split <;> trivial
  exact executions_pre env hbody hx

/-! ## The write-ahead law -/

/-- **What has happened when a body is called** on a transaction: the call was announced by a
checkpoint that succeeded with that very transaction, and every earlier outcome of the run is
recorded on it, with its entry, its exception and the status of its step. -/
structure WrittenAhead (t : EngineTrace) (step : Step) (tx : Transaction) : Prop
    extends Announced t step tx where
  outcomes : OutcomesStand (executionsOf t) step tx

/-- **Write-ahead checkpointing.** In every run of the engine with a checkpoint callback, and for
every behaviour of the steps and of the callback:

* the body of a step is only called when the call just before was a checkpoint that succeeded
  with exactly the transaction as it stands, this step being `IN_PROGRESS` and announced by the
  last history entry, and every earlier outcome of the run recorded;
* as long as nothing raises a `MemoryError`, a checkpoint that fails is the last call of the run,
  which raises its error; and a state that cannot be stored is the end of the run as well: no
  step and no checkpoint follow, and the error of its validation is raised.

**Proof sketch.** The checkpoints are those of `calls_checkpointed`; the statuses of the steps are
those of `outcomes_stand`. -/
theorem writeAhead (e : Engine) (ctx : RunContext) (hc : ctx.hasCheckpoint = true)
    (tx : Transaction) (env : EngineTrace → (op : EngineOp) → op.Res) :
    let result := ((e.run ctx tx).run env []).1.1
    let calls := ((e.run ctx tx).run env []).2
    (∀ t₁ step tx' (r : StepResult) t₂, calls = t₁ ++ ⟨.execute step tx', r⟩ :: t₂ →
      WrittenAhead t₁ step tx') ∧
    (NoMemoryError calls →
      (∀ t₁ tx' (err : PyError) t₂,
        calls = t₁ ++ ⟨.checkpoint tx', (some err : Option PyError)⟩ :: t₂ →
          t₂ = [] ∧ result = .error err) ∧
      (∀ t₁ step tx' (r : StepResult) je t₂, calls = t₁ ++ ⟨.execute step tx', r⟩ :: t₂ →
        (∀ err, r.raised = some err → err.isException = true) → (∀ ev ∈ calls, Captured ev) →
        r.state.objectError "transaction.state" = some je →
          (∀ ev ∈ t₂, ∃ d, ev.op = .captureScreenshot d) ∧ result = .error (.jsonState je))) := by
  intro result calls
  obtain ⟨hannounced, hended⟩ := calls_checkpointed e ctx hc tx env
  refine ⟨fun t₁ step tx' r t₂ hcalls => ⟨hannounced t₁ step tx' r t₂ hcalls, ?_⟩, hended⟩
  have hexec : executionsOf calls =
      executionsOf t₁ ++ ⟨step, tx', r.ending⟩ :: executionsOf t₂ := by
    rw [hcalls]
    simp [executionsOf]
  exact outcomes_stand e ctx tx env hexec

/-- Every body succeeds, and the checkpoint after the second one is refused. -/
def refuseAfterSecond (t : EngineTrace) : (op : EngineOp) → op.Res
  | .checkpoint _ => if (executionsOf t).length = 2 then some (.runtimeError "disk full") else none
  | .execute _ _ => endsWith none
  | .captureScreenshot _ => .ok ""

/-- The run of two steps whose last checkpoint is refused: the second body is called once the
outcome of the first is recorded, and the run ends with the error of the checkpoint. -/
theorem writeAhead_secondStep :
    ∃ t₁ st tx r t₂, (((create 0).run stillContext twoSteps).run refuseAfterSecond []).2 =
        t₁ ++ ⟨.execute st tx, r⟩ :: t₂ ∧
      (executionsOf t₁).map (fun x => (x.step.name, x.ending)) = [("a", some .succeeded)] ∧
      st.name = "b" ∧ WrittenAhead t₁ st tx ∧
      (((create 0).run stillContext twoSteps).run refuseAfterSecond []).1.1 =
        .error (.runtimeError "disk full") := by
  obtain ⟨hcalled, hrefused⟩ := writeAhead (create 0) stillContext rfl twoSteps refuseAfterSecond
  have hmemory : NoMemoryError
      (((create 0).run stillContext twoSteps).run refuseAfterSecond []).2 := by
    intro ev hev
    obtain ⟨t₁, t₂, ht⟩ := List.append_of_mem hev
    have hr := Prog.run_res _ _ ht
    obtain ⟨_ | _ | _, r⟩ := ev
    · intro err herr
      rw [show r = some err from herr] at hr
      simp only [refuseAfterSecond] at hr
      split at hr
      · cases hr
        rfl
      · cases hr
    · obtain rfl : r = endsWith none := hr
      exact fun err herr => by cases herr
    · obtain rfl : r = .ok "" := hr
      exact fun err herr => by cases herr
  obtain ⟨st, tx, r, t₂, hsecond, hname⟩ : ∃ st tx r t₂,
      (((create 0).run stillContext twoSteps).run refuseAfterSecond []).2.drop 5 =
        ⟨.execute st tx, r⟩ :: t₂ ∧ st.name = "b" := ⟨_, _, _, _, rfl, rfl⟩
  obtain ⟨tx', hlast⟩ : ∃ tx',
      (((create 0).run stillContext twoSteps).run refuseAfterSecond []).2.drop 6 =
        [⟨.checkpoint tx', (some (.runtimeError "disk full") : Option PyError)⟩] := ⟨_, rfl⟩
  have hcalls := (List.take_append_drop 5
    (((create 0).run stillContext twoSteps).run refuseAfterSecond []).2).symm
  have hends := (List.take_append_drop 6
    (((create 0).run stillContext twoSteps).run refuseAfterSecond []).2).symm
  rw [hsecond] at hcalls
  rw [hlast] at hends
  exact ⟨_, st, tx, r, t₂, hcalls, by decide +kernel, hname, hcalled _ _ _ _ _ hcalls,
    ((hrefused hmemory).1 _ _ _ _ hends).2⟩

end Engine
