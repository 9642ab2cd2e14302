import RpaCore.Engine.Execution
import RpaCore.Engine.History

set_option relaxedAutoImplicit false
set_option autoImplicit false

/-!
# Retry discipline

How often a run executes what. A run of a transaction that is fresh or resumed makes a bounded
number of passes, executes a step once in a pass, and again on a later pass only if it has failed
with a `SystemException`. At every decision whether to retry there is one such step at most, and the
pending steps are the ones behind it; a run returns with such a step only if its retries are spent.

## Main definitions

* `Engine.retryPass`, `Engine.Decides` — the states in which a run decides whether to retry.
* `Engine.Within`, `Engine.Between` — the engine within a pass and between two passes.
* `Engine.MayFollow` — which executions may follow each other.

## Main results

* `Engine.wp_executePass_between` — a pass.
* `Engine.retry_discipline` — what a run executes, and what it leaves.
-/

variable {tx : Transaction}

/-! ## Decisions -/

namespace Engine

/-- The body of the retry loop, once there are steps to retry. -/
def retryPass (e : Engine) (ctx : RunContext) (completedRetryPasses : ℕ) : EngineM Unit := do
  modify EngineState.resetRetryable
  sleepBeforeRetry e ctx completedRetryPasses
  modify (EngineState.scheduleRetry ctx)
  let s ← get
  executePass e ctx (some s.tx.businessFailedOrders)
  checkpoint ctx

/-- **The retry decisions of a run**: the state and the calls so far, after a number of passes. -/
inductive Decides (e : Engine) (ctx : RunContext) (tx : Transaction)
    (env : EngineTrace → (op : EngineOp) → op.Res) : ℕ → EngineState → EngineTrace → Prop
  | first {s₀ s : EngineState} {t₀ t : EngineTrace} (valid : tx.Valid)
      (opened : ((checkpoint ctx).start ((⟨tx, 0⟩ : EngineState).begin ctx)).run env [] =
        ((.ok (), s₀), t₀))
      (passed : ((executePass e ctx tx.initialBlocked).start s₀).run env t₀ = ((.ok (), s), t)) :
      Decides e ctx tx env 1 s t
  | retry {n : ℕ} {s s' : EngineState} {t t' : EngineTrace} (decision : Decides e ctx tx env n s t)
      (again : s.tx.retryCount < e.maxRetries) (retryable : s.tx.retryableFailedSteps ≠ [])
      (passed : ((retryPass e ctx s.tx.retryCount).start s).run env t = ((.ok (), s'), t')) :
      Decides e ctx tx env (n + 1) s' t'

variable {e : Engine} {ctx : RunContext} {blocked : Option (List ℤ)} {step : Step}
  {rest : List Step} {s s' : EngineState} {ex : List Execution} {retry : ℕ}

/-! ## The engine within a pass and between two passes -/

/-- An earlier execution, and one that may follow it: no body is called after a halting failure, and
a step is executed again on a later pass only, after a `SystemException`. -/
structure MayFollow (x : Execution) (order : ℤ) (retryNumber : ℕ) : Prop where
  pass : x.retryNumber ≤ retryNumber
  goesOn : ¬ x.Halts
  again : x.order = order → x.retryNumber < retryNumber ∧ x.ending = some .systemFailed

/-- **The engine within a pass**: steps behind are done, those ahead are runnable or done, and what
was executed is done, or has failed with a `SystemException` on an earlier pass. -/
structure Within (blocked : Option (List ℤ)) (rest : List Step) (retry : ℕ) (s : EngineState)
    (ex : List Execution) : Prop where
  wired : s.tx.Wired
  count : s.tx.retryCount = retry
  sorted : rest.Pairwise fun a b => a.executionOrder < b.executionOrder
  ahead : ∀ step ∈ rest, ∃ st, s.tx.stepAt step.executionOrder = some st ∧
    (Passes blocked step s ↔ st.status ≠ .pending)
  behind : ∀ o st, s.tx.stepAt o = some st → o ∉ rest.map Step.executionOrder →
    Transaction.IsDone st
  clean : ∀ o st, s.tx.stepAt o = some st → Transaction.IsClean st
  executed : ∀ x ∈ ex, x.retryNumber ≤ retry ∧ ¬ x.Halts ∧
    (x.ending = some .systemFailed ∧ x.retryNumber < retry ∨
      ∀ st, s.tx.stepAt x.order = some st → Transaction.IsDone st)

/-- The steps between two passes: all are done, or the pass was stopped by a `SystemException`
behind whose step the pending ones are. -/
def StepsLeft (s : EngineState) (f : ℤ) : Prop :=
  (∃ st, s.tx.stepAt f = some st ∧ st.status = .failed ∧ st.endsInSystem = true) ∧
    ∀ o st, s.tx.stepAt o = some st → o ≠ f →
      Transaction.IsClean st ∧ (st.status = .pending → f < o)

/-- Every step is done. -/
def AllDone (s : EngineState) : Prop := ∀ o st, s.tx.stepAt o = some st → Transaction.IsDone st

/-- **The engine between two passes.** -/
structure Between (retry : ℕ) (s : EngineState) (ex : List Execution) : Prop where
  wired : s.tx.Wired
  count : s.tx.retryCount = retry
  left : AllDone s ∨ ∃ f, StepsLeft s f
  executed : ∀ x ∈ ex, x.retryNumber ≤ retry ∧ (x.Halts → AllDone s) ∧
    (x.ending = some .systemFailed ∨ ∀ st, s.tx.stepAt x.order = some st → Transaction.IsDone st)

/-- A step that is done does not wait for a retry. -/
lemma not_endsInSystem_of_done {st : Step} (h : Transaction.IsDone st) :
    ¬ (st.status = .failed ∧ st.endsInSystem = true) := by
  have hkept := Transaction.IsClean.not_retryable (Or.inr h)
  rintro ⟨hfailed, hends⟩
  simp [hfailed, hends] at hkept

/-- When every step is done there is nothing to retry. -/
lemma AllDone.retryable (hw : s.tx.Wired) (h : AllDone s) : s.tx.retryableFailedSteps = [] := by
  refine List.filter_eq_nil_iff.mpr fun st hst hends => ?_
  obtain ⟨hmem, hfailed⟩ := List.mem_filter.mp hst
  exact not_endsInSystem_of_done (h _ st (hw.stepAt hmem)) ⟨by simpa using hfailed, hends⟩

/-- A step that is passed over leaves the engine within the pass. -/
lemma Within.skip (h : Within blocked (step :: rest) retry s ex) (hpasses : Passes blocked step s) :
    Within blocked rest retry s ex := by
  obtain ⟨st, hst, hiff⟩ := h.ahead step List.mem_cons_self
  have hdone : Transaction.IsDone st := (h.clean _ st hst).resolve_left (hiff.mp hpasses)
  refine ⟨h.wired, h.count, (List.pairwise_cons.mp h.sorted).2,
    fun step' hstep' => h.ahead step' (List.mem_cons_of_mem _ hstep'), fun o st' hst' ho => ?_,
    h.clean, h.executed⟩
  by_cases heq : o = step.executionOrder
  · rw [heq, hst] at hst'
    cases hst'
    exact hdone
  · refine h.behind o st' hst' ?_
    rw [List.map_cons, List.mem_cons, not_or]
    exact ⟨heq, ho⟩

/-- The step at which an attempt is made is pending. -/
lemma Within.pending (h : Within blocked (step :: rest) retry s ex)
    (hpasses : ¬ Passes blocked step s) :
    ∃ st, s.tx.stepAt step.executionOrder = some st ∧ st.status = .pending := by
  obtain ⟨st, hst, hiff⟩ := h.ahead step List.mem_cons_self
  exact ⟨st, hst, not_not.mp fun hne => hpasses (hiff.mpr hne)⟩

/-- The executions of a pass may follow the earlier ones. -/
lemma Within.mayFollow (h : Within blocked (step :: rest) retry s ex)
    (hpasses : ¬ Passes blocked step s) {x : Execution} (hx : x ∈ ex) :
    MayFollow x step.executionOrder retry := by
  obtain ⟨st, hst, hpending⟩ := h.pending hpasses
  obtain ⟨hpass, hgo, hend⟩ := h.executed x hx
  refine ⟨hpass, hgo, fun horder => ?_⟩
  rcases hend with ⟨hsystem, hearlier⟩ | hdone
  · exact ⟨hearlier, hsystem⟩
  · exact absurd hpending (hdone st (horder ▸ hst)).not_pending

/-- What was executed and is done is another step. -/
lemma Within.ne_of_done (h : Within blocked (step :: rest) retry s ex)
    (hpasses : ¬ Passes blocked step s) {o : ℤ}
    (hdone : ∀ st, s.tx.stepAt o = some st → Transaction.IsDone st) : o ≠ step.executionOrder := by
  obtain ⟨st, hst, hpending⟩ := h.pending hpasses
  rintro rfl
  exact (hdone st hst).not_pending hpending

/-- An ending that does not stop its pass leaves its step done. -/
lemma Tried.own_done {ending : Ending} (h : Tried step ending s s') (hends : ending ≠ .systemFailed)
    {st : Step} (hst : s'.tx.stepAt step.executionOrder = some st) : Transaction.IsDone st := by
  obtain ⟨own, hown, hstatus, hfailed⟩ := h.own
  rw [hst] at hown
  cases hown
  cases ending with
  | succeeded => exact Or.inl (by simp [Step.isComplete, hstatus, Ending.status])
  | skipped => exact Or.inl (by simp [Step.isComplete, hstatus, Ending.status])
  | businessFailed halts => exact Or.inr ⟨hstatus, (hfailed rfl).1⟩
  | systemFailed => exact absurd rfl hends

/-- Without a halting failure the other steps are as they were. -/
lemma Tried.stepAt_of_ne {ending : Ending} (h : Tried step ending s s')
    (hends : ending ≠ .businessFailed true) {o : ℤ} (ho : o ≠ step.executionOrder) :
    s'.tx.stepAt o = s.tx.stepAt o := by
  rw [h.others o ho]
  simp [hends]

/-- A step that is done stays so in an attempt at another one. -/
lemma Tried.done {ending : Ending} (h : Tried step ending s s') {o : ℤ}
    (ho : o ≠ step.executionOrder) (hdone : ∀ st, s.tx.stepAt o = some st → Transaction.IsDone st)
    {st : Step} (hst : s'.tx.stepAt o = some st) : Transaction.IsDone st := by
  rw [h.others o ho] at hst
  obtain ⟨st', hst', rfl⟩ := Option.map_eq_some_iff.mp hst
  rw [if_neg fun hskip => (hdone st' hst').not_pending hskip.2.2]
  exact hdone st' hst'

variable {x : Execution} {ending : Ending}

/-- An attempt that goes on. -/
lemma Within.next (h : Within blocked (step :: rest) retry s ex)
    (hpasses : ¬ Passes blocked step s) (htried : Tried step ending s s')
    (hgo : ending.stops = false) (horder : x.order = step.executionOrder)
    (hretry : x.retryNumber = retry) (hending : x.ending = some ending) :
    Within blocked rest retry s' (ex ++ [x]) := by
  have hsystem : ending ≠ .systemFailed := by
    rintro rfl
    cases hgo
  have hhalt : ending ≠ .businessFailed true := by
    rintro rfl
    cases hgo
  obtain ⟨hlater, hsorted⟩ := List.pairwise_cons.mp h.sorted
  have hne : ∀ step' ∈ rest, step'.executionOrder ≠ step.executionOrder :=
    fun step' hstep' => ne_of_gt (hlater step' hstep')
  refine ⟨htried.grows.wired h.wired, htried.retryCount.trans h.count, hsorted,
    fun step' hstep' => ?_, fun o st hst ho => ?_, fun o st hst => ?_, ?_⟩
  · obtain ⟨st, hst, hiff⟩ := h.ahead step' (List.mem_cons_of_mem _ hstep')
    have hsame := htried.stepAt_of_ne hhalt (hne step' hstep')
    refine ⟨st, hsame.trans hst, ?_⟩
    rw [← hiff, Passes, Passes, Transaction.isCompleteAt, Transaction.isCompleteAt, hsame]
  · by_cases heq : o = step.executionOrder
    · exact htried.own_done hsystem (heq ▸ hst)
    · refine htried.done heq (fun st' hst' => h.behind o st' hst' ?_) hst
      rw [List.map_cons, List.mem_cons, not_or]
      exact ⟨heq, ho⟩
  · by_cases heq : o = step.executionOrder
    · exact Or.inr (htried.own_done hsystem (heq ▸ hst))
    · exact h.clean o st ((htried.stepAt_of_ne hhalt heq).symm.trans hst)
  · refine List.forall_mem_append.mpr ⟨fun y hy => ?_, List.forall_mem_singleton.mpr ?_⟩
    · obtain ⟨hpass, hcontinues, hend⟩ := h.executed y hy
      exact ⟨hpass, hcontinues, hend.imp_right fun hdone st =>
        htried.done (h.ne_of_done hpasses hdone) hdone⟩
    · refine ⟨hretry.le, fun hx => hhalt ?_, Or.inr fun st hst =>
        htried.own_done hsystem (horder ▸ hst)⟩
      rw [Execution.Halts, hending] at hx
      exact Option.some.inj hx

/-- A pass at its end. -/
lemma Within.ended (h : Within blocked [] retry s ex) : Between retry s ex where
  wired := h.wired
  count := h.count
  left := Or.inl fun o st hst => h.behind o st hst (by simp)
  executed x hx := by
    obtain ⟨hpass, hgo, hend⟩ := h.executed x hx
    exact ⟨hpass, fun hx => absurd hx hgo, hend.imp_left And.left⟩

/-- A failure that stops the pass: after a halting one every step is done; a system failure leaves
its step, and the pending ones are behind it. -/
lemma Within.stopped (h : Within blocked (step :: rest) retry s ex)
    (hpasses : ¬ Passes blocked step s) (htried : Tried step ending s s')
    (hstops : ending.stops = true) (hretry : x.retryNumber = retry)
    (hending : x.ending = some ending) : Between retry s' (ex ++ [x]) := by
  have hbehind : ∀ o st, s.tx.stepAt o = some st → o ≠ step.executionOrder →
      st.status = .pending → step.executionOrder < o := by
    intro o st hst ho hpending
    have hmem : o ∈ (step :: rest).map Step.executionOrder :=
      not_not.mp fun hnot => (h.behind o st hst hnot).not_pending hpending
    rw [List.map_cons, List.mem_cons] at hmem
    obtain ⟨step', hstep', rfl⟩ := List.mem_map.mp (hmem.resolve_left ho)
    exact (List.pairwise_cons.mp h.sorted).1 step' hstep'
  have hearlier : ∀ y ∈ ex, y.retryNumber ≤ retry ∧ (y.Halts → AllDone s') ∧
      (y.ending = some .systemFailed ∨
        ∀ st, s'.tx.stepAt y.order = some st → Transaction.IsDone st) := by
    intro y hy
    obtain ⟨hpass, hgo, hend⟩ := h.executed y hy
    exact ⟨hpass, fun hy => absurd hy hgo, hend.imp And.left fun hdone st =>
      htried.done (h.ne_of_done hpasses hdone) hdone⟩
  have hw := htried.grows.wired h.wired
  cases ending with
  | succeeded => cases hstops
  | skipped => cases hstops
  | businessFailed halts =>
    obtain rfl : halts = true := hstops
    have hall : AllDone s' := by
      intro o st hst
      by_cases heq : o = step.executionOrder
      · exact htried.own_done (by simp) (heq ▸ hst)
      · rw [htried.others o heq] at hst
        obtain ⟨st', hst', rfl⟩ := Option.map_eq_some_iff.mp hst
        split
        · exact Or.inl (by simp [Step.isComplete])
        · next hnot =>
          refine (h.clean o st' hst').resolve_left fun hpending => hnot ⟨rfl, ?_, hpending⟩
          exact hbehind o st' hst' heq hpending
    refine ⟨hw, htried.retryCount.trans h.count, Or.inl hall,
      List.forall_mem_append.mpr ⟨hearlier, List.forall_mem_singleton.mpr
        ⟨hretry.le, fun _ => hall, Or.inr fun st => hall _ st⟩⟩⟩
  | systemFailed =>
    have hleft : StepsLeft s' step.executionOrder := by
      obtain ⟨own, hown, hstatus, hends⟩ := htried.own
      refine ⟨⟨own, hown, hstatus, by simpa using (hends rfl).2⟩, fun o st hst ho => ?_⟩
      rw [htried.stepAt_of_ne (by simp) ho] at hst
      exact ⟨h.clean o st hst, hbehind o st hst ho⟩
    refine ⟨hw, htried.retryCount.trans h.count, Or.inr ⟨_, hleft⟩,
      List.forall_mem_append.mpr ⟨hearlier, List.forall_mem_singleton.mpr
        ⟨hretry.le, fun hx => ?_, Or.inl hending⟩⟩⟩
    rw [Execution.Halts, hending] at hx
    cases hx

/-! ## Passes -/

/-- The circumstances in which a run calls a body. -/
def MayExecute (e : Engine) (tx : Transaction) (ex : List Execution) (st : Step)
    (given : Transaction) : Prop :=
  tx.retryCount ≤ given.retryCount ∧
    given.retryCount ≤ tx.retryCount + (e.maxRetries - tx.retryCount) ∧
    ∀ x ∈ ex, MayFollow x st.executionOrder given.retryCount

variable {t : EngineTrace}

/-- **A pass** goes from its beginning to its end. -/
theorem wp_executePass_between (hlow : tx.retryCount ≤ retry)
    (hhigh : retry ≤ tx.retryCount + (e.maxRetries - tx.retryCount))
    (h : Within blocked s.tx.orderedSteps retry s (executionsOf t)) :
    (executePass e ctx blocked).wp (executing (e.MayExecute tx))
      (fun _ s' t' => Between retry s' (executionsOf t')) (fun _ _ _ => True) s t := by
  rw [wp_executePass]
  refine wp_passLoop (I := fun rest s t => Within blocked rest retry s (executionsOf t))
    (fun _ _ h => h.ended) (fun _ _ _ _ h hpasses => h.skip hpasses)
    (fun step rest s t h hpasses => ?_) h
  obtain ⟨st, hst, -⟩ := h.pending hpasses
  have horder : st.executionOrder = step.executionOrder :=
    Transaction.executionOrder_of_stepAt hst
  refine Proc.wp_mono (wp_attempt_tried h.wired hst ⟨?_, ?_, fun x hx => ?_⟩) ?_ fun _ _ _ h => h
  · exact hlow.trans_eq h.count.symm
  · exact h.count.trans_le hhigh
  · have hfollow := h.mayFollow hpasses hx
    rw [← h.count] at hfollow
    rw [← horder] at hfollow
    exact hfollow
  · rintro flow s' t' ⟨ending, hexec, rfl, htried⟩
    rw [hexec]
    cases hstops : ending.stops with
    | false => exact h.next hpasses htried hstops horder h.count rfl
    | true => exact h.stopped hpasses htried hstops h.count rfl

/-- The next pass, when there are steps to retry. -/
lemma Between.again (ctx : RunContext) (h : Between retry s ex)
    (hretryable : s.tx.retryableFailedSteps ≠ []) :
    Within (some (s.resetRetryable.scheduleRetry ctx).tx.businessFailedOrders)
      (s.resetRetryable.scheduleRetry ctx).tx.orderedSteps (retry + 1)
      (s.resetRetryable.scheduleRetry ctx) ex := by
  set s₀ := s.resetRetryable.scheduleRetry ctx with hs₀
  have hnot : ¬ AllDone s := fun hall => hretryable (hall.retryable h.wired)
  obtain ⟨f, ⟨failed, hfailed, hstatus, hends⟩, hothers⟩ := h.left.resolve_left hnot
  have hgrows : s.tx.Grows s₀.tx := (EngineState.grows_resetRetryable s).trans
    (EngineState.grows_scheduleRetry ctx _)
  have hw := hgrows.wired h.wired
  have hat : ∀ o, s₀.tx.stepAt o = (s.tx.stepAt o).map fun st =>
      if st.status = .failed && st.endsInSystem then { st with status := .pending } else st :=
    EngineState.stepAt_resetRetryable s
  have hclean : ∀ o st, s₀.tx.stepAt o = some st → Transaction.IsClean st := by
    intro o st hst
    rw [hat] at hst
    obtain ⟨st', hst', rfl⟩ := Option.map_eq_some_iff.mp hst
    split
    · exact Or.inl rfl
    · next hkept =>
      refine (hothers o st' hst' fun ho => hkept ?_).1
      rw [ho, hfailed] at hst'
      cases hst'
      simp [hstatus, hends]
  have hordered : ∀ st ∈ s₀.tx.orderedSteps, st ∈ s₀.tx.steps :=
    fun st hst => Transaction.mem_orderedSteps.mp hst
  have hsorted := hw.pairwise_orderedKeys
  rw [Transaction.orderedKeys, List.pairwise_map] at hsorted
  refine ⟨hw, congrArg (· + 1) h.count, hsorted, fun step hstep => ⟨step,
    hw.stepAt (hordered step hstep), passes_iff hw (hordered step hstep)
      (hclean _ _ (hw.stepAt (hordered step hstep)))⟩, fun o st hst ho => ?_, hclean,
    fun x hx => ?_⟩
  · refine absurd (List.mem_map.mpr ⟨st, Transaction.mem_orderedSteps.mpr
      (Transaction.mem_of_stepAt hst), Transaction.executionOrder_of_stepAt hst⟩) ho
  · obtain ⟨hpass, hhalts, hend⟩ := h.executed x hx
    refine ⟨hpass.trans (Nat.le_succ _), fun hx => hnot (hhalts hx), ?_⟩
    refine hend.imp (fun hsystem => ⟨hsystem, Nat.lt_succ_of_le hpass⟩) fun hdone st hst => ?_
    rw [hat] at hst
    obtain ⟨st', hst', rfl⟩ := Option.map_eq_some_iff.mp hst
    have hst'done := hdone st' hst'
    rw [if_neg (by simpa using not_endsInSystem_of_done hst'done)]
    exact hst'done

/-- The first pass, of a transaction that a run is given. -/
lemma within_begin (ctx : RunContext) (hgiven : tx.Given) (hvalid : tx.Valid) :
    Within tx.initialBlocked ((⟨tx, 0⟩ : EngineState).begin ctx).tx.orderedSteps tx.retryCount
      ((⟨tx, 0⟩ : EngineState).begin ctx) [] := by
  set s₀ := (⟨tx, 0⟩ : EngineState).begin ctx with hs₀
  have hw := (EngineState.grows_begin ctx ⟨tx, 0⟩).wired hvalid.wired
  have hsorted := hw.pairwise_orderedKeys
  rw [Transaction.orderedKeys, List.pairwise_map] at hsorted
  have hahead : ∀ step ∈ s₀.tx.orderedSteps, Transaction.IsClean step ∧
      (Passes tx.initialBlocked step s₀ ↔ step.status ≠ .pending) := by
    have hrunning := running_begin (t := []) ctx hgiven.opened hvalid.reopened rfl
    rw [tx.initialBlocked_reopened, Transaction.begin_reopened ctx] at hrunning
    intro step hstep
    obtain ⟨st, hst, -, hclean, hiff⟩ := hrunning.ahead step hstep
    rw [hw.stepAt (Transaction.mem_orderedSteps.mp hstep)] at hst
    cases hst
    exact ⟨hclean, hiff⟩
  refine ⟨hw, (EngineState.appends_begin ctx ⟨tx, 0⟩).2, hsorted, fun step hstep => ⟨step,
    hw.stepAt (Transaction.mem_orderedSteps.mp hstep), (hahead step hstep).2⟩,
    fun o st hst ho => ?_, fun o st hst => ?_, by simp⟩
  · refine absurd (List.mem_map.mpr ⟨st, Transaction.mem_orderedSteps.mpr
      (Transaction.mem_of_stepAt hst), Transaction.executionOrder_of_stepAt hst⟩) ho
  · exact (hahead st (Transaction.mem_orderedSteps.mpr (Transaction.mem_of_stepAt hst))).1

/-- The delay before a retry executes nothing. -/
lemma wp_sleepBeforeRetry_executing {pre : List Execution → Step → Transaction → Prop} {n : ℕ}
    {Q : Unit → EngineState → EngineTrace → Prop} (hQ : Q () s t) :
    (sleepBeforeRetry e ctx n).wp (executing pre) Q (fun _ _ _ => True) s t :=
  wp_sleepBeforeRetry hQ fun _ => trivial

/-- **A retry pass.** -/
lemma wp_retryPass_between (hlow : tx.retryCount ≤ retry) (hagain : retry < e.maxRetries)
    (h : Between retry s (executionsOf t)) (hretryable : s.tx.retryableFailedSteps ≠ []) :
    (retryPass e ctx retry).wp (executing (e.MayExecute tx))
      (fun _ s' t' => Between (retry + 1) s' (executionsOf t')) (fun _ _ _ => True) s t := by
  simp only [retryPass, Proc.wp_bind, Proc.wp_get, Proc.wp_modify]
  refine wp_sleepBeforeRetry_executing ?_
  refine Proc.wp_mono (wp_executePass_between (by omega) (by omega) (h.again ctx hretryable)) ?_
    fun _ _ _ h => h
  rintro _ s₁ t₁ h₁
  exact wp_checkpoint_executing fun t₂ ht₂ => ht₂ ▸ h₁

/-- The retry loop is a retry pass, and the loop again. -/
lemma retryLoop_succ (e : Engine) (ctx : RunContext) (n : ℕ) :
    retryLoop e ctx (n + 1) = (do
      let s ← get
      if s.tx.retryableFailedSteps.isEmpty then pure ()
      else
        retryPass e ctx s.tx.retryCount
        retryLoop e ctx n) := by
  have hlawful := Prog.lawfulMonad EngineOp EngineOp.Res
  simp only [retryLoop, retryPass, bind_assoc]

/-- **The retry loop** ends between two passes, with its passes used up or nothing to retry. -/
lemma wp_retryLoop_between {n : ℕ} (hlow : tx.retryCount ≤ retry)
    (hpasses : retry + n ≤ tx.retryCount + (e.maxRetries - tx.retryCount))
    (h : Between retry s (executionsOf t)) :
    (retryLoop e ctx n).wp (executing (e.MayExecute tx))
      (fun _ s' t' => ∃ retry', Between retry' s' (executionsOf t') ∧
        (retry' = retry + n ∨ s'.tx.retryableFailedSteps = [])) (fun _ _ _ => True) s t := by
  induction n generalizing retry s t with
  | zero => exact ⟨retry, h, Or.inl rfl⟩
  | succ n ih =>
    rw [retryLoop_succ]
    simp only [Proc.wp_bind, Proc.wp_get]
    refine Proc.wp_ite (fun hnone => ⟨retry, h, Or.inr (by simpa using hnone)⟩) fun hsome => ?_
    rw [Proc.wp_bind, h.count]
    refine Proc.wp_mono (wp_retryPass_between hlow (by omega) h (by simpa using hsome)) ?_
      fun _ _ _ h => h
    rintro _ s₁ t₁ h₁
    refine Proc.wp_mono (ih (by omega) (by omega) h₁) ?_ fun _ _ _ h => h
    rintro _ s₂ t₂ ⟨retry', h₂, hend⟩
    exact ⟨retry', h₂, hend.imp_left fun heq => by omega⟩

/-- **The passes of a run** from its beginning. -/
lemma wp_passes_between (ctx : RunContext) (hgiven : tx.Given) (hvalid : tx.Valid)
    (ht : executionsOf t = []) :
    (passes e ctx tx.initialBlocked).wp (executing (e.MayExecute tx)) (fun _ s' t' => ∃ retry,
      Between retry s' (executionsOf t') ∧
        (e.maxRetries ≤ retry ∨ s'.tx.retryableFailedSteps = [])) (fun _ _ _ => True)
      ((⟨tx, 0⟩ : EngineState).begin ctx) t := by
  simp only [passes, Proc.wp_bind, Proc.wp_get]
  refine Proc.wp_mono (wp_executePass_between (le_refl tx.retryCount) (by omega)
    (by rw [ht]; exact within_begin ctx hgiven hvalid)) ?_ fun _ _ _ h => h
  rintro _ s₁ t₁ h₁
  rw [h₁.count]
  refine Proc.wp_mono (wp_retryLoop_between (le_refl _) (le_refl _) h₁) ?_ fun _ _ _ h => h
  rintro _ s₂ t₂ ⟨retry, h₂, hend⟩
  exact ⟨retry, h₂, hend.imp_left fun heq => by omega⟩

/-! ## Whole runs -/

variable {env : EngineTrace → (op : EngineOp) → op.Res}

/-- At a decision the engine is between two passes. -/
lemma Decides.between {n : ℕ} (hgiven : tx.Given) (h : e.Decides ctx tx env n s t) : 0 < n ∧
      tx.retryCount + (n - 1) ≤ tx.retryCount + (e.maxRetries - tx.retryCount) ∧
      Between (tx.retryCount + (n - 1)) s (executionsOf t) := by
  induction h with
  | @first s₀ s t₀ t hvalid opened passed =>
    have hcheckpoint : (checkpoint ctx).wp (executing (e.MayExecute tx))
        (fun _ s t => s = (⟨tx, 0⟩ : EngineState).begin ctx ∧ executionsOf t = [])
        (fun _ _ _ => True) ((⟨tx, 0⟩ : EngineState).begin ctx) [] :=
      wp_checkpoint_executing fun t' ht' => ⟨rfl, ht'⟩
    have hopened := run_executing env hcheckpoint
    rw [opened] at hopened
    obtain ⟨rfl, ht₀⟩ := hopened
    have hpass : (executePass e ctx tx.initialBlocked).wp (executing (e.MayExecute tx)) _ _
        ((⟨tx, 0⟩ : EngineState).begin ctx) t₀ :=
      wp_executePass_between (le_refl tx.retryCount) (by omega)
        (by rw [ht₀]; exact within_begin ctx hgiven hvalid)
    have hpassed := run_executing env hpass
    rw [passed] at hpassed
    exact ⟨one_pos, by omega, hpassed⟩
  | @retry n s s' t t' _ again retryable passed ih =>
    obtain ⟨hpos, hbound, hbetween⟩ := ih
    have hcount := hbetween.count
    rw [hcount] at again passed
    have hlow : tx.retryCount ≤ tx.retryCount + (n - 1) := by omega
    have hpass : (retryPass e ctx (tx.retryCount + (n - 1))).wp (executing (e.MayExecute tx)) _ _
        s t := wp_retryPass_between hlow again hbetween retryable
    have hpassed := run_executing env hpass
    rw [passed] at hpassed
    have hnext : tx.retryCount + (n + 1 - 1) = tx.retryCount + (n - 1) + 1 := by omega
    rw [hnext]
    exact ⟨Nat.succ_pos n, by omega, hpassed⟩

/-- Between two passes at most one step waits for a retry. -/
lemma Between.atMostOne (h : Between retry s ex) :
    ∀ st ∈ s.tx.retryableFailedSteps, ∀ st' ∈ s.tx.retryableFailedSteps, st = st' := by
  have hwaits : ∀ st ∈ s.tx.retryableFailedSteps, ∀ f, StepsLeft s f → st.executionOrder = f := by
    intro st hst f hleft
    obtain ⟨hmem, hends⟩ := List.mem_filter.mp hst
    obtain ⟨hmem, hfailed⟩ := List.mem_filter.mp hmem
    refine not_not.mp fun hne => ?_
    have hclean := (hleft.2 _ st (h.wired.stepAt hmem) hne).1.not_retryable
    simp only [decide_eq_true_eq] at hfailed
    simp [hfailed, hends] at hclean
  intro st hst st' hst'
  rcases h.left with hall | ⟨f, hleft⟩
  · rw [hall.retryable h.wired] at hst
    cases hst
  · have hat := h.wired.stepAt (List.mem_of_mem_filter (List.mem_of_mem_filter hst))
    have hat' := h.wired.stepAt (List.mem_of_mem_filter (List.mem_of_mem_filter hst'))
    rw [hwaits st hst f hleft] at hat
    rw [hwaits st' hst' f hleft, hat] at hat'
    exact Option.some.inj hat'

/-- **What a run leaves** when it returns: a step that is `PENDING`, or has failed with a
`SystemException`, only if the retries are spent; and every pending step behind such a failure. -/
def SpentRetries (e : Engine) (final : Transaction) : Prop :=
  ∀ st ∈ final.steps, (st.status = .pending ∨ st.status = .failed ∧ st.endsInSystem = true) →
    e.maxRetries ≤ final.retryCount ∧ (st.status = .pending → ∃ failed ∈ final.steps,
      failed.executionOrder < st.executionOrder ∧ failed.status = .failed ∧
        failed.endsInSystem = true)

/-- What the passes leave is what the run leaves. -/
lemma Between.spentRetries (h : Between retry s ex)
    (hend : e.maxRetries ≤ retry ∨ s.tx.retryableFailedSteps = []) :
    e.SpentRetries (s.settle ctx).tx := by
  have hsteps : (s.settle ctx).tx.steps = s.tx.steps := EngineState.outcome_steps s.tx
  have hcount : (s.settle ctx).tx.retryCount = retry := by
    rw [← h.count]
    change (EngineState.outcome s.tx).retryCount = s.tx.retryCount
    unfold EngineState.outcome
    split <;> [rfl; split <;> rfl]
  intro st hst hopen
  rw [hsteps] at hst
  have hnot : ¬ AllDone s := by
    intro hall
    have hdone := hall _ st (h.wired.stepAt hst)
    rcases hopen with hpending | hfailed
    · exact hdone.not_pending hpending
    · exact not_endsInSystem_of_done hdone hfailed
  obtain ⟨f, ⟨failed, hfailed, hstatus, hends⟩, hothers⟩ := h.left.resolve_left hnot
  have hmem := Transaction.mem_of_stepAt hfailed
  refine ⟨?_, fun hpending => ⟨failed, hsteps ▸ hmem, ?_, hstatus, hends⟩⟩
  · rw [hcount]
    refine hend.resolve_right fun hnone => ?_
    have hwaits : failed ∈ s.tx.retryableFailedSteps :=
      List.mem_filter.mpr ⟨List.mem_filter.mpr ⟨hmem, by simp [hstatus]⟩, hends⟩
    rw [hnone] at hwaits
    cases hwaits
  · have hne : st.executionOrder ≠ f := by
      intro heq
      have hat := h.wired.stepAt hst
      rw [heq, hfailed] at hat
      cases hat
      rw [hstatus] at hpending
      cases hpending
    rw [Transaction.executionOrder_of_stepAt hfailed]
    exact (hothers _ st (h.wired.stepAt hst) hne).2 hpending

/-- **Retry discipline.** A fresh or resumed transaction is run by any engine, under any behaviour
of its steps and callbacks. The run decides on a retry after at most `1 + (max_retries -
retry_count)` passes, with at most one step failed by a `SystemException`; it calls bodies on these
passes only, none after a halting failure, and a step again on a later pass only, after a
`SystemException`; and if it returns, its retries are spent or nothing is left to be done.

**Proof sketch.** Within a pass every step is runnable or done and the runnable ones are ahead
(`Within`); a pass ends with every step done or stops at a system failure with the runnable steps
behind it (`Between`), which the next pass makes runnable again. -/
theorem retry_discipline (e : Engine) (ctx : RunContext) (tx : Transaction)
    (env : EngineTrace → (op : EngineOp) → op.Res) (hgiven : tx.Given) :
    (∀ n s t, e.Decides ctx tx env n s t → n ≤ 1 + (e.maxRetries - tx.retryCount) ∧
      s.tx.retryCount + 1 = tx.retryCount + n ∧
      ∀ st ∈ s.tx.retryableFailedSteps, ∀ st' ∈ s.tx.retryableFailedSteps, st = st') ∧
    (∀ x ∈ executionsOf ((e.run ctx tx).run env []).2, tx.retryCount ≤ x.retryNumber ∧
      x.retryNumber ≤ tx.retryCount + (e.maxRetries - tx.retryCount)) ∧
    (executionsOf ((e.run ctx tx).run env []).2).Pairwise
      (fun x y => MayFollow x y.order y.retryNumber) ∧
    (((e.run ctx tx).run env []).1.1 = .ok () →
      e.SpentRetries ((e.run ctx tx).run env []).1.2.tx) := by
  have hwp : (body e ctx).wp (executing (e.MayExecute tx))
      (fun _ s _ => e.SpentRetries s.tx) (fun _ _ _ => True) ⟨tx, 0⟩ [] := by
    refine wp_body (fun _ _ => trivial) fun hvalid => wp_checkpoint_executing fun t ht => ?_
    refine Proc.wp_mono (wp_passes_between ctx hgiven hvalid ht) ?_ fun err s₁ t₁ _ => ?_
    · rintro _ s₁ t₁ ⟨retry, hbetween, hend⟩
      exact wp_checkpoint_executing fun _ _ => hbetween.spentRetries hend
    · refine wp_handleInterrupt (fun _ => trivial) fun _ => ?_
      refine Proc.wp_mono (wp_checkpoint_executing (Q := fun _ _ _ => True) fun _ _ => trivial)
        (fun _ _ _ _ => trivial) fun _ _ _ _ => ?_
      split <;> trivial
  have hpre : ∀ a x b, executionsOf ((e.run ctx tx).run env []).2 = a ++ x :: b →
      e.MayExecute tx a x.step x.tx := fun a x b hx => executions_pre env hwp hx
  refine ⟨fun n s t hdecides => ?_, fun x hx => ?_,
    pairwise_of_splits fun a x b hx => (hpre a x b hx).2.2, fun hreturns => ?_⟩
  · obtain ⟨hpos, hbound, hbetween⟩ := hdecides.between hgiven
    have hcount := hbetween.count
    exact ⟨by omega, by omega, hbetween.atMostOne⟩
  · obtain ⟨a, b, hsplit⟩ := List.append_of_mem hx
    obtain ⟨hlow, hhigh, -⟩ := hpre a x b hsplit
    exact ⟨hlow, hhigh⟩
  · have hpost := run_executing env hwp
    change Proc.post _ _ ((e.run ctx tx).run env []).1 _ at hpost
    have hok : ((e.run ctx tx).run env []).1 = (.ok (), ((e.run ctx tx).run env []).1.2) :=
      Prod.ext hreturns rfl
    rw [hok] at hpost
    exact hpost

/-- A run in which step `b` times out once: it executes both steps on the first pass, and `b` again
on the second one. -/
theorem retry_discipline_retried :
    (executionsOf (((create 1).run stillContext twoSteps).run retriedEnv []).2).Pairwise
        (fun x y => MayFollow x y.order y.retryNumber) ∧
      (create 1).SpentRetries (((create 1).run stillContext twoSteps).run retriedEnv []).1.2.tx ∧
      (executionsOf (((create 1).run stillContext twoSteps).run retriedEnv []).2).map
        (fun x => (x.order, x.retryNumber)) = [(1, 0), (2, 0), (2, 1)] := by
  have hgiven : twoSteps.Given := Or.inl (.fresh (by decide) rfl)
  obtain ⟨-, -, hfollow, hleft⟩ :=
    retry_discipline (create 1) stillContext twoSteps retriedEnv hgiven
  refine ⟨hfollow, hleft ?_, by decide +kernel⟩
  have hok : (((create 1).run stillContext twoSteps).run retriedEnv []).1.1.isOk = true := by
    decide +kernel
  cases hrun : (((create 1).run stillContext twoSteps).run retriedEnv []).1.1 with
  | error err =>
    rw [hrun] at hok
    cases hok
  | ok => rfl

end Engine
