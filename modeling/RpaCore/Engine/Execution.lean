import RpaCore.Engine.Work

set_option relaxedAutoImplicit false
set_option autoImplicit false

/-!
# The executions of a run

The calls of step bodies are what a run does to the outside. This file gives the executions of a
trace, and what one attempt does to the steps of any transaction, fresh or run before: the rules
by which the results about whole runs go from one execution to the next.

## Main definitions

* `Execution`, `executionsOf` — the calls of step bodies.
* `Engine.executing` — the monitor of the circumstances in which bodies are called.
* `Engine.Tried` — what an attempt leaves of the steps.

## Main results

* `EngineState.stepAt_skipDownstream_ordered` — the skips after a halting failure.
* `Engine.wp_attempt_tried` — one attempt.
-/

/-- A call of a step body: the step and the transaction it was given, and how it ended. -/
structure Execution where
  step : Step
  tx : Transaction
  ending : Option Ending

namespace Execution

/-- The execution order of the step. -/
def order (x : Execution) : ℤ := x.step.executionOrder

/-- The retry number of the pass. -/
def retryNumber (x : Execution) : ℕ := x.tx.retryCount

/-- The body raised a `BusinessException` that halts the remaining steps. -/
def Halts (x : Execution) : Prop := x.ending = some (.businessFailed true)

instance (x : Execution) : Decidable x.Halts := inferInstanceAs (Decidable (_ = _))

end Execution

/-- The executions of a trace, in order. -/
def executionsOf (t : EngineTrace) : List Execution :=
  t.filterMap fun ev =>
    match ev with
    | ⟨.execute st tx, r⟩ => some ⟨st, tx, r.ending⟩
    | _ => none

/-- A relation that holds between each element and those before it. -/
lemma pairwise_of_splits {α : Type} {R : α → α → Prop} {l : List α}
    (h : ∀ a x b, l = a ++ x :: b → ∀ y ∈ a, R y x) : l.Pairwise R := by
  induction l using List.reverseRecOn with
  | nil => exact List.Pairwise.nil
  | append_singleton l x ih =>
    refine List.pairwise_append.mpr ⟨ih fun a y b hl => h a y (b ++ [x]) (by simp [hl]),
      List.pairwise_singleton _ _, fun y hy z hz => ?_⟩
    obtain rfl : z = x := by simpa using hz
    exact h l z [] rfl y hy

/-- The elements of a list with one more: the last one, and those before it. -/
lemma List.eq_append_cons_of_snoc {α : Type} {l a b : List α} {x y : α}
    (h : l ++ [x] = a ++ y :: b) :
    (a = l ∧ y = x ∧ b = []) ∨ ∃ b', b = b' ++ [x] ∧ l = a ++ y :: b' := by
  rcases List.eq_nil_or_concat b with rfl | ⟨b', z, rfl⟩
  · obtain ⟨hinit, hlast⟩ := List.append_inj' h rfl
    exact Or.inl ⟨hinit.symm, (List.cons.inj hlast).1.symm, rfl⟩
  · rw [List.concat_eq_append, ← List.cons_append, ← List.append_assoc] at h
    obtain ⟨hinit, hlast⟩ := List.append_inj' h rfl
    exact Or.inr ⟨b', by rw [List.concat_eq_append, (List.cons.inj hlast).1], hinit⟩

/-- One more call of a body. -/
lemma executionsOf_execute (t : EngineTrace) (st : Step) (tx : Transaction) (r : StepResult) :
    executionsOf (t ++ [⟨.execute st tx, r⟩]) = executionsOf t ++ [⟨st, tx, r.ending⟩] := by
  simp [executionsOf]

/-- One more checkpoint. -/
@[simp] lemma executionsOf_checkpoint (t : EngineTrace) (tx : Transaction)
    (answer : Option PyError) :
    executionsOf (t ++ [⟨.checkpoint tx, answer⟩]) = executionsOf t := by
  simp [executionsOf]

/-- One more screenshot. -/
@[simp] lemma executionsOf_capture (t : EngineTrace) (directory : String)
    (answer : Except PyError String) :
    executionsOf (t ++ [⟨.captureScreenshot directory, answer⟩]) = executionsOf t := by
  simp [executionsOf]

namespace EngineState

variable {ctx : RunContext} {step : Step} {s : EngineState}

/-- Skips leave the retry count as it is. -/
lemma retryCount_skipDownstream (ctx : RunContext) (step : Step) (s : EngineState) (after : Bool)
    (steps : List Step) :
    (s.skipDownstream ctx step after steps).tx.retryCount = s.tx.retryCount := by
  induction steps generalizing after s with
  | nil => rfl
  | cons a rest ih =>
    unfold skipDownstream
    split_ifs
    · exact ih _ _
    · exact ih _ _
    · exact ih _ _

/-- **The skips after a halting failure**: the pending steps behind the failed one are `SKIPPED`. -/
theorem stepAt_skipDownstream_ordered (hw : s.tx.Wired) {own : Step}
    (hown : s.tx.stepAt step.executionOrder = some own) (o : ℤ) :
    (s.skipDownstream ctx step false s.tx.orderedSteps).tx.stepAt o =
      (s.tx.stepAt o).map fun st =>
        if step.executionOrder < o ∧ st.status = .pending then { st with status := .skipped }
        else st := by
  have hself : own.executionOrder = step.executionOrder :=
    Transaction.executionOrder_of_stepAt hown
  have hmem : own ∈ s.tx.orderedSteps :=
    Transaction.mem_orderedSteps.mpr (Transaction.mem_of_stepAt hown)
  obtain ⟨before, after, hsteps⟩ := List.append_of_mem hmem
  have hsorted : s.tx.orderedSteps.Pairwise fun a b => a.executionOrder < b.executionOrder := by
    have := hw.pairwise_orderedKeys
    rwa [Transaction.orderedKeys, List.pairwise_map] at this
  rw [hsteps] at hsorted
  obtain ⟨-, htail, hbefore⟩ := List.pairwise_append.mp hsorted
  obtain ⟨hafter, hrest⟩ := List.pairwise_cons.mp htail
  rw [hsteps, skipDownstream_before (fun st hst => hself ▸
    (ne_of_lt (hbefore st hst own List.mem_cons_self))) hself]
  have hbehind : ∀ st ∈ after, st.executionOrder ≠ step.executionOrder :=
    fun st hst => hself ▸ (ne_of_gt (hafter st hst))
  obtain ⟨-, hat, -⟩ := skipDownstream_after ctx s hbehind
    (List.pairwise_map.mpr (hrest.imp fun h => ne_of_lt h))
  rw [hat]
  refine Option.map_congr fun st hst => ?_
  have horder : st.executionOrder = o := Transaction.executionOrder_of_stepAt hst
  have hbehind : o ∈ after.map Step.executionOrder ↔ step.executionOrder < o := by
    constructor
    · intro h
      obtain ⟨st', hst', rfl⟩ := List.mem_map.mp h
      exact hself ▸ hafter st' hst'
    · intro hlt
      have hin : st ∈ before ++ own :: after :=
        hsteps ▸ Transaction.mem_orderedSteps.mpr (Transaction.mem_of_stepAt hst)
      rcases List.mem_append.mp hin with h | h
      · have := hbefore st h own List.mem_cons_self
        omega
      · rcases List.mem_cons.mp h with rfl | h
        · omega
        · exact horder ▸ List.mem_map_of_mem h
  simp only [hbehind]

end EngineState

namespace Engine

variable {e : Engine} {ctx : RunContext} {s : EngineState} {t : EngineTrace}
  {pre : List Execution → Step → Transaction → Prop} {step st : Step}

/-- The monitor of runs in which bodies are called in the given circumstances only. -/
def executing (pre : List Execution → Step → Transaction → Prop) :
    Monitor EngineOp EngineOp.Res EngineTrace :=
  traceMonitor
    (fun t op =>
      match op with
      | .execute st tx => pre (executionsOf t) st tx
      | _ => True)
    fun _ _ _ => True

/-- A checkpoint executes nothing. -/
lemma wp_checkpoint_executing {Q : Unit → EngineState → EngineTrace → Prop}
    (h : ∀ t', executionsOf t' = executionsOf t → Q () s t') :
    (checkpoint ctx).wp (executing pre) Q (fun _ _ _ => True) s t := by
  cases hc : ctx.hasCheckpoint with
  | false => exact (wp_checkpoint_off hc).mpr (h t rfl)
  | true =>
    rw [wp_checkpoint hc]
    split
    · trivial
    · refine ⟨trivial, fun answer _ => ?_⟩
      cases answer with
      | none => exact h _ (executionsOf_checkpoint t s.tx none)
      | some err => trivial

/-- **What an attempt leaves of the steps**: its own is in the status of its ending, and the others
are as they were; after a halting failure the pending ones behind it are `SKIPPED`. -/
structure Tried (step : Step) (ending : Ending) (s s' : EngineState) : Prop where
  grows : s.tx.Grows s'.tx
  retryCount : s'.tx.retryCount = s.tx.retryCount
  own : ∃ st, s'.tx.stepAt step.executionOrder = some st ∧ st.status = ending.status ∧
    (ending.status = .failed → st.endsInBusiness = decide (ending ≠ .systemFailed) ∧
      st.endsInSystem = decide (ending = .systemFailed))
  others : ∀ o, o ≠ step.executionOrder → s'.tx.stepAt o = (s.tx.stepAt o).map fun st =>
    if ending = .businessFailed true ∧ step.executionOrder < o ∧ st.status = .pending then
      { st with status := .skipped }
    else st

/-- The recording of a failure executes nothing; its step is `FAILED` and ends with the exception,
and the other steps are as they were. -/
lemma wp_recordFailure_executing {exc : StepException}
    (hst : s.tx.stepAt step.executionOrder = some st) :
    (recordFailure e ctx step exc).wp (executing pre) (fun _ s' t' => s.tx.Grows s'.tx ∧
      s'.tx.retryCount = s.tx.retryCount ∧
      (∀ o, o ≠ step.executionOrder → s'.tx.stepAt o = s.tx.stepAt o) ∧
      (∃ st', s'.tx.stepAt step.executionOrder = some st' ∧ st'.status = .failed ∧
        st'.endsInBusiness = exc.isBusiness ∧ st'.endsInSystem = exc.isSystem) ∧
      executionsOf t' = executionsOf t) (fun _ _ _ => True) s t := by
  have hgrows := EngineState.grows_failStep ctx step s exc
  refine wp_recordFailure (wp_checkpoint_executing fun t' ht => ⟨hgrows, rfl, ?_, ?_, ht⟩)
    ⟨trivial, fun answer _ => ?_⟩
  · intro o ho
    simp [ho]
  · exact ⟨{ st with status := .failed, exceptions := st.exceptions ++ [exc] }, by simp [hst], rfl,
      by simp [Step.endsInBusiness], by simp [Step.endsInSystem]⟩
  · cases answer with
    | error err => trivial
    | ok path =>
      refine wp_checkpoint_executing fun t' ht => ⟨hgrows.trans
        (EngineState.grows_attachScreenshot ctx step _ path), ?_, ?_, ?_, ht.trans
          (executionsOf_capture t _ (.ok path))⟩
      · unfold EngineState.attachScreenshot
        split <;> rfl
      · intro o ho
        simp [ho]
      · have hsame : (EngineState.setScreenshot path exc).isBusiness = exc.isBusiness := by
          rw [← StepException.bare_isBusiness, StepException.bare_setScreenshot,
            StepException.bare_isBusiness]
        exact ⟨{ st with
            status := .failed
            exceptions := st.exceptions ++ [EngineState.setScreenshot path exc] },
          by simp [hst], rfl, by simp [Step.endsInBusiness, hsame],
          by simp [Step.endsInSystem, StepException.isSystem, hsame]⟩

/-- What follows the call of a body: what it raised decides how the pass goes on.

**Proof sketch.** A body that returns leaves its step complete; a failure that is recorded leaves it
`FAILED` with its exception, and a halting one skips the pending steps behind it; every other end
raises. -/
lemma wp_settleStep_tried {r : StepResult} {a : EngineState} (hw : s.tx.Wired)
    (hgrows : s.tx.Grows a.tx) (hcount : a.tx.retryCount = s.tx.retryCount)
    (hothers : ∀ o, o ≠ step.executionOrder → a.tx.stepAt o = s.tx.stepAt o)
    (hat : a.tx.stepAt step.executionOrder = some st) (hstatus : st.status = r.status)
    {before : List Execution} {given : Step} {tx : Transaction}
    (hexec : executionsOf t = before ++ [⟨given, tx, r.ending⟩]) :
    (settleStep e ctx step r).wp (executing pre) (fun flow s' t' => ∃ ending : Ending,
      executionsOf t' = before ++ [⟨given, tx, some ending⟩] ∧
      flow = (if ending.stops then .stop else .next) ∧ Tried step ending s s')
      (fun _ _ _ => True) a t := by
  refine wp_settleStep (fun hreturned => wp_checkpoint_executing fun t₂ ht₂ => ?_)
    (fun exc s' hfails htx => ?_) (fun message _ => ?_) fun _ _ _ => trivial
  · -- the body returned
    rw [hexec, StepResult.ending, hreturned] at ht₂
    refine ⟨_, ht₂, ?_, hgrows.trans (EngineState.grows_finishStep ctx step a r), ?_, ?_,
      fun o ho => ?_⟩
    · split <;> rfl
    · rw [← hcount]
      unfold EngineState.finishStep
      split <;> rfl
    · rw [EngineState.stepAt_finishStep, hat, Option.map_some]
      refine ⟨_, rfl, ?_, fun hfailed => ?_⟩
      · by_cases hskipped : r.status = .skipped <;> simp [hskipped, hstatus, Ending.status]
      · split at hfailed <;> cases hfailed
    · rw [EngineState.stepAt_finishStep, hothers o ho]
      refine Option.map_congr fun st' _ => ?_
      rw [if_neg fun h => ho h.1, if_neg]
      rintro ⟨h, -⟩
      split at h <;> cases h
  · -- a failure was recorded
    rw [← htx] at hat
    rw [hfails.ending] at hexec
    refine Proc.wp_mono (wp_recordFailure_executing hat) ?_ fun _ _ _ h => h
    rintro _ s₁ t₂ ⟨hgrows₁, hcount₁, hothers₁, ⟨st₁, hat₁, hfailed, hbusiness, hsystem⟩, ht₂⟩
    rw [htx] at hgrows₁ hcount₁ hothers₁
    have hothers₂ : ∀ o, o ≠ step.executionOrder → s₁.tx.stepAt o = s.tx.stepAt o :=
      fun o ho => (hothers₁ o ho).trans (hothers o ho)
    split_ifs with hb hhalts
    · rw [if_pos hb, hhalts] at hexec
      simp only [skipDownstreamPendingSteps, Proc.wp_bind, Proc.wp_modify]
      have hskips := @EngineState.stepAt_skipDownstream_ordered ctx _ _
        ((hgrows.trans hgrows₁).wired hw) _ hat₁
      refine wp_checkpoint_executing fun t₃ ht₃ => ⟨.businessFailed true,
        (ht₃.trans ht₂).trans hexec, rfl,
        (hgrows.trans hgrows₁).trans (EngineState.grows_skipDownstream ctx step s₁ _ _),
        (EngineState.retryCount_skipDownstream ctx step s₁ _ _).trans (hcount₁.trans hcount), ?_,
        fun o ho => ?_⟩
      · refine ⟨st₁, ?_, hfailed, fun _ => ?_⟩
        · rw [hskips, hat₁, Option.map_some, if_neg (by simp)]
        · rw [hbusiness, hsystem, StepException.isSystem, hb]
          exact ⟨rfl, rfl⟩
      · rw [hskips, hothers₂ o ho]
        simp
    · rw [if_pos hb, eq_false_of_ne_true hhalts] at hexec
      refine ⟨.businessFailed false, ht₂.trans hexec, rfl, hgrows.trans hgrows₁,
        hcount₁.trans hcount, ⟨st₁, hat₁, hfailed, fun _ => ?_⟩, fun o ho => ?_⟩
      · rw [hbusiness, hsystem, StepException.isSystem, hb]
        exact ⟨rfl, rfl⟩
      · rw [hothers₂ o ho]
        simp
    · rw [if_neg hb] at hexec
      refine ⟨.systemFailed, ht₂.trans hexec, rfl, hgrows.trans hgrows₁, hcount₁.trans hcount,
        ⟨st₁, hat₁, hfailed, fun _ => ?_⟩, fun o ho => ?_⟩
      · rw [hbusiness, hsystem, StepException.isSystem, eq_false_of_ne_true hb]
        exact ⟨rfl, rfl⟩
      · rw [hothers₂ o ho]
        simp
  · exact wp_checkpoint_executing fun _ _ => trivial

/-- **One attempt**: the body is called once, in the circumstances of the pass, and what it raises
decides how the pass goes on. -/
theorem wp_attempt_tried (hw : s.tx.Wired) (hst : s.tx.stepAt step.executionOrder = some st)
    (hpre : pre (executionsOf t) { st with status := .inProgress } (s.startStep ctx step).tx) :
    (attempt e ctx step).wp (executing pre) (fun flow s' t' => ∃ ending : Ending,
      executionsOf t' = executionsOf t ++
        [⟨{ st with status := .inProgress }, (s.startStep ctx step).tx, some ending⟩] ∧
      flow = (if ending.stops then .stop else .next) ∧ Tried step ending s s')
      (fun _ _ _ => True) s t := by
  have hcall : ((s.startStep ctx step).tx.stepAt step.executionOrder).getD step =
      { st with status := .inProgress } := by
    rw [EngineState.stepAt_startStep, hst, Option.map_some, if_pos rfl, Option.getD_some]
  rw [wp_attempt]
  refine wp_checkpoint_executing fun t₁ ht₁ => ⟨?_, fun r _ => ?_⟩
  · rw [← ht₁, ← hcall] at hpre
    exact hpre
  · have hat : ((s.startStep ctx step).absorb step r).tx.stepAt step.executionOrder =
        some { st with status := r.status, arguments := r.arguments } := by
      simp [hst]
    refine wp_settleStep_tried hw
      ((EngineState.grows_startStep ctx step s).trans (EngineState.grows_absorb step _ r)) rfl
      (fun o ho => by simp [ho]) hat rfl ?_
    change executionsOf (t₁ ++
      [⟨.execute (((s.startStep ctx step).tx.stepAt step.executionOrder).getD step)
        (s.startStep ctx step).tx, r⟩]) = _
    rw [executionsOf_execute, hcall, ht₁]

/-- What holds of a procedure started within a run holds of its run. -/
lemma run_executing {α : Type} {p : EngineM α} {Q : α → EngineState → EngineTrace → Prop}
    {R : PyError → EngineState → EngineTrace → Prop}
    (env : EngineTrace → (op : EngineOp) → op.Res) (h : p.wp (executing pre) Q R s t) :
    Proc.post Q R ((p.start s).run env t).1 ((p.start s).run env t).2 := by
  have hreplay := @replay_traceMonitor EngineOp EngineOp.Res
    (fun t op =>
      match op with
      | .execute st tx => pre (executionsOf t) st tx
      | _ => True) (fun _ _ _ => True) []
  obtain ⟨t', ht', -, hpost⟩ := Prog.wp_run (M := executing pre) (g := []) (t := t) env
    (p := p.start s) (Q := Proc.post Q R) (by rw [executing, hreplay, List.nil_append]; exact h)
    fun _ _ => trivial
  rw [executing, hreplay, List.nil_append] at hpost
  rwa [ht']

/-- In a run every body is called in the given circumstances. -/
lemma executions_pre {p : Prog EngineOp EngineOp.Res (Except PyError Unit × EngineState)}
    {Q : Except PyError Unit × EngineState → EngineTrace → Prop}
    (env : EngineTrace → (op : EngineOp) → op.Res) (h : p.wp (executing pre) Q [])
    {a b : List Execution} {x : Execution} (hx : executionsOf (p.run env []).2 = a ++ x :: b) :
    pre a x.step x.tx := by
  obtain ⟨t₁, t', ht, rfl, htail⟩ := List.filterMap_eq_append_iff.mp hx
  obtain ⟨t₂, ev, t₃, rfl, hnone, hev, -⟩ := List.filterMap_eq_cons_iff.mp htail
  have hcalls := (Prog.wp_run_trace env h fun _ _ => trivial).1 (t₁ ++ t₂) ev t₃
    (by rw [ht, List.append_assoc])
  have hbefore : executionsOf (t₁ ++ t₂) = executionsOf t₁ := by
    rw [executionsOf, List.filterMap_append, List.filterMap_eq_nil_iff.mpr hnone, List.append_nil]
    rfl
  obtain ⟨op | ⟨st, tx⟩ | directory, r⟩ := ev
  · cases hev
  · cases hev
    change pre (executionsOf t₁) st tx
    rw [← hbefore]
    exact hcalls
  · cases hev

end Engine
