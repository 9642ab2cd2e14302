import RpaCore.Engine.Execution
import RpaCore.Engine.Transient

set_option relaxedAutoImplicit false
set_option autoImplicit false

/-!
# Runs that end

Where no checkpoint fails and every step body returns or raises an ordinary exception, only one
thing can keep `Engine.run` from its end: the delay before a retry. This file shows for which
engines it does, on any platform, and on one that sleeps for every finite delay and raises for a
power exactly when the exact one is beyond the largest double.

## Main definitions

* `Engine.Obliging` — the calls of a run are answered so that it goes on.
* `Engine.Finalised`, `Engine.Finalises` — a run that reaches its end, and an engine whose runs do.
* `Host.Ideal`, `Engine.Computes` — an ideal platform, and a delay that is finite on it.

## Main results

* `Engine.finalises_iff_slept` — the engines that finalise their runs on a platform.
* `Engine.finalises_iff` — the engines that finalise their runs on an ideal platform.
* `Engine.finalises_fails` — an engine that leaves a run in progress.
-/

/-! ## Runs that end -/

/-- **An ideal platform**: a float power raises exactly when the exact one is beyond the largest
double, and sleeping accepts every finite delay. -/
structure Host.Ideal (host : Host) : Prop where
  pow : ∀ b n, (∃ message, host.pow b n = .error message) ↔ Double.largest < b.toRat ^ n
  sleep : ∀ seconds, host.sleep seconds = .ok ()

namespace Engine

/-- Every call is answered so that the run goes on: no checkpoint and no capture fails, and a step
body returns or raises an ordinary exception. -/
def Obliging (checkpoints : Bool) (t : EngineTrace) : Prop :=
  ∀ ev ∈ t, ev.op.Calm checkpoints ev.res ∧ ev.op.Ordinary ev.res

/-- **A run that has reached its end**: it returns, and the transaction is completed. -/
structure Finalised (result : Except PyError Unit × EngineState) : Prop where
  returns : result.1 = .ok ()
  completed : result.2.tx.Completed

/-- **An engine that finalises its runs** on a platform, of every transaction that it admits. -/
def Finalises (e : Engine) (host : Host) : Prop :=
  ∀ (ctx : RunContext) (tx : Transaction) (env : EngineTrace → (op : EngineOp) → op.Res),
    ctx.host = host → tx.Admitted → Obliging ctx.hasCheckpoint ((e.run ctx tx).run env []).2 →
    Finalised ((e.run ctx tx).run env []).1

variable {e : Engine} {ctx : RunContext} {host : Host} {s s' : EngineState}

/-! ## Runs that go on -/

/-- The monitor of runs that go on. -/
def obliging (checkpoints : Bool) : Monitor EngineOp EngineOp.Res Unit where
  pre _ _ := True
  admits _ op r := op.Calm checkpoints r ∧ op.Ordinary r
  next _ _ _ := ()

/-- Where there are checkpoints, the state is one that they accept. -/
def Durable (ctx : RunContext) (s : EngineState) : Prop :=
  ctx.hasCheckpoint = true → s.tx.state.IsJsonObject

/-- What the parts of a pass keep. -/
structure Steady (ctx : RunContext) (s s' : EngineState) : Prop where
  durable : Durable ctx s'
  retryCount : s'.tx.retryCount = s.tx.retryCount

/-- A checkpoint changes nothing. -/
lemma wp_checkpoint_obliging {Q : Unit → EngineState → Unit → Prop}
    {R : PyError → EngineState → Unit → Prop} (hs : Durable ctx s) (hQ : Q () s ()) :
    (checkpoint ctx).wp (obliging ctx.hasCheckpoint) Q R s () := by
  cases hc : ctx.hasCheckpoint with
  | false => exact (wp_checkpoint_off hc).mpr hQ
  | true =>
    rw [wp_checkpoint hc, (PyVal.objectError_eq_none_iff _ _).mpr (hs hc)]
    refine ⟨trivial, fun answer hanswer => ?_⟩
    obtain rfl : answer = none := hanswer.1
    exact hQ

/-- The recording of a failure. -/
lemma wp_recordFailure_obliging {R : PyError → EngineState → Unit → Prop} {step : Step}
    {exc : StepException} (hs : Durable ctx s) :
    (recordFailure e ctx step exc).wp (obliging ctx.hasCheckpoint) (fun _ s' _ => Steady ctx s s')
      R s () := by
  have hfail : Durable ctx (s.failStep ctx step exc) := fun hc => by
    rw [EngineState.state_failStep]
    exact hs hc
  refine wp_recordFailure (wp_checkpoint_obliging hfail ⟨hfail, rfl⟩) ⟨trivial, fun answer ha => ?_⟩
  obtain ⟨path, rfl⟩ := ha.1
  have hshot : Durable ctx
      ((s.failStep ctx step exc).attachScreenshot ctx step path) := fun hc => by
    rw [EngineState.state_attachScreenshot]
    exact hfail hc
  refine wp_checkpoint_obliging hshot ⟨hshot, ?_⟩
  unfold EngineState.attachScreenshot
  split <;> rfl

/-- The end of an attempt. -/
lemma wp_settleStep_obliging {R : PyError → EngineState → Unit → Prop} {step : Step}
    {r : StepResult} (hr : r.ending.isSome = true) (hs : Durable ctx s) :
    (settleStep e ctx step r).wp (obliging ctx.hasCheckpoint) (fun _ s' _ => Steady ctx s s')
      R s () := by
  refine wp_settleStep (fun _ => ?_) (fun exc s₀ _ htx => ?_) (fun message hraised => ?_)
    fun err hraised hexception => ?_
  · have hfinish : Durable ctx (s.finishStep ctx step r) := fun hc => by
      rw [EngineState.state_finishStep]
      exact hs hc
    refine wp_checkpoint_obliging hfinish ⟨hfinish, ?_⟩
    unfold EngineState.finishStep
    split <;> rfl
  · have hs₀ : Durable ctx s₀ := fun hc => htx ▸ hs hc
    refine Proc.wp_mono (wp_recordFailure_obliging hs₀) (fun _ s₁ _ h₁ => ?_) fun _ _ _ h => h
    have hsteady : Steady ctx s s₁ := ⟨h₁.durable, by rw [h₁.retryCount, htx]⟩
    split_ifs
    · simp only [skipDownstreamPendingSteps, Proc.wp_bind, Proc.wp_modify]
      have hskip : Durable ctx (s₁.skipDownstream ctx step false s₁.tx.orderedSteps) := fun hc => by
        rw [EngineState.state_skipDownstream]
        exact h₁.durable hc
      refine wp_checkpoint_obliging hskip ⟨hskip, ?_⟩
      rw [EngineState.retryCount_skipDownstream]
      exact hsteady.retryCount
    · exact hsteady
    · exact hsteady
  · rw [StepResult.ending, hraised] at hr
    simp [PyError.IsOrdinary, PyError.isMemoryError] at hr
  · rw [StepResult.ending_of_escape hraised hexception] at hr
    cases hr

/-- An attempt. -/
lemma wp_attempt_obliging {R : PyError → EngineState → Unit → Prop} {step : Step}
    (hs : Durable ctx s) : (attempt e ctx step).wp (obliging ctx.hasCheckpoint)
      (fun _ s' _ => Steady ctx s s') R s () := by
  rw [wp_attempt]
  refine wp_checkpoint_obliging (fun hc => hs hc) ⟨trivial, fun r hr => ?_⟩
  refine Proc.wp_mono (wp_settleStep_obliging hr.2 fun hc => hr.1 hc) (fun _ s' _ h => ?_)
    fun _ _ _ h => h
  exact ⟨h.durable, h.retryCount⟩

/-- A pass. -/
lemma wp_executePass_obliging {R : PyError → EngineState → Unit → Prop}
    {blocked : Option (List ℤ)} (hs : Durable ctx s) :
    (executePass e ctx blocked).wp (obliging ctx.hasCheckpoint) (fun _ s' _ => Steady ctx s s')
      R s () := by
  rw [wp_executePass]
  refine wp_passLoop (I := fun _ s' _ => Steady ctx s s') (fun _ _ h => h) (fun _ _ _ _ h _ => h)
    (fun step rest s₁ _ h₁ _ => ?_) ⟨hs, rfl⟩
  refine Proc.wp_mono (wp_attempt_obliging h₁.durable) (fun flow s₂ _ h₂ => ?_) fun _ _ _ h => h
  have hsteady : Steady ctx s s₂ := ⟨h₂.durable, h₂.retryCount.trans h₁.retryCount⟩
  cases flow <;> exact hsteady

/-- The retry loop, whose delays do not overflow. -/
lemma wp_retryLoop_obliging {R : PyError → EngineState → Unit → Prop} {n : ℕ}
    (hdelay : ∀ k, s.tx.retryCount ≤ k → k < s.tx.retryCount + n →
      ¬ e.DelayOverflows ctx.host k)
    (hs : Durable ctx s) :
    (retryLoop e ctx n).wp (obliging ctx.hasCheckpoint) (fun _ s' _ => Durable ctx s') R s () := by
  induction n generalizing s with
  | zero => exact hs
  | succ n ih =>
    simp only [retryLoop, Proc.wp_bind, Proc.wp_get]
    refine Proc.wp_ite (fun _ => hs) fun _ => ?_
    simp only [Proc.wp_bind, Proc.wp_modify, Proc.wp_get]
    refine wp_sleepBeforeRetry_iff (fun _ => ?_) fun hover =>
      absurd hover (hdelay _ le_rfl (by omega))
    have hscheduled : Durable ctx (s.resetRetryable.scheduleRetry ctx) := fun hc => hs hc
    refine Proc.wp_mono (wp_executePass_obliging hscheduled) (fun _ s₁ _ h₁ => ?_) fun _ _ _ h => h
    have hcount : s₁.tx.retryCount = s.tx.retryCount + 1 := h₁.retryCount
    exact wp_checkpoint_obliging h₁.durable
      (ih (fun k hlow hhigh => hdelay k (by omega) (by omega)) h₁.durable)

/-- **A whole run**, of an engine whose delays do not overflow. -/
theorem wp_body_obliging {tx : Transaction}
    (hdelay : ∀ k < e.maxRetries, ¬ e.DelayOverflows ctx.host k) (hadmitted : tx.Admitted) :
    (body e ctx).wp (obliging ctx.hasCheckpoint) (fun _ s' _ => s'.tx.Completed)
      (fun _ _ _ => False) ⟨tx, 0⟩ () := by
  refine wp_body (fun err herr => absurd herr hadmitted.not_refused) fun hvalid => ?_
  have hbegin : Durable ctx ((⟨tx, 0⟩ : EngineState).begin ctx) := fun _ => by
    rw [EngineState.state_begin]
    exact hvalid.state
  refine wp_checkpoint_obliging hbegin ?_
  simp only [passes, Proc.wp_bind, Proc.wp_get]
  refine Proc.wp_mono (wp_executePass_obliging hbegin) (fun _ s₁ _ h₁ => ?_) fun _ _ _ h => h
  refine Proc.wp_mono (wp_retryLoop_obliging (fun k _ hk => hdelay k (by omega)) h₁.durable)
    (fun _ s₂ _ h₂ => ?_) fun _ _ _ h => h
  have hsettle : Durable ctx (s₂.settle ctx) := fun hc => by
    rw [EngineState.state_settle]
    exact h₂ hc
  exact wp_checkpoint_obliging hsettle (EngineState.completed_settle ctx s₂)

/-! ## Runs that time out -/

/-- Every step body times out. -/
def timingOutEnv (_ : EngineTrace) : (op : EngineOp) → op.Res
  | .checkpoint _ => none
  | .execute _ _ => endsWith (some (.system timeout))
  | .captureScreenshot _ => .ok "screenshot.png"

/-- A program that is given these answers goes on. -/
lemma obliging_timingOutEnv {α : Type} (p : Prog EngineOp EngineOp.Res α) (checkpoints : Bool) :
    Obliging checkpoints (p.run timingOutEnv []).2 := by
  intro ev hev
  obtain ⟨t₁, t₂, ht⟩ := List.append_of_mem hev
  rw [Prog.run_res _ _ ht]
  obtain ⟨_ | ⟨st, tx⟩ | _, r⟩ := ev
  · exact ⟨rfl, by simp [EngineOp.Ordinary, timingOutEnv]⟩
  · exact ⟨fun _ => (PyVal.objectError_eq_none_iff "" _).mp rfl, rfl⟩
  · exact ⟨⟨_, rfl⟩, by simp [EngineOp.Ordinary, timingOutEnv]⟩

/-- Passes in which every attempt fails technically leave work. -/
lemma left_ne_nil_of_systemFailed {work left : List StepKey} {passes : List Pass}
    (h : Schedule work passes left) (hpasses : passes ≠ []) (hwork : work ≠ [])
    (hfailed : ∀ a ∈ passes.flatMap Pass.attempts, a.ending = .systemFailed) : left ≠ [] := by
  cases h with
  | start => exact absurd rfl hpasses
  | @pass passes before _ p earlier retried covers =>
    have hlast : ∀ a ∈ p.attempts, a.ending = .systemFailed := fun a ha =>
      hfailed a (List.mem_flatMap.mpr ⟨p, by simp, ha⟩)
    cases covers with
    | all attempts goesOn =>
      -- a pass without attempts would have had no work
      obtain rfl : attempts = [] := by
        refine List.eq_nil_iff_forall_not_mem.mpr fun a ha => ?_
        have hgo := goesOn a ha
        rw [hlast a ha] at hgo
        cases hgo
      have hfirst : passes = [] := not_not.mp fun hne => retried hne rfl
      exact absurd (earlier.left_of_nil hfirst).symm hwork
    | halted attempts key skips goesOn =>
      have hhalted := hlast ⟨key, .businessFailed true⟩ (by simp)
      cases hhalted
    | failed attempts key rest goesOn => exact List.cons_ne_nil _ _

/-- Every attempt of such a run fails technically. -/
lemma attemptsOf_timingOutEnv {α : Type} (p : Prog EngineOp EngineOp.Res α) :
    ∀ a ∈ attemptsOf (p.run timingOutEnv []).2, a.ending = .systemFailed := by
  intro a ha
  obtain ⟨ev, hev, ha⟩ := List.mem_filterMap.mp ha
  obtain ⟨t₁, t₂, ht⟩ := List.append_of_mem hev
  have hr := Prog.run_res _ _ ht
  obtain ⟨_ | ⟨st, tx⟩ | _, r⟩ := ev
  · cases ha
  · obtain rfl : r = endsWith (some (.system timeout)) := hr
    cases ha
    rfl
  · cases ha

/-- The context of `stillContext` on another platform. -/
def contextOn (host : Host) : RunContext := { stillContext with host := host }

/-- An engine that finalises the run of a step that always times out sleeps before each retry. -/
lemma Finalises.slept (h : e.Finalises host) {k : ℕ} (hk : k < e.maxRetries) :
    ¬ e.DelayOverflows host k := by
  have hobliging := obliging_timingOutEnv (e.run (contextOn host) oneStep) true
  have hreturns := (h (contextOn host) oneStep timingOutEnv rfl admitted_oneStep
    hobliging).returns
  have hattempts := attemptsOf_timingOutEnv (e.run (contextOn host) oneStep)
  have hopened : oneStep.Opened := Transaction.Prepared.opened (.fresh (by decide) rfl)
  have hrun := Prog.wp_run_honest timingOutEnv (M := ordinary) (g := []) (t := [])
    (u := ((e.run (contextOn host) oneStep).run timingOutEnv []).2)
    (wp_body_traced e (contextOn host) hopened admitted_oneStep) rfl
    (honest_of_mem (fun ev hev _ => (hobliging ev hev).2) _)
  rw [List.nil_append, ordinary, replay_traceMonitor, List.nil_append] at hrun
  change Proc.post _ _ ((e.run (contextOn host) oneStep).run timingOutEnv []).1 _ at hrun
  generalize (e.run (contextOn host) oneStep).run timingOutEnv [] = r at hrun hreturns hattempts
  obtain ⟨⟨err | _, s⟩, t⟩ := r
  · cases hreturns
  · obtain ⟨passes, left, htraced⟩ := hrun
    have hleft := left_ne_nil_of_systemFailed htraced.schedule htraced.nonempty (by decide)
      (htraced.attempts ▸ hattempts)
    have hspent : e.maxRetries ≤ 0 + (passes.length - 1) := htraced.spent hleft
    have hslept : ¬ e.DelayOverflows host (0 + k) := htraced.slept k (by omega)
    rwa [Nat.zero_add] at hslept

/-- **Which engines finalise their runs** on a platform: those none of whose delays overflows. For
them every run that admits its transaction, in which no checkpoint fails and every body returns or
raises an ordinary exception, returns with a completed transaction; for any other engine there is
such a run that does not.

**Proof sketch.** A delay is all that can raise (`wp_body_obliging`); and a step that always times
out takes an engine through all of its delays. -/
theorem finalises_iff_slept (e : Engine) (host : Host) :
    e.Finalises host ↔ ∀ k < e.maxRetries, ¬ e.DelayOverflows host k := by
  refine ⟨fun h k hk => h.slept hk, ?_⟩
  rintro hdelay ctx tx env rfl hadmitted hobliging
  have hrun := Prog.wp_run_honest env (M := obliging ctx.hasCheckpoint) (g := ()) (t := [])
    (u := ((e.run ctx tx).run env []).2) (wp_body_obliging hdelay hadmitted) rfl
    (honest_of_mem (fun ev hev _ => hobliging ev hev) _)
  change Proc.post _ _ ((e.run ctx tx).run env []).1 _ at hrun
  generalize (e.run ctx tx).run env [] = r at hrun hobliging ⊢
  obtain ⟨⟨err | _, s⟩, t⟩ := r
  · exact hrun.elim
  · exact ⟨rfl, hrun⟩

/-! ## Ideal platforms -/

/-- The delay before the retry with the given number is zero, or the power of the backoff is not
beyond the largest double and neither is the product with it. -/
def Computes (e : Engine) (host : Host) (completedRetryPasses : ℕ) : Prop :=
  e.retryDelay.units = 0 ∨
    e.retryBackoff.toRat ^ completedRetryPasses ≤ Double.largest ∧
      ∀ power, host.pow e.retryBackoff completedRetryPasses = .ok power →
        (e.retryDelay.mul power).isSome = true

/-- A delay whose power and product are computed. -/
lemma computes_of {k : ℕ} (hpower : e.retryBackoff.toRat ^ k ≤ Double.largest)
    (hproduct : ((host.pow e.retryBackoff k).toOption.all fun power =>
      (e.retryDelay.mul power).isSome) = true) : e.Computes host k := by
  refine Or.inr ⟨hpower, fun power h => ?_⟩
  exact (Option.all_eq_true _ _).mp hproduct power (by rw [h]; rfl)

/-- On an ideal platform a delay overflows when it is not finite. -/
lemma overflows_iff (h : host.Ideal) {k : ℕ} :
    e.DelayOverflows host k ↔ ¬ e.Computes host k := by
  have hpow := h.pow e.retryBackoff k
  constructor
  · rintro ⟨hdelay, hover⟩ (hzero | ⟨hpower, hfinite⟩)
    · exact hdelay hzero
    · cases hresult : host.pow e.retryBackoff k with
      | error message => exact absurd (hpow.mp ⟨message, hresult⟩) (not_lt.mpr hpower)
      | ok power =>
        obtain ⟨seconds, hseconds⟩ := Option.isSome_iff_exists.mp (hfinite power hresult)
        exact hover power hresult seconds hseconds (h.sleep seconds)
  · intro hnot
    refine ⟨fun hzero => hnot (Or.inl hzero), fun power hpower seconds hseconds => ?_⟩
    refine absurd (Or.inr ⟨not_lt.mp fun hlarge => ?_, fun power' hpower' => ?_⟩) hnot
    · obtain ⟨message, hmessage⟩ := hpow.mpr hlarge
      rw [hpower] at hmessage
      cases hmessage
    · rw [hpower] at hpower'
      cases hpower'
      rw [hseconds]
      rfl

/-- **Which engines finalise their runs** on an ideal platform: those whose delays are zero, or
finite before each of the retries. -/
theorem finalises_iff (e : Engine) (h : host.Ideal) :
    e.Finalises host ↔ ∀ k < e.maxRetries, e.Computes host k := by
  simp only [finalises_iff_slept, overflows_iff h, not_not]

/-- A platform whose powers are the exact ones rounded, and that sleeps for every delay. -/
def tirelessHost : Host := { roundingHost with sleep := fun _ => .ok () }

/-- It is ideal. -/
lemma ideal_tirelessHost : tirelessHost.Ideal where
  pow b n := by
    change (∃ message, roundingHost.pow b n = .error message) ↔ _
    unfold roundingHost
    by_cases hlarge : Double.largest < b.toRat ^ n
    · simp [hlarge]
    · simp [hlarge]
  sleep _ := rfl

/-- An engine with three retries, after 0.1, 0.2 and 0.4 seconds. -/
def doublingEngine : Engine where
  maxRetries := 3
  retryDelay := (Double.nearest (1 / 10)).get (by decide +kernel)
  retryBackoff := (Double.nearest 2).get (by decide +kernel)
  screenshotDir := ""
  one_le_retryBackoff := by decide +kernel

/-- An engine that finalises its runs. -/
theorem finalises_doubling : doublingEngine.Finalises tirelessHost := by
  refine (finalises_iff doublingEngine ideal_tirelessHost).mpr fun k hk => ?_
  obtain rfl | rfl | rfl : k = 0 ∨ k = 1 ∨ k = 2 := by
    have hlimit : k < 3 := hk
    omega
  all_goals exact computes_of (by decide +kernel) (by decide +kernel)

/-- **An engine that leaves a run in progress.** The step times out each time, and the power for the
third delay is no double: the run is ended by an `OverflowError` before its last retry, and leaves
the transaction `IN_PROGRESS`, with no end and with its step `PENDING`. -/
theorem finalises_fails :
    tirelessHost.Ideal ∧ oneStep.Admitted ∧
    Obliging true ((steepEngine.run (contextOn tirelessHost) oneStep).run timingOutEnv []).2 ∧
    ((steepEngine.run (contextOn tirelessHost) oneStep).run timingOutEnv []).1.1.isOk = false ∧
    ((steepEngine.run (contextOn tirelessHost) oneStep).run timingOutEnv []).1.2.tx.status =
      .inProgress ∧
    ((steepEngine.run (contextOn tirelessHost) oneStep).run timingOutEnv []).1.2.tx.finishedAt =
      none ∧
    ((steepEngine.run (contextOn tirelessHost) oneStep).run timingOutEnv []).1.2.tx.steps.map
      Step.status = [.pending] ∧
    ¬ steepEngine.Finalises tirelessHost := by
  have hobliging := obliging_timingOutEnv (steepEngine.run (contextOn tirelessHost) oneStep) true
  have hfailed : ((steepEngine.run (contextOn tirelessHost) oneStep).run timingOutEnv []).1.1.isOk =
      false := by
    decide +kernel
  refine ⟨ideal_tirelessHost, admitted_oneStep, hobliging, hfailed, by decide +kernel,
    by decide +kernel, by decide +kernel, fun h => ?_⟩
  have hfinal := h (contextOn tirelessHost) oneStep timingOutEnv rfl admitted_oneStep hobliging
  rw [hfinal.returns] at hfailed
  cases hfailed

end Engine
