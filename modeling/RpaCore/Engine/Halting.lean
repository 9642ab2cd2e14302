import RpaCore.Engine.Discipline

set_option relaxedAutoImplicit false
set_option autoImplicit false

/-!
# Halting failures

A business failure that halts the remaining steps ends its pass, and the pending steps behind it are
skipped. A step behind it that is left `FAILED` by an earlier run is not pending: it is not skipped,
and if it has failed with a `SystemException` and retries are left, the run goes on with it. This
file shows that nothing else lets a run go on after a halting failure, whatever runs and resumes
came before.

## Main definitions

* `Execution.Strands` — a halting failure that leaves steps behind it to be retried.
* `Engine.HaltsRun` — no step behind a halting failure is executed after it.
* `Engine.Paces`, `Engine.Rests` — the engine within a pass and after it, in any run.

## Main results

* `Engine.halting_stops_iff` — when halting failures stop the run.
* `Engine.halting_stranded` — a rerun in which one does not.
-/

/-- **A halting failure that strands** steps: retries are left, and a step behind it is still
`FAILED` with a `SystemException` when its body is called. -/
structure Execution.Strands (e : Engine) (x : Execution) : Prop where
  halts : x.Halts
  budget : x.retryNumber < e.maxRetries
  stranded : ∃ st ∈ x.tx.steps, x.order < st.executionOrder ∧ st.status = .failed ∧
    st.endsInSystem = true

namespace Engine

/-- **Halting failures stop the run**: no step with a greater execution order is executed after
one. -/
def HaltsRun (ex : List Execution) : Prop :=
  ex.Pairwise fun x y => x.Halts → ¬ x.order < y.order

instance (ex : List Execution) : Decidable (HaltsRun ex) :=
  inferInstanceAs (Decidable (List.Pairwise _ _))

variable {e : Engine} {ctx : RunContext} {blocked : Option (List ℤ)} {step : Step}
  {rest : List Step} {s s' : EngineState} {ex : List Execution} {x : Execution} {retry : ℕ}

/-! ## What a stranding failure is owed -/

/-- Every stranding failure is followed by an execution behind it, apart from those up to `c`. -/
def Owing (e : Engine) (c : Option ℤ) (ex : List Execution) : Prop :=
  ∀ a x b, ex = a ++ x :: b → x.Strands e →
    (∃ y ∈ b, x.order < y.order) ∨ ∃ c' ∈ c, x.order ≤ c'

/-- Nothing is owed at the beginning. -/
lemma owing_nil (c : Option ℤ) : e.Owing c [] := by
  intro a x b h
  simp at h

/-- An execution behind `c` pays what is owed up to `c`, and may strand steps itself. -/
lemma Owing.pay {c : Option ℤ} (h : e.Owing c ex) (hc : ∀ c' ∈ c, c' < x.order) :
    e.Owing (some x.order) (ex ++ [x]) ∧ (¬ x.Strands e → e.Owing none (ex ++ [x])) := by
  have hearlier : ∀ a y b, ex ++ [x] = a ++ y :: b → y.Strands e →
      (b = [] ∧ y = x) ∨ ∃ z ∈ b, y.order < z.order := by
    intro a y b hsplit hy
    rcases List.eq_append_cons_of_snoc hsplit with ⟨-, hlast, hnil⟩ | ⟨b', rfl, hinit⟩
    · exact Or.inl ⟨hnil, hlast⟩
    · refine Or.inr ?_
      rcases h a y b' hinit hy with ⟨z, hz, hlt⟩ | ⟨c', hc', hle⟩
      · exact ⟨z, by simp [hz], hlt⟩
      · exact ⟨x, by simp, lt_of_le_of_lt hle (hc c' hc')⟩
  refine ⟨fun a y b hsplit hy => ?_, fun hnot a y b hsplit hy => ?_⟩
  · rcases hearlier a y b hsplit hy with ⟨-, rfl⟩ | hpaid
    · exact Or.inr ⟨y.order, rfl, le_refl _⟩
    · exact Or.inl hpaid
  · rcases hearlier a y b hsplit hy with ⟨-, rfl⟩ | hpaid
    · exact absurd hy hnot
    · exact Or.inl hpaid

/-! ## Within a pass and after it -/

/-- **The engine within a pass of any run**: the steps behind and the blocked ones are done. What is
owed is owed by the next execution of the pass. -/
structure Paces (e : Engine) (blocked : Option (List ℤ)) (rest : List Step) (retry : ℕ)
    (s : EngineState) (ex : List Execution) : Prop where
  wired : s.tx.Wired
  count : s.tx.retryCount = retry
  sorted : rest.Pairwise fun a b => a.executionOrder < b.executionOrder
  ahead : ∀ step ∈ rest, ∃ st, s.tx.stepAt step.executionOrder = some st
  blockedDone : ∀ orders ∈ blocked, ∀ o ∈ orders, ∀ st, s.tx.stepAt o = some st →
    Transaction.IsDone st
  behind : ∀ o st, s.tx.stepAt o = some st → o ∉ rest.map Step.executionOrder →
    Transaction.IsDone st
  halts : ∀ x ∈ ex, x.Halts → x.Strands e
  owes : ∃ c : Option ℤ, e.Owing c ex ∧ ∀ c' ∈ c, (∃ step ∈ rest, ¬ Passes blocked step s) ∧
    ∀ step ∈ rest, step.executionOrder ≤ c' → Passes blocked step s

/-- **The engine after a pass of any run**: it goes on after a stranding failure only, and has to go
on if something is owed. -/
structure Rests (e : Engine) (retry : ℕ) (s : EngineState) (ex : List Execution) : Prop where
  wired : s.tx.Wired
  count : s.tx.retryCount = retry
  halts : (∀ x ∈ ex, x.Halts → x.Strands e) ∨ s.tx.retryableFailedSteps = [] ∨
    e.maxRetries ≤ retry
  owes : ∃ c : Option ℤ, e.Owing c ex ∧ ∀ c' ∈ c, s.tx.retryableFailedSteps ≠ [] ∧
    retry < e.maxRetries ∧ ∀ o ≤ c', ∀ st, s.tx.stepAt o = some st →
      Transaction.IsDone st

/-- Nothing is owed once the run does not go on. -/
lemma Rests.paid (h : Rests e retry s ex)
    (hend : s.tx.retryableFailedSteps = [] ∨ e.maxRetries ≤ retry) : e.Owing none ex := by
  obtain ⟨c, howing, hnext⟩ := h.owes
  cases c with
  | none => exact howing
  | some c' =>
    obtain ⟨hretryable, hbudget, -⟩ := hnext c' rfl
    exact (hend.elim hretryable (not_le.mpr hbudget)).elim

/-- A step that is passed over is done. -/
lemma Paces.done_of_passes (h : Paces e blocked rest retry s ex) (hpasses : Passes blocked step s)
    {st : Step} (hst : s.tx.stepAt step.executionOrder = some st) : Transaction.IsDone st := by
  rw [Passes, Bool.or_eq_true] at hpasses
  rcases hpasses with hcomplete | hblocked
  · rw [Transaction.isCompleteAt, hst] at hcomplete
    exact Or.inl hcomplete
  · obtain ⟨orders, horders, hmem⟩ := (Option.any_eq_true _ _).mp hblocked
    exact h.blockedDone orders horders _ (by simpa using hmem) st hst

/-- A step that is passed over. -/
lemma Paces.skip (h : Paces e blocked (step :: rest) retry s ex) (hpasses : Passes blocked step s) :
    Paces e blocked rest retry s ex := by
  refine ⟨h.wired, h.count, (List.pairwise_cons.mp h.sorted).2,
    fun step' hstep' => h.ahead step' (List.mem_cons_of_mem _ hstep'), h.blockedDone,
    fun o st hst ho => ?_, h.halts, ?_⟩
  · by_cases heq : o = step.executionOrder
    · exact h.done_of_passes hpasses (heq ▸ hst)
    · refine h.behind o st hst ?_
      rw [List.map_cons, List.mem_cons, not_or]
      exact ⟨heq, ho⟩
  · obtain ⟨c, howing, hnext⟩ := h.owes
    refine ⟨c, howing, fun c' hc' => ?_⟩
    obtain ⟨⟨step', hstep', hnot⟩, hlow⟩ := hnext c' hc'
    refine ⟨⟨step', ?_, hnot⟩, fun step' hstep' => hlow step' (List.mem_cons_of_mem _ hstep')⟩
    rcases List.mem_cons.mp hstep' with rfl | hstep'
    · exact absurd hpasses hnot
    · exact hstep'

/-- What is owed is paid by the next execution. -/
lemma Paces.pay (h : Paces e blocked (step :: rest) retry s ex) (hpasses : ¬ Passes blocked step s)
    (horder : x.order = step.executionOrder) :
    e.Owing (some x.order) (ex ++ [x]) ∧ (¬ x.Strands e → e.Owing none (ex ++ [x])) := by
  obtain ⟨c, howing, hnext⟩ := h.owes
  refine howing.pay fun c' hc' => ?_
  rw [horder]
  exact lt_of_not_ge fun hle => hpasses ((hnext c' hc').2 step List.mem_cons_self hle)

variable {ending : Ending}

/-- An attempt that goes on. -/
lemma Paces.next (h : Paces e blocked (step :: rest) retry s ex) (hpasses : ¬ Passes blocked step s)
    (htried : Tried step ending s s') (hgo : ending.stops = false)
    (horder : x.order = step.executionOrder) (hending : x.ending = some ending) :
    Paces e blocked rest retry s' (ex ++ [x]) := by
  have hsystem : ending ≠ .systemFailed := by
    rintro rfl
    cases hgo
  have hhalts : ¬ x.Halts := by
    rw [Execution.Halts, hending]
    rintro heq
    cases heq
    cases hgo
  obtain ⟨hlater, hsorted⟩ := List.pairwise_cons.mp h.sorted
  have hdone : ∀ o, (o ≠ step.executionOrder → ∀ st, s.tx.stepAt o = some st →
      Transaction.IsDone st) → ∀ st, s'.tx.stepAt o = some st → Transaction.IsDone st := by
    intro o ho st hst
    by_cases heq : o = step.executionOrder
    · exact htried.own_done hsystem (heq ▸ hst)
    · exact htried.done heq (ho heq) hst
  refine ⟨htried.grows.wired h.wired, htried.retryCount.trans h.count, hsorted,
    fun step' hstep' => ?_,
    fun orders horders o ho => hdone o fun _ => h.blockedDone orders horders o ho,
    fun o st hst ho => hdone o (fun heq st' hst' => h.behind o st' hst' ?_) st hst,
    List.forall_mem_append.mpr ⟨h.halts, by simp [hhalts]⟩,
    ⟨none, (h.pay hpasses horder).2 fun hstrands => hhalts hstrands.halts, by simp⟩⟩
  · obtain ⟨st, hst⟩ := h.ahead step' (List.mem_cons_of_mem _ hstep')
    obtain ⟨st', hst', -⟩ := htried.grows.stepAt hst
    exact ⟨st', hst'⟩
  · rw [List.map_cons, List.mem_cons, not_or]
    exact ⟨heq, ho⟩

/-- A pass at its end. -/
lemma Paces.ended (h : Paces e blocked [] retry s ex) : Rests e retry s ex := by
  refine ⟨h.wired, h.count, Or.inl h.halts, ?_⟩
  obtain ⟨c, howing, hnext⟩ := h.owes
  refine ⟨c, howing, fun c' hc' => ?_⟩
  obtain ⟨⟨step, hstep, -⟩, -⟩ := hnext c' hc'
  cases hstep

/-- A halting failure strands steps exactly if there is something to retry after it. -/
lemma Paces.strands_iff (h : Paces e blocked (step :: rest) retry s ex)
    (htried : Tried step (.businessFailed true) s s') (horder : x.order = step.executionOrder)
    (htx : x.tx = (s.startStep ctx step).tx) (hhalts : x.Halts) :
    x.Strands e ↔ s'.tx.retryableFailedSteps ≠ [] ∧ retry < e.maxRetries := by
  have hretry : x.retryNumber = retry := by
    rw [Execution.retryNumber, htx, ← h.count]
    rfl
  have hwired : x.tx.Wired := htx ▸ (EngineState.grows_startStep ctx step s).wired h.wired
  have hat : ∀ o, o ≠ step.executionOrder → x.tx.stepAt o = s.tx.stepAt o := by
    intro o ho
    rw [htx, EngineState.stepAt_startStep]
    simp [ho]
  have hw := htried.grows.wired h.wired
  constructor
  · rintro ⟨-, hbudget, st, hst, hlt, hfailed, hends⟩
    rw [horder] at hlt
    have hsame := htried.others _ (ne_of_gt hlt)
    rw [← hat _ (ne_of_gt hlt), hwired.stepAt hst, Option.map_some, if_neg (by simp [hfailed])]
      at hsame
    refine ⟨List.ne_nil_of_mem (List.mem_filter.mpr ⟨List.mem_filter.mpr
      ⟨Transaction.mem_of_stepAt hsame, by simp [hfailed]⟩, hends⟩), hretry ▸ hbudget⟩
  · rintro ⟨hretryable, hbudget⟩
    obtain ⟨st, hst⟩ := List.exists_mem_of_ne_nil _ hretryable
    obtain ⟨hmem, hends⟩ := List.mem_filter.mp hst
    obtain ⟨hmem, hfailed⟩ := List.mem_filter.mp hmem
    simp only [decide_eq_true_eq] at hfailed
    have hst' := hw.stepAt hmem
    have hne : st.executionOrder ≠ step.executionOrder := by
      intro heq
      exact not_endsInSystem_of_done (htried.own_done (by simp) (heq ▸ hst')) ⟨hfailed, hends⟩
    have hsame := hst'
    rw [htried.others _ hne] at hsame
    obtain ⟨st₁, hst₁, hskipped⟩ := Option.map_eq_some_iff.mp hsame
    obtain rfl : st₁ = st := by
      split at hskipped
      · rw [← hskipped] at hfailed
        cases hfailed
      · exact hskipped
    refine ⟨hhalts, hretry.trans_lt hbudget, st₁, ?_, ?_, hfailed, hends⟩
    · rw [← hat _ hne] at hst₁
      exact Transaction.mem_of_stepAt hst₁
    · rw [horder]
      refine lt_of_le_of_ne (le_of_not_gt fun hlt => ?_) (Ne.symm hne)
      refine not_endsInSystem_of_done (h.behind _ st₁ hst₁ fun hin => ?_) ⟨hfailed, hends⟩
      rw [List.map_cons, List.mem_cons] at hin
      obtain ⟨step', hstep', heq⟩ := List.mem_map.mp (hin.resolve_left hne)
      have := (List.pairwise_cons.mp h.sorted).1 step' hstep'
      omega

/-- A failure that stops the pass. -/
lemma Paces.stopped (h : Paces e blocked (step :: rest) retry s ex)
    (hpasses : ¬ Passes blocked step s) (htried : Tried step ending s s')
    (hstops : ending.stops = true) (horder : x.order = step.executionOrder)
    (htx : x.tx = (s.startStep ctx step).tx) (hending : x.ending = some ending) :
    Rests e retry s' (ex ++ [x]) := by
  have hw := htried.grows.wired h.wired
  have hcount := htried.retryCount.trans h.count
  obtain ⟨howing, hpaid⟩ := h.pay hpasses horder
  cases ending with
  | succeeded => cases hstops
  | skipped => cases hstops
  | systemFailed =>
    have hhalts : ¬ x.Halts := by
      rw [Execution.Halts, hending]
      rintro heq
      cases heq
    exact ⟨hw, hcount, Or.inl (List.forall_mem_append.mpr ⟨h.halts, by simp [hhalts]⟩),
      none, hpaid fun hstrands => hhalts hstrands.halts, by simp⟩
  | businessFailed halts =>
    obtain rfl : halts = true := hstops
    have hiff := h.strands_iff htried horder htx hending
    refine ⟨hw, hcount, ?_, ?_⟩
    · by_cases hstrands : x.Strands e
      · exact Or.inl (List.forall_mem_append.mpr ⟨h.halts, by simp [hstrands]⟩)
      · rw [hiff, not_and_or, not_not, not_lt] at hstrands
        exact Or.inr hstrands
    · by_cases hstrands : x.Strands e
      · refine ⟨_, howing, fun c' hc' => ?_⟩
        obtain rfl : x.order = c' := Option.some.inj hc'
        obtain ⟨hretryable, hbudget⟩ := hiff.mp hstrands
        refine ⟨hretryable, hbudget, fun o ho st hst => ?_⟩
        by_cases heq : o = step.executionOrder
        · exact htried.own_done (by simp) (heq ▸ hst)
        · refine htried.done heq (fun st' hst' => h.behind o st' hst' fun hin => ?_) hst
          rw [List.map_cons, List.mem_cons] at hin
          obtain ⟨step', hstep', heq'⟩ := List.mem_map.mp (hin.resolve_left heq)
          have := (List.pairwise_cons.mp h.sorted).1 step' hstep'
          omega
      · exact ⟨none, hpaid hstrands, by simp⟩

/-- The next pass, when there are steps to retry and retries left. -/
lemma Rests.again (ctx : RunContext) (h : Rests e retry s ex)
    (hretryable : s.tx.retryableFailedSteps ≠ []) (hbudget : retry < e.maxRetries) :
    Paces e (some (s.resetRetryable.scheduleRetry ctx).tx.businessFailedOrders)
      (s.resetRetryable.scheduleRetry ctx).tx.orderedSteps (retry + 1)
      (s.resetRetryable.scheduleRetry ctx) ex := by
  set s₀ := s.resetRetryable.scheduleRetry ctx with hs₀
  have hw := ((EngineState.grows_resetRetryable s).trans
    (EngineState.grows_scheduleRetry ctx _)).wired h.wired
  have hat : ∀ o, s₀.tx.stepAt o = (s.tx.stepAt o).map fun st =>
      if st.status = .failed && st.endsInSystem then { st with status := .pending } else st :=
    EngineState.stepAt_resetRetryable s
  have hordered : ∀ st ∈ s₀.tx.orderedSteps, st ∈ s₀.tx.steps :=
    fun st hst => Transaction.mem_orderedSteps.mp hst
  have hsorted := hw.pairwise_orderedKeys
  rw [Transaction.orderedKeys, List.pairwise_map] at hsorted
  refine ⟨hw, congrArg (· + 1) h.count, hsorted,
    fun step hstep => ⟨step, hw.stepAt (hordered step hstep)⟩, ?_, fun o st hst ho => ?_, ?_, ?_⟩
  · intro orders horders o ho st hst
    cases horders
    exact Transaction.businessFailedOrders_done hw ho hst
  · refine absurd (List.mem_map.mpr ⟨st, Transaction.mem_orderedSteps.mpr
      (Transaction.mem_of_stepAt hst), Transaction.executionOrder_of_stepAt hst⟩) ho
  · exact h.halts.resolve_right (not_or.mpr ⟨hretryable, not_le.mpr hbudget⟩)
  · obtain ⟨c, howing, hlow⟩ := h.owes
    refine ⟨c, howing, fun c' hc' => ⟨?_, fun step hstep hle => ?_⟩⟩
    · obtain ⟨st, hst⟩ := List.exists_mem_of_ne_nil _ hretryable
      obtain ⟨hmem, hends⟩ := List.mem_filter.mp hst
      obtain ⟨hmem, hfailed⟩ := List.mem_filter.mp hmem
      have hreset := hat st.executionOrder
      rw [h.wired.stepAt hmem, Option.map_some, if_pos (by simpa [hends] using hfailed)] at hreset
      have hin := Transaction.mem_of_stepAt hreset
      refine ⟨_, Transaction.mem_orderedSteps.mpr hin, ?_⟩
      rw [passes_iff hw hin (Or.inl rfl)]
      simp
    · have hself := hw.stepAt (hordered step hstep)
      rw [hat] at hself
      obtain ⟨st, hst, hreset⟩ := Option.map_eq_some_iff.mp hself
      have hdone := (hlow c' hc').2.2 _ hle st hst
      rw [if_neg (by simpa using not_endsInSystem_of_done hdone)] at hreset
      rw [hreset] at hdone
      exact (passes_iff hw (hordered step hstep) (Or.inr hdone)).mpr hdone.not_pending

/-! ## Whole runs -/

/-- A body is called after stranding failures only. -/
def Stranded (e : Engine) (ex : List Execution) (_ : Step) (_ : Transaction) : Prop :=
  ∀ x ∈ ex, x.Halts → x.Strands e

variable {t : EngineTrace} {tx : Transaction}

/-- **A pass of any run.** -/
theorem wp_executePass_rests (h : Paces e blocked s.tx.orderedSteps retry s (executionsOf t)) :
    (executePass e ctx blocked).wp (executing e.Stranded)
      (fun _ s' t' => Rests e retry s' (executionsOf t')) (fun _ _ _ => True) s t := by
  rw [wp_executePass]
  refine wp_passLoop (I := fun rest s t => Paces e blocked rest retry s (executionsOf t))
    (fun _ _ h => h.ended) (fun _ _ _ _ h hpasses => h.skip hpasses)
    (fun step rest s t h hpasses => ?_) h
  obtain ⟨st, hst⟩ := h.ahead step List.mem_cons_self
  have horder : st.executionOrder = step.executionOrder :=
    Transaction.executionOrder_of_stepAt hst
  refine Proc.wp_mono (wp_attempt_tried h.wired hst h.halts) ?_ fun _ _ _ h => h
  rintro flow s' t' ⟨ending, hexec, rfl, htried⟩
  rw [hexec]
  cases hstops : ending.stops with
  | false => exact h.next hpasses htried hstops horder rfl
  | true => exact h.stopped hpasses htried hstops horder rfl rfl

/-- **The retry loop** pays what is owed. -/
lemma wp_retryLoop_rests {n : ℕ} (hn : n = e.maxRetries - retry)
    (h : Rests e retry s (executionsOf t)) :
    (retryLoop e ctx n).wp (executing e.Stranded) (fun _ _ t' => e.Owing none (executionsOf t'))
      (fun _ _ _ => True) s t := by
  induction n generalizing retry s t with
  | zero => exact h.paid (Or.inr (by omega))
  | succ n ih =>
    rw [retryLoop_succ]
    simp only [Proc.wp_bind, Proc.wp_get]
    refine Proc.wp_ite (fun hnone => h.paid (Or.inl (by simpa using hnone))) fun hsome => ?_
    simp only [retryPass, Proc.wp_bind, Proc.wp_get, Proc.wp_modify]
    refine wp_sleepBeforeRetry_executing ?_
    refine Proc.wp_mono (wp_executePass_rests (h.again ctx (by simpa using hsome) (by omega))) ?_
      fun _ _ _ h => h
    rintro _ s₁ t₁ h₁
    exact wp_checkpoint_executing fun t₂ ht₂ => ih (by omega) (ht₂ ▸ h₁)

/-- The first pass of any run. -/
lemma paces_begin (e : Engine) (ctx : RunContext) (hvalid : tx.Valid) :
    Paces e tx.initialBlocked ((⟨tx, 0⟩ : EngineState).begin ctx).tx.orderedSteps tx.retryCount
      ((⟨tx, 0⟩ : EngineState).begin ctx) [] := by
  have hw := (EngineState.grows_begin ctx ⟨tx, 0⟩).wired hvalid.wired
  have hsorted := hw.pairwise_orderedKeys
  rw [Transaction.orderedKeys, List.pairwise_map] at hsorted
  refine ⟨hw, (EngineState.appends_begin ctx ⟨tx, 0⟩).2, hsorted, fun step hstep => ⟨step,
    hw.stepAt (Transaction.mem_orderedSteps.mp hstep)⟩, ?_, fun o st hst ho => ?_, by simp,
    none, owing_nil none, by simp⟩
  · intro orders horders o ho st hst
    rw [Transaction.initialBlocked] at horders
    split at horders
    · next hresumed =>
      cases horders
      have hsteps : ((⟨tx, 0⟩ : EngineState).begin ctx).tx.steps = tx.steps := by
        rw [steps_begin, EngineState.resetSkippedSteps, if_pos hresumed]
      rw [Transaction.stepAt, hsteps] at hst
      exact Transaction.businessFailedOrders_done hvalid.wired ho hst
    · cases horders
  · refine absurd (List.mem_map.mpr ⟨st, Transaction.mem_orderedSteps.mpr
      (Transaction.mem_of_stepAt hst), Transaction.executionOrder_of_stepAt hst⟩) ho

/-- **When a halting failure stops the run.** Any transaction, run and resumed before in any way, is
run by any engine under any behaviour of its steps and callbacks. If no halting failure strands
steps, then no step behind a halting failure is executed after it; and a run that returns has this
property only if no halting failure strands steps.

**Proof sketch.** When a halting failure has stopped its pass, everything up to it is done; so the
run goes on exactly if retries are left and a step behind it waits for one. The first body that is
called on the next pass is then one behind it. -/
theorem halting_stops_iff (e : Engine) (ctx : RunContext) (tx : Transaction)
    (env : EngineTrace → (op : EngineOp) → op.Res) :
    ((∀ x ∈ executionsOf ((e.run ctx tx).run env []).2, ¬ x.Strands e) →
      HaltsRun (executionsOf ((e.run ctx tx).run env []).2)) ∧
    (((e.run ctx tx).run env []).1.1 = .ok () →
      (HaltsRun (executionsOf ((e.run ctx tx).run env []).2) ↔
        ∀ x ∈ executionsOf ((e.run ctx tx).run env []).2, ¬ x.Strands e)) := by
  have hwp : (body e ctx).wp (executing e.Stranded)
      (fun _ _ t => e.Owing none (executionsOf t)) (fun _ _ _ => True) ⟨tx, 0⟩ [] := by
    refine wp_body (fun _ _ => trivial) fun hvalid => wp_checkpoint_executing fun t ht => ?_
    have hpaces := paces_begin e ctx hvalid
    have ht : executionsOf t = [] := ht
    rw [← ht] at hpaces
    refine Proc.wp_mono (Q := fun _ _ t => e.Owing none (executionsOf t))
      (R := fun _ _ _ => True) ?_ (fun _ s₁ t₁ h₁ => ?_) fun err s₁ t₁ _ => ?_
    · simp only [passes, Proc.wp_bind, Proc.wp_get]
      refine Proc.wp_mono (wp_executePass_rests hpaces) ?_ fun _ _ _ h => h
      rintro _ s₁ t₁ h₁
      exact wp_retryLoop_rests (by rw [h₁.count]) h₁
    · exact wp_checkpoint_executing fun t₂ ht₂ => ht₂ ▸ h₁
    · refine wp_handleInterrupt (fun _ => trivial) fun _ => ?_
      refine Proc.wp_mono (wp_checkpoint_executing (Q := fun _ _ _ => True) fun _ _ => trivial)
        (fun _ _ _ _ => trivial) fun _ _ _ _ => ?_
      split <;> trivial
  have hpre : ∀ a x b, executionsOf ((e.run ctx tx).run env []).2 = a ++ x :: b →
      ∀ y ∈ a, y.Halts → y.Strands e := fun a x b hx => executions_pre env hwp hx
  have hstops : (∀ x ∈ executionsOf ((e.run ctx tx).run env []).2, ¬ x.Strands e) →
      HaltsRun (executionsOf ((e.run ctx tx).run env []).2) := by
    intro hnone
    refine pairwise_of_splits fun a x b hx y hy hhalts => ?_
    exact absurd (hpre a x b hx y hy hhalts) (hnone y (by simp [hx, hy]))
  refine ⟨hstops, fun hreturns => ⟨fun hruns x hx hstrands => ?_, hstops⟩⟩
  have hpost := run_executing env hwp
  change Proc.post _ _ ((e.run ctx tx).run env []).1 _ at hpost
  have hok : ((e.run ctx tx).run env []).1 = (.ok (), ((e.run ctx tx).run env []).1.2) :=
    Prod.ext hreturns rfl
  rw [hok] at hpost
  obtain ⟨a, b, hsplit⟩ := List.append_of_mem hx
  rcases hpost a x b hsplit hstrands with ⟨y, hy, hlt⟩ | ⟨c, hc, -⟩
  · rw [HaltsRun, hsplit] at hruns
    exact (List.pairwise_cons.mp (List.pairwise_append.mp hruns).2.1).1 y hy hstrands.halts hlt
  · cases hc

/-- Step `a` is against a rule, and step `b` times out. -/
def failingEnv (_ : EngineTrace) : (op : EngineOp) → op.Res
  | .checkpoint _ => none
  | .execute st _ =>
    if st.name = "a" then endsWith (some (.business ruleViolation))
    else endsWith (some (.system timeout))
  | .captureScreenshot _ => .ok ""

/-- Step `a` halts the run, and step `b` succeeds. -/
def haltingEnv (_ : EngineTrace) : (op : EngineOp) → op.Res
  | .checkpoint _ => none
  | .execute st _ =>
    if st.name = "a" then
      endsWith (some (.business { ruleViolation with haltsRemainingSteps := true }))
    else endsWith none
  | .captureScreenshot _ => .ok ""

/-- A fresh transaction after a run without retries in which both of its steps fail. -/
def bothFailed : Transaction := (((create 0).run stillContext twoSteps).run failingEnv []).1.2.tx

/-- A halting failure that does not stop the rerun: step `a` halts it, and step `b`, left `FAILED`
by the first run, is executed on the retry pass. -/
theorem halting_stranded :
    ¬ HaltsRun (executionsOf (((create 1).run stillContext bothFailed).run haltingEnv []).2) ∧
      (executionsOf (((create 1).run stillContext bothFailed).run haltingEnv []).2).map
        (fun x => (x.order, x.ending)) =
      [(1, some (.businessFailed true)), (2, some .succeeded)] := by
  constructor
  · decide +kernel
  · decide +kernel

end Engine
