import RpaCore.Effects.Alike
import RpaCore.Engine.Outcome
import RpaCore.Runner.Basic

set_option relaxedAutoImplicit false
set_option autoImplicit false

/-!
# Post-processing

The report, the notifiers and the callback of an item do not decide what becomes of it. Their calls
are hidden from the queue: two runs in which the calls that process the item are answered alike make
the same final transition and count it in the same way, whatever the post-processing does, as long
as it raises ordinary exceptions only.

## Main definitions

* `PostOp.Ordinary`, `RunnerOp.isPost` — the post-processing, and how it may be answered.
* `RunnerOp.likeness` — the same call, up to the item, which the callback may have changed.
* `ItemState.Agree` — two states agree, apart from the item and the counters of the post-processing.
* `finalTransition` — the calls that end the claim of an item.

## Main results

* `wp_dispatch` — `dispatch` returns.
* `Runner.postProcessing_hidden` — post-processing does not show in the outcome of an item.
-/

/-! ## Hidden calls -/

/-- An attempt or a callback raises an ordinary exception at most. -/
def DispatchOp.Ordinary : (op : DispatchOp) → op.Res → Prop
  | .send _ _, answer => ∀ err, answer ≠ some (.fatal err)
  | .wait _, _ => True
  | .failed _, answer => ∀ err, answer = some err → err.IsOrdinary

/-- A call of the post-processing raises an ordinary exception at most. -/
def PostOp.Ordinary : (op : PostOp) → op.Res → Prop
  | .generateReport _, answer => ∀ err, answer = some err → err.IsOrdinary
  | .dispatch op, answer => op.Ordinary answer
  | .afterItem _ _ _, answer => ∀ err, answer.1 = some err → err.IsOrdinary

/-- The same call that processes an item; a callback may have changed the item in between. -/
inductive ItemOp.Same : ItemOp → ItemOp → Prop
  | refl (op : ItemOp) : Same op op
  | complete (item item' : QueueItem) : Same (.complete item) (.complete item')
  | fail (item item' : QueueItem) (retry : Bool) : Same (.fail item retry) (.fail item' retry)

/-- The same call of a runner. -/
inductive RunnerOp.Same : RunnerOp → RunnerOp → Prop
  | item {op op' : ItemOp} (h : op.Same op') : Same (.item op) (.item op')
  | post (op : PostOp) : Same (.post op) (.post op)

/-- The likeness of the calls that process an item. -/
def ItemOp.likeness : Likeness ItemOp ItemOp.Res where
  same := ItemOp.Same
  refl := .refl
  res_eq h := by
    cases h with
    | refl => rfl
    | complete => rfl
    | fail => rfl

namespace RunnerOp

/-- The likeness of the calls of a runner. -/
def likeness : Likeness RunnerOp RunnerOp.Res where
  same := RunnerOp.Same
  refl
    | .item op => .item (.refl op)
    | .post op => .post op
  res_eq h := by
    cases h with
    | item h => exact ItemOp.likeness.res_eq h
    | post => rfl

/-- The call is one of the post-processing. -/
def isPost : RunnerOp → Bool
  | item _ => false
  | post _ => true

/-- The calls of the post-processing are answered in the ordinary way. -/
def Expected : (op : RunnerOp) → op.Res → Prop
  | item _, _ => True
  | post op, answer => op.Ordinary answer

end RunnerOp

namespace ItemState

/-- The state with another item, and without the counters of the post-processing. -/
def quiet (item : QueueItem) (s : ItemState) : ItemState :=
  { s with
    item := item
    summary := { s.summary with callbackErrors := 0, notificationErrors := 0 } }

/-- **Two states agree**, apart from the item, `callback_errors` and `notification_errors`. -/
def Agree (s s' : ItemState) : Prop := ∀ item, s.quiet item = s'.quiet item

variable {s s' : ItemState}

lemma Agree.refl (s : ItemState) : s.Agree s := fun _ => rfl

lemma Agree.trans {s'' : ItemState} (h : s.Agree s') (h' : s'.Agree s'') : s.Agree s'' :=
  fun item => (h item).trans (h' item)

lemma Agree.symm (h : s.Agree s') : s'.Agree s := fun item => (h item).symm

lemma Agree.transaction (h : s.Agree s') : s.transaction = s'.transaction := by
  have htransaction := congrArg ItemState.transaction (h s.item)
  exact htransaction

/-- States that agree have the same counters of transitions. -/
lemma Agree.counters (h : s.Agree s') :
    s.summary.completed = s'.summary.completed ∧
      s.summary.retryScheduled = s'.summary.retryScheduled ∧
      s.summary.terminalFailed = s'.summary.terminalFailed ∧
      s.summary.leaseLost = s'.summary.leaseLost ∧
      s.summary.transitionUnknown = s'.summary.transitionUnknown := by
  have hquiet : (s.quiet s.item).summary = (s'.quiet s.item).summary :=
    congrArg ItemState.summary (h s.item)
  refine ⟨?_, ?_, ?_, ?_, ?_⟩
  · have hcompleted := congrArg QueueRunSummary.completed hquiet
    exact hcompleted
  · have hscheduled := congrArg QueueRunSummary.retryScheduled hquiet
    exact hscheduled
  · have hfailed := congrArg QueueRunSummary.terminalFailed hquiet
    exact hfailed
  · have hlost := congrArg QueueRunSummary.leaseLost hquiet
    exact hlost
  · have hunknown := congrArg QueueRunSummary.transitionUnknown hquiet
    exact hunknown

/-- Counters that do not depend on those of the post-processing keep two states in agreement. -/
lemma Agree.count {f f' c : ItemState → ItemState}
    (hf : ∀ item s, (f s).quiet item = c (s.quiet item))
    (hf' : ∀ item s, (f' s).quiet item = c (s.quiet item)) (h : s.Agree s') :
    (f s).Agree (f' s') := by
  intro item
  rw [hf, hf', h item]

end ItemState

/-! ## The post-processing returns -/

/-- The monitor of the calls of `dispatch`. -/
def ordinaryDispatch : Monitor DispatchOp DispatchOp.Res Unit where
  pre _ _ := True
  admits _ op answer := op.Ordinary answer
  next _ _ _ := ()

/-- The attempts of a notifier return. -/
lemma wp_sendAttempts {S : Type} {notifier : Notifier} {n : ℕ} {s : S} {g : Unit} :
    (sendAttempts notifier n).wp ordinaryDispatch (fun _ _ _ => True) (fun _ _ _ => False) s g := by
  induction n generalizing g with
  | zero => trivial
  | succ n ih =>
    simp only [sendAttempts, Proc.wp_bind, Proc.wp_call]
    refine ⟨trivial, fun answer hanswer => ?_⟩
    split
    · trivial
    · next err => exact hanswer err rfl
    · refine Proc.wp_ite (fun _ => trivial) fun _ => ?_
      simp only [Proc.wp_bind, Proc.wp_call]
      exact ⟨trivial, fun _ _ => ih⟩

/-- **`dispatch` returns**, whatever ordinary exceptions the notifiers and the callback raise. -/
theorem wp_dispatch {S : Type} {hasCallback : Bool} {notifiers : List Notifier} {s : S} {g : Unit} :
    (dispatch hasCallback notifiers).wp ordinaryDispatch (fun _ _ _ => True)
      (fun _ _ _ => False) s g := by
  induction notifiers generalizing s g with
  | nil => trivial
  | cons notifier rest ih =>
    simp only [dispatch, Proc.wp_bind]
    refine Proc.wp_mono wp_sendAttempts (fun failed s₁ g₁ _ => ?_) fun _ _ _ h => h
    split
    · unfold reportFailure
      split
      · simp only [Proc.wp_bind, Proc.wp_call]
        refine ⟨trivial, fun answer hanswer => ?_⟩
        split
        · exact ih
        · next err =>
          rw [if_pos (hanswer err rfl)]
          exact ih
      · exact ih
    · exact ih

namespace Runner

variable {r : Runner} {s : ItemState} {d : Disposition}

/-- The monitor of the post-processing. -/
def postOnly : Monitor PostOp PostOp.Res Unit :=
  (silent RunnerOp.isPost RunnerOp.Expected).pull RunnerOp.post

/-- The dispatch of a report counts failed notifications. -/
lemma wp_dispatchReport {g : Unit} : r.dispatchReport.wp postOnly (fun _ s' _ => s.Agree s')
    (fun _ _ _ => False) s g := by
  have hanswer : ∀ (g : Unit) (s₁ : ItemState) (g' : Unit) (op : DispatchOp), s.Agree s₁ →
      ordinaryDispatch.pre g op → (answerDispatch s₁ op).wp postOnly
        (fun a g'' => ordinaryDispatch.admits g op a.1 ∧ s.Agree a.2) g' := by
    intro g s₁ g' op hs₁ _
    cases op with
    | send notifier attempt => exact ⟨rfl, fun answer h => ⟨h, hs₁⟩⟩
    | wait seconds => exact ⟨rfl, fun answer h => ⟨h, hs₁⟩⟩
    | failed name => exact ⟨rfl, fun answer h => ⟨h, hs₁.trans fun _ => rfl⟩⟩
  have hreturns : (dispatch (S := Unit) true r.notifiers).wp ordinaryDispatch
      (fun _ _ _ => True) (fun _ _ _ => False) () () := wp_dispatch
  have hdispatch : Prog.wp postOnly
      ((Proc.start (dispatch (S := Unit) true r.notifiers) ()).interp answerDispatch s) _ g :=
    Prog.wp_interp (I := fun _ s₁ _ => s.Agree s₁) hanswer (.refl s) hreturns
  unfold dispatchReport Proc.wp Proc.start
  rw [Prog.wp_bind]
  refine Prog.wp_mono hdispatch ?_
  rintro ⟨⟨err | _, _⟩, s₁⟩ g₁ ⟨_, hs₁, hreturns⟩
  · exact hreturns.elim
  · exact hs₁

/-- The report and its dispatch hand on the disposition, up to its error. -/
lemma wp_reportStage {g : Unit} : (r.reportStage d).wp postOnly
    (fun d' s' _ => s.Agree s' ∧ ∃ error, d' = { d with error := error }) (fun _ _ _ => False)
    s g := by
  simp only [reportStage, Proc.wp_bind, Proc.wp_get]
  split
  · exact ⟨.refl s, d.error, rfl⟩
  · refine Proc.wp_ite (fun _ => ?_) fun _ => ⟨.refl s, d.error, rfl⟩
    simp only [Proc.wp_bind, Proc.wp_call]
    refine ⟨rfl, fun answer hanswer => ?_⟩
    split
    · next err =>
      rw [if_pos (hanswer err rfl)]
      exact ⟨.refl s, _, rfl⟩
    · rw [Proc.wp_bind]
      exact Proc.wp_mono wp_dispatchReport (fun _ s' _ h => ⟨h, d.error, rfl⟩) fun _ _ _ h => h

/-- The callback returns. -/
lemma wp_callbackStage {g : Unit} : (r.callbackStage d).wp postOnly (fun _ s' _ => s.Agree s')
    (fun _ _ _ => False) s g := by
  simp only [callbackStage, Proc.wp_bind, Proc.wp_get]
  refine Proc.wp_ite (fun _ => ?_) fun _ => .refl s
  simp only [Proc.wp_bind, Proc.wp_call]
  refine ⟨rfl, fun answer hanswer => ?_⟩
  obtain ⟨raised, item⟩ := answer
  simp only [Proc.wp_modify]
  split
  · next err =>
    rw [if_pos (hanswer err rfl)]
    exact fun _ => rfl
  · exact fun _ => rfl

/-! ## The end of an item -/

/-- Procedures that process an item are alike: every call is visible. -/
abbrev ItemAlike {α β : Type} (Q : α → ItemState → β → ItemState → Prop) (p : ItemM α) (q : ItemM β)
    (s s' : ItemState) : Prop :=
  Proc.Alike ItemOp.likeness (fun _ => false) (fun _ _ => True) Q ItemState.Agree p q s s'

variable {s' : ItemState} {d' : Disposition}

/-- The same call, answered alike. -/
lemma alike_item {op op' : ItemOp} (h : op.Same op')
    {Q : op.Res → ItemState → op'.Res → ItemState → Prop}
    (hQ : ∀ r, Q r s (cast (ItemOp.likeness.res_eq h) r) s') :
    ItemAlike Q (Proc.call op) (Proc.call op') s s' :=
  Proc.alike_call rfl rfl h hQ

/-- Two dispositions agree, apart from their errors, which only the callback and the log see. -/
def Disposition.Agree (d d' : Disposition) : Prop := ∃ error, d' = { d with error := error }

/-- The heartbeat is looked at in the same way. -/
lemma alike_heartbeatStage (hs : s.Agree s') (hd : d.Agree d') :
    ItemAlike (fun d s d' s' => d.Agree d' ∧ s.Agree s') (heartbeatStage d) (heartbeatStage d')
      s s' := by
  obtain ⟨error, rfl⟩ := hd
  unfold heartbeatStage
  split
  · exact Proc.alike_pure ⟨⟨error, rfl⟩, hs⟩
  · refine Prog.Alike.call rfl rfl (ItemOp.Same.refl .heartbeat) fun (answer : Option PyError) => ?_
    cases answer with
    | none => exact .pure ⟨⟨error, rfl⟩, hs⟩
    | some err =>
      cases err with
      | memoryError message => exact .pure ⟨rfl, hs⟩
      | keyboardInterrupt => exact .pure ⟨rfl, hs⟩
      | systemExit => exact .pure ⟨rfl, hs⟩
      | _ => exact .pure ⟨⟨_, rfl⟩, hs⟩

/-- A call is repeated in the same way. -/
lemma alike_lockRetries {α : Type} {act act' exhausted : ItemM (Except PyError α)} {n : ℕ}
    (hs : s.Agree s')
    (hact : ∀ s s', s.Agree s' →
      ItemAlike (fun a s₁ b s₁' => a = b ∧ s₁.Agree s₁') act act' s s')
    (hexhausted : ∀ s s', s.Agree s' →
      ItemAlike (fun a s₁ b s₁' => a = b ∧ s₁.Agree s₁') exhausted exhausted s s') :
    ItemAlike (fun a s₁ b s₁' => a = b ∧ s₁.Agree s₁') (lockRetries act exhausted n)
      (lockRetries act' exhausted n) s s' := by
  induction n generalizing s s' with
  | zero => exact hexhausted s s' hs
  | succ n ih =>
    refine Proc.Alike.bind (hact s s' hs) ?_
    rintro answer s₁ _ s₁' ⟨rfl, hs₁⟩
    split
    · exact Proc.alike_pure ⟨rfl, hs₁⟩
    · split
      · refine Proc.Alike.bind (Q := fun _ s₂ _ s₂' => s₂.Agree s₂')
          (alike_item (.refl (ItemOp.retrySleep (2 - n))) fun _ => hs₁)
          fun _ s₂ _ s₂' hs₂ => ih hs₂
      · split
        · exact Proc.alike_pure ⟨rfl, hs₁⟩
        · exact Proc.alike_throw _ hs₁

/-- The completion of the item. -/
lemma alike_completeQueueItemWithRetries (hs : s.Agree s') :
    ItemAlike (fun a s₁ b s₁' => a = b ∧ s₁.Agree s₁') completeQueueItemWithRetries
      completeQueueItemWithRetries s s' := by
  refine Proc.alike_get ?_
  exact alike_lockRetries hs
    (fun _ _ h => alike_item (.complete s.item s'.item) fun _ => ⟨rfl, h⟩)
    fun _ _ h => Proc.alike_pure ⟨rfl, h⟩

/-- The failure of the item. -/
lemma alike_failQueueItemWithRetries {retry : Bool} (hs : s.Agree s') :
    ItemAlike (fun a s₁ b s₁' => a = b ∧ s₁.Agree s₁') (failQueueItemWithRetries retry)
      (failQueueItemWithRetries retry) s s' := by
  refine Proc.alike_get ?_
  refine Proc.Alike.bind (alike_lockRetries hs
    (fun _ _ h => alike_item (.fail s.item s'.item retry) fun _ => ⟨rfl, h⟩)
    fun _ _ h => Proc.alike_pure ⟨rfl, h⟩) ?_
  rintro answer s₁ _ s₁' ⟨rfl, hs₁⟩
  split
  all_goals exact Proc.alike_pure ⟨rfl, hs₁⟩

/-- A lost lease is counted in the same way. -/
lemma alike_countLeaseLost (hs : s.Agree s') :
    ItemAlike (fun a s₁ b s₁' => a = b ∧ s₁.Agree s₁')
      (do
        modify countLeaseLost
        pure false)
      (do
        modify countLeaseLost
        pure false) s s' :=
  Proc.alike_pure ⟨rfl, .count (c := countLeaseLost) (fun _ _ => rfl) (fun _ _ => rfl) hs⟩

/-- **The end of an item** depends on what agrees. -/
theorem alike_settle {callbackFailed callbackFailed' : Bool} (hs : s.Agree s') (hd : d.Agree d') :
    ItemAlike (fun a s b s' => a = b ∧ s.Agree s') (r.settle d callbackFailed)
      (r.settle d' callbackFailed') s s' := by
  obtain ⟨error, rfl⟩ := hd
  unfold settle
  split
  · exact alike_countLeaseLost hs
  · split
    · refine Proc.Alike.bind (alike_completeQueueItemWithRetries hs) ?_
      rintro transition s₁ _ s₁' ⟨rfl, hs₁⟩
      split
      · exact alike_countLeaseLost hs₁
      · exact Proc.alike_throw _ hs₁
      · exact Proc.alike_pure
          ⟨rfl, .count (c := countCompleted false) (fun _ _ => rfl) (fun _ _ => rfl) hs₁⟩
    · refine Proc.alike_get ?_
      rw [hs.transaction]
      refine Proc.Alike.bind (alike_failQueueItemWithRetries hs) ?_
      rintro transition s₁ _ s₁' ⟨rfl, hs₁⟩
      split
      · exact alike_countLeaseLost hs₁
      · exact Proc.alike_throw _ hs₁
      · next outcome =>
        have hquiet : ∀ item s, (countFailed outcome s).quiet item =
            countFailed outcome (s.quiet item) := by
          intro item s
          unfold countFailed
          split
          · rfl
          · rfl
          · rfl
        exact Proc.alike_pure ⟨rfl, .count hquiet hquiet hs₁⟩

/-! ## The whole item -/

/-- Parts that process the item alike do so among the calls of the runner. -/
lemma ItemAlike.embed {α β : Type} {Q : α → ItemState → β → ItemState → Prop} {p : ItemM α}
    {q : ItemM β} (h : ItemAlike Q p q s s') :
    Proc.Alike RunnerOp.likeness RunnerOp.isPost RunnerOp.Expected Q ItemState.Agree
      (p.embed RunnerOp.item) (q.embed RunnerOp.item) s s' :=
  Proc.Alike.embed RunnerOp.likeness RunnerOp.isPost RunnerOp.Expected RunnerOp.item h
    (fun _ _ h => RunnerOp.Same.item h) fun _ _ _ => trivial

/-- A part that processes the item is like itself. -/
lemma itemAlike_refl {α : Type} (p : ItemM α) :
    ItemAlike (fun a s b s' => a = b ∧ s.Agree s') p p s s :=
  Proc.alike_refl (fun _ => rfl) (fun _ s => ⟨rfl, .refl s⟩) ItemState.Agree.refl p

/-- Parts of the post-processing that return are alike. -/
lemma alike_post {α : Type} {P : α → ItemState → Prop} {Q : α → ItemState → α → ItemState → Prop}
    {p q : Proc PostOp PostOp.Res ItemState PyError α} {P' : α → ItemState → Prop}
    (hp : p.wp postOnly (fun a s _ => P a s) (fun _ _ _ => False) s ())
    (hq : q.wp postOnly (fun a s _ => P' a s) (fun _ _ _ => False) s' ())
    (hQ : ∀ a s b s', P a s → P' b s' → Q a s b s') :
    Proc.Alike RunnerOp.likeness RunnerOp.isPost RunnerOp.Expected Q ItemState.Agree
      (p.embed RunnerOp.post) (q.embed RunnerOp.post) s s' := by
  refine Proc.alike_of_silent (P := P) ?_ ?_ hQ
  · rw [Proc.wp_embed]
    exact hp
  · rw [Proc.wp_embed]
    exact hq

/-- Two items are processed alike, whatever the post-processing does.

**Proof sketch.** Up to the report the two sides are the same. The report and the callback make
hidden calls only, and hand on a disposition that differs in its error at most; what follows looks
at that error in the callback and the log alone. -/
theorem alike_runClaimedItem :
    Proc.Alike RunnerOp.likeness RunnerOp.isPost RunnerOp.Expected
      (fun a s b s' => a = b ∧ s.Agree s') ItemState.Agree r.runClaimedItem r.runClaimedItem
      s s := by
  unfold runClaimedItem
  refine Proc.Alike.bind (itemAlike_refl r.executeStage).embed ?_
  rintro executed s₁ _ s₁' ⟨rfl, hs₁⟩
  refine Proc.Alike.bind (alike_heartbeatStage hs₁ ⟨executed.error, rfl⟩).embed ?_
  rintro checked s₂ checked' s₂' ⟨⟨error, rfl⟩, hs₂⟩
  refine Proc.Alike.bind (Q := fun d s d' s' => d.Agree d' ∧ s.Agree s')
    (alike_post wp_reportStage wp_reportStage ?_) ?_
  · rintro _ s₃ _ s₃' ⟨hs₃, e, rfl⟩ ⟨hs₃', e', rfl⟩
    exact ⟨⟨e', rfl⟩, (hs₃.symm.trans hs₂).trans hs₃'⟩
  rintro reported s₃ reported' s₃' ⟨hreported, hs₃⟩
  refine Proc.Alike.bind (Q := fun _ s _ s' => s.Agree s')
    (alike_post wp_callbackStage wp_callbackStage ?_) ?_
  · exact fun _ s₄ _ s₄' hs₄ hs₄' => (hs₄.symm.trans hs₃).trans hs₄'
  intro callbackFailed s₄ callbackFailed' s₄' hs₄
  refine Proc.Alike.bind (alike_heartbeatStage hs₄ hreported).embed ?_
  rintro final s₅ final' s₅' ⟨hfinal, hs₅⟩
  exact (alike_settle hs₅ hfinal).embed

end Runner

/-! ## The outcome of an item -/

/-- A transition that ends the claim of an item. -/
inductive FinalTransition
  | complete
  | fail (retry : Bool)
  deriving DecidableEq

/-- The transition a call asks for. -/
def RunnerOp.finalTransition : RunnerOp → Option FinalTransition
  | .item (.complete _) => some .complete
  | .item (.fail _ retry) => some (.fail retry)
  | _ => none

/-- The final transitions among events, with those that are repeated. -/
def finalTransitions (t : List (Event RunnerOp RunnerOp.Res)) : List FinalTransition :=
  t.filterMap fun ev => ev.op.finalTransition

/-- The post-processing makes no transition. -/
lemma finalTransitions_visible (t : List (Event RunnerOp RunnerOp.Res)) :
    finalTransitions (visible RunnerOp.isPost t) = finalTransitions t := by
  unfold finalTransitions visible
  rw [List.filterMap_filter]
  refine List.filterMap_congr fun ev _ => ?_
  obtain ⟨op | op, answer⟩ := ev
  · rfl
  · rfl

/-- The same call asks for the same transition. -/
lemma RunnerOp.Same.finalTransition {op op' : RunnerOp} (h : op.Same op') :
    op.finalTransition = op'.finalTransition := by
  cases h with
  | post op => rfl
  | item h =>
    cases h with
    | refl op => rfl
    | complete item item' => rfl
    | fail item item' retry => rfl

/-- The same calls make the same transitions. -/
lemma finalTransitions_eq {t u : List (Event RunnerOp RunnerOp.Res)}
    (h : List.Forall₂ RunnerOp.likeness.Same t u) : finalTransitions t = finalTransitions u := by
  induction h with
  | nil => rfl
  | cons hev _ ih =>
    obtain ⟨hsame, -⟩ := hev
    unfold finalTransitions at ih ⊢
    rw [List.filterMap_cons, List.filterMap_cons, RunnerOp.Same.finalTransition hsame, ih]

namespace Runner

/-- Two environments answer the calls that process the item alike, after the same such calls. -/
def AnswersAlike (env env' : List (Event RunnerOp RunnerOp.Res) → (op : RunnerOp) → op.Res) :
    Prop :=
  ∀ t u (op op' : ItemOp) (h : op.Same op'),
    List.Forall₂ RunnerOp.likeness.Same (visible RunnerOp.isPost t) (visible RunnerOp.isPost u) →
      env' u (.item op') = cast (ItemOp.likeness.res_eq h) (env t (.item op))

/-- **Post-processing cannot change the outcome of an item.** In two runs whose heartbeat, queue,
databases, build function and steps answer alike, and whose reports, notifiers and callbacks do
anything but raise an exception that is not ordinary, the runner returns or raises the same, asks
for the same final transitions, and counts the same.

**Proof sketch.** The processing of the item is alike in both, `alike_runClaimedItem`, and programs
that are alike cannot be told apart by their visible calls. -/
theorem postProcessing_hidden (r : Runner) (s : ItemState)
    {env env' : List (Event RunnerOp RunnerOp.Res) → (op : RunnerOp) → op.Res}
    (halike : AnswersAlike env env') (hordinary : ∀ t op, PostOp.Ordinary op (env t (.post op)))
    (hordinary' : ∀ t op, PostOp.Ordinary op (env' t (.post op))) :
    let run := (r.runClaimedItem.start s).run env []
    let run' := (r.runClaimedItem.start s).run env' []
    run.1.1 = run'.1.1 ∧
      finalTransitions run.2 = finalTransitions run'.2 ∧
      run.1.2.summary.completed = run'.1.2.summary.completed ∧
      run.1.2.summary.retryScheduled = run'.1.2.summary.retryScheduled ∧
      run.1.2.summary.terminalFailed = run'.1.2.summary.terminalFailed ∧
      run.1.2.summary.leaseLost = run'.1.2.summary.leaseLost ∧
      run.1.2.summary.transitionUnknown = run'.1.2.summary.transitionUnknown := by
  intro run run'
  have hvisible : ∀ t u o o' (hsame : RunnerOp.likeness.same o o'), o.isPost = false →
      List.Forall₂ RunnerOp.likeness.Same (visible RunnerOp.isPost t)
        (visible RunnerOp.isPost u) →
      env' u o' = cast (RunnerOp.likeness.res_eq hsame) (env t o) := by
    intro t u o o' hsame ho htu
    cases hsame with
    | item h => exact halike t u _ _ h htu
    | post op => cases ho
  have hexpected : ∀ (env : List (Event RunnerOp RunnerOp.Res) → (op : RunnerOp) → op.Res),
      (∀ t op, PostOp.Ordinary op (env t (.post op))) →
      ∀ t o, RunnerOp.isPost o = true → RunnerOp.Expected o (env t o) := by
    intro env hpost t o ho
    cases o with
    | item op => trivial
    | post op => exact hpost t op
  obtain ⟨hresult, hevents⟩ := Prog.Alike.run (alike_runClaimedItem (r := r) (s := s)) hvisible
    (hexpected env hordinary) (hexpected env' hordinary') (t := []) (u := []) .nil
  have htransitions : finalTransitions run.2 = finalTransitions run'.2 := by
    rw [← finalTransitions_visible run.2, ← finalTransitions_visible run'.2]
    exact finalTransitions_eq hevents
  obtain ⟨hreturned, hstate⟩ := hresult.eq
  exact ⟨hreturned, htransitions, hstate.counters⟩

/-- A runner with one notifier and a callback, without a transaction database. -/
def watchedRunner : Runner where
  engine := Engine.create 0
  clock := Engine.stillContext.clock
  uuid := Engine.stillContext.uuid
  host := Engine.stillContext.host
  hasTransactionDb := false
  retryBusinessFailures := false
  notifiers := [⟨"EmailNotifier", 0⟩]
  hasAfterItem := true

/-- The answers to the calls that process an item whose transaction succeeds. -/
def plainAnswer : (op : ItemOp) → op.Res
  | .build _ => .ok (Transaction.create "T" "1" ⟨0, some 0⟩ [Step.create "a" 1] .empty)
  | .load _ => .error (.keyError "")
  | .now => ⟨0, some 0⟩
  | .save _ _ _ _ => .ok 1
  | .engine (.checkpoint _) => none
  | .engine (.execute _ _) => Engine.endsWith none
  | .engine (.captureScreenshot _) => .ok ""
  | .heartbeat => none
  | .complete _ => .ok ()
  | .fail _ _ => .ok .nothing
  | .retrySleep _ => ()

/-- Post-processing without failures. -/
def smoothEnv (_ : List (Event RunnerOp RunnerOp.Res)) : (op : RunnerOp) → op.Res
  | .item op => plainAnswer op
  | .post (.generateReport _) => none
  | .post (.dispatch (.send _ _)) => none
  | .post (.dispatch (.wait _)) => ()
  | .post (.dispatch (.failed _)) => none
  | .post (.afterItem item _ _) => (none, item)

/-- Post-processing in which nothing works, and the callback clears the item. -/
def roughEnv (_ : List (Event RunnerOp RunnerOp.Res)) : (op : RunnerOp) → op.Res
  | .item op => plainAnswer op
  | .post (.generateReport _) => some (.valueError "report")
  | .post (.dispatch (.send _ _)) => some .serverDisconnected
  | .post (.dispatch (.wait _)) => ()
  | .post (.dispatch (.failed _)) => some (.runtimeError "failed")
  | .post (.afterItem _ _ _) => (some (.runtimeError "callback"), default)

/-- A claimed item, before it is processed. -/
def claimedState : ItemState where
  summary := {}
  item := { (default : QueueItem) with payload := .dict [] }
  transaction := none
  hasContext := false
  revision := 0

/-- The item of a successful transaction is completed, with and without failures of the
post-processing. -/
theorem postProcessing_hidden_completed :
    let run := (watchedRunner.runClaimedItem.start claimedState).run smoothEnv []
    let run' := (watchedRunner.runClaimedItem.start claimedState).run roughEnv []
    (run.1.1 = run'.1.1 ∧
      finalTransitions run.2 = finalTransitions run'.2 ∧
      run.1.2.summary.completed = run'.1.2.summary.completed ∧
      run.1.2.summary.retryScheduled = run'.1.2.summary.retryScheduled ∧
      run.1.2.summary.terminalFailed = run'.1.2.summary.terminalFailed ∧
      run.1.2.summary.leaseLost = run'.1.2.summary.leaseLost ∧
      run.1.2.summary.transitionUnknown = run'.1.2.summary.transitionUnknown) ∧
    finalTransitions run.2 = [.complete] ∧ run'.1.2.summary.callbackErrors = 1 := by
  have halike : AnswersAlike smoothEnv roughEnv := by
    intro _ _ op op' h _
    cases h with
    | refl op => rfl
    | complete item item' => rfl
    | fail item item' retry => rfl
  refine ⟨postProcessing_hidden watchedRunner claimedState halike ?_ ?_, by decide +kernel,
    by decide +kernel⟩
  · intro t op
    cases op with
    | generateReport tx => exact fun err h => by cases h
    | dispatch op =>
      cases op with
      | send notifier attempt => exact fun err h => by cases h
      | wait seconds => trivial
      | failed name => exact fun err h => by cases h
    | afterItem item tx err => exact fun err h => by cases h
  · intro t op
    cases op with
    | generateReport tx =>
      intro err h
      cases h
      decide
    | dispatch op =>
      cases op with
      | send notifier attempt => exact fun err h => by cases h
      | wait seconds => trivial
      | failed name =>
        intro err h
        cases h
        decide
    | afterItem item tx err =>
      intro err h
      cases h
      decide

end Runner
