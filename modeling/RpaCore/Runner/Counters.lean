import RpaCore.Runner.Loop

set_option relaxedAutoImplicit false
set_option autoImplicit false

/-!
# The counters of a run

What the counters of the summary count is read off the calls of the runner: a claim that
`next_item` returned, a transition that the queue acknowledged, an exception that left the
processing of an item. These entries are kept in a log, and every part of the runner keeps the
counters in agreement with it.

## Main definitions

* `Entry`, `entryOf`, `entries` — the log of a run.
* `Books` — the counters agree with the log, with a number of claims that are not settled.

## Main results

* `Runner.wp_runClaimedItem` — an item that is processed is settled unless an exception leaves it.
* `QueueLoop.wp_runQueueLoop` — the counters agree with the log at the end and at the callback.
-/

/-! ## The log -/

/-- What a call of the loop tells about the claims of the run. -/
inductive Entry
  | claimed (itemId claimToken : String)
  | closed (itemId claimToken : String) (outcome : QueueAttemptOutcome)
  | meddled
  | escaped
  | finished (summary : QueueRunSummary)
  deriving DecidableEq

/-- An event of the loop. -/
abbrev LoopEvent := Event LoopOp LoopOp.Res

/-- The entry of an event: an item is claimed; its claim is completed or failed; a callback leaves
the item with another claim; an exception leaves the start of the heartbeat, or is in flight when
the heartbeat is stopped; the run is finished. -/
def entryOf : LoopEvent → Option Entry
  | ⟨.nextItem _, .ok (some item)⟩ => some (.claimed item.id item.claimToken)
  | ⟨.run (.item (.complete item)), .ok ()⟩ => some (.closed item.id item.claimToken .successful)
  | ⟨.run (.item (.fail item _)), .ok (.outcome .retryScheduled)⟩ =>
    some (.closed item.id item.claimToken .retryScheduled)
  | ⟨.run (.item (.fail item _)), .ok (.outcome .failed)⟩ =>
    some (.closed item.id item.claimToken .failed)
  | ⟨.run (.post (.afterItem item _ _)), (_, left)⟩ =>
    if left.id = item.id ∧ left.claimToken = item.claimToken then none else some .meddled
  | ⟨.startHeartbeat _, some _⟩ => some .escaped
  | ⟨.stopHeartbeat _ (some _), _⟩ => some .escaped
  | ⟨.onFinish summary, _⟩ => some (.finished summary)
  | _ => none

/-- The log of a run. -/
def entries (evs : List LoopEvent) : List Entry := evs.filterMap entryOf

/-- The entry closes an attempt with the outcome. -/
def Entry.closes (outcome : QueueAttemptOutcome) : Entry → Bool
  | closed _ _ o => o = outcome
  | _ => false

/-- The monitor that keeps the log. -/
def bookkeeper : Monitor LoopOp LoopOp.Res (List Entry) where
  pre _ _ := True
  admits _ _ _ := True
  next log op answer := log ++ (entryOf ⟨op, answer⟩).toList

/-- It keeps the log of the events. -/
lemma replay_bookkeeper (log : List Entry) (evs : List LoopEvent) :
    bookkeeper.replay log evs = log ++ entries evs := by
  induction evs generalizing log with
  | nil => simp [Monitor.replay, entries]
  | cons ev evs ih =>
    have hrest := ih (log ++ (entryOf ev).toList)
    simp only [Monitor.replay, List.foldl_cons, bookkeeper] at hrest ⊢
    rw [hrest, List.append_assoc]
    cases hev : entryOf ev with
    | none => simp [entries, hev]
    | some entry => simp [entries, hev]

/-- A call without an entry leaves the log as it is. -/
lemma next_quiet {op : LoopOp} {answer : op.Res} (h : entryOf ⟨op, answer⟩ = none)
    (log : List Entry) : bookkeeper.next log op answer = log := by
  change log ++ (entryOf ⟨op, answer⟩).toList = log
  rw [h]
  exact List.append_nil log

/-- A call with an entry adds it to the log. -/
lemma next_entry {op : LoopOp} {answer : op.Res} {entry : Entry}
    (h : entryOf ⟨op, answer⟩ = some entry) (log : List Entry) :
    bookkeeper.next log op answer = log ++ [entry] := by
  change log ++ (entryOf ⟨op, answer⟩).toList = log ++ [entry]
  rw [h]
  rfl

/-! ## The books -/

/-- **The counters agree with the log**, where `n` claims are not settled. Without a callback that
meddles, every attempt that was closed is one of a claim of the run. -/
structure Books (log : List Entry) (s : QueueRunSummary) (n : ℕ) : Prop where
  failed : s.failed = s.retryScheduled + s.terminalFailed + s.leaseLost + s.transitionUnknown
  processed : s.processed = s.completed + s.failed + n
  completed : s.completed = log.countP (Entry.closes .successful)
  retryScheduled : s.retryScheduled = log.countP (Entry.closes .retryScheduled)
  terminalFailed : s.terminalFailed = log.countP (Entry.closes .failed)
  owned : Entry.meddled ∉ log → ∀ itemId claimToken outcome,
    Entry.closed itemId claimToken outcome ∈ log → Entry.claimed itemId claimToken ∈ log

/-- Two summaries count the same claims and transitions. -/
structure QueueRunSummary.SameCounts (s s' : QueueRunSummary) : Prop where
  processed : s'.processed = s.processed
  completed : s'.completed = s.completed
  failed : s'.failed = s.failed
  retryScheduled : s'.retryScheduled = s.retryScheduled
  terminalFailed : s'.terminalFailed = s.terminalFailed
  leaseLost : s'.leaseLost = s.leaseLost
  transitionUnknown : s'.transitionUnknown = s.transitionUnknown

namespace Books

variable {log : List Entry} {s s' : QueueRunSummary} {n : ℕ}

/-- An empty log. -/
lemma nil : Books [] {} 0 := ⟨rfl, rfl, rfl, rfl, rfl, fun _ _ _ _ h => absurd h List.not_mem_nil⟩

/-- Other counters do not matter. -/
lemma congr (h : Books log s n) (hs : s.SameCounts s') : Books log s' n where
  failed := by
    rw [hs.failed, hs.retryScheduled, hs.terminalFailed, hs.leaseLost, hs.transitionUnknown]
    exact h.failed
  processed := by
    rw [hs.processed, hs.completed, hs.failed]
    exact h.processed
  completed := hs.completed.trans h.completed
  retryScheduled := hs.retryScheduled.trans h.retryScheduled
  terminalFailed := hs.terminalFailed.trans h.terminalFailed
  owned := h.owned

/-- An entry that closes nothing. -/
lemma append (h : Books log s n) {entry : Entry}
    (hentry : ∀ itemId claimToken outcome, entry ≠ .closed itemId claimToken outcome) :
    Books (log ++ [entry]) s n := by
  have hcount : ∀ outcome, (log ++ [entry]).countP (Entry.closes outcome) =
      log.countP (Entry.closes outcome) := by
    intro outcome
    rw [List.countP_append, List.countP_singleton]
    cases entry with
    | closed itemId claimToken o => exact absurd rfl (hentry itemId claimToken o)
    | _ => rfl
  refine ⟨h.failed, h.processed, ?_, ?_, ?_, fun hmeddled itemId claimToken outcome hmem => ?_⟩
  · rw [hcount]
    exact h.completed
  · rw [hcount]
    exact h.retryScheduled
  · rw [hcount]
    exact h.terminalFailed
  · rcases List.mem_append.mp hmem with hmem | hmem
    · exact List.mem_append_left _ (h.owned (fun hm => hmeddled (List.mem_append_left _ hm))
        itemId claimToken outcome hmem)
    · exact absurd (List.mem_singleton.mp hmem).symm (hentry itemId claimToken outcome)

/-- An entry that closes an attempt of a claim of the run. -/
lemma close {itemId claimToken : String} {outcome : QueueAttemptOutcome} (h : Books log s (n + 1))
    (hclaimed : Entry.meddled ∉ log → Entry.claimed itemId claimToken ∈ log)
    (hprocessed : s'.processed = s.processed) (hlost : s'.leaseLost = s.leaseLost)
    (hunknown : s'.transitionUnknown = s.transitionUnknown)
    (hfailed : s'.failed + s.retryScheduled + s.terminalFailed =
      s.failed + s'.retryScheduled + s'.terminalFailed)
    (hdone : s'.completed + s'.failed = s.completed + s.failed + 1)
    (hcompleted : s'.completed = s.completed + if outcome = .successful then 1 else 0)
    (hretry : s'.retryScheduled = s.retryScheduled + if outcome = .retryScheduled then 1 else 0)
    (hterminal : s'.terminalFailed = s.terminalFailed + if outcome = .failed then 1 else 0) :
    Books (log ++ [.closed itemId claimToken outcome]) s' n := by
  have hcount : ∀ o, (log ++ [Entry.closed itemId claimToken outcome]).countP (Entry.closes o) =
      log.countP (Entry.closes o) + if outcome = o then 1 else 0 := by
    intro o
    rw [List.countP_append, List.countP_singleton]
    simp [Entry.closes]
  have hsum := h.failed
  have htotal := h.processed
  refine ⟨by omega, by omega, ?_, ?_, ?_, fun hmeddled itemId' claimToken' outcome' hmem => ?_⟩
  · rw [hcount, ← h.completed, hcompleted]
  · rw [hcount, ← h.retryScheduled, hretry]
  · rw [hcount, ← h.terminalFailed, hterminal]
  · have hno : Entry.meddled ∉ log := fun hm => hmeddled (List.mem_append_left _ hm)
    refine List.mem_append_left _ ?_
    rcases List.mem_append.mp hmem with hmem | hmem
    · exact h.owned hno itemId' claimToken' outcome' hmem
    · cases List.mem_singleton.mp hmem
      exact hclaimed hno

/-- A transition that closes nothing settles a claim. -/
lemma settle (h : Books log s (n + 1)) (hprocessed : s'.processed = s.processed)
    (hcompleted : s'.completed = s.completed) (hretry : s'.retryScheduled = s.retryScheduled)
    (hterminal : s'.terminalFailed = s.terminalFailed) (hfailed : s'.failed = s.failed + 1)
    (hlost : s'.leaseLost + s'.transitionUnknown = s.leaseLost + s.transitionUnknown + 1) :
    Books log s' n := by
  have hsum := h.failed
  have htotal := h.processed
  exact ⟨by omega, by omega, hcompleted.trans h.completed, hretry.trans h.retryScheduled,
    hterminal.trans h.terminalFailed, h.owned⟩

end Books

/-! ## One item -/

/-- The items are still worked on: no exception has left the processing of an item, and the run is
not finished. -/
structure Working (log : List Entry) : Prop where
  escaped : Entry.escaped ∉ log
  finished : ∀ summary, Entry.finished summary ∉ log

/-- An entry of another kind. -/
lemma Working.append {log : List Entry} (h : Working log) {entry : Entry}
    (hescaped : entry ≠ .escaped) (hfinished : ∀ summary, entry ≠ .finished summary) :
    Working (log ++ [entry]) := by
  refine ⟨fun hmem => ?_, fun summary hmem => ?_⟩
  · rcases List.mem_append.mp hmem with hmem | hmem
    · exact h.escaped hmem
    · exact hescaped (List.mem_singleton.mp hmem).symm
  · rcases List.mem_append.mp hmem with hmem | hmem
    · exact h.finished summary hmem
    · exact hfinished summary (List.mem_singleton.mp hmem).symm

/-- The variables of an item agree with the log: its claim is not settled, and it is one of the run
unless a callback has meddled. -/
structure ItemBooks (s : ItemState) (log : List Entry) : Prop where
  books : Books log s.summary 1
  working : Working log
  claimed : Entry.meddled ∉ log → Entry.claimed s.item.id s.item.claimToken ∈ log

/-- The log as the processing of an item sees it. -/
abbrev itemBookkeeper : Monitor ItemOp ItemOp.Res (List Entry) :=
  (bookkeeper.pull LoopOp.run).pull RunnerOp.item

/-- The log as the post-processing sees it. -/
abbrev postBookkeeper : Monitor PostOp PostOp.Res (List Entry) :=
  (bookkeeper.pull LoopOp.run).pull RunnerOp.post

namespace ItemBooks

variable {s s' : ItemState} {log : List Entry}

/-- Other variables and counters do not matter. -/
lemma congr (h : ItemBooks s log) (hs : s.summary.SameCounts s'.summary)
    (hitem : s'.item.id = s.item.id ∧ s'.item.claimToken = s.item.claimToken) :
    ItemBooks s' log := by
  refine ⟨h.books.congr hs, h.working, fun hmeddled => ?_⟩
  rw [hitem.1, hitem.2]
  exact h.claimed hmeddled

/-- A call without an entry. -/
lemma quiet (h : ItemBooks s log) {op : LoopOp} {answer : op.Res}
    (hnone : entryOf ⟨op, answer⟩ = none) : ItemBooks s (bookkeeper.next log op answer) := by
  rw [next_quiet hnone]
  exact h

end ItemBooks

namespace Runner

open Proc

variable {r : Runner}

/-- A call that leaves no entry keeps the books. -/
lemma keeps_quiet {op : ItemOp} (h : ∀ answer, entryOf ⟨.run (.item op), answer⟩ = none) :
    Keeps itemBookkeeper ItemBooks (Proc.call op : ItemM op.Res) :=
  keeps_call fun _ _ hs => ⟨trivial, fun answer _ => hs.quiet (h answer)⟩

/-- A call that is repeated keeps the books if the call itself does. -/
lemma keeps_lockRetries {α : Type} {act exhausted : ItemM (Except PyError α)}
    (hact : Keeps itemBookkeeper ItemBooks act)
    (hexhausted : Keeps itemBookkeeper ItemBooks exhausted) (n : ℕ) :
    Keeps itemBookkeeper ItemBooks (lockRetries act exhausted n) := by
  induction n with
  | zero => exact hexhausted
  | succ n ih =>
    refine keeps_bind hact fun answer => ?_
    split
    · exact keeps_pure _
    · refine keeps_ite ?_ (keeps_ite (keeps_pure _) (keeps_throw _))
      exact keeps_bind (keeps_quiet fun _ => rfl) fun _ => ih

/-- A save. -/
lemma keeps_save (tx : Transaction) (expectedRevision : ℤ) (initial : Bool) :
    Keeps itemBookkeeper ItemBooks
      (saveQueueTransactionWithRetries tx expectedRevision initial) :=
  keeps_get fun _ => keeps_lockRetries (keeps_quiet fun _ => rfl) (keeps_throw _) 3

/-- The heartbeat. -/
lemma keeps_raiseIfFailed : Keeps itemBookkeeper ItemBooks raiseIfFailed := by
  refine keeps_bind (keeps_quiet fun _ => rfl) fun error => ?_
  split
  · exact keeps_pure _
  · exact keeps_throw _

/-- A failed save is not one of the counters of transitions. -/
lemma keeps_countPersistenceError :
    Keeps itemBookkeeper ItemBooks (modify countPersistenceError : ItemM PUnit) :=
  keeps_modify fun _ _ hs => hs.congr ⟨rfl, rfl, rfl, rfl, rfl, rfl, rfl⟩ ⟨rfl, rfl⟩

/-- A transaction is built. -/
lemma keeps_buildSeeded : Keeps itemBookkeeper ItemBooks buildSeeded := by
  refine keeps_get fun s => keeps_bind (keeps_quiet fun _ => rfl) fun built => ?_
  refine keeps_bind (keeps_ofExcept _) fun tx => keeps_bind (keeps_ofExcept _) fun seeded => ?_
  exact keeps_bind (keeps_ofExcept _) fun _ => keeps_pure _

/-- A bound transaction is resumed. -/
lemma keeps_resumeBound : Keeps itemBookkeeper ItemBooks r.resumeBound := by
  refine keeps_get fun s => keeps_bind (keeps_quiet fun _ => rfl) fun built => ?_
  refine keeps_bind (keeps_ofExcept _) fun candidate => ?_
  refine keeps_bind (keeps_quiet fun _ => rfl) fun loaded => ?_
  refine keeps_bind (keeps_ofExcept _) fun found => ?_
  refine keeps_bind (keeps_quiet fun _ => rfl) fun now => ?_
  exact keeps_bind (keeps_ofExcept _) fun resumed => keeps_pure _

/-- The first save. -/
lemma keeps_saveInitial (tx : Transaction) : Keeps itemBookkeeper ItemBooks (saveInitial tx) := by
  refine keeps_bind (keeps_save tx 0 true) fun saved => ?_
  split
  · refine keeps_bind (keeps_modify fun _ _ hs => ?_) fun _ => keeps_pure _
    exact hs.congr ⟨rfl, rfl, rfl, rfl, rfl, rfl, rfl⟩ ⟨rfl, rfl⟩
  · exact keeps_throw _
  · exact keeps_bind keeps_countPersistenceError fun _ => keeps_throw _

/-- The transaction of the item. -/
lemma keeps_transactionForQueueItem :
    Keeps itemBookkeeper ItemBooks r.transactionForQueueItem := by
  refine keeps_get fun s => keeps_ite ?_ (keeps_ite ?_ ?_)
  · exact keeps_bind keeps_buildSeeded fun tx => keeps_pure _
  · exact keeps_tryCatch keeps_resumeBound fun err => keeps_ite (keeps_throw _) (keeps_throw _)
  · refine keeps_bind keeps_buildSeeded fun tx => keeps_bind (keeps_ofExcept _) fun _ => ?_
    exact keeps_bind (keeps_saveInitial tx) fun revision => keeps_pure _

/-- What a failed checkpoint allows. -/
lemma keeps_checkpointFailure (tx : Transaction) :
    Keeps itemBookkeeper ItemBooks (checkpointFailureAllowsQueueRetry tx) := by
  refine keeps_bind (keeps_quiet fun _ => rfl) fun loaded => ?_
  split
  · exact keeps_ite (keeps_pure _) (keeps_throw _)
  · exact keeps_ite (keeps_pure _) (keeps_pure _)

/-- A strict checkpoint. -/
lemma keeps_strictCheckpoint (tx : Transaction) :
    Keeps itemBookkeeper ItemBooks (strictTransactionCheckpoint tx) := by
  refine keeps_get fun s => keeps_bind (keeps_save tx s.revision false) fun saved => ?_
  split
  · refine keeps_modify fun _ _ hs => ?_
    exact hs.congr ⟨rfl, rfl, rfl, rfl, rfl, rfl, rfl⟩ ⟨rfl, rfl⟩
  · exact keeps_throw _
  · refine keeps_bind keeps_countPersistenceError fun _ => keeps_ite (keeps_throw _) ?_
    exact keeps_bind (keeps_checkpointFailure tx) fun retry => keeps_throw _

/-- A checkpoint of the engine. -/
lemma keeps_leaseCheckedCheckpoint (tx : Transaction) :
    Keeps itemBookkeeper ItemBooks (r.leaseCheckedCheckpoint tx) := by
  refine keeps_bind keeps_raiseIfFailed fun _ => keeps_ite ?_ (keeps_pure _)
  refine keeps_bind keeps_raiseIfFailed fun _ => ?_
  exact keeps_bind (keeps_strictCheckpoint tx) fun _ => keeps_raiseIfFailed

/-- The run of the engine. -/
lemma keeps_runEngine (tx : Transaction) : Keeps itemBookkeeper ItemBooks (r.runEngine tx) := by
  intro s log hs
  have hanswer : ∀ (g : Unit) (s₁ : ItemState) (log₁ : List Entry) (op : EngineOp),
      ItemBooks s₁ log₁ → True → (r.answerEngine s₁ op).wp itemBookkeeper
        (fun a log₂ => True ∧ ItemBooks a.2 log₂) log₁ := by
    intro g s₁ log₁ op hs₁ _
    cases op with
    | checkpoint tx =>
      unfold answerEngine
      rw [Prog.wp_bind]
      refine Prog.wp_mono (keeps_leaseCheckedCheckpoint tx s₁ log₁ hs₁) ?_
      rintro ⟨err | _, s₂⟩ log₂ hs₂
      · exact ⟨trivial, hs₂⟩
      · exact ⟨trivial, hs₂⟩
    | execute st tx => exact ⟨trivial, fun answer _ => ⟨trivial, hs₁.quiet rfl⟩⟩
    | captureScreenshot directory => exact ⟨trivial, fun answer _ => ⟨trivial, hs₁.quiet rfl⟩⟩
  have hrun := Prog.wp_interp (M := sendsOnly fun _ => True)
    (I := fun (_ : Unit) s₁ log₁ => ItemBooks s₁ log₁) hanswer hs
    (Prog.wp_true (r.engine.run ⟨true, r.clock, r.uuid, r.host⟩ tx) ())
  unfold runEngine Proc.wp Proc.start
  rw [Prog.wp_bind]
  refine Prog.wp_mono hrun ?_
  rintro ⟨⟨err | _, final⟩, s₁⟩ log₁ ⟨_, hs₁, -⟩
  · exact hs₁.congr ⟨rfl, rfl, rfl, rfl, rfl, rfl, rfl⟩ ⟨rfl, rfl⟩
  · exact hs₁.congr ⟨rfl, rfl, rfl, rfl, rfl, rfl, rfl⟩ ⟨rfl, rfl⟩

/-- The execution of the item. -/
lemma keeps_execute : Keeps itemBookkeeper ItemBooks r.execute := by
  refine keeps_bind keeps_transactionForQueueItem fun found => ?_
  refine keeps_bind (keeps_modify fun _ _ hs => ?_) fun _ => ?_
  · exact hs.congr ⟨rfl, rfl, rfl, rfl, rfl, rfl, rfl⟩ ⟨rfl, rfl⟩
  · refine keeps_ite ?_ (keeps_bind (keeps_runEngine found.1) fun _ => ?_)
    all_goals
      refine keeps_bind keeps_raiseIfFailed fun _ => keeps_get fun s => ?_
      split
      · exact keeps_pure _
      · split
        · exact keeps_throw _
        · exact keeps_pure _

/-- The first stage of an item. -/
lemma keeps_executeStage : Keeps itemBookkeeper ItemBooks r.executeStage :=
  keeps_tryCatch (keeps_bind keeps_execute fun _ => keeps_pure _)
    fun _ => keeps_ite (keeps_pure _) (keeps_throw _)

/-- A look at the heartbeat. -/
lemma keeps_heartbeatStage (d : Disposition) :
    Keeps itemBookkeeper ItemBooks (heartbeatStage d) := by
  refine keeps_ite (keeps_pure _) (keeps_tryCatch ?_ fun err => ?_)
  · exact keeps_bind keeps_raiseIfFailed fun _ => keeps_pure _
  · split
    · exact keeps_pure _
    · exact keeps_ite (keeps_pure _) (keeps_throw _)

/-! ## Post-processing -/

/-- A failed notification is counted. -/
lemma keeps_answerDispatch {s : ItemState} {log : List Entry} (hs : ItemBooks s log)
    (op : DispatchOp) :
    (answerDispatch s op).wp postBookkeeper (fun a log' => ItemBooks a.2 log') log := by
  cases op with
  | send notifier attempt => exact ⟨trivial, fun _ _ => hs.quiet rfl⟩
  | wait seconds => exact ⟨trivial, fun _ _ => hs.quiet rfl⟩
  | failed name =>
    refine ⟨trivial, fun answer _ => ?_⟩
    have hcounted : ItemBooks s (bookkeeper.next log (.run (.post (.dispatch (.failed name))))
        answer) := hs.quiet rfl
    exact hcounted.congr ⟨rfl, rfl, rfl, rfl, rfl, rfl, rfl⟩ ⟨rfl, rfl⟩

/-- The dispatch of a report. -/
lemma keeps_dispatchReport : Keeps postBookkeeper ItemBooks r.dispatchReport := by
  intro s log hs
  have hrun := Prog.wp_interp (M := sendsOnly fun _ => True)
    (I := fun (_ : Unit) s₁ log₁ => ItemBooks s₁ log₁)
    (fun _ _ _ op hs₁ _ => Prog.wp_mono (keeps_answerDispatch hs₁ op) fun _ _ h => ⟨trivial, h⟩) hs
    (Prog.wp_true (Proc.start (dispatch (S := Unit) true r.notifiers) ()) ())
  unfold dispatchReport Proc.wp Proc.start
  rw [Prog.wp_bind]
  refine Prog.wp_mono hrun ?_
  rintro ⟨⟨err | _, _⟩, s₁⟩ log₁ ⟨_, hs₁, -⟩
  · exact hs₁
  · exact hs₁

/-- The report. -/
lemma keeps_reportStage (d : Disposition) :
    Keeps postBookkeeper ItemBooks (r.reportStage d) := by
  refine keeps_get fun s => ?_
  split
  · exact keeps_pure _
  · refine keeps_ite (keeps_bind ?_ fun answer => ?_) (keeps_pure _)
    · exact keeps_call fun _ _ hs => ⟨trivial, fun _ _ => hs.quiet rfl⟩
    · split
      · exact keeps_ite (keeps_pure _) (keeps_throw _)
      · exact keeps_bind keeps_dispatchReport fun _ => keeps_pure _

/-- The callback, which may leave the item with another claim. -/
lemma keeps_callbackStage (d : Disposition) :
    Keeps postBookkeeper ItemBooks (r.callbackStage d) := by
  intro s log hs
  simp only [callbackStage, Proc.wp_bind, Proc.wp_get]
  refine Proc.wp_ite (fun _ => ?_) fun _ => hs
  simp only [Proc.wp_bind, Proc.wp_call, Proc.wp_modify]
  refine ⟨trivial, fun answer _ => ?_⟩
  obtain ⟨raised, left⟩ := answer
  have hleft : ItemBooks { s with item := left } (bookkeeper.next log
      (.run (.post (.afterItem s.item s.transaction d.error))) (raised, left)) := by
    have hentry : entryOf ⟨.run (.post (.afterItem s.item s.transaction d.error)), (raised, left)⟩ =
        if left.id = s.item.id ∧ left.claimToken = s.item.claimToken then none
        else some .meddled := rfl
    by_cases hsame : left.id = s.item.id ∧ left.claimToken = s.item.claimToken
    · rw [next_quiet (hentry.trans (if_pos hsame))]
      exact hs.congr ⟨rfl, rfl, rfl, rfl, rfl, rfl, rfl⟩ hsame
    · rw [next_entry (hentry.trans (if_neg hsame))]
      exact ⟨hs.books.append (by simp), hs.working.append (by simp) (by simp),
        fun hmeddled => absurd (by simp) hmeddled⟩
  dsimp only
  split
  · split
    · exact hleft
    · exact hleft
  · exact hleft

/-! ## The end of an item -/

/-- A call is repeated after a transient lock error, which leaves no entry; in the end it has
returned, or has raised an error. -/
lemma wp_lockRetries {α : Type} {P : Except PyError α → List Entry → Prop} {s : ItemState}
    {log : List Entry} {act exhausted : ItemM (Except PyError α)} (n : ℕ)
    (hact : act.wp itemBookkeeper (fun answer s' log' => s' = s ∧ P answer log' ∧
      ∀ err, answer = .error err → log' = log) (fun _ s' log' => s' = s ∧ log' = log) s log) :
    (lockRetries act exhausted (n + 1)).wp itemBookkeeper
      (fun answer s' log' => s' = s ∧ P answer log') (fun _ s' log' => s' = s ∧ log' = log)
      s log := by
  induction n with
  | zero =>
    simp only [lockRetries, Proc.wp_bind]
    refine Proc.wp_mono hact ?_ fun _ _ _ h => h
    rintro answer s' log' ⟨rfl, hP, herror⟩
    split
    · exact ⟨rfl, hP⟩
    · next err =>
      rw [if_neg (by simp)]
      split
      · exact ⟨rfl, hP⟩
      · exact ⟨rfl, herror err rfl⟩
  | succ n ih =>
    unfold lockRetries
    rw [Proc.wp_bind]
    refine Proc.wp_mono hact ?_ fun _ _ _ h => h
    rintro answer s' log' ⟨rfl, hP, herror⟩
    split
    · exact ⟨rfl, hP⟩
    · next err =>
      obtain rfl := herror err rfl
      split
      · rw [Proc.wp_bind]
        refine ⟨trivial, fun answer _ => ?_⟩
        have hsleep : itemBookkeeper.next log' (.retrySleep (2 - (n + 1))) answer = log' :=
          next_quiet rfl log'
        rw [hsleep]
        exact ih
      · split
        · exact ⟨rfl, hP⟩
        · exact ⟨rfl, rfl⟩

/-- The completion of an item: it is entered if it is acknowledged. -/
lemma wp_completeQueueItemWithRetries {s : ItemState} {log : List Entry} :
    completeQueueItemWithRetries.wp itemBookkeeper
      (fun answer s' log' => s' = s ∧ log' = log ++ match answer with
        | .ok () => [.closed s.item.id s.item.claimToken .successful]
        | .error _ => [])
      (fun _ s' log' => s' = s ∧ log' = log) s log := by
  simp only [completeQueueItemWithRetries, Proc.wp_bind, Proc.wp_get]
  refine wp_lockRetries 2 ⟨trivial, fun answer _ => ?_⟩
  cases answer with
  | ok => exact ⟨rfl, next_entry rfl log, fun _ h => by cases h⟩
  | error err =>
    have hquiet : itemBookkeeper.next log (.complete s.item) (.error err) = log :=
      next_quiet rfl log
    rw [hquiet]
    exact ⟨rfl, (List.append_nil log).symm, fun _ _ => rfl⟩

/-- The failure of an item: it is entered if it is acknowledged with one of its two outcomes. -/
lemma wp_failQueueItemWithRetries {retry : Bool} {s : ItemState} {log : List Entry} :
    (failQueueItemWithRetries retry).wp itemBookkeeper
      (fun answer s' log' => s' = s ∧ match answer with
        | .ok (some outcome) => (outcome = .retryScheduled ∨ outcome = .failed) ∧
          log' = log ++ [.closed s.item.id s.item.claimToken outcome]
        | _ => log' = log)
      (fun _ s' log' => s' = s ∧ log' = log) s log := by
  have hcall : (Proc.call (ItemOp.fail s.item retry) : ItemM (Except PyError Attested)).wp
      itemBookkeeper (fun answer s' log' => s' = s ∧
        log' = log ++ (entryOf ⟨.run (.item (.fail s.item retry)), answer⟩).toList ∧
        ∀ err, answer = .error err → log' = log)
      (fun _ s' log' => s' = s ∧ log' = log) s log := by
    refine ⟨trivial, fun answer _ => ⟨rfl, rfl, ?_⟩⟩
    rintro err rfl
    exact next_quiet rfl log
  simp only [failQueueItemWithRetries, Proc.wp_bind, Proc.wp_get]
  refine Proc.wp_mono (wp_lockRetries 2 hcall) ?_ fun _ _ _ h => h
  rintro answer s' log' ⟨rfl, rfl⟩
  split
  · exact ⟨rfl, List.append_nil log⟩
  · exact ⟨rfl, List.append_nil log⟩
  · exact ⟨rfl, Or.inl rfl, rfl⟩
  · exact ⟨rfl, Or.inr rfl, rfl⟩
  · next attested hnothing hretry hfailed =>
    refine ⟨rfl, ?_⟩
    cases attested with
    | nothing => exact absurd rfl hnothing
    | unknown text => exact List.append_nil log
    | outcome outcome =>
      cases outcome with
      | retryScheduled => exact absurd rfl hretry
      | failed => exact absurd rfl hfailed
      | _ => exact List.append_nil log

/-- A lost lease settles the claim. -/
lemma books_countLeaseLost {s : ItemState} {log : List Entry} (hs : ItemBooks s log) :
    Books log (countLeaseLost s).summary 0 :=
  hs.books.settle rfl rfl rfl rfl rfl (Nat.add_right_comm _ _ _)

/-- **The final transition settles the claim**, unless it raises. -/
theorem wp_settle {d : Disposition} {callbackFailed : Bool} {s : ItemState} {log : List Entry}
    (hs : ItemBooks s log) :
    (r.settle d callbackFailed).wp itemBookkeeper
      (fun _ s' log' => Books log' s'.summary 0 ∧ Working log')
      (fun _ s' log' => Books log' s'.summary 1 ∧ Working log') s log := by
  unfold settle
  refine Proc.wp_ite (fun _ => ⟨books_countLeaseLost hs, hs.working⟩) fun _ => ?_
  refine Proc.wp_ite (fun _ => ?_) fun _ => ?_
  · rw [Proc.wp_bind]
    refine Proc.wp_mono wp_completeQueueItemWithRetries ?_ ?_
    · rintro answer s' log' ⟨rfl, rfl⟩
      cases answer with
      | ok =>
        refine ⟨?_, hs.working.append (by simp) (by simp)⟩
        exact hs.books.close hs.claimed rfl rfl rfl rfl (Nat.add_right_comm _ _ _) rfl rfl rfl
      | error err =>
        rw [List.append_nil]
        split
        · exact ⟨books_countLeaseLost hs, hs.working⟩
        · exact ⟨hs.books, hs.working⟩
        · next h => cases h
    · rintro err s' log' ⟨rfl, rfl⟩
      exact ⟨hs.books, hs.working⟩
  · simp only [Proc.wp_bind, Proc.wp_get]
    refine Proc.wp_mono wp_failQueueItemWithRetries ?_ ?_
    · rintro answer s' log' ⟨rfl, hlog⟩
      split
      · obtain rfl := hlog
        exact ⟨books_countLeaseLost hs, hs.working⟩
      · obtain rfl := hlog
        exact ⟨hs.books, hs.working⟩
      · next outcome =>
        cases outcome with
        | none =>
          obtain rfl := hlog
          exact ⟨hs.books.settle rfl rfl rfl rfl rfl rfl, hs.working⟩
        | some outcome =>
          obtain ⟨houtcome, rfl⟩ := hlog
          refine ⟨?_, hs.working.append (by simp) (by simp)⟩
          rcases houtcome with rfl | rfl
          · exact hs.books.close hs.claimed rfl rfl rfl
              (by simp [countFailed]; omega) rfl rfl rfl rfl
          · exact hs.books.close hs.claimed rfl rfl rfl
              (by simp [countFailed]; omega) rfl rfl rfl rfl
    · rintro err s' log' ⟨rfl, rfl⟩
      exact ⟨hs.books, hs.working⟩

/-- **An item that is processed is settled**, unless an exception leaves it.

**Proof sketch.** Every stage keeps the books of the item, and the last one settles its claim. -/
theorem wp_runClaimedItem {s : ItemState} {log : List Entry} (hs : ItemBooks s log) :
    r.runClaimedItem.wp (bookkeeper.pull LoopOp.run)
      (fun _ s' log' => Books log' s'.summary 0 ∧ Working log')
      (fun _ s' log' => Books log' s'.summary 1 ∧ Working log') s log := by
  have hraised : ∀ (err : PyError) (s' : ItemState) (log' : List Entry), ItemBooks s' log' →
      Books log' s'.summary 1 ∧ Working log' := fun _ _ _ h => ⟨h.books, h.working⟩
  unfold runClaimedItem
  simp only [Proc.wp_bind, Proc.wp_embed]
  refine Proc.wp_mono (keeps_executeStage s log hs) (fun executed s₁ log₁ hs₁ => ?_) hraised
  refine Proc.wp_mono (keeps_heartbeatStage executed s₁ log₁ hs₁)
    (fun checked s₂ log₂ hs₂ => ?_) hraised
  refine Proc.wp_mono (keeps_reportStage checked s₂ log₂ hs₂)
    (fun reported s₃ log₃ hs₃ => ?_) hraised
  refine Proc.wp_mono (keeps_callbackStage reported s₃ log₃ hs₃)
    (fun callbackFailed s₄ log₄ hs₄ => ?_) hraised
  refine Proc.wp_mono (keeps_heartbeatStage reported s₄ log₄ hs₄)
    (fun final s₅ log₅ hs₅ => ?_) hraised
  exact wp_settle hs₅

end Runner

/-! ## The loop -/

/-- The books of a run: one claim is not settled if an exception has left the processing of its
item. The callback at the end was given counters that agree with the log, too. -/
structure RunBooks (log : List Entry) (s : QueueRunSummary) : Prop where
  books : Books log s (if Entry.escaped ∈ log then 1 else 0)
  finished : ∀ summary, Entry.finished summary ∈ log →
    Books log summary (if Entry.escaped ∈ log then 1 else 0)

/-- The books before the callback. -/
structure LoopBooks (s : QueueRunSummary) (log : List Entry) : Prop where
  books : Books log s (if Entry.escaped ∈ log then 1 else 0)
  unfinished : ∀ summary, Entry.finished summary ∉ log

namespace LoopBooks

variable {s : QueueRunSummary} {log : List Entry}

/-- Between two items. -/
lemma of_working (h : Books log s 0) (hworking : Working log) : LoopBooks s log := by
  refine ⟨?_, hworking.finished⟩
  rw [if_neg hworking.escaped]
  exact h

/-- An exception leaves the processing of an item. -/
lemma escape (h : Books log s 1) (hworking : Working log) : LoopBooks s (log ++ [.escaped]) := by
  refine ⟨?_, fun summary hmem => ?_⟩
  · rw [if_pos (List.mem_append_right _ (List.mem_singleton_self _))]
    exact h.append (by simp)
  · rcases List.mem_append.mp hmem with hmem | hmem
    · exact hworking.finished summary hmem
    · cases List.mem_singleton.mp hmem

/-- A call without an entry. -/
lemma quiet (h : LoopBooks s log) {op : LoopOp} {answer : op.Res}
    (hnone : entryOf ⟨op, answer⟩ = none) : LoopBooks s (bookkeeper.next log op answer) := by
  rw [next_quiet hnone]
  exact h

/-- The books of a run without a callback. -/
lemma runBooks (h : LoopBooks s log) : RunBooks log s :=
  ⟨h.books, fun summary hmem => absurd hmem (h.unfinished summary)⟩

end LoopBooks

namespace QueueLoop

open Proc

variable {c : QueueLoop} {s : QueueRunSummary} {log : List Entry}

/-- A claim is entered when it is returned. -/
lemma wp_nextItemWithRetries {n : ℕ} (hs : Books log s 0) (hworking : Working log) :
    (c.nextItemWithRetries n).wp bookkeeper
      (fun item s' log' => Books log' s' 0 ∧ Working log' ∧
        ∀ i, item = some i → Entry.claimed i.id i.claimToken ∈ log')
      (fun _ s' log' => LoopBooks s' log') s log := by
  induction n with
  | zero => exact .of_working hs hworking
  | succ n ih =>
    unfold nextItemWithRetries
    rw [Proc.wp_bind]
    have hstop : (c.stopRequested).wp bookkeeper (fun _ s' log' => s' = s ∧ log' = log)
        (fun _ s' log' => LoopBooks s' log') s log :=
      Proc.wp_ite (fun _ => ⟨trivial, fun _ _ => ⟨rfl, next_quiet rfl log⟩⟩) fun _ => ⟨rfl, rfl⟩
    refine Proc.wp_mono hstop ?_ fun _ _ _ h => h
    rintro stopped s' log' ⟨rfl, rfl⟩
    refine Proc.wp_ite (fun _ => ⟨hs, hworking, by simp⟩) fun _ => ?_
    rw [Proc.wp_bind]
    refine ⟨trivial, fun answer _ => ?_⟩
    cases answer with
    | ok item =>
      cases item with
      | none =>
        have hquiet : bookkeeper.next log' (.nextItem c.worker) (.ok none) = log' :=
          next_quiet rfl log'
        rw [hquiet]
        exact ⟨hs, hworking, by simp⟩
      | some item =>
        have hentry : bookkeeper.next log' (.nextItem c.worker) (.ok (some item)) =
            log' ++ [.claimed item.id item.claimToken] := next_entry rfl log'
        rw [hentry]
        refine ⟨hs.append (by simp), hworking.append (by simp) (by simp), ?_⟩
        rintro i ⟨⟩
        exact List.mem_append_right _ (List.mem_singleton_self _)
    | error err =>
      have hquiet : bookkeeper.next log' (.nextItem c.worker) (.error err) = log' :=
        next_quiet rfl log'
      rw [hquiet]
      refine Proc.wp_ite (fun _ => ?_) fun _ => .of_working hs hworking
      rw [Proc.wp_bind]
      refine ⟨trivial, fun answer _ => ?_⟩
      have hsleep : bookkeeper.next log' (.claimSleep (2 - n)) answer = log' := next_quiet rfl log'
      rw [hsleep]
      exact ih

/-- A claimed item is counted, and settled unless an exception escapes. -/
lemma wp_runItem {item : QueueItem} (hs : Books log s 0) (hworking : Working log)
    (hclaimed : Entry.claimed item.id item.claimToken ∈ log) :
    (c.runItem item).wp bookkeeper (fun _ s' log' => Books log' s' 0 ∧ Working log')
      (fun _ s' log' => LoopBooks s' log') s log := by
  have hcounted : Books log (countProcessed s) 1 :=
    ⟨hs.failed, congrArg (· + 1) hs.processed, hs.completed, hs.retryScheduled, hs.terminalFailed,
      hs.owned⟩
  unfold runItem
  rw [Proc.wp_bind, Proc.wp_modify, Proc.wp_bind, Proc.wp_call]
  refine ⟨trivial, fun started _ => ?_⟩
  cases started with
  | some err =>
    have hentry : bookkeeper.next log (.startHeartbeat item) (some err) = log ++ [.escaped] :=
      next_entry rfl log
    rw [hentry]
    exact .escape hcounted hworking
  | none =>
    have hquiet : bookkeeper.next log (.startHeartbeat item) none = log := next_quiet rfl log
    rw [hquiet]
    dsimp only
    rw [Proc.wp_bind, Proc.wp_attempt]
    have hitem : (c.runClaimedItem item).wp bookkeeper
        (fun _ s' log' => Books log' s' 0 ∧ Working log')
        (fun _ s' log' => Books log' s' 1 ∧ Working log') (countProcessed s) log := by
      have hrun := Runner.wp_runClaimedItem (r := c.runner)
        (s := ⟨countProcessed s, item, none, false, 0⟩) ⟨hcounted, hworking, fun _ => hclaimed⟩
      unfold runClaimedItem Proc.wp Proc.start
      rw [Prog.wp_bind, Prog.wp_embed]
      refine Prog.wp_mono hrun ?_
      rintro ⟨err | goesOn, s'⟩ log' h
      · exact h
      · exact h
    refine Proc.wp_mono hitem ?_ ?_
    · rintro goesOn s' log' ⟨hs', hworking'⟩
      rw [Proc.wp_bind]
      refine ⟨trivial, fun stopped _ => ?_⟩
      have hquiet : bookkeeper.next log' (.stopHeartbeat item none) stopped = log' :=
        next_quiet rfl log'
      rw [hquiet]
      cases stopped with
      | none => exact ⟨hs', hworking'⟩
      | some err => exact .of_working hs' hworking'
    · rintro err s' log' ⟨hs', hworking'⟩
      rw [Proc.wp_bind]
      refine ⟨trivial, fun stopped _ => ?_⟩
      have hentry : bookkeeper.next log' (.stopHeartbeat item (some err)) stopped =
          log' ++ [.escaped] := next_entry rfl log'
      rw [hentry]
      exact .escape hs' hworking'

/-- All items. -/
lemma wp_runItems {n : ℕ} (hs : Books log s 0) (hworking : Working log) :
    (c.runItems n).wp bookkeeper (fun _ s' log' => LoopBooks s' log')
      (fun _ s' log' => LoopBooks s' log') s log := by
  induction n generalizing s log with
  | zero => exact .of_working hs hworking
  | succ n ih =>
    unfold runItems
    rw [Proc.wp_bind]
    refine Proc.wp_mono (wp_nextItemWithRetries hs hworking) ?_ fun _ _ _ h => h
    rintro item s₁ log₁ ⟨hs₁, hworking₁, hclaimed⟩
    cases item with
    | none => exact .of_working hs₁ hworking₁
    | some item =>
      dsimp only
      rw [Proc.wp_bind]
      refine Proc.wp_mono (wp_runItem hs₁ hworking₁ (hclaimed item rfl)) ?_ fun _ _ _ h => h
      rintro goesOn s₂ log₂ ⟨hs₂, hworking₂⟩
      exact Proc.wp_ite (fun _ => ih hs₂ hworking₂) fun _ => .of_working hs₂ hworking₂

/-- A call of the loop without an entry. -/
lemma keeps_quiet {op : LoopOp} (h : ∀ answer, entryOf ⟨op, answer⟩ = none) :
    Keeps bookkeeper LoopBooks (Proc.call op : LoopM op.Res) :=
  keeps_call fun _ _ hs => ⟨trivial, fun answer _ => hs.quiet (h answer)⟩

/-- The items in their resource scope. -/
lemma wp_runScoped {n : ℕ} (hs : Books log s 0) (hworking : Working log) :
    (c.runScoped n).wp bookkeeper (fun _ s' log' => LoopBooks s' log')
      (fun _ s' log' => LoopBooks s' log') s log := by
  refine Proc.wp_ite (fun _ => ?_) fun _ => wp_runItems hs hworking
  rw [Proc.wp_bind, Proc.wp_call]
  refine ⟨trivial, fun entered _ => ?_⟩
  have hquiet : bookkeeper.next log .enterScope entered = log := next_quiet rfl log
  rw [hquiet, Proc.wp_bind, Proc.wp_ofExcept]
  cases entered with
  | error err => exact .of_working hs hworking
  | ok yielded =>
    have hscope : (c.runInScope n yielded).wp bookkeeper (fun _ s' log' => LoopBooks s' log')
        (fun _ s' log' => LoopBooks s' log') s log := by
      cases yielded with
      | none => exact wp_runItems hs hworking
      | some err => exact .of_working hs hworking
    dsimp only
    rw [Proc.wp_bind, Proc.wp_attempt]
    refine Proc.wp_mono hscope (fun ended s' log' hs' => ?_) fun err s' log' hs' => ?_
    · cases ended with
      | false => exact hs'
      | true =>
        refine keeps_bind (keeps_quiet fun _ => rfl) (fun left => ?_) s' log' hs'
        exact keeps_bind (keeps_ofExcept (α := Bool) left) fun _ => keeps_pure true
    · refine keeps_bind (keeps_quiet fun _ => rfl) (fun left => ?_) s' log' hs'
      refine keeps_ite (keeps_bind (keeps_ofExcept left) fun suppressed => ?_) (keeps_throw err)
      exact keeps_ite (keeps_pure true) (keeps_throw err)

/-- The items of a run. -/
lemma wp_runPrepared {n : ℕ} (hs : Books log s 0) (hworking : Working log) :
    (c.runPrepared n).wp bookkeeper (fun _ s' log' => LoopBooks s' log')
      (fun _ s' log' => LoopBooks s' log') s log := by
  refine Proc.wp_ite (fun _ => ?_) fun _ => wp_runScoped hs hworking
  rw [Proc.wp_bind, Proc.wp_call]
  refine ⟨trivial, fun prepared _ => ?_⟩
  have hquiet : bookkeeper.next log .prepareDatabase prepared = log := next_quiet rfl log
  rw [hquiet, Proc.wp_bind, Proc.wp_ofExcept]
  cases prepared with
  | error err => exact .of_working hs hworking
  | ok => exact wp_runScoped hs hworking

/-- The callback at the end is given the counters as they are. -/
lemma wp_finish {outcome : Except PyError Bool} (hs : LoopBooks s log) :
    (c.finish outcome).wp bookkeeper (fun _ s' log' => RunBooks log' s')
      (fun _ s' log' => RunBooks log' s') s log := by
  refine Proc.wp_ite (fun _ => ?_) fun _ => hs.runBooks
  simp only [Proc.wp_bind, Proc.wp_get, Proc.wp_call]
  refine ⟨trivial, fun answer _ => ?_⟩
  have hentry : bookkeeper.next log (.onFinish s) answer = log ++ [.finished s] :=
    next_entry rfl log
  rw [hentry]
  have hbooks : Books (log ++ [.finished s]) s
      (if Entry.escaped ∈ log ++ [.finished s] then 1 else 0) := by
    have happend : Books (log ++ [.finished s]) s (if Entry.escaped ∈ log then 1 else 0) :=
      hs.books.append (by simp)
    simpa using happend
  have hfinished : ∀ summary, Entry.finished summary ∈ log ++ [.finished s] →
      Books (log ++ [.finished s]) summary
        (if Entry.escaped ∈ log ++ [.finished s] then 1 else 0) := by
    intro summary hmem
    rcases List.mem_append.mp hmem with hmem | hmem
    · exact absurd hmem (hs.unfinished summary)
    · cases List.mem_singleton.mp hmem
      exact hbooks
  have hrun : RunBooks (log ++ [.finished s]) s := ⟨hbooks, hfinished⟩
  split
  · exact hrun
  · refine Proc.wp_ite (fun _ => ?_) fun _ => ?_
    · exact ⟨hbooks.congr ⟨rfl, rfl, rfl, rfl, rfl, rfl, rfl⟩, hfinished⟩
    · split
      · exact hrun
      · exact Proc.wp_ite (fun _ => hrun) fun _ => hrun

/-- **The counters agree with the log** at the end of a run, and when the callback is called. A
returned summary is the one that is left. -/
theorem wp_runQueueLoop {n : ℕ} :
    (c.runQueueLoop n).wp bookkeeper
      (fun result s' log' => RunBooks log' s' ∧ ∀ summary, result = some summary → summary = s')
      (fun _ s' log' => RunBooks log' s') {} [] := by
  have hworking : Working [] := ⟨List.not_mem_nil, fun _ => List.not_mem_nil⟩
  unfold runQueueLoop
  rw [Proc.wp_bind, Proc.wp_attempt]
  refine Proc.wp_mono (wp_runPrepared .nil hworking) (fun ended s log hs => ?_)
    fun err s log hs => ?_
  · cases ended with
    | false => exact ⟨hs.runBooks, by simp⟩
    | true =>
      dsimp only
      rw [Proc.wp_bind]
      refine Proc.wp_mono (wp_finish hs) (fun _ s' log' hs' => ?_) fun _ _ _ h => h
      refine ⟨hs', ?_⟩
      rintro summary ⟨⟩
      rfl
  · dsimp only
    rw [Proc.wp_bind]
    exact Proc.wp_mono (wp_finish hs) (fun _ _ _ hs' => hs') fun _ _ _ h => h

end QueueLoop
