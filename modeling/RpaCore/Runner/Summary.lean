import RpaCore.Queue.Claims
import RpaCore.Runner.Counters
import RpaCore.Runner.PostProcessing

set_option relaxedAutoImplicit false
set_option autoImplicit false

/-!
# Run summaries add up

The runner is one of the processes on a queue: each of its calls of `next_item`, `complete` and
`fail` is a call of that method, during which the other processes may move, too. What the queue
acknowledges is what the tables show: the counters of the summary are the numbers of attempts that
the transitions of the runner have closed.

## Main definitions

* `Closing`, `ownClosings` — the attempts that the transitions of a process closed.
* `CallFor`, `Session` — the run of the queue that goes with the events of a runner.
* `QueueDb.closedBy` — the number of attempts that were closed with an outcome.

## Main results

* `QueueRun.closedBy_eq` — the attempts that were closed are counted by the closings.
* `run_summaries_add_up` — the counters of a run.
-/

/-! ## Closings -/

/-- An attempt that a transition closed. -/
structure Closing where
  itemId : String
  claimToken : String
  outcome : QueueAttemptOutcome
  deriving DecidableEq

/-- The key of the attempt. -/
def Closing.key (x : Closing) : String × String := (x.itemId, x.claimToken)

/-- The attempt that a statement of `complete` or `fail` closed. -/
def closing? : Event QueueOp QueueOp.Res → Option Closing
  | ⟨.complete itemId _ claimToken _, .ok ()⟩ => some ⟨itemId, claimToken, .successful⟩
  | ⟨.failCommit _ itemId _ claimToken _ _ _, .ok outcome⟩ => some ⟨itemId, claimToken, outcome⟩
  | _ => none

/-- The attempt that a step of a process closed. -/
def ownClosing? (p : ℕ) : QueueLabel → Option Closing
  | .start _ _ => none
  | .answer p' ev => if p' = p then closing? ev else none

/-- **The attempts that the transitions of a process closed.** -/
def ownClosings (p : ℕ) (t : List QueueLabel) : List Closing := t.filterMap (ownClosing? p)

/-- The number of attempts with an outcome, among those that were closed by some transitions. -/
def QueueDb.closedBy (db : QueueDb) (closings : List Closing) (outcome : QueueAttemptOutcome) : ℕ :=
  db.attempts.countP fun a =>
    a.outcome = some outcome && (closings.map Closing.key).contains (a.itemId, a.claimToken)

/-- What `fail` returns is a scheduled retry or a failure. -/
lemma QueueRun.fail_outcome {t : List QueueLabel} {P : QueuePool} (h : QueueRun t P) {p : ℕ}
    {outcome : QueueAttemptOutcome} (hp : P.procs p = .pure (.ok (.outcome outcome))) :
    outcome = .retryScheduled ∨ outcome = .failed := by
  obtain ⟨prog, evs, q, itemId, claimedBy, claimToken, retry, count, now, hcur, hlast, -⟩ :=
    h.returned_outcome hp
  obtain ⟨t₁, t₂, rfl⟩ := callOf_mem hcur (List.mem_of_getLast? hlast)
  obtain ⟨Q, Q', hbefore, -, hexec, -⟩ := h.middle
  obtain ⟨-, -, row, -, -, hrow⟩ := QueueOp.Exec.failCommit hbefore.accounted hexec
  exact hrow.imp And.right And.right

/-- A closing belongs to a step of the process. -/
lemma ownClosing?_eq_some {p : ℕ} {l : QueueLabel} {x : Closing} :
    ownClosing? p l = some x ↔ ∃ ev, l = .answer p ev ∧ closing? ev = some x := by
  cases l with
  | start => simp [ownClosing?]
  | answer p' ev =>
    simp only [ownClosing?, Option.ite_none_right_eq_some, PoolLabel.answer.injEq]
    constructor
    · rintro ⟨rfl, hx⟩
      exact ⟨ev, ⟨rfl, rfl⟩, hx⟩
    · rintro ⟨ev', ⟨rfl, rfl⟩, hx⟩
      exact ⟨rfl, hx⟩

/-- The steps of other processes close nothing of this one. -/
lemma ownClosings_filter (p : ℕ) (t : List QueueLabel) :
    ownClosings p t = ownClosings p (t.filter fun l => l.process = p) := by
  unfold ownClosings
  rw [List.filterMap_filter]
  refine List.filterMap_congr fun l _ => ?_
  split
  · rfl
  · next hl =>
    cases l with
    | start => rfl
    | answer p' ev => exact if_neg fun hp => hl (by simp [PoolLabel.process, hp])

/-- What a call closed is what its statements closed. -/
lemma ownClosings_call {p : ℕ} {u : List QueueLabel}
    {prog : Prog QueueOp QueueOp.Res (Except PyError QueueAnswer)}
    {sent : List (Event QueueOp QueueOp.Res)}
    (h : u.filter (fun l => l.process = p) = .start p prog :: sent.map (.answer p)) :
    ownClosings p u = sent.filterMap closing? := by
  rw [ownClosings_filter, h, ownClosings, List.filterMap_cons, List.filterMap_map]
  refine List.filterMap_congr fun ev _ => ?_
  exact if_pos rfl

/-- A transition closes an open attempt, which stays closed. -/
lemma QueueRun.closing {t₁ t₂ : List QueueLabel} {P : QueuePool} {p : ℕ}
    {ev : Event QueueOp QueueOp.Res} {x : Closing} (h : QueueRun (t₁ ++ .answer p ev :: t₂) P)
    (hx : closing? ev = some x) :
    (∃ Q claimedBy, QueueRun t₁ Q ∧ Q.shared.db.Holds x.itemId claimedBy x.claimToken) ∧
      P.shared.db.ClosedAs x.itemId x.claimToken x.outcome := by
  obtain ⟨Q, Q', hbefore, hmiddle, hexec, hafter⟩ := h.middle
  have hkeep := (hmiddle.keepsClosed hafter).2
  unfold closing? at hx
  split at hx
  · cases hx
    obtain ⟨hholds, hclosed⟩ := QueueOp.Exec.complete hbefore.accounted hexec
    exact ⟨⟨Q, _, hbefore, hholds⟩, hclosed.mono hkeep⟩
  · cases hx
    obtain ⟨hholds, hclosed, -⟩ := QueueOp.Exec.failCommit hbefore.accounted hexec
    exact ⟨⟨Q, _, hbefore, hholds⟩, hclosed.mono hkeep⟩
  · cases hx

/-- Every closing belongs to a step of the process. -/
lemma mem_ownClosings {p : ℕ} {t : List QueueLabel} {x : Closing} (hx : x ∈ ownClosings p t) :
    ∃ t₁ ev t₂, t = t₁ ++ .answer p ev :: t₂ ∧ closing? ev = some x := by
  obtain ⟨l, hl, hclosing⟩ := List.mem_filterMap.mp hx
  obtain ⟨t₁, t₂, rfl⟩ := List.append_of_mem hl
  obtain ⟨ev, rfl, hev⟩ := ownClosing?_eq_some.mp hclosing
  exact ⟨t₁, ev, t₂, rfl, hev⟩

/-- Every attempt that was closed stays closed. -/
lemma QueueRun.closedAs {p : ℕ} {t : List QueueLabel} {P : QueuePool} (h : QueueRun t P)
    {x : Closing} (hx : x ∈ ownClosings p t) :
    P.shared.db.ClosedAs x.itemId x.claimToken x.outcome := by
  obtain ⟨t₁, ev, t₂, rfl, hclosing⟩ := mem_ownClosings hx
  exact (h.closing hclosing).2

/-- No attempt is closed twice. -/
lemma QueueRun.nodup_ownClosings (p : ℕ) {t : List QueueLabel} {P : QueuePool}
    (h : QueueRun t P) : ((ownClosings p t).map Closing.key).Nodup := by
  induction t using List.reverseRecOn generalizing P with
  | nil => exact List.nodup_nil
  | append_singleton t l ih =>
    obtain ⟨Q, hbefore, -⟩ := Machine.Run.split h
    have hnodup := ih hbefore
    unfold ownClosings at hnodup ⊢
    rw [List.filterMap_append, List.map_append]
    cases hclosing : ownClosing? p l with
    | none => simpa [hclosing] using hnodup
    | some x =>
      obtain ⟨ev, rfl, hev⟩ := ownClosing?_eq_some.mp hclosing
      have hlast : QueueRun (t ++ .answer p ev :: []) P := h
      obtain ⟨⟨Q', claimedBy, hQ', hholds⟩, -⟩ := hlast.closing hev
      simp only [List.filterMap_cons, hclosing, List.filterMap_nil, List.map_cons, List.map_nil]
      refine List.nodup_append.mpr ⟨hnodup, List.nodup_singleton _, ?_⟩
      rintro key hkey key' hkey' rfl
      obtain ⟨y, hy, hkeys⟩ := List.mem_map.mp hkey
      rw [List.mem_singleton.mp hkey'] at hkeys
      have hclosed := hQ'.closedAs (p := p) hy
      rw [show y.itemId = x.itemId from congrArg Prod.fst hkeys,
        show y.claimToken = x.claimToken from congrArg Prod.snd hkeys] at hclosed
      exact hclosed.not_holds hQ'.accounted hholds

/-- **The attempts that a process has closed are counted by its closings.**

**Proof sketch.** Attempts have different keys, and so have the closings; a closing and the
attempt with its key have the same outcome. -/
theorem QueueRun.closedBy_eq {p : ℕ} {t : List QueueLabel} {P : QueuePool} (h : QueueRun t P)
    (closings : List Closing) (hclosings : closings.Sublist (ownClosings p t))
    (outcome : QueueAttemptOutcome) :
    P.shared.db.closedBy closings outcome = closings.countP fun x => x.outcome = outcome := by
  have hacc := h.accounted
  have hkeys := (h.nodup_ownClosings p).sublist (hclosings.map Closing.key)
  unfold QueueDb.closedBy
  rw [List.countP_eq_length_filter, List.countP_eq_length_filter,
    ← List.length_map fun a : QueueAttemptRow => (a.itemId, a.claimToken),
    ← List.length_map Closing.key]
  refine List.Perm.length_eq ((List.perm_ext_iff_of_nodup ?_ ?_).mpr fun key => ?_)
  · exact hacc.attemptKeyed.sublist (List.filter_sublist.map _)
  · exact hkeys.sublist (List.filter_sublist.map _)
  · constructor
    · intro hkey
      obtain ⟨a, ha, rfl⟩ := List.mem_map.mp hkey
      obtain ⟨hmem, ha⟩ := List.mem_filter.mp ha
      simp only [Bool.and_eq_true, decide_eq_true_eq, List.contains_iff_mem] at ha
      obtain ⟨hout, hclosed⟩ := ha
      obtain ⟨x, hx, hkey⟩ := List.mem_map.mp hclosed
      obtain ⟨b, hb, hitem, htoken, hbout⟩ := h.closedAs (hclosings.subset hx)
      obtain rfl : a = b := by
        refine hacc.attemptKeyed.eq hmem hb ?_
        rw [← hkey]
        exact (Prod.ext hitem htoken).symm
      have houtcome : x.outcome = outcome := Option.some.inj (hbout.symm.trans hout)
      exact List.mem_map.mpr ⟨x, List.mem_filter.mpr ⟨hx, by simpa using houtcome⟩, hkey⟩
    · intro hkey
      obtain ⟨x, hx, rfl⟩ := List.mem_map.mp hkey
      obtain ⟨hmem, houtcome⟩ := List.mem_filter.mp hx
      obtain ⟨a, ha, hitem, htoken, hout⟩ := h.closedAs (hclosings.subset hmem)
      have hkey : (a.itemId, a.claimToken) = x.key := Prod.ext hitem htoken
      refine List.mem_map.mpr ⟨a, List.mem_filter.mpr ⟨ha, ?_⟩, hkey⟩
      have hsame : x.outcome = outcome := by simpa using houtcome
      rw [hkey, hout, hsame]
      simpa using ⟨x, hmem, rfl⟩

/-! ## The runner as a process on the queue -/

/-- A call of the runner to the queue: the method that it calls, and what that returned or raised.
-/
inductive CallFor (q : SqliteQueue) : LoopEvent →
    Prog QueueOp QueueOp.Res (Except PyError QueueAnswer) → Except PyError QueueAnswer → Prop
  | nextItem (workerId : String) (rounds : ℕ) (item : Option QueueItem) :
    CallFor q ⟨.nextItem workerId, .ok item⟩ (q.nextItemCall workerId rounds) (.ok (.item item))
  | nextItemRaises (workerId : String) (rounds : ℕ) (err : PyError) :
    CallFor q ⟨.nextItem workerId, .error err⟩ (q.nextItemCall workerId rounds) (.error err)
  | complete (item : QueueItem) :
    CallFor q ⟨.run (.item (.complete item)), .ok ()⟩
      ((SqliteQueue.complete item.id item.claimedBy item.claimToken).program fun _ => .done)
      (.ok .done)
  | completeRaises (item : QueueItem) (err : PyError) :
    CallFor q ⟨.run (.item (.complete item)), .error err⟩
      ((SqliteQueue.complete item.id item.claimedBy item.claimToken).program fun _ => .done)
      (.error err)
  | fail (item : QueueItem) (retry : Bool) (outcome : QueueAttemptOutcome) :
    CallFor q ⟨.run (.item (.fail item retry)), .ok (.outcome outcome)⟩
      ((q.fail item.id item.claimedBy item.claimToken retry).program .outcome)
      (.ok (.outcome outcome))
  | failRaises (item : QueueItem) (retry : Bool) (err : PyError) :
    CallFor q ⟨.run (.item (.fail item retry)), .error err⟩
      ((q.fail item.id item.claimedBy item.claimToken retry).program .outcome) (.error err)

/-- The call is answered by the queue. -/
def LoopOp.onQueue : LoopOp → Bool
  | .nextItem _ => true
  | .run (.item (.complete _)) => true
  | .run (.item (.fail _ _)) => true
  | _ => false

/-- **The run of the queue that goes with the events of a runner**, which is process `p`. During a
call the other processes may move; so they may between the calls, and there they include the
heartbeats of the runner and what its saves do to the queue. -/
inductive Session (q : SqliteQueue) (p : ℕ) (P₀ : QueuePool) :
    List LoopEvent → List QueueLabel → QueuePool → Prop
  | begin : Session q p P₀ [] [] P₀
  | others {evs : List LoopEvent} {t : List QueueLabel} {P P' : QueuePool} {l : QueueLabel}
    (h : Session q p P₀ evs t P) (hstep : queueMachine.Step QueueCall P l P')
    (hl : l.process ≠ p) : Session q p P₀ evs (t ++ [l]) P'
  | elsewhere {evs : List LoopEvent} {t : List QueueLabel} {P : QueuePool} {ev : LoopEvent}
    (h : Session q p P₀ evs t P) (hev : ev.op.onQueue = false) :
    Session q p P₀ (evs ++ [ev]) t P
  | call {evs : List LoopEvent} {t u : List QueueLabel} {P P' : QueuePool} {ev : LoopEvent}
    {prog : Prog QueueOp QueueOp.Res (Except PyError QueueAnswer)}
    {sent : List (Event QueueOp QueueOp.Res)} {a : Except PyError QueueAnswer}
    (h : Session q p P₀ evs t P) (hrun : queueMachine.Run QueueCall P u P')
    (hown : u.filter (fun l => l.process = p) = .start p prog :: sent.map (.answer p))
    (hreturned : P'.procs p = .pure a) (hcall : CallFor q ev prog a) :
    Session q p P₀ (evs ++ [ev]) (t ++ u) P'

variable {q : SqliteQueue} {p : ℕ} {P₀ P : QueuePool} {evs : List LoopEvent} {t : List QueueLabel}

/-- A session is a run of the queue. -/
lemma Session.run (h : Session q p P₀ evs t P) : queueMachine.Run QueueCall P₀ t P := by
  induction h with
  | begin => exact .nil _
  | others _ hstep _ ih => exact .snoc ih hstep
  | elsewhere _ _ ih => exact ih
  | call _ hrun _ _ _ ih => exact ih.append hrun

/-! ## What the calls close -/

/-- The monitor that records the statements of a call. -/
abbrev sentMonitor : Monitor QueueOp QueueOp.Res (List (Event QueueOp QueueOp.Res)) :=
  traceMonitor (fun _ _ => True) fun _ _ _ => True

/-- `complete` closes the attempt exactly if it returns. -/
lemma wp_complete_closes (itemId claimedBy claimToken : String) :
    ((SqliteQueue.complete itemId claimedBy claimToken).program fun _ => .done).wp sentMonitor
      (fun a sent => sent.filterMap closing? = match a with
        | .ok _ => [Closing.mk itemId claimToken .successful]
        | .error _ => []) [] := by
  refine QueueM.program_wp.mpr ?_
  simp only [SqliteQueue.complete, SqliteQueue.now, Proc.wp_bind, Proc.wp_call, Proc.wp_ofExcept]
  refine ⟨trivial, fun now _ => ⟨trivial, fun answer _ => ?_⟩⟩
  cases answer with
  | ok => rfl
  | error err => rfl

/-- `fail` closes the attempt exactly if it returns, with the outcome it returns. -/
lemma wp_fail_closes (q : SqliteQueue) (itemId claimedBy claimToken : String) (retry : Bool) :
    ((q.fail itemId claimedBy claimToken retry).program .outcome).wp sentMonitor
      (fun a sent => sent.filterMap closing? = match a with
        | .ok (.outcome outcome) => [Closing.mk itemId claimToken outcome]
        | _ => []) [] := by
  refine QueueM.program_wp.mpr ?_
  simp only [SqliteQueue.fail, SqliteQueue.now, Proc.wp_bind, Proc.wp_call, Proc.wp_ofExcept]
  refine ⟨trivial, fun answer _ => ?_⟩
  cases answer with
  | error err => rfl
  | ok count =>
    refine ⟨trivial, fun now _ => ⟨trivial, fun answer _ => ?_⟩⟩
    cases answer with
    | ok outcome => rfl
    | error err => rfl

/-- Nothing was closed so far. -/
def NothingClosed (_ : Unit) (sent : List (Event QueueOp QueueOp.Res)) : Prop :=
  sent.filterMap closing? = []

/-- A statement that closes nothing. -/
lemma keeps_nothingClosed {op : QueueOp} (h : ∀ answer, closing? ⟨op, answer⟩ = none) :
    Proc.Keeps sentMonitor NothingClosed (Proc.call op : QueueM op.Res) := by
  refine Proc.keeps_call fun _ sent hsent => ⟨trivial, fun answer _ => ?_⟩
  change (sent ++ [(⟨op, answer⟩ : Event QueueOp QueueOp.Res)]).filterMap closing? = []
  rw [List.filterMap_append, hsent]
  simp [h answer]

/-- The loop of `next_item` closes nothing. -/
lemma keeps_nextItemLoop (q : SqliteQueue) (workerId : String) (n : ℕ) :
    Proc.Keeps sentMonitor NothingClosed (q.nextItemLoop workerId n) := by
  induction n with
  | zero => exact Proc.keeps_pure _
  | succ n ih =>
    refine Proc.keeps_bind (keeps_nothingClosed fun _ => rfl) fun now => ?_
    refine Proc.keeps_bind (keeps_nothingClosed fun _ => rfl) fun answer => ?_
    refine Proc.keeps_bind (Proc.keeps_ofExcept answer) fun row => ?_
    split
    · exact Proc.keeps_pure _
    · refine Proc.keeps_bind (Proc.keeps_ofExcept _) fun _ => ?_
      split
      · split
        · exact Proc.keeps_throw _
        · refine Proc.keeps_bind (keeps_nothingClosed fun _ => rfl) fun now => ?_
          refine Proc.keeps_bind (keeps_nothingClosed fun _ => rfl) fun createdAt => ?_
          refine Proc.keeps_bind (keeps_nothingClosed fun _ => rfl) fun answer => ?_
          exact Proc.keeps_bind (Proc.keeps_ofExcept answer) fun _ => ih
      · refine Proc.keeps_bind (keeps_nothingClosed fun _ => rfl) fun now => ?_
        refine Proc.keeps_bind (keeps_nothingClosed fun _ => rfl) fun token => ?_
        refine Proc.keeps_bind (keeps_nothingClosed fun _ => rfl) fun answer => ?_
        refine Proc.keeps_bind (Proc.keeps_ofExcept answer) fun updated => ?_
        split
        · exact ih
        · exact Proc.keeps_pure _

/-- `next_item` closes nothing with its transitions. -/
lemma wp_nextItem_closes (q : SqliteQueue) (workerId : String) (rounds : ℕ) :
    (q.nextItemCall workerId rounds).wp sentMonitor
      (fun _ sent => sent.filterMap closing? = []) [] := by
  refine QueueM.program_wp.mpr ?_
  have hkeeps : Proc.Keeps sentMonitor NothingClosed (q.nextItem workerId rounds) := by
    refine Proc.keeps_bind (keeps_nothingClosed fun _ => rfl) fun now => ?_
    refine Proc.keeps_bind (keeps_nothingClosed fun _ => rfl) fun answer => ?_
    exact Proc.keeps_bind (Proc.keeps_ofExcept answer) fun _ =>
      keeps_nextItemLoop q workerId rounds
  exact hkeeps () [] rfl

/-! ## The log and the tables -/

/-- The attempt that an entry closes. -/
def Entry.closing? : Entry → Option Closing
  | closed itemId claimToken outcome => some ⟨itemId, claimToken, outcome⟩
  | _ => none

/-- One more event. -/
lemma entries_append (evs : List LoopEvent) (ev : LoopEvent) :
    entries (evs ++ [ev]) = entries evs ++ (entryOf ev).toList := by
  unfold entries
  rw [List.filterMap_append]
  cases hev : entryOf ev with
  | none => simp [hev]
  | some entry => simp [hev]

/-- A call that is not answered by the queue claims and closes nothing. -/
lemma entryOf_elsewhere {ev : LoopEvent} (hev : ev.op.onQueue = false) :
    (entryOf ev).toList.filterMap Entry.closing? = [] ∧
      ∀ itemId claimToken, Entry.claimed itemId claimToken ∉ (entryOf ev).toList := by
  unfold entryOf
  split
  · cases hev
  · cases hev
  · cases hev
  · cases hev
  · split
    · exact ⟨rfl, by simp⟩
    · exact ⟨rfl, by simp⟩
  · exact ⟨rfl, by simp⟩
  · exact ⟨rfl, by simp⟩
  · exact ⟨rfl, by simp⟩
  · exact ⟨rfl, by simp⟩

/-- What an event of the queue enters is what its call closed. -/
lemma CallFor.closings {t₀ u : List QueueLabel} {P' : QueuePool} {ev : LoopEvent}
    {prog : Prog QueueOp QueueOp.Res (Except PyError QueueAnswer)}
    {sent : List (Event QueueOp QueueOp.Res)} {a : Except PyError QueueAnswer}
    (hcall : CallFor q ev prog a) (hrun : QueueRun (t₀ ++ u) P')
    (hown : u.filter (fun l => l.process = p) = .start p prog :: sent.map (.answer p))
    (hreturned : P'.procs p = .pure a) :
    (entryOf ev).toList.filterMap Entry.closing? = ownClosings p u := by
  have hcur : callOf p (t₀ ++ u) = some (prog, sent) := callOf_of_filter hown
  rw [ownClosings_call hown]
  cases hcall with
  | nextItem workerId rounds item =>
    have hnone := Machine.Run.returned_of_wp (wp_nextItem_closes q workerId rounds) hrun
      (fun _ => ⟨_, rfl⟩) hcur hreturned
    rw [hnone]
    cases item with
    | none => rfl
    | some item => rfl
  | nextItemRaises workerId rounds err =>
    exact (Machine.Run.returned_of_wp (wp_nextItem_closes q workerId rounds) hrun
      (fun _ => ⟨_, rfl⟩) hcur hreturned).symm
  | complete item =>
    exact (Machine.Run.returned_of_wp (wp_complete_closes item.id item.claimedBy item.claimToken)
      hrun (fun _ => ⟨_, rfl⟩) hcur hreturned).symm
  | completeRaises item err =>
    exact (Machine.Run.returned_of_wp (wp_complete_closes item.id item.claimedBy item.claimToken)
      hrun (fun _ => ⟨_, rfl⟩) hcur hreturned).symm
  | fail item retry outcome =>
    have hclosed := Machine.Run.returned_of_wp
      (wp_fail_closes q item.id item.claimedBy item.claimToken retry) hrun (fun _ => ⟨_, rfl⟩) hcur
      hreturned
    rw [hclosed]
    rcases hrun.fail_outcome hreturned with rfl | rfl
    · rfl
    · rfl
  | failRaises item retry err =>
    exact (Machine.Run.returned_of_wp
      (wp_fail_closes q item.id item.claimedBy item.claimToken retry) hrun (fun _ => ⟨_, rfl⟩) hcur
      hreturned).symm

section Sessions

variable {t₀ : List QueueLabel}

/-- **What the log says that was closed, the steps of the runner closed.** -/
lemma Session.closings (h₀ : QueueRun t₀ P₀) (h : Session q p P₀ evs t P) :
    (entries evs).filterMap Entry.closing? = ownClosings p t := by
  induction h with
  | begin => rfl
  | @others evs t P P' l _ _ hl ih =>
    rw [ih]
    unfold ownClosings
    rw [List.filterMap_append]
    have hnone : ownClosing? p l = none := by
      cases l with
      | start => rfl
      | answer p' ev => exact if_neg hl
    simp [hnone]
  | elsewhere _ hev ih =>
    rw [entries_append, List.filterMap_append, ih, (entryOf_elsewhere hev).1, List.append_nil]
  | @call evs t u P P' ev prog sent a hbefore hrun hown hreturned hcall ih =>
    have hwhole : QueueRun ((t₀ ++ t) ++ u) P' :=
      Machine.Run.append (Machine.Run.append h₀ hbefore.run) hrun
    rw [entries_append, List.filterMap_append, ih, hcall.closings hwhole hown hreturned]
    unfold ownClosings
    rw [List.filterMap_append]

/-- **What the log says that was claimed, the runner claimed.** -/
lemma Session.claimed (h₀ : QueueRun t₀ P₀) (h : Session q p P₀ evs t P)
    {itemId claimToken : String} (hclaimed : Entry.claimed itemId claimToken ∈ entries evs) :
    ∃ c ∈ claims t, c.process = p ∧ (c.itemId, c.token.text) = (itemId, claimToken) := by
  induction h with
  | begin => exact absurd hclaimed List.not_mem_nil
  | others _ _ _ ih =>
    obtain ⟨c, hc, hprocess, hkey⟩ := ih hclaimed
    refine ⟨c, ?_, hprocess, hkey⟩
    unfold claims at hc ⊢
    rw [List.filterMap_append]
    exact List.mem_append_left _ hc
  | elsewhere _ hev ih =>
    rw [entries_append] at hclaimed
    rcases List.mem_append.mp hclaimed with hmem | hmem
    · exact ih hmem
    · exact absurd hmem ((entryOf_elsewhere hev).2 itemId claimToken)
  | @call evs t u P P' ev prog sent a hbefore hrun hown hreturned hcall ih =>
    rw [entries_append] at hclaimed
    rcases List.mem_append.mp hclaimed with hmem | hmem
    · obtain ⟨c, hc, hprocess, hkey⟩ := ih hmem
      refine ⟨c, ?_, hprocess, hkey⟩
      unfold claims at hc ⊢
      rw [List.filterMap_append]
      exact List.mem_append_left _ hc
    · have hwhole : QueueRun ((t₀ ++ t) ++ u) P' :=
        Machine.Run.append (Machine.Run.append h₀ hbefore.run) hrun
      cases hcall with
      | nextItem workerId rounds item =>
        cases item with
        | none => exact absurd hmem List.not_mem_nil
        | some item =>
          cases List.mem_singleton.mp hmem
          obtain ⟨prog', evs', hcur, hreturns⟩ := hwhole.returned hreturned (by simp)
          rw [callOf_of_filter hown] at hcur
          cases hcur
          obtain ⟨selected, worker, now, token, row, payload, hlast, rfl⟩ := hreturns.item item rfl
          have hl : PoolLabel.answer p ⟨.claim selected worker now token, .ok (some row)⟩ ∈ u := by
            refine (List.mem_filter.mp (?_ : _ ∈ u.filter fun l => l.process = p)).1
            rw [hown]
            exact List.mem_cons_of_mem _ (List.mem_map_of_mem (List.mem_of_getLast? hlast))
          obtain ⟨u₁, u₂, rfl⟩ := List.append_of_mem hl
          rw [← List.append_assoc] at hwhole
          obtain ⟨hid, -, htoken⟩ := hwhole.claim_committed
          refine ⟨⟨p, selected.id, worker, token⟩, ?_, rfl, ?_⟩
          · simp [claims, PoolLabel.claim?]
          · simp [QueueRow.toItem, hid, htoken]
      | fail item retry outcome =>
        rcases hwhole.fail_outcome hreturned with rfl | rfl
        · exact absurd (List.mem_singleton.mp hmem) (by simp)
        · exact absurd (List.mem_singleton.mp hmem) (by simp)
      | complete item => exact absurd (List.mem_singleton.mp hmem) (by simp)
      | nextItemRaises => exact absurd hmem List.not_mem_nil
      | completeRaises => exact absurd hmem List.not_mem_nil
      | failRaises => exact absurd hmem List.not_mem_nil

/-- Counting entries is counting what they close. -/
lemma countP_entry_closes (log : List Entry) (outcome : QueueAttemptOutcome) :
    log.countP (Entry.closes outcome) =
      (log.filterMap Entry.closing?).countP fun x => x.outcome = outcome := by
  induction log with
  | nil => rfl
  | cons entry log ih =>
    rw [List.countP_cons, ih]
    cases entry with
    | closed itemId claimToken o =>
      change _ = List.countP _ (⟨itemId, claimToken, o⟩ :: log.filterMap Entry.closing?)
      rw [List.countP_cons]
      rfl
    | claimed => rfl
    | meddled => rfl
    | escaped => rfl
    | finished => rfl

/-- The entries that close an attempt with an outcome are as many as the attempts. -/
lemma Session.countP_closes (h₀ : QueueRun t₀ P₀) (h : Session q p P₀ evs t P)
    (outcome : QueueAttemptOutcome) :
    (entries evs).countP (Entry.closes outcome) =
      P.shared.db.closedBy (ownClosings p t) outcome := by
  have hwhole : QueueRun (t₀ ++ t) P := Machine.Run.append h₀ h.run
  have hsub : (ownClosings p t).Sublist (ownClosings p (t₀ ++ t)) :=
    (List.sublist_append_right t₀ t).filterMap _
  rw [hwhole.closedBy_eq _ hsub, countP_entry_closes, h.closings h₀]

end Sessions

/-- The summaries of a run: the one that is left at its end, and the one that the callback is
given. -/
def SummaryOf {α : Type} (run : (α × QueueRunSummary) × List LoopEvent) (s : QueueRunSummary) :
    Prop :=
  s = run.1.2 ∨ ∃ answer, (⟨.onFinish s, answer⟩ : LoopEvent) ∈ run.2

/-- The summary at the end of a run. -/
lemma summaryOf_last {α : Type} (run : (α × QueueRunSummary) × List LoopEvent) :
    SummaryOf run run.1.2 := Or.inl rfl

/-- **Run summaries add up.** Take any content of a queue that its methods can reach, and any run
of the loop on it: any answers of the build function, the engine, the databases, the heartbeats and
the callbacks, any errors of the queue, and any steps of other workers in between, as long as the
calls to the queue are answered by it. At its end, and when the callback is called:

* `failed` is the sum of its four dispositions, and `processed` is the sum of `completed` and
  `failed`, plus one exactly if an exception has left the processing of a claimed item;
* `completed`, `retry_scheduled` and `terminal_failed` are the numbers of attempts that the
  transitions of this run have closed as successful, retry scheduled and failed.

A summary that is returned is the one at the end. The attempts that were closed are those of the
claims of this run, unless a callback leaves an item with the id or the token of another claim.

**Proof sketch.** Every part of the loop keeps the counters in agreement with the log of its calls
(`QueueLoop.wp_runQueueLoop`). What the log says was closed was closed by the statements of the
runner, and a closed attempt stays closed, under a key that no other attempt has. -/
theorem run_summaries_add_up (c : QueueLoop) (n : ℕ)
    {env : List LoopEvent → (op : LoopOp) → op.Res} {q : SqliteQueue} {p : ℕ}
    {t₀ t : List QueueLabel} {P₀ P : QueuePool} (h₀ : QueueRun t₀ P₀)
    (hsession : Session q p P₀ (((c.runQueueLoop n).start {}).run env []).2 t P) :
    let run := ((c.runQueueLoop n).start {}).run env []
    (∀ s, SummaryOf run s →
      s.failed = s.retryScheduled + s.terminalFailed + s.leaseLost + s.transitionUnknown ∧
      s.processed = s.completed + s.failed + (if Entry.escaped ∈ entries run.2 then 1 else 0) ∧
      s.completed = P.shared.db.closedBy (ownClosings p t) .successful ∧
      s.retryScheduled = P.shared.db.closedBy (ownClosings p t) .retryScheduled ∧
      s.terminalFailed = P.shared.db.closedBy (ownClosings p t) .failed) ∧
    (∀ s, run.1.1 = .ok (some s) → s = run.1.2) ∧
    (Entry.meddled ∉ entries run.2 → ∀ x ∈ ownClosings p t, ∃ claim ∈ claims t,
      claim.process = p ∧ (claim.itemId, claim.token.text) = x.key) := by
  intro run
  obtain ⟨evs, hevs, -, hpost⟩ := Prog.wp_run env (M := bookkeeper) (g := []) (t := [])
    (QueueLoop.wp_runQueueLoop (c := c) (n := n)) fun _ _ => trivial
  rw [List.nil_append] at hevs hpost
  have hlog : bookkeeper.replay [] evs = entries run.2 := by
    rw [replay_bookkeeper, List.nil_append]
    exact congrArg entries hevs.symm
  rw [hlog] at hpost
  have hbooks : RunBooks (entries run.2) run.1.2 ∧
      ∀ s, run.1.1 = .ok (some s) → s = run.1.2 := by
    change Proc.post _ _ run.1 _ at hpost
    generalize run.1 = result at hpost ⊢
    obtain ⟨err | returned, s'⟩ := result
    · exact ⟨hpost, by simp⟩
    · refine ⟨hpost.1, ?_⟩
      rintro s ⟨⟩
      exact hpost.2 s rfl
  obtain ⟨hrun, hreturned⟩ := hbooks
  refine ⟨fun s hs => ?_, hreturned, fun hmeddled x hx => ?_⟩
  · have hadd : Books (entries run.2) s (if Entry.escaped ∈ entries run.2 then 1 else 0) := by
      rcases hs with rfl | ⟨answer, hmem⟩
      · exact hrun.books
      · exact hrun.finished s (List.mem_filterMap.mpr ⟨_, hmem, rfl⟩)
    refine ⟨hadd.failed, hadd.processed, ?_, ?_, ?_⟩
    · rw [hadd.completed, hsession.countP_closes h₀]
    · rw [hadd.retryScheduled, hsession.countP_closes h₀]
    · rw [hadd.terminalFailed, hsession.countP_closes h₀]
  · rw [← hsession.closings h₀] at hx
    obtain ⟨entry, hentry, hclosing⟩ := List.mem_filterMap.mp hx
    cases entry with
    | closed itemId claimToken outcome =>
      cases hclosing
      exact hsession.claimed h₀ (hrun.books.owned hmeddled itemId claimToken outcome hentry)
    | claimed => cases hclosing
    | meddled => cases hclosing
    | escaped => cases hclosing
    | finished => cases hclosing

/-! ## A run with nobody else on the queue -/

/-- The call to `plainQueue` that an operation makes. -/
def LoopOp.call? : LoopOp → Option (Prog QueueOp QueueOp.Res (Except PyError QueueAnswer))
  | .nextItem workerId => some (plainQueue.nextItemCall workerId 2)
  | .run (.item (.complete item)) =>
    some ((SqliteQueue.complete item.id item.claimedBy item.claimToken).program fun _ => .done)
  | .run (.item (.fail item retry)) =>
    some ((plainQueue.fail item.id item.claimedBy item.claimToken retry).program .outcome)
  | _ => none

/-- The answer of a call to the queue, from what its method returned or raised. -/
def LoopOp.read : (op : LoopOp) → Except PyError QueueAnswer → Option op.Res
  | .nextItem _, .ok (.item item) => some (.ok item)
  | .nextItem _, .error err => some (.error err)
  | .run (.item (.complete _)), .ok .done => some (.ok ())
  | .run (.item (.complete _)), .error err => some (.error err)
  | .run (.item (.fail _ _)), .ok (.outcome outcome) => some (.ok (.outcome outcome))
  | .run (.item (.fail _ _)), .error err => some (.error err)
  | _, _ => none

/-- What a call returns or raises if nobody interferes. -/
def LoopOp.alone (op : LoopOp) (P : QueuePool) : Option (Except PyError QueueAnswer × QueuePool) :=
  op.call?.map fun prog => ((prog.solve (QueueOp.answer ⟨0, some 0⟩) P.shared).1,
    P.solve (QueueOp.answer ⟨0, some 0⟩) 1 prog)

/-- The queue after an operation. -/
def aloneAfter (P : QueuePool) (op : LoopOp) : QueuePool := (op.alone P).elim P Prod.snd

/-- The answers of the calls that are not answered by the queue, when nothing fails. -/
def quietAnswer : (op : LoopOp) → op.Res
  | .prepareDatabase => .ok ()
  | .enterScope => .ok none
  | .exitScope _ => .ok false
  | .stopRequested => false
  | .nextItem _ => .ok none
  | .claimSleep _ => ()
  | .startHeartbeat _ => none
  | .stopHeartbeat _ _ => none
  | .run op => Runner.smoothEnv [] op
  | .onFinish _ => none

/-- The answers of a run on a queue with one item, with nobody else on it. -/
def aloneEnv (evs : List LoopEvent) (op : LoopOp) : op.Res :=
  (((op.alone (evs.foldl (fun P ev => aloneAfter P ev.op) addedPool)).bind
    fun r => op.read r.1).getD (quietAnswer op))

/-- The calls to the queue among events return or raise what their method does. -/
def allRead : QueuePool → List LoopEvent → Bool
  | _, [] => true
  | P, ev :: evs =>
    ((ev.op.alone P).elim (!ev.op.onQueue) fun r => (ev.op.read r.1).isSome) &&
      allRead (aloneAfter P ev.op) evs

/-- What is read off the result of a method is its answer. -/
lemma callFor_read {op : LoopOp} {prog : Prog QueueOp QueueOp.Res (Except PyError QueueAnswer)}
    {a : Except PyError QueueAnswer} {answer : op.Res} (hcall : op.call? = some prog)
    (hread : op.read a = some answer) :
    QueueCall prog ∧ CallFor plainQueue ⟨op, answer⟩ prog a := by
  unfold LoopOp.read at hread
  split at hread
  · cases hcall
    cases hread
    exact ⟨.nextItem _ _ _, .nextItem _ _ _⟩
  · cases hcall
    cases hread
    exact ⟨.nextItem _ _ _, .nextItemRaises _ _ _⟩
  · cases hcall
    cases hread
    exact ⟨.complete _ _ _, .complete _⟩
  · cases hcall
    cases hread
    exact ⟨.complete _ _ _, .completeRaises _ _⟩
  · cases hcall
    cases hread
    exact ⟨.fail _ _ _ _ _, .fail _ _ _⟩
  · cases hcall
    cases hread
    exact ⟨.fail _ _ _ _ _, .failRaises _ _ _⟩
  · cases hread

/-- Events that are answered in this way belong to a session. -/
lemma session_alone {evs₀ evs : List LoopEvent} {t : List QueueLabel} {P : QueuePool}
    (h : Session plainQueue 1 addedPool evs₀ t P) (hshort : P.shared.ShortTokens)
    (hidle : ∃ a, P.procs 1 = .pure a)
    (hP : P = evs₀.foldl (fun P ev => aloneAfter P ev.op) addedPool)
    (hevs : ∀ a ev b, evs = a ++ ev :: b → ev.res = aloneEnv (evs₀ ++ a) ev.op)
    (hread : allRead P evs = true) :
    ∃ t' P', Session plainQueue 1 addedPool (evs₀ ++ evs) t' P' := by
  induction evs generalizing evs₀ t P with
  | nil => exact ⟨t, P, by simpa using h⟩
  | cons ev evs ih =>
    rw [allRead, Bool.and_eq_true] at hread
    obtain ⟨hev, hrest⟩ := hread
    have hres : ev.res = aloneEnv evs₀ ev.op := by simpa using hevs [] ev evs rfl
    have hnext : ∀ {t' : List QueueLabel},
        Session plainQueue 1 addedPool (evs₀ ++ [ev]) t' (aloneAfter P ev.op) →
        (aloneAfter P ev.op).shared.ShortTokens → (∃ a, (aloneAfter P ev.op).procs 1 = .pure a) →
        ∃ t' P', Session plainQueue 1 addedPool (evs₀ ++ ev :: evs) t' P' := by
      intro t' hsession hshort' hidle'
      obtain ⟨t'', P'', h'⟩ := ih hsession hshort' hidle' (by rw [List.foldl_append, ← hP]; rfl)
        (fun a ev' b heq => by
          rw [List.append_assoc]
          exact hevs (ev :: a) ev' b (by rw [heq]; rfl)) hrest
      exact ⟨t'', P'', by simpa using h'⟩
    cases hcall : ev.op.call? with
    | none =>
      have halone : ev.op.alone P = none := by rw [LoopOp.alone, hcall]; rfl
      have hafter : aloneAfter P ev.op = P := by rw [aloneAfter, halone]; rfl
      rw [halone] at hev
      rw [hafter] at hnext
      exact hnext (h.elsewhere (by simpa using hev)) hshort hidle
    | some prog =>
      have halone : ev.op.alone P = some ((prog.solve (QueueOp.answer ⟨0, some 0⟩) P.shared).1,
          P.solve (QueueOp.answer ⟨0, some 0⟩) 1 prog) := by rw [LoopOp.alone, hcall]; rfl
      rw [halone] at hev
      obtain ⟨answer, hanswer⟩ := Option.isSome_iff_exists.mp hev
      have hev' : ev = ⟨ev.op, answer⟩ := by
        obtain ⟨op, res⟩ := ev
        simp only [aloneEnv, ← hP, halone, Option.bind_some, hanswer, Option.getD_some] at hres
        rw [hres]
      obtain ⟨hqueue, hfor⟩ := callFor_read hcall hanswer
      rw [← hev'] at hfor
      obtain ⟨a, ha⟩ := hidle
      obtain ⟨hrun, hshort'⟩ := Machine.Run.solve (QueueOp.exec_answer ⟨0, some 0⟩) (.nil P) hshort
        ha hqueue
      have hafter : aloneAfter P ev.op = P.solve (QueueOp.answer ⟨0, some 0⟩) 1 prog := by
        rw [aloneAfter, halone]; rfl
      rw [hafter] at hnext
      have hreturned : (P.solve (QueueOp.answer ⟨0, some 0⟩) 1 prog).procs 1 =
          .pure (prog.solve (QueueOp.answer ⟨0, some 0⟩) P.shared).1 := by
        simp [Pool.solve]
      have hown : (P.solveLabels (QueueOp.answer ⟨0, some 0⟩) 1 prog).filter
          (fun l => l.process = 1) = P.solveLabels (QueueOp.answer ⟨0, some 0⟩) 1 prog := by
        refine List.filter_eq_self.mpr fun l hl => ?_
        rcases List.mem_cons.mp hl with rfl | hl
        · rfl
        · obtain ⟨ev', -, rfl⟩ := List.mem_map.mp hl
          rfl
      exact hnext (h.call hrun hown hreturned hfor) hshort' ⟨_, hreturned⟩

/-- A loop without a stop event and a resource scope. -/
def plainLoop : QueueLoop where
  runner := Runner.watchedRunner
  workerId := "w"
  hostname := ""
  builtInClaim := true
  hasStopEvent := false
  hasScope := false
  hasOnFinish := true

/-- The run of that loop on a queue with one item. -/
abbrev plainRun : (Except PyError (Option QueueRunSummary) × QueueRunSummary) × List LoopEvent :=
  ((plainLoop.runQueueLoop 2).start {}).run aloneEnv []

/-- One item is processed and completed. -/
theorem run_summaries_add_up_completed :
    plainRun.1.2.completed = 1 ∧
    ∃ t P, Session plainQueue 1 addedPool plainRun.2 t P ∧
      plainRun.1.2.completed = P.shared.db.closedBy (ownClosings 1 t) .successful := by
  have hread : allRead addedPool plainRun.2 = true := by decide +kernel
  have hcompleted : plainRun.1.2.completed = 1 := by decide +kernel
  obtain ⟨hadd, hshort⟩ := Machine.Run.solve (QueueOp.exec_answer ⟨0, some 0⟩)
    (.nil idlePool : QueueRun [] idlePool) (by simp [QueueSystem.ShortTokens, QueueSystem.init,
      idlePool]) (p := 0) rfl (QueueCall.add plainQueue plainItem ⟨rfl, rfl, rfl, rfl⟩)
  have hidle : ∃ a, addedPool.procs 1 = .pure a := ⟨.ok .done, rfl⟩
  have hres : ∀ a ev b, plainRun.2 = a ++ ev :: b → ev.res = aloneEnv ([] ++ a) ev.op :=
    fun a ev b heq => Prog.run_res aloneEnv _ heq
  have hsession := session_alone .begin hshort hidle rfl hres hread
  rw [List.nil_append] at hsession
  obtain ⟨t, P, hsession⟩ := hsession
  obtain ⟨hsummary, -⟩ := run_summaries_add_up plainLoop 2 hadd hsession
  have hlast := summaryOf_last plainRun
  obtain ⟨-, -, hdone, -⟩ := hsummary plainRun.1.2 hlast
  exact ⟨hcompleted, t, P, hsession, hdone⟩
