import RpaCore.Workers.Turns

set_option relaxedAutoImplicit false
set_option autoImplicit false

/-!
# What a process sends

The turn of a process is read off the events of its call. Whatever a process runs, it saves under
its claim only what its turn may save. A process of an orderly fleet completes an item only where
its turn has earned that, and leaves the binding of items to the first save.

## Main definitions

* `turnOf` — the turn of a process, by the events of its call.
* `Observes` — what a process sends, given its events.
* `FleetCall` — the calls of an orderly fleet.

## Main results

* `Worker.wp_program` — what a runner sends.
* `WorkerCall.wp`, `FleetCall.wp` — what every process sends.
-/

/-! ## Turns of a process -/

/-- A turn begins with the row that was claimed. -/
def Turn.ofRow (row : QueueRow) : Turn :=
  ⟨row.id, row.claimedBy, row.claimToken, row.transactionId, none, true⟩

/-- How an event of a process moves its turn. -/
def Turn.follow (g : Option Turn) : Event WorkerOp WorkerOp.Res → Option Turn
  | ⟨.queue (.claim _ _ _ _), .ok (some row)⟩ => some (.ofRow row)
  | ⟨.load id, .ok (tx, revision)⟩ => g.map (Turn.load id tx revision)
  | ⟨.saveFenced tx _ _ _ _ _, .ok revision⟩ => g.map (Turn.save tx revision)
  | ⟨.outside (.run (.post (.afterItem item _ _))), (_, left)⟩ => g.map (Turn.callback item left)
  | _ => g

/-- The turn of a process, by the events of its call. -/
def turnOf (evs : List (Event WorkerOp WorkerOp.Res)) : Option Turn := evs.foldl Turn.follow none

/-- One more event. -/
@[simp] lemma turnOf_append (evs : List (Event WorkerOp WorkerOp.Res))
    (ev : Event WorkerOp WorkerOp.Res) : turnOf (evs ++ [ev]) = Turn.follow (turnOf evs) ev := by
  simp [turnOf]

/-- What an event makes of a turn. -/
inductive Turn.Moves (g : Option Turn) : Event WorkerOp WorkerOp.Res → Turn → Prop
  | claim {selected : QueueRow} {workerId : String} {now : Datetime} {token : ClaimToken}
      {row : QueueRow} :
      Moves g ⟨.queue (.claim selected workerId now token), .ok (some row)⟩ (.ofRow row)
  | load {turn : Turn} {id : String} {tx : Transaction} {revision : ℤ} (hg : g = some turn) :
      Moves g ⟨.load id, .ok (tx, revision)⟩ (turn.load id tx revision)
  | save {turn : Turn} {tx : Transaction} {queueItemId claimedBy claimToken : String}
      {expectedRevision : ℤ} {initial : Bool} {revision : ℤ} (hg : g = some turn) :
      Moves g ⟨.saveFenced tx queueItemId claimedBy claimToken expectedRevision initial,
        .ok revision⟩ (turn.save tx revision)
  | callback {turn : Turn} {item left : QueueItem} {tx : Option Transaction}
      {error raised : Option PyError} (hg : g = some turn) :
      Moves g ⟨.outside (.run (.post (.afterItem item tx error))), (raised, left)⟩
        (turn.callback item left)
  | quiet {turn : Turn} {ev : Event WorkerOp WorkerOp.Res} (hg : g = some turn) : Moves g ev turn

/-- Where a turn comes from. -/
lemma Turn.follow_moves {g : Option Turn} {ev : Event WorkerOp WorkerOp.Res} {turn : Turn}
    (h : Turn.follow g ev = some turn) : Turn.Moves g ev turn := by
  unfold Turn.follow at h
  split at h
  · cases h
    exact .claim
  · obtain ⟨turn₀, hg, rfl⟩ := Option.map_eq_some_iff.mp h
    exact .load hg
  · obtain ⟨turn₀, hg, rfl⟩ := Option.map_eq_some_iff.mp h
    exact .save hg
  · obtain ⟨turn₀, hg, rfl⟩ := Option.map_eq_some_iff.mp h
    exact .callback hg
  · exact .quiet h

/-- A snapshot that a turn knows was known before, or has just been loaded or saved. -/
lemma Turn.Moves.last {g : Option Turn} {ev : Event WorkerOp WorkerOp.Res} {turn : Turn}
    {snapshot : Transaction} {revision : ℤ} (h : Turn.Moves g ev turn)
    (hlast : turn.last = some (snapshot, revision)) :
    (∃ turn₀, g = some turn₀ ∧ turn₀.last = some (snapshot, revision)) ∨
      (∃ id, ev = ⟨.load id, .ok (snapshot, revision)⟩) ∨
      ∃ queueItemId claimedBy claimToken expectedRevision initial,
        ev = ⟨.saveFenced snapshot queueItemId claimedBy claimToken expectedRevision initial,
          .ok revision⟩ := by
  cases h with
  | claim => cases hlast
  | @load turn₀ id tx revision₀ hg =>
    unfold Turn.load at hlast
    split at hlast
    · cases hlast
      exact Or.inr (Or.inl ⟨id, rfl⟩)
    · exact Or.inl ⟨turn₀, hg, hlast⟩
  | save hg =>
    cases hlast
    exact Or.inr (Or.inr ⟨_, _, _, _, _, rfl⟩)
  | callback hg => exact Or.inl ⟨_, hg, hlast⟩
  | quiet hg => exact Or.inl ⟨_, hg, hlast⟩

/-! ## Statements of a process -/

/-- An orderly statement: an item is completed where the turn has earned that, a step is executed
where the turn may do so, an item is added unbound, and nobody binds an item by hand. -/
def WorkerOp.Orderly (evs : List (Event WorkerOp WorkerOp.Res)) : WorkerOp → Prop
  | .queue (.complete itemId _ _ _) => ∃ turn, turnOf evs = some turn ∧ turn.Earned ∧
      (turn.kept = true → itemId = turn.itemId)
  | .queue (.bindTransaction _ _ _ _) => False
  | .queue (.add _ item) => item.transactionId = ""
  | .outside (.run (.item (.engine (.execute step tx)))) =>
    ∃ turn, turnOf evs = some turn ∧ turn.MayExecute step tx
  | _ => True

/-- What a process sends after some events: legitimate statements of the queue, and fenced saves
that its turn may send, under its claim. In an orderly fleet all statements are orderly. -/
structure Observes (orderly : Bool) (evs : List (Event WorkerOp WorkerOp.Res)) (op : WorkerOp) :
    Prop where
  legit : ∀ statement, op = .queue statement → statement.Legit
  save : ∀ tx itemId claimedBy claimToken expectedRevision initial,
    op = .saveFenced tx itemId claimedBy claimToken expectedRevision initial →
      ∃ turn, turnOf evs = some turn ∧ itemId = turn.itemId ∧ claimedBy = turn.claimedBy ∧
        claimToken = turn.claimToken ∧ turn.MaySave tx expectedRevision initial
  orderly : orderly = true → op.Orderly evs

/-- A load returns the transaction that was asked for. -/
def WorkerOp.Answers : (op : WorkerOp) → op.Res → Prop
  | .load id, .ok (tx, _) => tx.id = id
  | _, _ => True

/-- The monitor that records the events of a process. -/
abbrev observer (orderly : Bool) :
    Monitor WorkerOp WorkerOp.Res (List (Event WorkerOp WorkerOp.Res)) :=
  traceMonitor (Observes orderly) fun _ => WorkerOp.Answers

namespace Observes

variable {b : Bool} {evs : List (Event WorkerOp WorkerOp.Res)}

/-- A statement of the queue. -/
lemma queue {op : QueueOp} (hlegit : op.Legit)
    (horderly : b = true → (WorkerOp.queue op).Orderly evs) : Observes b evs (.queue op) where
  legit := by
    rintro _ ⟨⟩
    exact hlegit
  save := by
    rintro _ _ _ _ _ _ ⟨⟩
  orderly := horderly

/-- A fenced save that the turn may send. -/
lemma saveFenced {turn : Turn} {tx : Transaction} {expectedRevision : ℤ} {initial : Bool}
    (hturn : turnOf evs = some turn) (hmay : turn.MaySave tx expectedRevision initial) :
    Observes b evs
      (.saveFenced tx turn.itemId turn.claimedBy turn.claimToken expectedRevision initial) where
  legit := by
    rintro _ ⟨⟩
  save := by
    rintro _ _ _ _ _ _ ⟨⟩
    exact ⟨turn, hturn, rfl, rfl, rfl, hmay⟩
  orderly _ := trivial

/-- A plain save, which is a matter of nobody's turn. -/
lemma saveTransaction (tx : Transaction) : Observes b evs (.saveTransaction tx) where
  legit := by
    rintro _ ⟨⟩
  save := by
    rintro _ _ _ _ _ _ ⟨⟩
  orderly _ := trivial

/-- A load. -/
lemma load (id : String) : Observes b evs (.load id) where
  legit := by
    rintro _ ⟨⟩
  save := by
    rintro _ _ _ _ _ _ ⟨⟩
  orderly _ := trivial

/-- A call that touches no database. -/
lemma outside {op : LoopOp} (horderly : b = true → (WorkerOp.outside op).Orderly evs) :
    Observes b evs (.outside op) where
  legit := by
    rintro _ ⟨⟩
  save := by
    rintro _ _ _ _ _ _ ⟨⟩
  orderly := horderly

/-- A process of an orderly fleet is one of any fleet. -/
lemma relax {op : WorkerOp} (h : Observes b evs op) : Observes false evs op where
  legit := h.legit
  save := h.save
  orderly := by
    rintro ⟨⟩

end Observes

/-! ## The methods of the queue -/

namespace SqliteQueue

variable {b : Bool} {evs : List (Event WorkerOp WorkerOp.Res)}

/-- The loop of `next_item` begins a turn with the item that it returns. -/
lemma wp_nextItemLoop_turns (q : SqliteQueue) (workerId : String) (n : ℕ) :
    (q.nextItemLoop workerId n).wp ((observer b).pull WorkerOp.queue)
      (fun a _ evs' => ∀ item, a = some (some item) → turnOf evs' = some (.ofItem item))
      (fun _ _ _ => True) () evs := by
  have hsend : ∀ (evs : List (Event WorkerOp WorkerOp.Res)) (op : QueueOp), op.Legit →
      (WorkerOp.queue op).Orderly evs → ((observer b).pull WorkerOp.queue).pre evs op :=
    fun _ _ hlegit horderly => .queue hlegit fun _ => horderly
  induction n generalizing evs with
  | zero => exact fun _ h => by cases h
  | succ n ih =>
    simp only [nextItemLoop, Proc.wp_bind, now, newToken, Proc.wp_call, Proc.wp_ofExcept]
    refine ⟨hsend _ _ trivial trivial, fun moment _ =>
      ⟨hsend _ _ trivial trivial, fun answer _ => ?_⟩⟩
    cases answer with
    | error err => trivial
    | ok row =>
      cases row with
      | none => exact fun _ h => by cases h
      | some row =>
        simp only [Proc.wp_bind, Proc.wp_ofExcept]
        split
        · split
          · split
            · trivial
            · simp only [Proc.wp_bind, Proc.wp_call, Proc.wp_ofExcept]
              refine ⟨hsend _ _ trivial trivial, fun now _ => ⟨hsend _ _ trivial trivial,
                fun createdAt _ => ⟨hsend _ _ trivial trivial, fun answer _ => ?_⟩⟩⟩
              cases answer with
              | error err => trivial
              | ok => exact ih
          · simp only [Proc.wp_bind, Proc.wp_call, Proc.wp_ofExcept]
            refine ⟨hsend _ _ trivial trivial, fun now _ => ⟨hsend _ _ trivial trivial,
              fun token _ => ⟨hsend _ _ trivial trivial, fun answer _ => ?_⟩⟩⟩
            cases answer with
            | error err => trivial
            | ok updated =>
              cases updated with
              | none => exact ih
              | some updated =>
                rintro item ⟨⟩
                exact turnOf_append _ _
        · trivial

/-- `next_item` begins a turn with the item that it returns. -/
lemma wp_nextItemCall_turns (q : SqliteQueue) (workerId : String) (rounds : ℕ) :
    (q.nextItemCall workerId rounds).wp ((observer b).pull WorkerOp.queue)
      (fun a evs' => ∀ item, a = .ok (.item (some item)) → turnOf evs' = some (.ofItem item))
      evs := by
  refine QueueM.program_wp.mpr ?_
  simp only [nextItem, now, Proc.wp_bind, Proc.wp_call, Proc.wp_ofExcept]
  refine ⟨.queue trivial fun _ => trivial, fun now _ => ⟨.queue trivial fun _ => trivial,
    fun answer _ => ?_⟩⟩
  cases answer with
  | error err => exact fun _ h => by cases h
  | ok =>
    refine Proc.wp_mono (q.wp_nextItemLoop_turns workerId rounds) (fun a _ evs' h item ha => ?_)
      fun _ _ _ _ _ h => by cases h
    cases a with
    | none => cases ha
    | some found =>
      refine h item ?_
      cases ha
      rfl

end SqliteQueue

/-! ## The runner -/

namespace Worker

variable {w : Worker} {b : Bool} {g : Option Turn} {evs : List (Event WorkerOp WorkerOp.Res)}

/-- The events of the process show the turn that the runner is in. -/
def InTurn (g : Option Turn) (evs : List (Event WorkerOp WorkerOp.Res)) : Prop :=
  ∀ turn, g = some turn → turnOf evs = some turn

/-- An event that moves the turn. -/
lemma InTurn.map (h : InTurn g evs) {ev : Event WorkerOp WorkerOp.Res} {f : Turn → Turn}
    (hev : ∀ turn, Turn.follow (some turn) ev = some (f turn)) :
    InTurn (g.map f) (evs ++ [ev]) := by
  intro turn hturn
  obtain ⟨turn₀, rfl, rfl⟩ := Option.map_eq_some_iff.mp hturn
  rw [turnOf_append, h turn₀ rfl, hev]

/-- An event that leaves the turn as it is. -/
lemma InTurn.quiet (h : InTurn g evs) {e : Event WorkerOp WorkerOp.Res}
    (he : ∀ turn, Turn.follow (some turn) e = some turn) : InTurn g (evs ++ [e]) := by
  rintro turn rfl
  rw [turnOf_append, h turn rfl, he]

/-- How the calls that process an item are answered: what the runner sends is what it may send in
its turn. -/
lemma wp_answerItem (h : InTurn g evs) (op : ItemOp) (hpre : (itemTurns b).pre g op) :
    (w.answerItem op).wp (observer b) (fun answer evs' => (itemTurns b).admits g op answer ∧
      InTurn ((itemTurns b).next g op answer) evs') evs := by
  have hsend : ∀ op, (WorkerOp.outside op).Orderly evs → Observes b evs (.outside op) :=
    fun _ horderly => .outside fun _ => horderly
  cases op with
  | load id =>
    refine ⟨.load id, fun answer hanswer => ?_⟩
    cases answer with
    | error err => exact ⟨trivial, h.quiet fun _ => rfl⟩
    | ok loaded => exact ⟨hanswer, h.map fun _ => rfl⟩
  | save item tx expectedRevision initial =>
    obtain ⟨turn, rfl, ⟨hid, hby, htoken⟩, hmay⟩ := hpre
    refine ⟨?_, fun answer _ => ?_⟩
    · rw [hid, hby, htoken]
      exact .saveFenced (h turn rfl) hmay
    · cases answer with
      | error err => exact ⟨trivial, h.quiet fun _ => rfl⟩
      | ok revision => exact ⟨trivial, h.map fun _ => rfl⟩
  | complete item =>
    have hearned : b = true → ∃ turn, turnOf evs = some turn ∧ turn.Earned ∧
        (turn.kept = true → item.id = turn.itemId) := by
      intro hb
      obtain ⟨turn, rfl, hearned⟩ := hpre hb
      exact ⟨turn, h turn rfl, hearned⟩
    unfold answerItem
    rw [Prog.wp_bind, Prog.wp_embed, QueueM.program_wp]
    simp only [SqliteQueue.complete, SqliteQueue.now, Proc.wp_bind, Proc.wp_call, Proc.wp_ofExcept]
    refine ⟨.queue trivial fun _ => trivial, fun now _ => ⟨.queue trivial fun hb => ?_,
      fun answer _ => ?_⟩⟩
    · obtain ⟨turn, hturn, hrest⟩ := hearned hb
      refine ⟨turn, (turnOf_append _ _).trans ?_, hrest⟩
      rw [hturn]
      rfl
    · have hquiet := (h.quiet (e := ⟨.queue .clock, now⟩) fun _ => rfl).quiet
        (e := ⟨.queue (.complete item.id item.claimedBy item.claimToken now), answer⟩) fun _ => rfl
      cases answer with
      | error err => exact ⟨trivial, hquiet⟩
      | ok => exact ⟨trivial, hquiet⟩
  | fail item retry =>
    unfold answerItem
    rw [Prog.wp_bind, Prog.wp_embed, QueueM.program_wp]
    simp only [SqliteQueue.fail, SqliteQueue.now, Proc.wp_bind, Proc.wp_call, Proc.wp_ofExcept]
    refine ⟨.queue trivial fun _ => trivial, fun answer _ => ?_⟩
    replace h := h.quiet (e := ⟨.queue (.failRead item.id item.claimedBy item.claimToken), answer⟩)
      fun _ => rfl
    cases answer with
    | error err => exact ⟨trivial, h⟩
    | ok count =>
      refine ⟨.queue trivial fun _ => trivial, fun now _ => ⟨.queue trivial fun _ => trivial,
        fun answer _ => ?_⟩⟩
      replace h := (h.quiet (e := ⟨.queue .clock, now⟩) fun _ => rfl).quiet
        (e := ⟨.queue (.failCommit w.queue item.id item.claimedBy item.claimToken retry count now),
          answer⟩) fun _ => rfl
      cases answer with
      | error err => exact ⟨trivial, h⟩
      | ok outcome => exact ⟨trivial, h⟩
  | build item => exact ⟨hsend _ trivial, fun _ _ => ⟨trivial, h.quiet fun _ => rfl⟩⟩
  | now => exact ⟨hsend _ trivial, fun _ _ => ⟨trivial, h.quiet fun _ => rfl⟩⟩
  | engine op =>
    refine ⟨.outside fun hb => ?_, fun _ _ => ⟨trivial, h.quiet fun _ => rfl⟩⟩
    cases op with
    | execute step tx =>
      obtain ⟨turn, rfl, hmay⟩ := hpre hb
      exact ⟨turn, h turn rfl, hmay⟩
    | checkpoint tx => trivial
    | captureScreenshot directory => trivial
  | heartbeat => exact ⟨hsend _ trivial, fun _ _ => ⟨trivial, h.quiet fun _ => rfl⟩⟩
  | retrySleep attempt => exact ⟨hsend _ trivial, fun _ _ => ⟨trivial, h.quiet fun _ => rfl⟩⟩

/-- How the calls of the loop are answered. -/
lemma wp_answerLoop (h : InTurn g evs) (op : LoopOp) (hpre : (turns b).pre g op) :
    (w.answerLoop op).wp (observer b) (fun answer evs' => (turns b).admits g op answer ∧
      InTurn ((turns b).next g op answer) evs') evs := by
  have hsend : ∀ op, (WorkerOp.outside op).Orderly evs → Observes b evs (.outside op) :=
    fun _ horderly => .outside fun _ => horderly
  cases op with
  | nextItem workerId =>
    unfold answerLoop
    rw [Prog.wp_bind, Prog.wp_embed]
    refine Prog.wp_mono (w.queue.wp_nextItemCall_turns workerId w.rounds)
      fun answer evs' hfound => ⟨trivial, ?_⟩
    cases answer with
    | error err => exact fun _ h => by cases h
    | ok answer =>
      cases answer with
      | item item =>
        cases item with
        | none => exact fun _ h => by cases h
        | some item =>
          rintro turn ⟨⟩
          exact hfound item rfl
      | _ => exact fun _ h => by cases h
  | run op =>
    cases op with
    | item op => exact wp_answerItem h op hpre
    | post op =>
      refine ⟨hsend _ trivial, fun answer _ => ⟨trivial, ?_⟩⟩
      cases op with
      | afterItem item tx error => exact h.map fun _ => rfl
      | generateReport tx => exact h.quiet fun _ => rfl
      | dispatch op => exact h.quiet fun _ => rfl
  | prepareDatabase => exact ⟨hsend _ trivial, fun _ _ => ⟨trivial, h.quiet fun _ => rfl⟩⟩
  | enterScope => exact ⟨hsend _ trivial, fun _ _ => ⟨trivial, h.quiet fun _ => rfl⟩⟩
  | exitScope error => exact ⟨hsend _ trivial, fun _ _ => ⟨trivial, h.quiet fun _ => rfl⟩⟩
  | stopRequested => exact ⟨hsend _ trivial, fun _ _ => ⟨trivial, h.quiet fun _ => rfl⟩⟩
  | claimSleep attempt => exact ⟨hsend _ trivial, fun _ _ => ⟨trivial, h.quiet fun _ => rfl⟩⟩
  | startHeartbeat item => exact ⟨hsend _ trivial, fun _ _ => ⟨trivial, h.quiet fun _ => rfl⟩⟩
  | stopHeartbeat item active => exact ⟨hsend _ trivial, fun _ _ => ⟨trivial, h.quiet fun _ => rfl⟩⟩
  | onFinish summary => exact ⟨hsend _ trivial, fun _ _ => ⟨trivial, h.quiet fun _ => rfl⟩⟩

/-- **What a runner sends**: fenced saves that its turn may send, and, with a transaction database,
completions that its turn has earned. -/
theorem wp_program (w : Worker) (n : ℕ) :
    (w.program n).wp (observer w.loop.runner.hasTransactionDb) (fun _ _ => True) [] := by
  unfold program
  rw [Prog.wp_bind]
  have hloop := QueueLoop.wp_runQueueLoop_turns (c := w.loop) (s := {}) (g := none) (n := n)
  refine Prog.wp_mono (Prog.wp_interp (I := fun g (_ : Unit) evs => InTurn g evs) ?_ ?_ hloop)
    fun _ _ _ => trivial
  · intro g _ evs op h hpre
    rw [Prog.wp_bind]
    exact wp_answerLoop h op hpre
  · exact fun _ h => by cases h

end Worker

/-! ## Every process -/

/-- The calls of an orderly fleet: runners with a transaction database, which complete the items
that they have run, the other methods of the queue, where an item is added unbound, and saves of
any transaction by somebody else. Nobody binds an item by hand, and nobody but a runner completes
one under its claim. -/
inductive FleetCall : WorkerProg → Prop
  | worker (w : Worker) (n : ℕ) (h : w.loop.runner.hasTransactionDb = true) :
      FleetCall (w.program n)
  | add (q : SqliteQueue) (item : QueueItem) (hfresh : item.IsFresh)
      (hunbound : item.transactionId = "") :
      FleetCall (queueProgram ((q.add item).program fun _ => .done))
  | nextItem (q : SqliteQueue) (workerId : String) (rounds : ℕ) :
      FleetCall (queueProgram (q.nextItemCall workerId rounds))
  | renewLease (itemId claimedBy claimToken : String) :
      FleetCall (queueProgram
        ((SqliteQueue.renewLease itemId claimedBy claimToken).program fun _ => .done))
  | fail (q : SqliteQueue) (itemId claimedBy claimToken : String) (retry : Bool) :
      FleetCall (queueProgram ((q.fail itemId claimedBy claimToken retry).program .outcome))
  | forceComplete (q : SqliteQueue) (itemId reason : String) :
      FleetCall (queueProgram ((q.forceComplete itemId reason).program fun _ => .done))
  | forceFail (q : SqliteQueue) (itemId reason : String) (retry : Bool) :
      FleetCall (queueProgram ((q.forceFail itemId reason retry).program fun _ => .done))
  | save (tx : Transaction) : FleetCall (saveProgram tx)

variable {prog : WorkerProg}

/-- An orderly fleet is a fleet. -/
lemma FleetCall.workerCall (h : FleetCall prog) : WorkerCall prog := by
  cases h with
  | worker w n h => exact .worker w n
  | add q item hfresh hunbound => exact .queue (.add q item hfresh)
  | nextItem q workerId rounds => exact .queue (.nextItem q workerId rounds)
  | renewLease itemId claimedBy claimToken => exact .queue (.renewLease itemId claimedBy claimToken)
  | fail q itemId claimedBy claimToken retry =>
    exact .queue (.fail q itemId claimedBy claimToken retry)
  | forceComplete q itemId reason => exact .queue (.forceComplete q itemId reason)
  | forceFail q itemId reason retry => exact .queue (.forceFail q itemId reason retry)
  | save tx => exact .save tx

/-- **What every process sends.** -/
theorem WorkerCall.wp (h : WorkerCall prog) : prog.wp (observer false) (fun _ _ => True) [] := by
  cases h with
  | worker w n =>
    have hrelax : ∀ (evs evs' : List (Event WorkerOp WorkerOp.Res)) (op : WorkerOp), evs = evs' →
        (observer w.loop.runner.hasTransactionDb).pre evs op → (observer false).pre evs' op ∧
          ∀ r, (observer false).admits evs' op r →
            (observer w.loop.runner.hasTransactionDb).admits evs op r ∧
              (observer w.loop.runner.hasTransactionDb).next evs op r =
                (observer false).next evs' op r := by
      rintro evs _ op rfl hpre
      exact ⟨hpre.relax, fun _ hr => ⟨hr, rfl⟩⟩
    exact Prog.wp_mono (Prog.wp_simulate hrelax rfl (w.wp_program n)) fun _ _ _ => trivial
  | @queue calls hcall =>
    have hlegit : ∀ (evs : List (Event QueueOp QueueOp.Res))
        (evs' : List (Event WorkerOp WorkerOp.Res)) (op : QueueOp), True →
        (QueueCall.monitor calls).pre evs op → ((observer false).pull WorkerOp.queue).pre evs' op ∧
          ∀ r, ((observer false).pull WorkerOp.queue).admits evs' op r →
            (QueueCall.monitor calls).admits evs op r ∧ True :=
      fun _ _ _ _ hpre => ⟨.queue hpre.legit (fun h => by cases h), fun _ _ => ⟨trivial, trivial⟩⟩
    unfold queueProgram
    rw [Prog.wp_bind, Prog.wp_embed]
    refine Prog.wp_mono (Prog.wp_simulate (I := fun _ _ => True) hlegit trivial hcall.wp) ?_
    exact fun _ _ _ => trivial
  | save tx => exact ⟨.saveTransaction tx, fun _ _ => trivial⟩

/-- **What every process of an orderly fleet sends.** -/
theorem FleetCall.wp (h : FleetCall prog) : prog.wp (observer true) (fun _ _ => True) [] := by
  have hqueue : ∀ {α : Type} {p : QueueM α} {f : α → QueueAnswer},
      p.wp ((observer true).pull WorkerOp.queue) (fun _ _ _ => True) (fun _ _ _ => True) () [] →
      (queueProgram (p.program f)).wp (observer true) (fun _ _ => True) [] := by
    intro α p f hp
    unfold queueProgram
    rw [Prog.wp_bind, Prog.wp_embed, QueueM.program_wp]
    exact Proc.wp_mono hp (fun _ _ _ _ => trivial) fun _ _ _ _ => trivial
  cases h with
  | worker w n h =>
    have hrun := w.wp_program n
    rwa [h] at hrun
  | add q item hfresh hunbound =>
    refine hqueue ⟨.queue hfresh fun _ => hunbound, fun answer _ => ?_⟩
    cases answer <;> trivial
  | nextItem q workerId rounds =>
    unfold queueProgram
    rw [Prog.wp_bind, Prog.wp_embed]
    exact Prog.wp_mono (q.wp_nextItemCall_turns workerId rounds) fun _ _ _ => trivial
  | renewLease itemId claimedBy claimToken =>
    refine hqueue ⟨.queue trivial fun _ => trivial, fun now _ => ⟨.queue trivial fun _ => trivial,
      fun answer _ => ?_⟩⟩
    cases answer <;> trivial
  | fail q itemId claimedBy claimToken retry =>
    refine hqueue ⟨.queue trivial fun _ => trivial, fun answer _ => ?_⟩
    cases answer with
    | error err => trivial
    | ok count =>
      refine ⟨.queue trivial fun _ => trivial, fun now _ => ⟨.queue trivial fun _ => trivial,
        fun answer _ => ?_⟩⟩
      cases answer <;> trivial
  | forceComplete q itemId reason =>
    refine hqueue ?_
    unfold SqliteQueue.forceComplete SqliteQueue.forceTransition
    split
    · trivial
    · refine ⟨.queue trivial fun _ => trivial, fun now _ =>
        ⟨.queue (Or.inl rfl) fun _ => trivial, fun answer _ => ?_⟩⟩
      cases answer <;> trivial
  | forceFail q itemId reason retry =>
    refine hqueue ?_
    unfold SqliteQueue.forceFail SqliteQueue.forceTransition
    split
    · trivial
    · refine ⟨.queue trivial fun _ => trivial, fun now _ =>
        ⟨.queue (Or.inr rfl) fun _ => trivial, fun answer _ => ?_⟩⟩
      cases answer <;> trivial
  | save tx => exact ⟨.saveTransaction tx, fun _ _ => trivial⟩
