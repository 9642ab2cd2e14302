import RpaCore.Checkpoint.Basic
import RpaCore.Queue.Methods
import RpaCore.Runner.Summary

set_option relaxedAutoImplicit false
set_option autoImplicit false

/-!
# Workers on the two databases

The system that the runners make up: any number of processes, each of which runs
`run_queue_loop`, a method of `SqliteQueue` or `save_transaction`, on one queue database and one
transaction database. A call of the runner is the program of the statements it sends: a fenced
save is one transaction over both databases, `complete` and `fail` are the methods of the queue,
and what the runner asks of the user's code, of the clock and of its heartbeat is answered in any
way. The renewals of a heartbeat are calls of a process of their own. A process may stop at any
statement for ever.

## Main definitions

* `WorkerOp` — the statements, with their answers.
* `Worker.program` — `run_queue_loop` as the statements it sends.
* `WorkerSystem`, `workerMachine` — the databases, and how they answer.
* `WorkerCall`, `WorkerRun` — what a process may run, and the runs of any number of them.
-/

/-! ## Statements -/

/-- What a process sends: a statement of the queue, a save or a load of a transaction, or a call
that touches no database. -/
inductive WorkerOp
  | queue (op : QueueOp)
  | saveFenced (tx : Transaction) (queueItemId claimedBy claimToken : String)
      (expectedRevision : ℤ) (initial : Bool)
  | saveTransaction (tx : Transaction)
  | load (id : String)
  | outside (op : LoopOp)

/-- What a statement is answered with. -/
abbrev WorkerOp.Res : WorkerOp → Type
  | .queue op => op.Res
  | .saveFenced _ _ _ _ _ _ => Except PyError ℤ
  | .saveTransaction _ => Except PyError Unit
  | .load _ => Except PyError (Transaction × ℤ)
  | .outside op => op.Res

/-- A program of a process. What it returns matters to nobody else. -/
abbrev WorkerProg := Prog WorkerOp WorkerOp.Res Unit

/-- A call of a method of the queue. -/
def queueProgram (prog : Prog QueueOp QueueOp.Res (Except PyError QueueAnswer)) : WorkerProg :=
  (prog.embed WorkerOp.queue).bind fun _ => .pure ()

/-- A call of `save_transaction`. -/
def saveProgram (tx : Transaction) : WorkerProg :=
  .call (.saveTransaction tx) fun _ => .pure ()

/-! ## The program of a runner -/

/-- A runner with the queue object that it was given, and the number of rounds after which the
loop of `next_item` is cut off. -/
structure Worker where
  queue : SqliteQueue
  loop : QueueLoop
  rounds : ℕ

namespace Worker

/-- What `next_item` returned; a loop that was cut off has found no item so far. -/
def foundItem : QueueAnswer → Option QueueItem
  | .item item => item
  | _ => none

/-- What `fail` returned. -/
def attested : QueueAnswer → Attested
  | .outcome outcome => .outcome outcome
  | _ => .nothing

variable (w : Worker)

/-- How the calls that process an item are answered. -/
def answerItem : (op : ItemOp) → Prog WorkerOp WorkerOp.Res op.Res
  | .load id => .call (.load id) .pure
  | .save item tx expectedRevision initial =>
    .call (.saveFenced tx item.id item.claimedBy item.claimToken expectedRevision initial) .pure
  | .complete item =>
    (((SqliteQueue.complete item.id item.claimedBy item.claimToken).program
      fun _ => .done).embed WorkerOp.queue).bind fun answer => .pure (answer.map fun _ => ())
  | .fail item retry =>
    (((w.queue.fail item.id item.claimedBy item.claimToken retry).program .outcome).embed
      WorkerOp.queue).bind fun answer => .pure (answer.map attested)
  | .build item => .call (.outside (.run (.item (.build item)))) .pure
  | .now => .call (.outside (.run (.item .now))) .pure
  | .engine op => .call (.outside (.run (.item (.engine op)))) .pure
  | .heartbeat => .call (.outside (.run (.item .heartbeat))) .pure
  | .retrySleep attempt => .call (.outside (.run (.item (.retrySleep attempt)))) .pure

/-- How the calls of the loop are answered. -/
def answerLoop : (op : LoopOp) → Prog WorkerOp WorkerOp.Res op.Res
  | .nextItem workerId =>
    ((w.queue.nextItemCall workerId w.rounds).embed WorkerOp.queue).bind fun answer =>
      .pure (answer.map foundItem)
  | .run (.item op) => w.answerItem op
  | .run (.post op) => .call (.outside (.run (.post op))) .pure
  | .prepareDatabase => .call (.outside .prepareDatabase) .pure
  | .enterScope => .call (.outside .enterScope) .pure
  | .exitScope error => .call (.outside (.exitScope error)) .pure
  | .stopRequested => .call (.outside .stopRequested) .pure
  | .claimSleep attempt => .call (.outside (.claimSleep attempt)) .pure
  | .startHeartbeat item => .call (.outside (.startHeartbeat item)) .pure
  | .stopHeartbeat item active => .call (.outside (.stopHeartbeat item active)) .pure
  | .onFinish summary => .call (.outside (.onFinish summary)) .pure

/-- **`run_queue_loop` as the statements it sends**, for at most `n` items. -/
def program (n : ℕ) : WorkerProg :=
  (((w.loop.runQueueLoop n).start {}).interp
    (fun _ op => (w.answerLoop op).bind fun answer => .pure (answer, ())) ()).bind
      fun _ => .pure ()

end Worker

/-! ## The databases -/

/-- The queue database with the tokens that were handed out so far, and the transaction
database. -/
structure WorkerSystem where
  queue : QueueSystem
  transactions : TransactionDb

/-- The tables of both databases. -/
def WorkerSystem.store (s : WorkerSystem) : Store := ⟨s.queue.db, s.transactions⟩

/-- Two new databases. -/
def WorkerSystem.init : WorkerSystem := ⟨QueueSystem.init, TransactionDb.empty⟩

/-- A write transaction over both databases: atomic, and possibly kept out by a lock. -/
def WorkerSystem.Writes {α : Type} (s : WorkerSystem) (run : Store → Except PyError (α × Store))
    (r : Except PyError α) (s' : WorkerSystem) : Prop :=
  s'.queue.issued = s.queue.issued ∧ Atomically PyError.IsOperational run s.store r s'.store

/-- How the statements are answered. -/
def WorkerOp.Exec (s : WorkerSystem) : (op : WorkerOp) → op.Res → WorkerSystem → Prop
  | .queue op, r, s' => op.Exec s.queue r s'.queue ∧ s'.transactions = s.transactions
  | .saveFenced tx queueItemId claimedBy claimToken expectedRevision initial, r, s' =>
    s.Writes (Store.saveFenced tx queueItemId claimedBy claimToken expectedRevision initial) r s'
  | .saveTransaction tx, r, s' =>
    s.Writes (fun store => (store.save tx).map fun store' => ((), store')) r s'
  | .load id, r, s' =>
    s.Writes (fun store => (store.transactions.load id).map fun loaded => (loaded, store)) r s'
  | .outside _, _, s' => s' = s

/-- The databases as the machine that answers all processes. -/
def workerMachine : Machine WorkerOp WorkerOp.Res WorkerSystem := ⟨WorkerOp.Exec⟩

/-! ## Runs -/

/-- What a process may run: a runner for any number of items, any method of the queue with any
arguments, where an item is added fresh, and a save of any transaction by somebody else. -/
inductive WorkerCall : WorkerProg → Prop
  | worker (w : Worker) (n : ℕ) : WorkerCall (w.program n)
  | queue {prog : Prog QueueOp QueueOp.Res (Except PyError QueueAnswer)} (h : QueueCall prog) :
      WorkerCall (queueProgram prog)
  | save (tx : Transaction) : WorkerCall (saveProgram tx)

/-- A step of the system. -/
abbrev WorkerLabel := PoolLabel WorkerOp WorkerOp.Res Unit

/-- Processes on the two databases. -/
abbrev WorkerPool := Pool WorkerOp WorkerOp.Res WorkerSystem Unit

/-- The runs of any number of processes from two new databases. -/
def WorkerRun (t : List WorkerLabel) (P : WorkerPool) : Prop :=
  workerMachine.Run WorkerCall ⟨WorkerSystem.init, fun _ => .pure ()⟩ t P

/-! ## What the statements do -/

/-- A write transaction leaves the databases as they were, or commits. -/
lemma WorkerSystem.Writes.cases {α : Type} {s s' : WorkerSystem}
    {run : Store → Except PyError (α × Store)} {r : Except PyError α} (h : s.Writes run r s') :
    (s' = s ∧ ∃ err, r = .error err) ∨ ∃ a, r = .ok a ∧ run s.store = .ok (a, s'.store) := by
  obtain ⟨hissued, hatom⟩ := h
  have hsame : s'.store = s.store → s' = s := by
    intro hstore
    obtain ⟨⟨db, issued⟩, transactions⟩ := s
    obtain ⟨⟨db', issued'⟩, transactions'⟩ := s'
    obtain rfl : issued' = issued := hissued
    obtain ⟨rfl, rfl⟩ := Store.mk.inj hstore
    rfl
  generalize hstore : s'.store = store at hatom hsame ⊢
  cases hatom with
  | commit hrun => exact Or.inr ⟨_, rfl, hrun⟩
  | raise hrun => exact Or.inl ⟨hsame rfl, _, rfl⟩
  | kept hlocked => exact Or.inl ⟨hsame rfl, _, rfl⟩

/-- A load changes nothing, and returns what the database holds. -/
lemma WorkerOp.Exec.load {s s' : WorkerSystem} {id : String}
    {r : Except PyError (Transaction × ℤ)} (h : WorkerOp.Exec s (.load id) r s') :
    s' = s ∧ ∀ loaded, r = .ok loaded → s.transactions.load id = .ok loaded := by
  rcases h.cases with ⟨rfl, err, rfl⟩ | ⟨loaded, rfl, hrun⟩
  · exact ⟨rfl, fun _ h => by cases h⟩
  · obtain ⟨loaded', hload, heq⟩ := Except.map_eq_ok.mp hrun
    obtain ⟨rfl, hstore⟩ := Prod.mk.inj heq
    obtain ⟨⟨db, issued⟩, transactions⟩ := s
    obtain ⟨⟨db', issued'⟩, transactions'⟩ := s'
    obtain rfl : issued' = issued := h.1
    obtain ⟨rfl, rfl⟩ := Store.mk.inj hstore
    exact ⟨rfl, fun _ h => by cases h; exact hload⟩

/-! ## Runs that can be computed -/

/-- A write transaction that nobody keeps out. -/
def WorkerSystem.commit {α : Type} (s : WorkerSystem) (run : Store → Except PyError (α × Store)) :
    Except PyError α × WorkerSystem :=
  match run s.store with
  | .ok (a, store) => (.ok a, ⟨⟨store.queue, s.queue.issued⟩, store.transactions⟩)
  | .error err => (.error err, s)

/-- It is a write transaction. -/
lemma WorkerSystem.writes_commit {α : Type} (s : WorkerSystem)
    (run : Store → Except PyError (α × Store)) :
    s.Writes run (s.commit run).1 (s.commit run).2 := by
  unfold commit
  cases hrun : run s.store with
  | ok answered => exact ⟨rfl, .commit hrun⟩
  | error err => exact ⟨rfl, .raise hrun⟩

/-- The answers outside the databases: every item is given a transaction with one step, and nothing
fails. -/
def builtAnswer (moment : Datetime) : (op : LoopOp) → op.Res
  | .run (.item (.build _)) =>
    .ok (Transaction.create "T" "1" moment [Step.create "a" 1] ⟨"d", by decide⟩)
  | op => quietAnswer op

/-- Databases that let everybody in. -/
def WorkerOp.answer (moment : Datetime) (s : WorkerSystem) : (op : WorkerOp) → op.Res × WorkerSystem
  | .queue op =>
    let answered := op.answer moment s.queue
    (answered.1, ⟨answered.2, s.transactions⟩)
  | .saveFenced tx queueItemId claimedBy claimToken expectedRevision initial =>
    s.commit (Store.saveFenced tx queueItemId claimedBy claimToken expectedRevision initial)
  | .saveTransaction tx => s.commit fun store => (store.save tx).map fun store' => ((), store')
  | .load id =>
    s.commit fun store => (store.transactions.load id).map fun loaded => (loaded, store)
  | .outside op => (builtAnswer moment op, s)

/-- These are answers of the machine. -/
lemma WorkerOp.exec_answer (moment : Datetime) (s : WorkerSystem) (op : WorkerOp)
    (h : s.queue.ShortTokens) :
    workerMachine.exec s op (op.answer moment s).1 (op.answer moment s).2 ∧
      (op.answer moment s).2.queue.ShortTokens := by
  have hcommit : ∀ {α : Type} (run : Store → Except PyError (α × Store)),
      (s.commit run).2.queue.ShortTokens := by
    intro α run
    unfold WorkerSystem.commit
    cases run s.store with
    | ok answered => exact h
    | error err => exact h
  cases op with
  | queue op =>
    obtain ⟨hexec, hshort⟩ := op.exec_answer moment s.queue h
    exact ⟨⟨hexec, rfl⟩, hshort⟩
  | saveFenced tx queueItemId claimedBy claimToken expectedRevision initial =>
    exact ⟨s.writes_commit _, hcommit _⟩
  | saveTransaction tx => exact ⟨s.writes_commit _, hcommit _⟩
  | load id => exact ⟨s.writes_commit _, hcommit _⟩
  | outside op => exact ⟨rfl, h⟩

/-- A worker on a plain queue with a transaction database. -/
def plainWorker : Worker where
  queue := plainQueue
  loop := { plainLoop with runner := { Runner.watchedRunner with hasTransactionDb := true } }
  rounds := 2

/-- The processes before anybody has begun. -/
def idleWorkers : WorkerPool := ⟨WorkerSystem.init, fun _ => .pure ()⟩

/-- The processes after process 0 has added an item. -/
def addedWorkers : WorkerPool :=
  idleWorkers.solve (WorkerOp.answer ⟨0, some 0⟩) 0
    (queueProgram ((plainQueue.add plainItem).program fun _ => .done))

/-- The steps that lead there. -/
def addedLabels : List WorkerLabel :=
  idleWorkers.solveLabels (WorkerOp.answer ⟨0, some 0⟩) 0
    (queueProgram ((plainQueue.add plainItem).program fun _ => .done))

/-- The processes after process 1 has run the item that process 0 has added. -/
def doneWorkers : WorkerPool :=
  addedWorkers.solve (WorkerOp.answer ⟨0, some 0⟩) 1 (plainWorker.program 2)

/-- The steps that lead there. -/
def doneLabels : List WorkerLabel :=
  addedLabels ++ addedWorkers.solveLabels (WorkerOp.answer ⟨0, some 0⟩) 1 (plainWorker.program 2)

/-- The processes after process 1 has begun to run that item and has sent `n` calls. -/
def cutWorkers (n : ℕ) : WorkerPool :=
  Pool.follow WorkerOp.answer (List.replicate n (1, ⟨0, some 0⟩))
    ⟨addedWorkers.shared, Function.update addedWorkers.procs 1 (plainWorker.program 2)⟩

/-- The steps that lead there. -/
def cutLabels (n : ℕ) : List WorkerLabel :=
  addedLabels ++ [.start 1 (plainWorker.program 2)] ++
    Pool.followLabels WorkerOp.answer (List.replicate n (1, ⟨0, some 0⟩))
      ⟨addedWorkers.shared, Function.update addedWorkers.procs 1 (plainWorker.program 2)⟩

/-- The processes after process 2 has then run an item at second 31, where process 1 has sent `m`
more calls afterwards. -/
def takenOverWorkers (n m : ℕ) : WorkerPool :=
  Pool.follow WorkerOp.answer (List.replicate m (1, ⟨31000000, some 0⟩))
    ((cutWorkers n).solve (WorkerOp.answer ⟨31000000, some 0⟩) 2 (plainWorker.program 1))

/-- The steps that lead there. -/
def takeOverLabels (n m : ℕ) : List WorkerLabel :=
  (cutWorkers n).solveLabels (WorkerOp.answer ⟨31000000, some 0⟩) 2 (plainWorker.program 1) ++
    Pool.followLabels WorkerOp.answer (List.replicate m (1, ⟨31000000, some 0⟩))
      ((cutWorkers n).solve (WorkerOp.answer ⟨31000000, some 0⟩) 2 (plainWorker.program 1))
