import RpaCore.Checkpoint.Snapshots
import RpaCore.Queue.Claims
import RpaCore.Workers.Sends

set_option relaxedAutoImplicit false
set_option autoImplicit false

/-!
# Runs of workers

What holds in every run of any number of processes on the two databases, in any interleaving. The
revision of a transaction counts the saves of it that were committed. A fenced save is committed
over the revision that its process has seen last, so nothing is lost that somebody else has saved
in between.

## Main definitions

* `commits`, `overwritten` — the saves of a transaction in a run.
* `Fenced` — what a fenced save that is committed does.
* `Ledger` — the invariant: what the processes know of the databases.

## Main results

* `WorkerRun.ledger` — the invariant holds in every run.
* `fencedSave_noLostUpdate` — a fenced save replaces the snapshot that its process has seen.
* `successful_final`, `succeeded_kept` — what is successful stays so.
-/

/-! ## Saves in a run -/

/-- A save of the transaction was committed. -/
def PoolLabel.commits (id : String) : WorkerLabel → Bool
  | .answer _ ⟨.saveFenced tx _ _ _ _ _, .ok _⟩ => tx.id = id
  | .answer _ ⟨.saveTransaction tx, .ok _⟩ => tx.id = id
  | _ => false

/-- A plain save of the transaction was committed. -/
def PoolLabel.overwrites (id : String) : WorkerLabel → Bool
  | .answer _ ⟨.saveTransaction tx, .ok _⟩ => tx.id = id
  | _ => false

/-- How many saves of the transaction were committed. -/
def commits (id : String) (t : List WorkerLabel) : ℕ := t.countP (PoolLabel.commits id)

/-- A plain save of the transaction was committed. -/
def overwritten (id : String) (t : List WorkerLabel) : Bool := t.any (PoolLabel.overwrites id)

/-- One more step. -/
@[simp] lemma commits_append (id : String) (t : List WorkerLabel) (l : WorkerLabel) :
    commits id (t ++ [l]) = commits id t + if l.commits id then 1 else 0 := by
  simp [commits, List.countP_append, List.countP_singleton]

/-- Two parts of a run. -/
lemma commits_append₂ (id : String) (t t' : List WorkerLabel) :
    commits id (t ++ t') = commits id t + commits id t' := List.countP_append

/-- Two parts of a run. -/
@[simp] lemma overwritten_append (id : String) (t t' : List WorkerLabel) :
    overwritten id (t ++ t') = (overwritten id t || overwritten id t') := by
  simp [overwritten]

/-! ## What a save does -/

/-- **What a fenced save that is committed does**: under a claim that allows it, it writes a valid
transaction over the expected revision; the first save binds the item to a new transaction. -/
structure Fenced (s s' : WorkerSystem) (tx : Transaction)
    (queueItemId claimedBy claimToken : String) (expectedRevision : ℤ) (initial : Bool)
    (revision : ℤ) : Prop where
  valid : tx.Valid
  claim : ∃ row ∈ s.queue.db.items,
    Store.mayWrite queueItemId claimedBy claimToken tx.id row = true
  written : TransactionDb.Written tx (some expectedRevision) queueItemId claimToken s.transactions
    revision s'.transactions
  consistent : s'.transactions.Consistent
  queue : (initial = false ∧ s'.queue.db = s.queue.db) ∨
    (initial = true ∧ isBlank tx.id = false ∧ s.transactions.header tx.id = none ∧
      s'.queue.db.items = Table.update (Store.mayWrite queueItemId claimedBy claimToken tx.id)
        (fun row => { row with transactionId := tx.id }) s.queue.db.items ∧
      s'.queue.db.attempts = s.queue.db.attempts)

/-- What the binding of an item changes. -/
lemma Store.bind_ok {queueItemId claimedBy claimToken transactionId : String}
    {queue queue' : QueueDb}
    (h : Store.bind queueItemId claimedBy claimToken transactionId queue = .ok queue') :
    queue'.items = Table.update (mayWrite queueItemId claimedBy claimToken transactionId)
        (fun row => { row with transactionId := transactionId }) queue.items ∧
      queue'.attempts = queue.attempts := by
  unfold bind at h
  dsimp only at h
  split at h
  · cases h
  · cases h
    exact ⟨rfl, rfl⟩

section Answers

variable {s s' : WorkerSystem}

/-- A fenced save changes nothing, or is committed. -/
lemma WorkerOp.Exec.fenced {tx : Transaction} {queueItemId claimedBy claimToken : String}
    {expectedRevision : ℤ} {initial : Bool} {r : Except PyError ℤ}
    (hdb : s.transactions.Consistent)
    (h : WorkerOp.Exec s
      (.saveFenced tx queueItemId claimedBy claimToken expectedRevision initial) r s') :
    (s' = s ∧ ∃ err, r = .error err) ∨ ∃ revision, r = .ok revision ∧
      Fenced s s' tx queueItemId claimedBy claimToken expectedRevision initial revision := by
  refine (WorkerSystem.Writes.cases h).imp_right ?_
  rintro ⟨revision, rfl, hrun⟩
  obtain ⟨-, hvalid, hclaim, hwrite, hqueue⟩ := Store.saveFenced_ok hrun
  obtain ⟨hconsistent, hwritten⟩ := TransactionDb.write_written hdb hwrite
  refine ⟨revision, rfl, hvalid, hclaim, hwritten, hconsistent, ?_⟩
  rcases hqueue with ⟨hinitial, hqueue⟩ | ⟨hinitial, -, hblank, hheader, hbind⟩
  · exact Or.inl ⟨hinitial, hqueue⟩
  · exact Or.inr ⟨hinitial, hblank, hheader, Store.bind_ok hbind⟩

/-- A plain save changes nothing, or writes its transaction. -/
lemma WorkerOp.Exec.plain {tx : Transaction} {r : Except PyError Unit}
    (hdb : s.transactions.Consistent) (h : WorkerOp.Exec s (.saveTransaction tx) r s') :
    (s' = s ∧ ∃ err, r = .error err) ∨ (r = .ok () ∧ s'.queue.db = s.queue.db ∧
      s'.transactions.Consistent ∧ ∃ revision,
        TransactionDb.Written tx none "" "" s.transactions revision s'.transactions) := by
  refine (WorkerSystem.Writes.cases h).imp_right ?_
  rintro ⟨⟨⟩, rfl, hrun⟩
  obtain ⟨store, hsave, heq⟩ := Except.map_eq_ok.mp hrun
  obtain rfl : store = s'.store := (Prod.mk.inj heq).2
  obtain ⟨-, hqueue, revision, hwrite⟩ := Store.save_ok hsave
  obtain ⟨hconsistent, hwritten⟩ := TransactionDb.write_written hdb hwrite
  exact ⟨rfl, hqueue, hconsistent, revision, hwritten⟩

/-- A statement leaves the transactions as they are, or writes the one that it saves. -/
lemma WorkerOp.Exec.transactions {op : WorkerOp} {r : op.Res} (hdb : s.transactions.Consistent)
    (h : op.Exec s r s') (p : ℕ) :
    (s'.transactions = s.transactions ∧
      ∀ id, PoolLabel.commits id (.answer p ⟨op, r⟩) = false) ∨
    ∃ tx expectedRevision queueItemId claimToken revision, s'.transactions.Consistent ∧
      TransactionDb.Written tx expectedRevision queueItemId claimToken s.transactions revision
        s'.transactions ∧ ∀ id, PoolLabel.commits id (.answer p ⟨op, r⟩) = decide (tx.id = id) := by
  cases op with
  | queue op => exact Or.inl ⟨h.2, fun _ => rfl⟩
  | saveFenced tx queueItemId claimedBy claimToken expectedRevision initial =>
    rcases WorkerOp.Exec.fenced hdb h with ⟨rfl, err, rfl⟩ | ⟨revision, rfl, hfenced⟩
    · exact Or.inl ⟨rfl, fun _ => rfl⟩
    · exact Or.inr ⟨_, _, _, _, _, hfenced.consistent, hfenced.written, fun _ => rfl⟩
  | saveTransaction tx =>
    rcases WorkerOp.Exec.plain hdb h with
      ⟨rfl, err, rfl⟩ | ⟨rfl, -, hconsistent, revision, hwritten⟩
    · exact Or.inl ⟨rfl, fun _ => rfl⟩
    · exact Or.inr ⟨_, _, _, _, _, hconsistent, hwritten, fun _ => rfl⟩
  | load id =>
    obtain rfl := (WorkerOp.Exec.load h).1
    exact Or.inl ⟨rfl, fun _ => rfl⟩
  | outside op =>
    obtain rfl : s' = s := h
    exact Or.inl ⟨rfl, fun _ => rfl⟩

end Answers

/-! ## What a process knows -/

/-- **What is known of a snapshot** that was loaded or written at a revision: it is the one that is
stored, or a later one is. A successful one is stored still, if nobody has saved the transaction
without a claim. -/
structure Known (t : List WorkerLabel) (s : WorkerSystem) (snapshot : Transaction) (revision : ℤ) :
    Prop where
  le : revision ≤ s.transactions.revisionOf snapshot.id
  agrees : s.transactions.revisionOf snapshot.id = revision → s.transactions.Agrees snapshot
  final : snapshot.status = .successful → overwritten snapshot.id t = false →
    s.transactions.revisionOf snapshot.id = revision

/-- **The invariant of a run**: the accounts of the queue are right, revisions count commits, and
every process knows the snapshot of its turn. -/
structure Ledger (t : List WorkerLabel) (s : WorkerSystem) : Prop where
  accounted : s.queue.db.Accounted
  consistent : s.transactions.Consistent
  revisions : ∀ id, s.transactions.revisionOf id = commits id t
  known : ∀ p prog evs turn snapshot revision, callOf p t = some (prog, evs) →
    turnOf evs = some turn → turn.last = some (snapshot, revision) → Known t s snapshot revision

section Steps

variable {t : List WorkerLabel} {s s' : WorkerSystem} {l : WorkerLabel} {snapshot tx : Transaction}
  {revision : ℤ}

/-- What is known stays known when nothing is written. -/
lemma Known.quiet (h : Known t s snapshot revision) (hsame : s'.transactions = s.transactions) :
    Known (t ++ [l]) s' snapshot revision where
  le := by
    rw [hsame]
    exact h.le
  agrees := by
    rw [hsame]
    exact h.agrees
  final hstatus hplain := by
    rw [hsame]
    refine h.final hstatus ?_
    rw [overwritten_append, Bool.or_eq_false_iff] at hplain
    exact hplain.1

/-- What is known stays known when a transaction is written that was not successful, or by
somebody without a claim. -/
lemma Known.written {expectedRevision : Option ℤ} {queueItemId claimToken : String} {written : ℤ}
    (h : Known t s snapshot revision)
    (hwritten : TransactionDb.Written tx expectedRevision queueItemId claimToken s.transactions
      written s'.transactions)
    (hopen : l.overwrites tx.id = true ∨ ¬ s.transactions.Successful tx.id) :
    Known (t ++ [l]) s' snapshot revision := by
  have hrevision := hwritten.revisionOf snapshot.id
  by_cases hid : tx.id = snapshot.id
  · rw [if_pos hid] at hrevision
    have hle := h.le
    refine ⟨by omega, fun heq => by omega, fun hstatus hplain => ?_⟩
    rw [overwritten_append, Bool.or_eq_false_iff] at hplain
    rcases hopen with hover | hunsuccessful
    · have hlast : overwritten snapshot.id [l] = true := by
        simpa [overwritten, ← hid] using hover
      rw [hlast] at hplain
      cases hplain.2
    · -- the transaction would have been successful before
      have hagrees := h.agrees (h.final hstatus hplain.1)
      exact absurd (hid ▸ hagrees.successful_iff.mpr hstatus) hunsuccessful
  · have hpart : s'.transactions.part snapshot.id = s.transactions.part snapshot.id :=
      hwritten.others _ fun heq => hid heq.symm
    rw [if_neg hid, Int.add_zero] at hrevision
    refine ⟨hrevision ▸ h.le, fun heq => (h.agrees (hrevision ▸ heq)).congr hpart,
      fun hstatus hplain => ?_⟩
    rw [overwritten_append, Bool.or_eq_false_iff] at hplain
    rw [hrevision]
    exact h.final hstatus hplain.1

/-- A snapshot that has just been written is known. -/
lemma Known.of_written {expectedRevision : Option ℤ} {queueItemId claimToken : String}
    (hwritten : TransactionDb.Written tx expectedRevision queueItemId claimToken s.transactions
      revision s'.transactions) : Known t s' tx revision := by
  have hrevision : s'.transactions.revisionOf tx.id = revision := by
    rw [hwritten.revisionOf, if_pos rfl, hwritten.revision]
  exact ⟨hrevision.ge, fun _ => hwritten.agrees, fun _ _ => hrevision⟩

/-- A snapshot that has just been loaded is known. -/
lemma Known.of_load {id : String} (h : s.transactions.load id = .ok (snapshot, revision)) :
    Known t s snapshot revision := by
  obtain ⟨rfl, rfl, hagrees⟩ := TransactionDb.load_agrees h
  exact ⟨le_rfl, fun _ => hagrees, fun _ _ => rfl⟩

end Steps

/-! ## The invariant -/

namespace Ledger

variable {t : List WorkerLabel} {s s' : WorkerSystem} {p : ℕ} {prog : WorkerProg}
  {evs : List (Event WorkerOp WorkerOp.Res)} {b : Bool}

/-- Two new databases, on which nobody has done anything. -/
lemma init : Ledger [] WorkerSystem.init where
  accounted := QueueDb.accounted_empty
  consistent := TransactionDb.consistent_empty
  revisions _ := rfl
  known _ _ _ _ _ _ hcall := by cases hcall

/-- A process starts. -/
lemma start (h : Ledger t s) (prog : WorkerProg) : Ledger (t ++ [.start p prog]) s where
  accounted := h.accounted
  consistent := h.consistent
  revisions id := by
    rw [h.revisions, commits_append]
    rfl
  known q prog' evs' turn snapshot revision hcall hturn hlast := by
    rw [callOf_append, PoolLabel.follow] at hcall
    split at hcall
    · cases hcall
      cases hturn
    · exact (h.known q prog' evs' turn snapshot revision hcall hturn hlast).quiet rfl

/-- **A fenced save replaces what its process has seen**: the transaction is new, or the process
knows the snapshot that is stored, which is not successful and whose successful steps are kept. -/
lemma replaces (h : Ledger t s) (hcall : callOf p t = some (prog, evs)) {tx : Transaction}
    {queueItemId claimedBy claimToken : String} {expectedRevision revision : ℤ} {initial : Bool}
    (hobserves : Observes b evs
      (.saveFenced tx queueItemId claimedBy claimToken expectedRevision initial))
    (hfenced : Fenced s s' tx queueItemId claimedBy claimToken expectedRevision initial revision) :
    (initial = true ∧ s.transactions.header tx.id = none) ∨
      (initial = false ∧ ∃ turn snapshot, turnOf evs = some turn ∧
        turn.last = some (snapshot, expectedRevision) ∧ snapshot.id = tx.id ∧
        s.transactions.Agrees snapshot ∧ snapshot.status ≠ .successful ∧
        snapshot.KeepsSuccesses tx) := by
  obtain ⟨turn, hturn, -, -, -, hmay⟩ := hobserves.save _ _ _ _ _ _ rfl
  cases initial with
  | true =>
    rcases hfenced.queue with ⟨hfalse, -⟩ | ⟨-, -, hheader, -⟩
    · cases hfalse
    · exact Or.inl ⟨rfl, hheader⟩
  | false =>
    obtain ⟨-, snapshot, hlast, hid, hstatus, hkeeps⟩ := hmay.later rfl
    have hknown := h.known p prog evs turn snapshot expectedRevision hcall hturn hlast
    have hexpected := hfenced.written.expected _ rfl
    rw [← hid] at hexpected
    exact Or.inr ⟨rfl, turn, snapshot, hturn, hlast, hid, hknown.agrees hexpected.symm, hstatus,
      hkeeps⟩

/-- No fenced save replaces a successful transaction. -/
lemma unsuccessful (h : Ledger t s) (hcall : callOf p t = some (prog, evs)) {tx : Transaction}
    {queueItemId claimedBy claimToken : String} {expectedRevision revision : ℤ} {initial : Bool}
    (hobserves : Observes b evs
      (.saveFenced tx queueItemId claimedBy claimToken expectedRevision initial))
    (hfenced : Fenced s s' tx queueItemId claimedBy claimToken expectedRevision initial revision) :
    ¬ s.transactions.Successful tx.id := by
  rcases h.replaces hcall hobserves hfenced with
    ⟨-, hheader⟩ | ⟨-, turn, snapshot, -, -, hid, hagrees, hstatus, -⟩
  · rintro ⟨row, hrow, -⟩
    rw [hheader] at hrow
    cases hrow
  · rw [← hid, hagrees.successful_iff]
    exact hstatus

/-- What is known stays known in every step. -/
lemma known_step (h : Ledger t s) (hcall : callOf p t = some (prog, evs)) {op : WorkerOp}
    {r : op.Res} (hobserves : Observes b evs op) (hexec : op.Exec s r s') {snapshot : Transaction}
    {revision : ℤ} (hknown : Known t s snapshot revision) :
    Known (t ++ [.answer p ⟨op, r⟩]) s' snapshot revision := by
  cases op with
  | queue op => exact hknown.quiet hexec.2
  | saveFenced tx queueItemId claimedBy claimToken expectedRevision initial =>
    rcases WorkerOp.Exec.fenced h.consistent hexec with ⟨rfl, -⟩ | ⟨written, rfl, hfenced⟩
    · exact hknown.quiet rfl
    · exact hknown.written hfenced.written (Or.inr (h.unsuccessful hcall hobserves hfenced))
  | saveTransaction tx =>
    rcases WorkerOp.Exec.plain h.consistent hexec with ⟨rfl, -⟩ | ⟨rfl, -, -, written, hwritten⟩
    · exact hknown.quiet rfl
    · exact hknown.written hwritten (Or.inl (by simp [PoolLabel.overwrites]))
  | load id =>
    obtain rfl := (WorkerOp.Exec.load hexec).1
    exact hknown.quiet rfl
  | outside op =>
    obtain rfl : s' = s := hexec
    exact hknown.quiet rfl

/-- **A step leaves a successful transaction as it is**, unless it is saved without a claim. -/
lemma final_step (h : Ledger t s) (hcall : callOf p t = some (prog, evs)) {op : WorkerOp}
    {r : op.Res} (hobserves : Observes b evs op) (hexec : op.Exec s r s') {id : String}
    (hsuccessful : s.transactions.Successful id)
    (hplain : PoolLabel.overwrites id (.answer p ⟨op, r⟩) = false) :
    s'.transactions.part id = s.transactions.part id ∧
      PoolLabel.commits id (.answer p ⟨op, r⟩) = false := by
  cases op with
  | queue op => exact ⟨by rw [hexec.2], rfl⟩
  | saveFenced tx queueItemId claimedBy claimToken expectedRevision initial =>
    rcases WorkerOp.Exec.fenced h.consistent hexec with ⟨rfl, err, rfl⟩ | ⟨written, rfl, hfenced⟩
    · exact ⟨rfl, rfl⟩
    · have hid : id ≠ tx.id := by
        rintro rfl
        exact h.unsuccessful hcall hobserves hfenced hsuccessful
      exact ⟨hfenced.written.others id hid, decide_eq_false fun heq => hid heq.symm⟩
  | saveTransaction tx =>
    rcases WorkerOp.Exec.plain h.consistent hexec with
      ⟨rfl, err, rfl⟩ | ⟨rfl, -, -, written, hwritten⟩
    · exact ⟨rfl, rfl⟩
    · exact ⟨hwritten.others id fun heq => of_decide_eq_false hplain heq.symm, hplain⟩
  | load id =>
    obtain rfl := (WorkerOp.Exec.load hexec).1
    exact ⟨rfl, rfl⟩
  | outside op =>
    obtain rfl : s' = s := hexec
    exact ⟨rfl, rfl⟩

/-- **A step keeps a successful step**, unless its transaction is saved without a claim. -/
lemma succeeded_step (h : Ledger t s) (hcall : callOf p t = some (prog, evs)) {op : WorkerOp}
    {r : op.Res} (hobserves : Observes b evs op) (hexec : op.Exec s r s') {id : String}
    {key : String × ℤ} (hsucceeded : s.transactions.Succeeded id key)
    (hplain : PoolLabel.overwrites id (.answer p ⟨op, r⟩) = false) :
    s'.transactions.Succeeded id key := by
  cases op with
  | queue op =>
    rw [hexec.2]
    exact hsucceeded
  | saveFenced tx queueItemId claimedBy claimToken expectedRevision initial =>
    rcases WorkerOp.Exec.fenced h.consistent hexec with ⟨rfl, -⟩ | ⟨written, rfl, hfenced⟩
    · exact hsucceeded
    · by_cases hid : id = tx.id
      · subst hid
        rcases h.replaces hcall hobserves hfenced with
          ⟨-, hheader⟩ | ⟨-, turn, snapshot, -, -, hid, hagrees, -, hkeeps⟩
        · obtain ⟨row, hrow⟩ := hsucceeded.1
          rw [hheader] at hrow
          cases hrow
        · rw [← hid] at hsucceeded
          exact (hfenced.written.agrees.steps key).mpr
            (hkeeps key ((hagrees.steps key).mp hsucceeded))
      · exact hsucceeded.congr (hfenced.written.others id hid)
  | saveTransaction tx =>
    rcases WorkerOp.Exec.plain h.consistent hexec with ⟨rfl, -⟩ | ⟨rfl, -, -, written, hwritten⟩
    · exact hsucceeded
    · exact hsucceeded.congr
        (hwritten.others id fun heq => of_decide_eq_false hplain heq.symm)
  | load id =>
    obtain rfl := (WorkerOp.Exec.load hexec).1
    exact hsucceeded
  | outside op =>
    obtain rfl : s' = s := hexec
    exact hsucceeded

/-- **A step keeps the invariant.** -/
theorem answer (h : Ledger t s) (hcall : callOf p t = some (prog, evs)) {op : WorkerOp}
    {r : op.Res} (hobserves : Observes b evs op) (hexec : op.Exec s r s') :
    Ledger (t ++ [.answer p ⟨op, r⟩]) s' where
  accounted := by
    cases op with
    | queue op => exact (h.accounted.exec (hobserves.legit op rfl) hexec.1).1
    | saveFenced tx queueItemId claimedBy claimToken expectedRevision initial =>
      rcases WorkerOp.Exec.fenced h.consistent hexec with ⟨rfl, -⟩ | ⟨written, rfl, hfenced⟩
      · exact h.accounted
      · rcases hfenced.queue with ⟨-, hqueue⟩ | ⟨-, -, -, hitems, hattempts⟩
        · rw [hqueue]
          exact h.accounted
        · exact h.accounted.touches hitems hattempts fun _ _ _ => ⟨rfl, rfl, rfl, rfl, rfl⟩
    | saveTransaction tx =>
      rcases WorkerOp.Exec.plain h.consistent hexec with ⟨rfl, -⟩ | ⟨rfl, hqueue, -⟩
      · exact h.accounted
      · rw [hqueue]
        exact h.accounted
    | load id =>
      obtain rfl := (WorkerOp.Exec.load hexec).1
      exact h.accounted
    | outside op =>
      obtain rfl : s' = s := hexec
      exact h.accounted
  consistent := by
    rcases hexec.transactions h.consistent p with ⟨hsame, -⟩ | ⟨_, _, _, _, _, hconsistent, -⟩
    · rw [hsame]
      exact h.consistent
    · exact hconsistent
  revisions id := by
    rw [commits_append]
    rcases hexec.transactions h.consistent p with
      ⟨hsame, hquiet⟩ | ⟨tx, _, _, _, _, -, hwritten, hcommits⟩
    · rw [hsame, hquiet, h.revisions]
      rfl
    · rw [hwritten.revisionOf, hcommits, h.revisions]
      by_cases hid : tx.id = id <;> simp [hid]
  known q prog' evs' turn snapshot revision hcall' hturn hlast := by
    rw [callOf_append, PoolLabel.follow] at hcall'
    split at hcall'
    · next hq =>
      subst hq
      rw [hcall] at hcall'
      cases hcall'
      rw [turnOf_append] at hturn
      rcases (Turn.follow_moves hturn).last hlast with
        ⟨turn₀, hturn₀, hlast₀⟩ | ⟨id, hev⟩ | ⟨queueItemId, claimedBy, claimToken,
          expectedRevision, initial, hev⟩
      · exact h.known_step hcall hobserves hexec
          (h.known p _ evs turn₀ snapshot revision hcall hturn₀ hlast₀)
      · cases hev
        obtain ⟨rfl, hload⟩ := WorkerOp.Exec.load hexec
        exact .of_load (hload _ rfl)
      · cases hev
        rcases WorkerOp.Exec.fenced h.consistent hexec with ⟨-, err, herr⟩ | ⟨written, hr, hfenced⟩
        · cases herr
        · cases hr
          exact .of_written hfenced.written
    · exact h.known_step hcall hobserves hexec
        (h.known q prog' evs' turn snapshot revision hcall' hturn hlast)

end Ledger

/-! ## Every run -/

/-- The runs of processes that make some calls, from two new databases. -/
def RunOf (Calls : WorkerProg → Prop) (t : List WorkerLabel) (P : WorkerPool) : Prop :=
  workerMachine.Run Calls ⟨WorkerSystem.init, fun _ => .pure ()⟩ t P

section Runs

variable {Calls : WorkerProg → Prop} {b : Bool} {t t' t₁ t₂ : List WorkerLabel} {P P' : WorkerPool}

/-- A load returns the transaction that was asked for. -/
lemma WorkerOp.Exec.answers {s s' : WorkerSystem} {op : WorkerOp} {r : op.Res}
    (h : op.Exec s r s') : op.Answers r := by
  cases op with
  | load id =>
    cases r with
    | error err => trivial
    | ok loaded =>
      obtain ⟨tx, revision⟩ := loaded
      exact (TransactionDb.load_agrees ((WorkerOp.Exec.load h).2 _ rfl)).1
  | _ => trivial

/-- The state in which a statement was answered, and the one after. -/
lemma RunOf.middle {p : ℕ} {op : WorkerOp} {r : op.Res}
    (h : RunOf Calls (t₁ ++ .answer p ⟨op, r⟩ :: t₂) P) : ∃ Q Q' : WorkerPool, RunOf Calls t₁ Q ∧
      op.Exec Q.shared r Q'.shared ∧ RunOf Calls (t₁ ++ [.answer p ⟨op, r⟩]) Q' ∧
      workerMachine.Run Calls Q' t₂ P := by
  obtain ⟨Q, Q', hbefore, hstep, hafter⟩ := Machine.Run.middle h
  refine ⟨Q, Q', hbefore, ?_, .snoc hbefore hstep, hafter⟩
  cases hstep with
  | answer _ hexec => exact hexec

/-- The events of a call are answered as expected. -/
lemma RunOf.answers (h : RunOf Calls t P) {p : ℕ} {prog : WorkerProg}
    {evs : List (Event WorkerOp WorkerOp.Res)} (hcall : callOf p t = some (prog, evs)) :
    ∀ ev ∈ evs, ev.op.Answers ev.res := by
  intro ev hev
  obtain ⟨t₁, t₂, rfl⟩ := callOf_mem hcall hev
  obtain ⟨Q, Q', -, hexec, -⟩ := RunOf.middle h
  exact hexec.answers

/-- What the processes of a run send. -/
lemma RunOf.observes (hcalls : ∀ prog, Calls prog → prog.wp (observer b) (fun _ _ => True) [])
    (h : RunOf Calls t P) {p : ℕ} {op : WorkerOp} {r : op.Res}
    (ht : t = t₁ ++ .answer p ⟨op, r⟩ :: t₂) :
    ∃ prog evs, callOf p t₁ = some (prog, evs) ∧ Observes b evs op := by
  obtain ⟨hpre, -⟩ := Machine.Run.calls (fun _ => Observes b) (fun _ _ => WorkerOp.Answers)
    (fun _ _ _ => True) hcalls h fun _ => ⟨(), rfl⟩
  obtain ⟨prog, evs, hcall, hobserves⟩ := hpre t₁ p ⟨op, r⟩ t₂ ht
  subst ht
  obtain ⟨Q, hbefore, -⟩ := Machine.Run.split h
  exact ⟨prog, evs, hcall, hobserves (honest_of_mem
    (fun ev hev _ => RunOf.answers hbefore hcall ev hev) _)⟩

/-- Runs of some calls of processes are runs of processes. -/
lemma RunOf.workerRun (hworker : ∀ prog, Calls prog → WorkerCall prog) (h : RunOf Calls t P) :
    WorkerRun t P := Machine.Run.mono hworker h

/-- **The invariant holds in every run.** -/
theorem WorkerRun.ledger (h : WorkerRun t P) : Ledger t P.shared := by
  refine Machine.Run.induct (I := Ledger) h Ledger.init ?_ ?_
  · exact fun t₁ p prog t₂ s _ hs => hs.start prog
  · intro t₁ p op r t₂ s s' ht hexec hs
    obtain ⟨prog, evs, hcall, hobserves⟩ := RunOf.observes (fun _ hcall => hcall.wp) h ht
    exact hs.answer hcall hobserves hexec

/-- **Induction along the rest of a run**: in each state the invariant holds, and a process sends
what it may send. -/
lemma RunOf.later (hworker : ∀ prog, Calls prog → WorkerCall prog)
    (hcalls : ∀ prog, Calls prog → prog.wp (observer b) (fun _ _ => True) [])
    (h : RunOf Calls t P) (h' : workerMachine.Run Calls P t' P')
    {I : List WorkerLabel → WorkerSystem → Prop} (hnil : I [] P.shared)
    (hstart : ∀ u p prog s, I u s → I (u ++ [.start p prog]) s)
    (hanswer : ∀ u p prog evs op r s s', Ledger (t ++ u) s → callOf p (t ++ u) = some (prog, evs) →
      Observes b evs op → op.Exec s r s' → I u s → I (u ++ [.answer p ⟨op, r⟩]) s') :
    I t' P'.shared := by
  have hwhole : RunOf Calls (t ++ t') P' := Machine.Run.append h h'
  refine (Machine.Run.induct (I := fun u s => Ledger (t ++ u) s ∧ I u s) h'
    ⟨by simpa using (RunOf.workerRun hworker h).ledger, hnil⟩ ?_ ?_).2
  · rintro u p prog t₂ s - ⟨hs, hI⟩
    rw [← List.append_assoc]
    exact ⟨hs.start prog, hstart u p prog s hI⟩
  · rintro u p op r t₂ s s' rfl hexec ⟨hs, hI⟩
    obtain ⟨prog, evs, hcall, hobserves⟩ := RunOf.observes hcalls hwhole
      (List.append_assoc t u _).symm
    rw [← List.append_assoc]
    exact ⟨hs.answer hcall hobserves hexec,
      hanswer u p prog evs op r s s' hs hcall hobserves hexec hI⟩

/-- Induction along the rest of a run of any processes. -/
lemma WorkerRun.later (h : WorkerRun t P) (h' : workerMachine.Run WorkerCall P t' P')
    {I : List WorkerLabel → WorkerSystem → Prop} (hnil : I [] P.shared)
    (hstart : ∀ u p prog s, I u s → I (u ++ [.start p prog]) s)
    (hanswer : ∀ u p prog evs op r s s', Ledger (t ++ u) s → callOf p (t ++ u) = some (prog, evs) →
      Observes false evs op → op.Exec s r s' → I u s → I (u ++ [.answer p ⟨op, r⟩]) s') :
    I t' P'.shared :=
  RunOf.later (fun _ hcall => hcall) (fun _ hcall => hcall.wp) h h' hnil hstart hanswer

end Runs

/-- Process 0 has added an item. -/
lemma addedWorkers_run :
    RunOf FleetCall addedLabels addedWorkers ∧ addedWorkers.shared.queue.ShortTokens := by
  have hnone : idleWorkers.shared.queue.ShortTokens := by
    simp [QueueSystem.ShortTokens, idleWorkers, WorkerSystem.init, QueueSystem.init]
  exact Machine.Run.solve (WorkerOp.exec_answer ⟨0, some 0⟩)
    (.nil idleWorkers : RunOf FleetCall [] idleWorkers) hnone (p := 0) rfl
    (FleetCall.add plainQueue plainItem ⟨rfl, rfl, rfl, rfl⟩ rfl)

/-- Process 1 has run that item. -/
lemma doneWorkers_run :
    RunOf FleetCall doneLabels doneWorkers ∧ doneWorkers.shared.queue.ShortTokens := by
  obtain ⟨hadd, hshort⟩ := addedWorkers_run
  exact Machine.Run.solve (WorkerOp.exec_answer ⟨0, some 0⟩) hadd hshort (p := 1) rfl
    (FleetCall.worker plainWorker 2 rfl)

/-- Process 1 has been cut off after some of its calls. -/
lemma cutWorkers_run (n : ℕ) :
    RunOf FleetCall (cutLabels n) (cutWorkers n) ∧ (cutWorkers n).shared.queue.ShortTokens := by
  obtain ⟨hadd, hshort⟩ := addedWorkers_run
  have hstarted := hadd.snoc (.start (p := 1) rfl (FleetCall.worker plainWorker 2 rfl))
  exact Machine.Run.follow WorkerOp.exec_answer _ hstarted hshort

/-- Process 2 has run an item after that, and process 1 has gone on. -/
lemma takenOverWorkers_run (n m : ℕ) :
    workerMachine.Run FleetCall (cutWorkers n) (takeOverLabels n m) (takenOverWorkers n m) := by
  have hidle : (cutWorkers n).procs 2 = .pure () :=
    Pool.follow_procs (fun step hstep => by rw [List.eq_of_mem_replicate hstep]; decide) _
  obtain ⟨htaken, hshort⟩ := Machine.Run.solve (WorkerOp.exec_answer ⟨31000000, some 0⟩)
    (.nil (cutWorkers n) : workerMachine.Run FleetCall (cutWorkers n) [] (cutWorkers n))
    (cutWorkers_run n).2 hidle (FleetCall.worker plainWorker 1 rfl)
  exact (Machine.Run.follow WorkerOp.exec_answer _ htaken hshort).1

/-! ## No update is lost -/

/-- An event that shows a snapshot of a transaction at a revision: it is loaded, or saved under a
claim. -/
inductive Shows (snapshot : Transaction) (revision : ℤ) : Event WorkerOp WorkerOp.Res → Prop
  | load : Shows snapshot revision ⟨.load snapshot.id, .ok (snapshot, revision)⟩
  | save {queueItemId claimedBy claimToken : String} {expectedRevision : ℤ} {initial : Bool} :
      Shows snapshot revision
        ⟨.saveFenced snapshot queueItemId claimedBy claimToken expectedRevision initial,
          .ok revision⟩

section Updates

variable {t t' t₁ t₂ : List WorkerLabel} {P P' : WorkerPool} {snapshot : Transaction} {revision : ℤ}

/-- A snapshot that a turn knows was shown by an event of the call. -/
lemma shown_of_last {evs : List (Event WorkerOp WorkerOp.Res)} {turn : Turn}
    (hanswers : ∀ ev ∈ evs, ev.op.Answers ev.res) (hturn : turnOf evs = some turn)
    (hlast : turn.last = some (snapshot, revision)) :
    ∃ evs₁ ev evs₂, evs = evs₁ ++ ev :: evs₂ ∧ Shows snapshot revision ev := by
  induction evs using List.reverseRecOn generalizing turn with
  | nil => cases hturn
  | append_singleton evs ev ih =>
    rw [turnOf_append] at hturn
    rcases (Turn.follow_moves hturn).last hlast with
      ⟨turn₀, hturn₀, hlast₀⟩ | ⟨id, rfl⟩ | ⟨queueItemId, claimedBy, claimToken,
        expectedRevision, initial, rfl⟩
    · obtain ⟨evs₁, ev', evs₂, rfl, hshows⟩ := ih
        (fun ev' hev' => hanswers ev' (List.mem_append_left _ hev')) hturn₀ hlast₀
      exact ⟨evs₁, ev', evs₂ ++ [ev], by simp, hshows⟩
    · obtain rfl : snapshot.id = id :=
        hanswers _ (List.mem_append_right _ (List.mem_singleton_self _))
      exact ⟨evs, _, [], rfl, .load⟩
    · exact ⟨evs, _, [], rfl, .save⟩

/-- An event shows the revision that the commits so far have led to. -/
lemma WorkerRun.shows {p : ℕ} {ev : Event WorkerOp WorkerOp.Res}
    (h : WorkerRun (t₁ ++ .answer p ev :: t₂) P) (hshows : Shows snapshot revision ev) :
    revision = commits snapshot.id (t₁ ++ [.answer p ev]) := by
  obtain ⟨op, r⟩ := ev
  obtain ⟨Q, Q', hbefore, hexec, hafter, -⟩ := RunOf.middle h
  have hledger := WorkerRun.ledger hafter
  rw [← hledger.revisions]
  cases hshows with
  | load =>
    obtain ⟨hsame, hload⟩ := WorkerOp.Exec.load hexec
    rw [hsame]
    exact (TransactionDb.load_agrees (hload _ rfl)).2.1
  | save =>
    rcases WorkerOp.Exec.fenced (WorkerRun.ledger hbefore).consistent hexec with
      ⟨-, err, herr⟩ | ⟨written, hr, hfenced⟩
    · cases herr
    · cases hr
      rw [hfenced.written.revisionOf, if_pos rfl, hfenced.written.revision]

/-- **No update is lost.** In every run, whatever the other processes do, a fenced save that is
committed counts the saves of its transaction: it expects the number of those before it, and
returns one more. Its item was held under the claim, and was not bound to another transaction. The
first save of an item is the first of its transaction. Any other one replaces the snapshot that its
process has loaded or saved last, with nobody's save in between; that one was not successful, and
the steps that were successful in it still are.

**Proof sketch.** Revisions count commits, and the process knows a snapshot at the expected
revision (`Ledger`). The event that showed it showed the same count, so there is no commit in
between. -/
theorem fencedSave_noLostUpdate {p : ℕ} {tx : Transaction}
    {queueItemId claimedBy claimToken : String} {expectedRevision revision : ℤ} {initial : Bool}
    (h : WorkerRun (t₁ ++ .answer p ⟨.saveFenced tx queueItemId claimedBy claimToken
      expectedRevision initial, .ok revision⟩ :: t₂) P) :
    expectedRevision = commits tx.id t₁ ∧ revision = commits tx.id t₁ + 1 ∧
    (∃ Q, WorkerRun t₁ Q ∧ ∃ row ∈ Q.shared.queue.db.items,
      QueueDb.isHeld queueItemId claimedBy claimToken row = true ∧
        (row.transactionId = "" ∨ row.transactionId = tx.id)) ∧
    (initial = true → commits tx.id t₁ = 0) ∧
    (initial = false → ∃ t₀ ev t₀' snapshot, t₁ = t₀ ++ .answer p ev :: t₀' ∧
      (∀ prog, PoolLabel.start p prog ∉ t₀') ∧ Shows snapshot expectedRevision ev ∧
      snapshot.id = tx.id ∧ commits tx.id t₀' = 0 ∧ snapshot.status ≠ .successful ∧
      snapshot.KeepsSuccesses tx) := by
  obtain ⟨prog, evs, hcall, hobserves⟩ := RunOf.observes (fun _ hcall => hcall.wp) h rfl
  obtain ⟨Q, Q', hbefore, hexec, -, -⟩ := RunOf.middle h
  have hledger := WorkerRun.ledger hbefore
  rcases WorkerOp.Exec.fenced hledger.consistent hexec with
    ⟨-, err, herr⟩ | ⟨written, hr, hfenced⟩
  · cases herr
  cases hr
  have hexpected : expectedRevision = commits tx.id t₁ :=
    (hfenced.written.expected _ rfl).trans (hledger.revisions tx.id)
  refine ⟨hexpected, ?_, ⟨Q, hbefore, ?_⟩, fun hinitial => ?_, fun hinitial => ?_⟩
  · rw [hfenced.written.revision, hledger.revisions]
  · obtain ⟨row, hrow, hmay⟩ := hfenced.claim
    obtain ⟨hheld, hbound⟩ := Bool.and_eq_true_iff.mp hmay
    exact ⟨row, hrow, hheld, by simpa using hbound⟩
  · rcases hledger.replaces hcall hobserves hfenced with ⟨-, hheader⟩ | ⟨hfalse, -⟩
    · have hzero := hledger.revisions tx.id
      rw [TransactionDb.revisionOf, hheader] at hzero
      simpa using hzero.symm
    · rw [hinitial] at hfalse
      cases hfalse
  · rcases hledger.replaces hcall hobserves hfenced with
      ⟨htrue, -⟩ | ⟨-, turn, snapshot, hturn, hlast, hid, -, hstatus, hkeeps⟩
    · rw [hinitial] at htrue
      cases htrue
    obtain ⟨evs₁, ev, evs₂, rfl, hshows⟩ := shown_of_last (RunOf.answers hbefore hcall) hturn hlast
    obtain ⟨t₀, t₀', rfl, -, hstart⟩ := callOf_split hcall
    refine ⟨t₀, ev, t₀', snapshot, rfl, hstart, hshows, hid, ?_, hstatus, hkeeps⟩
    have hshown := WorkerRun.shows hbefore hshows
    rw [hid, hexpected, show t₀ ++ PoolLabel.answer p ev :: t₀' =
      t₀ ++ [.answer p ev] ++ t₀' by simp, commits_append₂] at hshown
    omega

/-- A fenced save of a transaction that was saved before was committed. -/
def PoolLabel.resaves : WorkerLabel → Bool
  | .answer _ ⟨.saveFenced _ _ _ _ _ initial, .ok _⟩ => !initial
  | _ => false

/-- The checkpoints of the run replace the first save. -/
theorem fencedSave_noLostUpdate_resaved : ∃ t₁ p tx queueItemId claimedBy claimToken,
    ∃ expectedRevision revision : ℤ, ∃ t₂, doneLabels = t₁ ++ .answer p
      ⟨.saveFenced tx queueItemId claimedBy claimToken expectedRevision false, .ok revision⟩ :: t₂ ∧
    expectedRevision = commits tx.id t₁ ∧
    ∃ t₀ ev t₀' snapshot, t₁ = t₀ ++ .answer p ev :: t₀' ∧
      Shows snapshot expectedRevision ev ∧ commits tx.id t₀' = 0 := by
  have hany : doneLabels.any PoolLabel.resaves = true := by decide +kernel
  obtain ⟨l, hmem, hresaves⟩ := List.any_eq_true.mp hany
  unfold PoolLabel.resaves at hresaves
  split at hresaves
  · next p tx queueItemId claimedBy claimToken expectedRevision initial revision =>
    obtain rfl : initial = false := by simpa using hresaves
    obtain ⟨t₁, t₂, hsplit⟩ := List.append_of_mem hmem
    have hrun := RunOf.workerRun (fun _ hcall => hcall.workerCall) doneWorkers_run.1
    rw [hsplit] at hrun
    obtain ⟨hexpected, -, -, -, hlater⟩ := fencedSave_noLostUpdate hrun
    obtain ⟨t₀, ev, t₀', snapshot, hshown, -, hshows, -, hnone, -⟩ := hlater rfl
    exact ⟨t₁, p, tx, queueItemId, claimedBy, claimToken, expectedRevision, revision, t₂, hsplit,
      hexpected, t₀, ev, t₀', snapshot, hshown, hshows, hnone⟩
  · cases hresaves

end Updates

/-! ## What is successful stays so -/

section Successes

variable {t t' : List WorkerLabel} {P P' : WorkerPool} {id : String}

/-- **A successful transaction is final.** Once a transaction is stored as successful, no process
saves it under a claim again: in every later state, as long as nobody saves it without a claim,
all its rows are the same and no save of it was committed. -/
theorem successful_final (h : WorkerRun t P) (h' : workerMachine.Run WorkerCall P t' P')
    (hsuccessful : P.shared.transactions.Successful id) (hplain : overwritten id t' = false) :
    P'.shared.transactions.part id = P.shared.transactions.part id ∧ commits id t' = 0 := by
  refine WorkerRun.later h h' (I := fun u s => overwritten id u = false →
    s.transactions.part id = P.shared.transactions.part id ∧ commits id u = 0) ?_ ?_ ?_ hplain
  · exact fun _ => ⟨rfl, rfl⟩
  · intro u p prog s hu hquiet
    rw [overwritten_append, Bool.or_eq_false_iff] at hquiet
    exact ⟨(hu hquiet.1).1, (commits_append id u _).trans (hu hquiet.1).2⟩
  · intro u p prog evs op r s s' hledger hcall hobserves hexec hu hquiet
    rw [overwritten_append, Bool.or_eq_false_iff] at hquiet
    obtain ⟨hpart, hcommits⟩ := hu hquiet.1
    obtain ⟨hpart', hcommit⟩ := hledger.final_step hcall hobserves hexec
      (hsuccessful.congr hpart) (by simpa [overwritten] using hquiet.2)
    exact ⟨hpart'.trans hpart, by simp [hcommits, hcommit]⟩

/-- A transaction that was saved as successful stays as it is while its item, whose lease has
expired, is claimed and completed by another worker, and the first one is refused. -/
theorem successful_final_takenOver :
    workerMachine.Run WorkerCall (cutWorkers 27) (takeOverLabels 27 9) (takenOverWorkers 27 9) ∧
    (takenOverWorkers 27 9).shared.queue.db.attempts.map QueueAttemptRow.outcome =
      [some .leaseExpired, some .successful] ∧
    (takenOverWorkers 27 9).shared.transactions.part "1" =
      (cutWorkers 27).shared.transactions.part "1" ∧ commits "1" (takeOverLabels 27 9) = 0 := by
  have hrun := Machine.Run.mono (fun _ hcall => FleetCall.workerCall hcall)
    (takenOverWorkers_run 27 9)
  have hheader : ((cutWorkers 27).shared.transactions.header "1").any
      (fun row => row.status = .successful) = true := by decide +kernel
  obtain ⟨row, hrow, hstatus⟩ := (Option.any_eq_true _ _).mp hheader
  exact ⟨hrun, by decide +kernel, successful_final
    (RunOf.workerRun (fun _ hcall => hcall.workerCall) (cutWorkers_run 27).1) hrun
    ⟨row, hrow, of_decide_eq_true hstatus⟩ (by decide +kernel)⟩

/-- **A successful step is kept.** Once a transaction is stored with a step as successful, it is in
every later state, whoever takes the transaction up again and however often, as long as nobody
saves it without a claim. -/
theorem succeeded_kept {key : String × ℤ} (h : WorkerRun t P)
    (h' : workerMachine.Run WorkerCall P t' P') (hplain : overwritten id t' = false)
    (hsucceeded : P.shared.transactions.Succeeded id key) :
    P'.shared.transactions.Succeeded id key := by
  refine WorkerRun.later h h' (I := fun u s => overwritten id u = false →
    s.transactions.Succeeded id key) (fun _ => hsucceeded) ?_ ?_ hplain
  · intro u p prog s hu hquiet
    rw [overwritten_append, Bool.or_eq_false_iff] at hquiet
    exact hu hquiet.1
  · intro u p prog evs op r s s' hledger hcall hobserves hexec hu hquiet
    rw [overwritten_append, Bool.or_eq_false_iff] at hquiet
    exact hledger.succeeded_step hcall hobserves hexec (hu hquiet.1)
      (by simpa [overwritten] using hquiet.2)

/-- A fenced save was refused. -/
def PoolLabel.refused : WorkerLabel → Bool
  | .answer _ ⟨.saveFenced _ _ _ _ _ _, .error _⟩ => true
  | _ => false

/-- The step of a transaction that is running stays successful while another worker resumes and
saves it, and the next save of the first one is refused. -/
theorem succeeded_kept_takenOver :
    workerMachine.Run WorkerCall (cutWorkers 23) (takeOverLabels 23 4) (takenOverWorkers 23 4) ∧
    commits "1" (takeOverLabels 23 4) = 2 ∧
    (takeOverLabels 23 4).getLast?.any PoolLabel.refused = true ∧
    (takenOverWorkers 23 4).shared.transactions.Succeeded "1" ("a", 1) := by
  have hrun := Machine.Run.mono (fun _ hcall => FleetCall.workerCall hcall)
    (takenOverWorkers_run 23 4)
  have hheader : ((cutWorkers 23).shared.transactions.header "1").isSome = true := by
    decide +kernel
  refine ⟨hrun, by decide +kernel, by decide +kernel, succeeded_kept
    (RunOf.workerRun (fun _ hcall => hcall.workerCall) (cutWorkers_run 23).1) hrun
    (by decide +kernel) ⟨Option.isSome_iff_exists.mp hheader, ?_⟩⟩
  decide +kernel

end Successes
