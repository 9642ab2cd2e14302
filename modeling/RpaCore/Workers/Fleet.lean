import RpaCore.Queue.Budget
import RpaCore.Workers.Runs

set_option relaxedAutoImplicit false
set_option autoImplicit false

/-!
# An orderly fleet

Processes of which only the runners bind and complete items under a claim. The queue and the
transaction database then tell the same: an item is bound once and for all, to a transaction of its
own that is stored, and an attempt that the queue has as successful is one whose transaction is
stored as successful, with all its steps complete.

## Main definitions

* `QueueDb.Bound` — an item is bound to a transaction.
* `FleetRun` — the runs of an orderly fleet.
* `Bindings` — the invariant that ties the two databases and the turns of the runners.

## Main results

* `FleetRun.bindings` — the invariant holds in every run.
* `binding_final` — a binding is for ever, and no two items share a transaction.
* `successful_attempt_durable` — a successful attempt has a successful transaction.
-/

/-! ## Bindings and attempts of the queue -/

namespace QueueDb

variable {db db' : QueueDb}

/-- The item is bound to a transaction. -/
def Bound (db : QueueDb) (itemId transactionId : String) : Prop :=
  transactionId ≠ "" ∧ ∃ row ∈ db.items, row.id = itemId ∧ row.transactionId = transactionId

/-- An update that leaves the bindings alone. -/
lemma bound_update {p : QueueRow → Bool} {f : QueueRow → QueueRow}
    (hitems : db'.items = Table.update p f db.items)
    (hf : ∀ r, p r = true → (f r).id = r.id ∧ (f r).transactionId = r.transactionId)
    (itemId transactionId : String) :
    db'.Bound itemId transactionId ↔ db.Bound itemId transactionId := by
  unfold Bound
  rw [hitems]
  refine and_congr_right fun _ => ⟨?_, ?_⟩
  · rintro ⟨row, hrow, hid, htransaction⟩
    obtain ⟨r, hr, rfl⟩ := Table.mem_update.mp hrow
    refine ⟨r, hr, ?_⟩
    split at hid
    · next hp =>
      rw [if_pos hp] at htransaction
      exact ⟨(hf r hp).1.symm.trans hid, (hf r hp).2.symm.trans htransaction⟩
    · next hp =>
      rw [if_neg hp] at htransaction
      exact ⟨hid, htransaction⟩
  · rintro ⟨r, hr, hid, htransaction⟩
    by_cases hp : p r = true
    · exact ⟨f r, Table.mem_update_of hr hp, (hf r hp).1.trans hid,
        (hf r hp).2.trans htransaction⟩
    · exact ⟨r, Table.mem_update_of_not hr hp, hid, htransaction⟩

/-- A change by an orderly statement leaves the bindings alone. -/
lemma Change.bound_iff {op : QueueOp} {v : op.Val} (h : Change op v db db')
    {evs : List (Event WorkerOp WorkerOp.Res)} (horderly : (WorkerOp.queue op).Orderly evs)
    (itemId transactionId : String) :
    db'.Bound itemId transactionId ↔ db.Bound itemId transactionId := by
  cases h with
  | same hitems =>
    unfold Bound
    rw [hitems]
  | @add q item row hop _ _ htransaction hitems =>
    subst hop
    have hunbound : row.transactionId = "" := htransaction.trans horderly
    unfold Bound
    rw [hitems]
    refine and_congr_right fun hne => ⟨?_, ?_⟩
    · rintro ⟨r, hr, hid, hbound⟩
      rcases List.mem_append.mp hr with hr | hr
      · exact ⟨r, hr, hid, hbound⟩
      · rw [List.mem_singleton.mp hr, hunbound] at hbound
        exact absurd hbound.symm hne
    · rintro ⟨r, hr, hrest⟩
      exact ⟨r, List.mem_append_left _ hr, hrest⟩
  | drop hf hitems =>
    exact bound_update hitems (fun r hr => ⟨(hf r hr).id, (hf r hr).transaction⟩) _ _
  | claim _ hclaims => exact bound_update hclaims.items (fun _ _ => ⟨rfl, rfl⟩) _ _
  | bind hop =>
    subst hop
    exact horderly.elim
  | renew _ _ _ hitems => exact bound_update hitems (fun _ _ => ⟨rfl, rfl⟩) _ _
  | release hr =>
    exact bound_update hr.items
      (fun r hp => ⟨(hr.released r hp).id, (hr.released r hp).transaction⟩) _ _

/-- A new successful attempt is of a claim that ends so. -/
lemma Change.successful {op : QueueOp} {v : op.Val} (h : Change op v db db') {a : QueueAttemptRow}
    (ha : a ∈ db'.attempts) (hsuccessful : a.outcome = some .successful) :
    a ∈ db.attempts ∨ ∃ row ∈ db.items, a.itemId = row.id ∧ op.Ends row .successful v := by
  cases h with
  | same _ hattempts => exact Or.inl (hattempts ▸ ha)
  | add _ _ _ _ _ hattempts => exact Or.inl (hattempts ▸ ha)
  | drop _ _ hattempts => exact Or.inl (hattempts ▸ ha)
  | claim _ hclaims =>
    rw [hclaims.attempts] at ha
    rcases List.mem_append.mp ha with ha | ha
    · exact Or.inl ha
    · rw [List.mem_singleton.mp ha] at hsuccessful
      cases hsuccessful
  | bind _ _ _ _ hattempts => exact Or.inl (hattempts ▸ ha)
  | renew _ _ _ _ hattempts => exact Or.inl (hattempts ▸ ha)
  | @release p f row outcome now hr hop =>
    rw [hr.attempts] at ha
    split at ha
    · exact Or.inl ha
    · obtain ⟨a₀, ha₀, rfl⟩ := Table.mem_update.mp ha
      split at hsuccessful
      · next hclosed =>
        cases hsuccessful
        rw [if_pos hclosed]
        simp only [Bool.and_eq_true, decide_eq_true_eq] at hclosed
        exact Or.inr ⟨row, hr.mem, hclosed.1.1, hop⟩
      · next hclosed =>
        rw [if_neg hclosed]
        exact Or.inl ha₀

end QueueDb

/-- Only `complete` ends a claim as successful. -/
lemma QueueOp.ends_successful {op : QueueOp} {v : op.Val} {db db' : QueueDb} {row : QueueRow}
    (hrun : op.run db = .ok (v, db')) (h : op.Ends row .successful v) :
    ∃ claimedBy claimToken finishedAt, op = .complete row.id claimedBy claimToken finishedAt := by
  cases op with
  | complete itemId claimedBy claimToken finishedAt =>
    rw [(QueueDb.isHeld_iff.mp h.1).1]
    exact ⟨claimedBy, claimToken, finishedAt, rfl⟩
  | failCommit q itemId claimedBy claimToken retry readCount now =>
    obtain ⟨f, row', -, hstatus, -⟩ := QueueDb.failCommit_ok hrun
    rw [← h.2] at hstatus
    rcases hstatus row with ⟨-, houtcome⟩ | ⟨-, houtcome⟩ <;> cases houtcome
  | reclaimStale q now => cases h.2
  | forceTransition q itemId requested reason retry now => cases h.2
  | _ => exact h.elim

namespace QueueOp.Exec

variable {s s' : QueueSystem} {op : QueueOp} {r : op.Res}

/-- An orderly statement of the queue leaves the bindings alone. -/
lemma bound_iff (h : op.Exec s r s') (hacc : s.db.Accounted) (hlegit : op.Legit)
    {evs : List (Event WorkerOp WorkerOp.Res)} (horderly : (WorkerOp.queue op).Orderly evs)
    (itemId transactionId : String) :
    s'.db.Bound itemId transactionId ↔ s.db.Bound itemId transactionId := by
  rcases h.db with heq | ⟨v, hrun⟩
  · rw [heq]
  · refine (QueueOp.run_induction hlegit (P := fun d => Table.Keyed QueueRow.id d.items ∧
      (d.Bound itemId transactionId ↔ s.db.Bound itemId transactionId)) (fun _ hd => hd.1) ?_ hrun
      ⟨hacc.keyed, Iff.rfl⟩).2
    rintro d d' ⟨hkeyed, hd⟩ hchange
    exact ⟨hchange.keyed hkeyed, (hchange.bound_iff horderly _ _).trans hd⟩

/-- A new successful attempt is of an item that is completed. -/
lemma successful (h : op.Exec s r s') (hacc : s.db.Accounted) (hlegit : op.Legit)
    {a : QueueAttemptRow} (ha : a ∈ s'.db.attempts) (hsuccessful : a.outcome = some .successful) :
    a ∈ s.db.attempts ∨ ∃ claimedBy claimToken finishedAt,
      op = .complete a.itemId claimedBy claimToken finishedAt := by
  rcases h.db with heq | ⟨v, hrun⟩
  · rw [heq] at ha
    exact Or.inl ha
  · refine (QueueOp.run_induction hlegit (P := fun d => Table.Keyed QueueRow.id d.items ∧
      ∀ a ∈ d.attempts, a.outcome = some .successful → a ∈ s.db.attempts ∨
        ∃ claimedBy claimToken finishedAt,
          op = .complete a.itemId claimedBy claimToken finishedAt) (fun _ hd => hd.1) ?_ hrun
      ⟨hacc.keyed, fun _ ha _ => Or.inl ha⟩).2 a ha hsuccessful
    rintro d d' ⟨hkeyed, hd⟩ hchange
    refine ⟨hchange.keyed hkeyed, fun a ha hsuccessful => ?_⟩
    rcases hchange.successful ha hsuccessful with ha | ⟨row, -, hid, hends⟩
    · exact hd a ha hsuccessful
    · rw [hid]
      exact Or.inr (QueueOp.ends_successful hrun hends)

end QueueOp.Exec

/-- The row that a claim returns is stored as held, under a token that no attempt of the item had
before. -/
lemma QueueOp.Exec.claimed {s s' : QueueSystem} {selected row : QueueRow} {workerId : String}
    {now : Datetime} {token : ClaimToken}
    (h : QueueOp.Exec s (.claim selected workerId now token) (.ok (some row)) s')
    (hacc : s.db.Accounted) : row ∈ s'.db.items ∧
      QueueDb.isHeld row.id row.claimedBy row.claimToken row = true ∧
      (row.id, row.claimToken) ∉ s.db.attemptKeys := by
  obtain ⟨-, hatom⟩ := h
  generalize s'.db = d at hatom ⊢
  cases hatom with
  | commit hrun =>
    rcases QueueDb.claim_ok hacc.keyed hrun with ⟨hnone, -⟩ | ⟨row₀, hclaims, hrow⟩
    · cases hnone
    · cases hrow
      refine ⟨?_, ?_, ?_⟩
      · rw [hclaims.items]
        exact Table.mem_update_of hclaims.mem hclaims.found
      · exact QueueDb.isHeld_iff.mpr ⟨rfl, rfl, rfl, rfl, token.nonempty⟩
      · have hfresh := hclaims.fresh
        rwa [← (QueueDb.stillSelected_iff.mp hclaims.found).1] at hfresh

/-! ## What a save binds -/

section Saves

variable {s s' : WorkerSystem} {tx : Transaction} {queueItemId claimedBy claimToken : String}
  {expectedRevision revision : ℤ} {initial : Bool}

/-- **A fenced save binds its item if it is the first one**, and changes no other binding. -/
lemma Fenced.bound_iff
    (h : Fenced s s' tx queueItemId claimedBy claimToken expectedRevision initial revision)
    (itemId id : String) : s'.queue.db.Bound itemId id ↔
      s.queue.db.Bound itemId id ∨ initial = true ∧ itemId = queueItemId ∧ id = tx.id := by
  rcases h.queue with ⟨rfl, hqueue⟩ | ⟨rfl, hblank, -, hitems, -⟩
  · rw [hqueue]
    simp
  have hmay : ∀ row, Store.mayWrite queueItemId claimedBy claimToken tx.id row = true →
      row.id = queueItemId ∧ (row.transactionId = "" ∨ row.transactionId = tx.id) := by
    intro row hrow
    obtain ⟨hheld, hbound⟩ := Bool.and_eq_true_iff.mp hrow
    exact ⟨(QueueDb.isHeld_iff.mp hheld).1, by simpa using hbound⟩
  have hne : tx.id ≠ "" := by
    intro heq
    rw [heq] at hblank
    exact absurd hblank (by decide)
  unfold QueueDb.Bound
  rw [hitems]
  constructor
  · rintro ⟨hid, row, hrow, hitem, htransaction⟩
    obtain ⟨r, hr, rfl⟩ := Table.mem_update.mp hrow
    split at hitem
    · next hp =>
      rw [if_pos hp] at htransaction
      exact Or.inr ⟨rfl, hitem.symm.trans (hmay r hp).1, htransaction.symm⟩
    · next hp =>
      rw [if_neg hp] at htransaction
      exact Or.inl ⟨hid, r, hr, hitem, htransaction⟩
  · rintro (⟨hid, r, hr, hitem, htransaction⟩ | ⟨-, rfl, rfl⟩)
    · by_cases hp : Store.mayWrite queueItemId claimedBy claimToken tx.id r = true
      · -- the item is bound to the transaction that is saved
        have hsame : r.transactionId = tx.id :=
          (hmay r hp).2.resolve_left fun heq => hid (htransaction.symm.trans heq)
        exact ⟨hid, _, Table.mem_update_of hr hp, hitem, hsame.symm.trans htransaction⟩
      · exact ⟨hid, r, Table.mem_update_of_not hr hp, hitem, htransaction⟩
    · obtain ⟨row, hrow, hp⟩ := h.claim
      exact ⟨hne, _, Table.mem_update_of hrow hp, (hmay row hp).1, rfl⟩

/-- A stored transaction stays stored. -/
lemma WorkerOp.Exec.stored {op : WorkerOp} {r : op.Res} (hdb : s.transactions.Consistent)
    (h : op.Exec s r s') {id : String} (hstored : ∃ row, s.transactions.header id = some row) :
    ∃ row, s'.transactions.header id = some row := by
  rcases h.transactions hdb 0 with ⟨hsame, -⟩ | ⟨_, _, _, _, _, -, hwritten, -⟩
  · rw [hsame]
    exact hstored
  · obtain ⟨row, hrow⟩ := hstored
    obtain ⟨row', hrow', -⟩ := hwritten.audited.header id row hrow
    exact ⟨row', hrow'⟩

end Saves

/-! ## The invariant -/

/-- Every callback so far has left the id of its item alone. -/
def CallbacksKeep (t : List WorkerLabel) : Prop :=
  ∀ p item tx error raised left, PoolLabel.answer p
    ⟨.outside (.run (.post (.afterItem item tx error))), (raised, left)⟩ ∈ t → left.id = item.id

/-- **What a turn says of the databases**: its item is bound to its transaction, once it has one,
and it knows a snapshot only then. -/
structure Turn.Tied (t : List WorkerLabel) (s : WorkerSystem) (turn : Turn) : Prop where
  bound : turn.transactionId ≠ "" → s.queue.db.Bound turn.itemId turn.transactionId
  last : ∀ snapshot revision, turn.last = some (snapshot, revision) →
    snapshot.id = turn.transactionId ∧ turn.transactionId ≠ ""
  kept : CallbacksKeep t → turn.kept = true

/-- **The invariant of an orderly fleet.** -/
structure Bindings (t : List WorkerLabel) (s : WorkerSystem) : Prop where
  stored : ∀ itemId id, s.queue.db.Bound itemId id → ∃ row, s.transactions.header id = some row
  injective : ∀ itemId itemId' id, s.queue.db.Bound itemId id → s.queue.db.Bound itemId' id →
    itemId = itemId'
  finished : ∀ id, s.transactions.Successful id → overwritten id t = false →
    s.transactions.Finished id
  turns : ∀ p prog evs turn, callOf p t = some (prog, evs) → turnOf evs = some turn →
    turn.Tied t s
  attempts : CallbacksKeep t → ∀ a ∈ s.queue.db.attempts, a.outcome = some .successful →
    ∃ id, s.queue.db.Bound a.itemId id ∧ (overwritten id t = false → s.transactions.Successful id)

section Steps

variable {t : List WorkerLabel} {s s' : WorkerSystem} {p : ℕ} {prog : WorkerProg}
  {evs : List (Event WorkerOp WorkerOp.Res)} {op : WorkerOp} {r : op.Res} {l : WorkerLabel}

/-- What holds of the callbacks of a run holds of those of a part. -/
lemma CallbacksKeep.of_append {t' : List WorkerLabel} (h : CallbacksKeep (t ++ t')) :
    CallbacksKeep t :=
  fun p item tx error raised left hmem =>
    h p item tx error raised left (List.mem_append_left _ hmem)

/-- A turn that stays as it is stays tied. -/
lemma Turn.Tied.mono {turn : Turn} (h : turn.Tied t s)
    (hbound : ∀ itemId id, s.queue.db.Bound itemId id → s'.queue.db.Bound itemId id) :
    turn.Tied (t ++ [l]) s' where
  bound hne := hbound _ _ (h.bound hne)
  last := h.last
  kept hkeep := h.kept hkeep.of_append

/-- **A step of an orderly fleet keeps every binding.** -/
lemma WorkerOp.Exec.bound_mono (hledger : Ledger t s) (hobserves : Observes true evs op)
    (hexec : op.Exec s r s') {itemId id : String} (h : s.queue.db.Bound itemId id) :
    s'.queue.db.Bound itemId id := by
  cases op with
  | queue op =>
    exact (QueueOp.Exec.bound_iff hexec.1 hledger.accounted (hobserves.legit op rfl)
      (hobserves.orderly rfl) _ _).mpr h
  | saveFenced tx queueItemId claimedBy claimToken expectedRevision initial =>
    rcases WorkerOp.Exec.fenced hledger.consistent hexec with ⟨rfl, -⟩ | ⟨revision, rfl, hfenced⟩
    · exact h
    · exact (hfenced.bound_iff _ _).mpr (Or.inl h)
  | saveTransaction tx =>
    rcases WorkerOp.Exec.plain hledger.consistent hexec with ⟨rfl, -⟩ | ⟨rfl, hqueue, -⟩
    · exact h
    · rw [hqueue]
      exact h
  | load id =>
    obtain rfl := (WorkerOp.Exec.load hexec).1
    exact h
  | outside op =>
    obtain rfl : s' = s := hexec
    exact h

/-- A new binding is the one of a first save. -/
lemma WorkerOp.Exec.bound_new (hledger : Ledger t s) (hobserves : Observes true evs op)
    (hexec : op.Exec s r s') {itemId id : String} (h : s'.queue.db.Bound itemId id) :
    s.queue.db.Bound itemId id ∨ s.transactions.header id = none ∧
      (∃ row, s'.transactions.header id = some row) ∧
      ∀ itemId', s'.queue.db.Bound itemId' id → s.queue.db.Bound itemId' id ∨ itemId' = itemId := by
  cases op with
  | queue op =>
    exact Or.inl ((QueueOp.Exec.bound_iff hexec.1 hledger.accounted (hobserves.legit op rfl)
      (hobserves.orderly rfl) _ _).mp h)
  | saveFenced tx queueItemId claimedBy claimToken expectedRevision initial =>
    rcases WorkerOp.Exec.fenced hledger.consistent hexec with ⟨rfl, -⟩ | ⟨revision, rfl, hfenced⟩
    · exact Or.inl h
    · rcases (hfenced.bound_iff _ _).mp h with h | ⟨rfl, rfl, rfl⟩
      · exact Or.inl h
      · rcases hfenced.queue with ⟨hfalse, -⟩ | ⟨-, -, hheader, -⟩
        · cases hfalse
        · exact Or.inr ⟨hheader, ⟨_, hfenced.written.header_self⟩,
            fun itemId' h' => ((hfenced.bound_iff _ _).mp h').imp_right fun h' => h'.2.1⟩
  | saveTransaction tx =>
    rcases WorkerOp.Exec.plain hledger.consistent hexec with ⟨rfl, -⟩ | ⟨rfl, hqueue, -⟩
    · exact Or.inl h
    · rw [hqueue] at h
      exact Or.inl h
  | load id =>
    obtain rfl := (WorkerOp.Exec.load hexec).1
    exact Or.inl h
  | outside op =>
    obtain rfl : s' = s := hexec
    exact Or.inl h

/-- A turn that is tied to a transaction knows it by name. -/
lemma Turn.Tied.saved {turn : Turn} {tx : Transaction} {expectedRevision : ℤ}
    (h : turn.Tied t s) (hmay : turn.MaySave tx expectedRevision false) :
    turn.transactionId = tx.id ∧ s.queue.db.Bound turn.itemId tx.id := by
  obtain ⟨hid, snapshot, hlast, -⟩ := hmay.later rfl
  obtain ⟨-, hne⟩ := h.last _ _ hlast
  exact ⟨hid, hid ▸ h.bound hne⟩

/-- **A turn is tied to the databases after every step** of its process. -/
lemma Turn.Moves.tied (hledger : Ledger t s) (hobserves : Observes true evs op)
    (hexec : op.Exec s r s') {turn : Turn} (h : Turn.Moves (turnOf evs) ⟨op, r⟩ turn)
    (htied : ∀ turn, turnOf evs = some turn → turn.Tied t s) :
    turn.Tied (t ++ [.answer p ⟨op, r⟩]) s' := by
  have hmono : ∀ itemId id, s.queue.db.Bound itemId id → s'.queue.db.Bound itemId id :=
    fun _ _ hbound => hexec.bound_mono hledger hobserves hbound
  cases h with
  | claim =>
    exact ⟨fun hne => ⟨hne, _, (QueueOp.Exec.claimed hexec.1 hledger.accounted).1, rfl, rfl⟩,
      fun _ _ hlast => absurd hlast (by simp [Turn.ofRow]), fun _ => rfl⟩
  | @load turn₀ id tx revision hg =>
    have htied' := (htied turn₀ hg).mono (l := .answer p ⟨.load id, .ok (tx, revision)⟩) hmono
    unfold Turn.load
    split
    · next hload =>
      refine ⟨htied'.bound, fun _ _ hlast => ?_, htied'.kept⟩
      cases hlast
      have hid : tx.id = id := hexec.answers
      exact ⟨hid.trans hload.2.1, hload.2.1 ▸ hload.2.2⟩
    · exact htied'
  | @save turn₀ tx queueItemId claimedBy claimToken expectedRevision initial revision hg =>
    obtain ⟨turn, hturn, rfl, -, -, hmay⟩ := hobserves.save _ _ _ _ _ _ rfl
    obtain rfl : turn = turn₀ := Option.some.inj (hturn.symm.trans hg)
    have hbound : s'.queue.db.Bound turn.itemId tx.id := by
      cases initial with
      | false => exact hmono _ _ ((htied turn hg).saved hmay).2
      | true =>
        rcases WorkerOp.Exec.fenced hledger.consistent hexec with ⟨-, err, herr⟩ | ⟨_, hr, hfenced⟩
        · cases herr
        · exact (hfenced.bound_iff _ _).mpr (Or.inr ⟨rfl, rfl, rfl⟩)
    refine ⟨fun _ => hbound, fun _ _ hlast => ?_,
      fun hkeep => (htied turn hg).kept hkeep.of_append⟩
    cases hlast
    exact ⟨rfl, hbound.1⟩
  | @callback turn₀ item left tx error raised hg =>
    have htied' := (htied turn₀ hg).mono (l := .answer p
      ⟨.outside (.run (.post (.afterItem item tx error))), (raised, left)⟩) hmono
    refine ⟨htied'.bound, htied'.last, fun hkeep => ?_⟩
    have hid : left.id = item.id :=
      hkeep p item tx error raised left (List.mem_append_right _ (List.mem_singleton_self _))
    simp [Turn.callback, htied'.kept hkeep, hid]
  | quiet hg => exact (htied turn hg).mono hmono

/-- A step that adds a successful attempt completes its item. -/
lemma WorkerOp.Exec.attempt_completed (hledger : Ledger t s) (hobserves : Observes true evs op)
    (hexec : op.Exec s r s') {a : QueueAttemptRow} (hnew : a ∉ s.queue.db.attempts)
    (ha : a ∈ s'.queue.db.attempts) (hsuccessful : a.outcome = some .successful) :
    ∃ claimedBy claimToken finishedAt,
      op = .queue (.complete a.itemId claimedBy claimToken finishedAt) := by
  cases op with
  | queue op =>
    rcases QueueOp.Exec.successful hexec.1 hledger.accounted (hobserves.legit op rfl) ha
      hsuccessful with hold | ⟨claimedBy, claimToken, finishedAt, rfl⟩
    · exact absurd hold hnew
    · exact ⟨claimedBy, claimToken, finishedAt, rfl⟩
  | saveFenced tx queueItemId claimedBy claimToken expectedRevision initial =>
    refine absurd ?_ hnew
    rcases WorkerOp.Exec.fenced hledger.consistent hexec with ⟨rfl, -⟩ | ⟨revision, rfl, hfenced⟩
    · exact ha
    · rcases hfenced.queue with ⟨-, hqueue⟩ | ⟨-, -, -, -, hattempts⟩
      · exact hqueue ▸ ha
      · exact hattempts ▸ ha
  | saveTransaction tx =>
    refine absurd ?_ hnew
    rcases WorkerOp.Exec.plain hledger.consistent hexec with ⟨rfl, -⟩ | ⟨rfl, hqueue, -⟩
    · exact ha
    · exact hqueue ▸ ha
  | load id =>
    obtain rfl := (WorkerOp.Exec.load hexec).1
    exact absurd ha hnew
  | outside op =>
    obtain rfl : s' = s := hexec
    exact absurd ha hnew

end Steps

namespace Bindings

variable {t : List WorkerLabel} {s s' : WorkerSystem} {p : ℕ} {prog : WorkerProg}
  {evs : List (Event WorkerOp WorkerOp.Res)} {op : WorkerOp} {r : op.Res}

/-- Two new databases. -/
lemma init : Bindings [] WorkerSystem.init where
  stored := by
    rintro _ _ ⟨-, row, hrow, -⟩
    cases hrow
  injective := by
    rintro _ _ _ ⟨-, row, hrow, -⟩
    cases hrow
  finished := by
    rintro _ ⟨row, hrow, -⟩
    cases hrow
  turns _ _ _ _ hcall := by cases hcall
  attempts := by
    rintro - a ha
    cases ha

/-- A process starts. -/
lemma start (h : Bindings t s) (prog : WorkerProg) : Bindings (t ++ [.start p prog]) s where
  stored := h.stored
  injective := h.injective
  finished id hsuccessful hplain := by
    rw [overwritten_append, Bool.or_eq_false_iff] at hplain
    exact h.finished id hsuccessful hplain.1
  turns q prog' evs' turn hcall hturn := by
    rw [callOf_append, PoolLabel.follow] at hcall
    split at hcall
    · cases hcall
      cases hturn
    · exact (h.turns q prog' evs' turn hcall hturn).mono fun _ _ hbound => hbound
  attempts hkeep a ha hsuccessful := by
    obtain ⟨id, hbound, hdurable⟩ := h.attempts hkeep.of_append a ha hsuccessful
    refine ⟨id, hbound, fun hplain => hdurable ?_⟩
    rw [overwritten_append, Bool.or_eq_false_iff] at hplain
    exact hplain.1

/-- The steps of a successful transaction are complete after a step, too. -/
lemma finished_step (h : Bindings t s) (hledger : Ledger t s) (hobserves : Observes true evs op)
    (hexec : op.Exec s r s') {id : String} (hsuccessful : s'.transactions.Successful id)
    (hplain : overwritten id (t ++ [.answer p ⟨op, r⟩]) = false) :
    s'.transactions.Finished id := by
  rw [overwritten_append, Bool.or_eq_false_iff] at hplain
  have hsame : s'.transactions.part id = s.transactions.part id → s'.transactions.Finished id :=
    fun hpart => (h.finished id (hsuccessful.congr hpart.symm) hplain.1).congr hpart
  cases op with
  | queue op => exact hsame (by rw [hexec.2])
  | saveFenced tx queueItemId claimedBy claimToken expectedRevision initial =>
    rcases WorkerOp.Exec.fenced hledger.consistent hexec with ⟨rfl, -⟩ | ⟨revision, rfl, hfenced⟩
    · exact hsame rfl
    · by_cases hid : id = tx.id
      · subst hid
        obtain ⟨turn, -, -, -, -, hmay⟩ := hobserves.save _ _ _ _ _ _ rfl
        have hstatus := hfenced.written.agrees.successful_iff.mp hsuccessful
        exact hfenced.written.finished (hmay.complete hstatus)
      · exact hsame (hfenced.written.others id hid)
  | saveTransaction tx =>
    rcases WorkerOp.Exec.plain hledger.consistent hexec with ⟨rfl, -⟩ | ⟨rfl, -, -, _, hwritten⟩
    · exact hsame rfl
    · refine hsame (hwritten.others id fun heq => ?_)
      have hover := hplain.2
      simp [overwritten, PoolLabel.overwrites, heq] at hover
  | load id' =>
    obtain rfl := (WorkerOp.Exec.load hexec).1
    exact hsame rfl
  | outside op =>
    obtain rfl : s' = s := hexec
    exact hsame rfl

/-- A new successful attempt is one whose transaction is stored as successful: its runner has
earned it. -/
lemma attempt_new (h : Bindings t s) (hledger : Ledger t s)
    (hcall : callOf p t = some (prog, evs)) (hkeep : CallbacksKeep t)
    (hobserves : Observes true evs op) {itemId claimedBy claimToken : String}
    {finishedAt : Datetime} (hop : op = .queue (.complete itemId claimedBy claimToken finishedAt)) :
    ∃ id, s.queue.db.Bound itemId id ∧
      (overwritten id t = false → s.transactions.Successful id) := by
  subst hop
  obtain ⟨turn, hturn, ⟨snapshot, revision, hlast, hid, hstatus⟩, hitem⟩ := hobserves.orderly rfl
  have htied := h.turns p prog evs turn hcall hturn
  have hknown := hledger.known p prog evs turn snapshot revision hcall hturn hlast
  rw [hitem (htied.kept hkeep)]
  refine ⟨turn.transactionId, htied.bound (htied.last _ _ hlast).2, fun hplain => ?_⟩
  rw [← hid] at hplain ⊢
  exact (hknown.agrees (hknown.final hstatus hplain)).successful_iff.mpr hstatus

/-- **A step keeps the invariant.** -/
theorem answer (h : Bindings t s) (hledger : Ledger t s) (hcall : callOf p t = some (prog, evs))
    (hobserves : Observes true evs op) (hexec : op.Exec s r s') :
    Bindings (t ++ [.answer p ⟨op, r⟩]) s' where
  stored itemId id hbound := by
    rcases hexec.bound_new hledger hobserves hbound with hbound | ⟨-, hstored, -⟩
    · exact hexec.stored hledger.consistent (h.stored itemId id hbound)
    · exact hstored
  injective itemId itemId' id hbound hbound' := by
    rcases hexec.bound_new hledger hobserves hbound with hold | ⟨hheader, -, hothers⟩
    · rcases hexec.bound_new hledger hobserves hbound' with hold' | ⟨hheader, -, -⟩
      · exact h.injective itemId itemId' id hold hold'
      · obtain ⟨row, hrow⟩ := h.stored itemId id hold
        rw [hheader] at hrow
        cases hrow
    · rcases hothers itemId' hbound' with hold' | heq
      · obtain ⟨row, hrow⟩ := h.stored itemId' id hold'
        rw [hheader] at hrow
        cases hrow
      · exact heq.symm
  finished id hsuccessful hplain := h.finished_step hledger hobserves hexec hsuccessful hplain
  turns q prog' evs' turn hcall' hturn := by
    rw [callOf_append, PoolLabel.follow] at hcall'
    split at hcall'
    · next hq =>
      subst hq
      rw [hcall] at hcall'
      cases hcall'
      rw [turnOf_append] at hturn
      exact (Turn.follow_moves hturn).tied hledger hobserves hexec fun turn₀ hturn₀ =>
        h.turns p prog evs turn₀ hcall hturn₀
    · exact (h.turns q prog' evs' turn hcall' hturn).mono fun _ _ hbound =>
        hexec.bound_mono hledger hobserves hbound
  attempts hkeep a ha hsuccessful := by
    have hkept : ∀ id, s.transactions.Successful id →
        overwritten id (t ++ [.answer p ⟨op, r⟩]) = false → s'.transactions.Successful id := by
      intro id hid hplain
      rw [overwritten_append, Bool.or_eq_false_iff] at hplain
      exact hid.congr (hledger.final_step hcall hobserves hexec hid
        (by simpa [overwritten] using hplain.2)).1
    have hsuffices : (∃ id, s.queue.db.Bound a.itemId id ∧
        (overwritten id t = false → s.transactions.Successful id)) →
        ∃ id, s'.queue.db.Bound a.itemId id ∧
          (overwritten id (t ++ [.answer p ⟨op, r⟩]) = false →
            s'.transactions.Successful id) := by
      rintro ⟨id, hbound, hdurable⟩
      refine ⟨id, hexec.bound_mono hledger hobserves hbound, fun hplain => ?_⟩
      have hbefore := hplain
      rw [overwritten_append, Bool.or_eq_false_iff] at hbefore
      exact hkept id (hdurable hbefore.1) hplain
    refine hsuffices ?_
    by_cases hold : a ∈ s.queue.db.attempts
    · exact h.attempts hkeep.of_append a hold hsuccessful
    · obtain ⟨claimedBy, claimToken, finishedAt, hop⟩ :=
        hexec.attempt_completed hledger hobserves hold ha hsuccessful
      exact h.attempt_new hledger hcall hkeep.of_append hobserves hop

end Bindings

/-! ## Every run -/

/-- The runs of an orderly fleet from two new databases. -/
def FleetRun (t : List WorkerLabel) (P : WorkerPool) : Prop := RunOf FleetCall t P

section Runs

variable {t t' : List WorkerLabel} {P P' : WorkerPool}

/-- A run of an orderly fleet is a run of processes. -/
lemma FleetRun.workerRun (h : FleetRun t P) : WorkerRun t P :=
  RunOf.workerRun (fun _ hcall => hcall.workerCall) h

/-- **The invariant holds in every run of an orderly fleet.** -/
theorem FleetRun.bindings (h : FleetRun t P) : Bindings t P.shared := by
  refine (Machine.Run.induct (I := fun t s => Ledger t s ∧ Bindings t s) h
    ⟨Ledger.init, Bindings.init⟩ ?_ ?_).2
  · rintro t₁ p prog t₂ s - ⟨hledger, hs⟩
    exact ⟨hledger.start prog, hs.start prog⟩
  · rintro t₁ p op r t₂ s s' ht hexec ⟨hledger, hs⟩
    obtain ⟨prog, evs, hcall, hobserves⟩ := RunOf.observes (fun _ hcall => hcall.wp) h ht
    exact ⟨hledger.answer hcall hobserves hexec, hs.answer hledger hcall hobserves hexec⟩

/-- **A binding is for ever.** In every run of an orderly fleet, an item that is bound to a
transaction is bound to one that is stored and that no other item is bound to, and in every later
state, after any number of retries, reclaims and decisions by hand, it is bound to the same one. -/
theorem binding_final (h : FleetRun t P) {itemId id : String}
    (hbound : P.shared.queue.db.Bound itemId id) :
    (∃ row, P.shared.transactions.header id = some row) ∧
    (∀ itemId', P.shared.queue.db.Bound itemId' id → itemId' = itemId) ∧
    ∀ t' P', workerMachine.Run FleetCall P t' P' → ∀ id',
      P'.shared.queue.db.Bound itemId id' ↔ id' = id := by
  have hbindings := FleetRun.bindings h
  refine ⟨hbindings.stored itemId id hbound,
    fun itemId' hbound' => hbindings.injective itemId' itemId id hbound' hbound, ?_⟩
  intro t' P' h' id'
  have hwhole : FleetRun (t ++ t') P' := Machine.Run.append h h'
  have hlater : P'.shared.queue.db.Bound itemId id :=
    RunOf.later (fun _ hcall => hcall.workerCall) (fun _ hcall => hcall.wp) h h'
      (I := fun _ s => s.queue.db.Bound itemId id) hbound (fun _ _ _ _ hI => hI)
      fun _ _ _ _ _ _ _ _ hledger _ hobserves hexec hI => hexec.bound_mono hledger hobserves hI
  refine ⟨fun hother => ?_, fun heq => heq ▸ hlater⟩
  obtain ⟨-, row, hrow, hid, rfl⟩ := hlater
  obtain ⟨-, row', hrow', hid', rfl⟩ := hother
  have hkeyed := (FleetRun.workerRun hwhole).ledger.accounted.keyed
  rw [hkeyed.eq hrow hrow' (hid.trans hid'.symm)]

/-- An item whose first worker was cut off is bound to a stored transaction of its own, and still
is after another worker has taken it over. -/
theorem binding_final_takenOver :
    (∃ row, (cutWorkers 23).shared.transactions.header "1" = some row) ∧
    (∀ itemId, (cutWorkers 23).shared.queue.db.Bound itemId "1" → itemId = "i") ∧
    (takenOverWorkers 23 4).shared.queue.db.attempts.map QueueAttemptRow.outcome =
      [some .leaseExpired, some .successful] ∧
    ∀ id, (takenOverWorkers 23 4).shared.queue.db.Bound "i" id ↔ id = "1" := by
  have hbound : (cutWorkers 23).shared.queue.db.Bound "i" "1" := by
    unfold QueueDb.Bound
    decide +kernel
  obtain ⟨hstored, hown, hlater⟩ := binding_final (cutWorkers_run 23).1 hbound
  exact ⟨hstored, hown, by decide +kernel, hlater _ _ (takenOverWorkers_run 23 4)⟩

/-- **A successful attempt has a successful transaction.** In every run of an orderly fleet whose
callbacks leave the id of their item alone, an attempt that the queue has recorded as successful is
one of an item that is bound to a transaction. As long as nobody has saved that transaction without
a claim, it is stored as successful, and all its steps are successful or skipped.

**Proof sketch.** Only a runner completes an item under its claim, and only after it has saved or
loaded a successful snapshot (`Bindings.attempt_new`). What it knows of a successful transaction
stays true (`Known`). -/
theorem successful_attempt_durable (h : FleetRun t P) (hkeep : CallbacksKeep t)
    {a : QueueAttemptRow} (ha : a ∈ P.shared.queue.db.attempts)
    (hsuccessful : a.outcome = some .successful) :
    ∃ id, P.shared.queue.db.Bound a.itemId id ∧ (overwritten id t = false →
      P.shared.transactions.Successful id ∧ P.shared.transactions.Finished id) := by
  have hbindings := FleetRun.bindings h
  obtain ⟨id, hbound, hdurable⟩ := hbindings.attempts hkeep a ha hsuccessful
  exact ⟨id, hbound, fun hplain => ⟨hdurable hplain,
    hbindings.finished id (hdurable hplain) hplain⟩⟩

/-- The callback of a step leaves the id of its item alone. -/
def PoolLabel.keepsItem : WorkerLabel → Bool
  | .answer _ ⟨.outside (.run (.post (.afterItem item _ _))), (_, left)⟩ => left.id = item.id
  | _ => true

/-- The attempt of the run is successful, and so is its transaction. -/
theorem successful_attempt_durable_done : ∃ a ∈ doneWorkers.shared.queue.db.attempts,
    a.outcome = some .successful ∧ ∃ id, doneWorkers.shared.queue.db.Bound a.itemId id ∧
      (overwritten id doneLabels = false → doneWorkers.shared.transactions.Successful id ∧
        doneWorkers.shared.transactions.Finished id) := by
  have hkeeps : doneLabels.all PoolLabel.keepsItem = true := by decide +kernel
  have hkeep : CallbacksKeep doneLabels := by
    intro p item tx error raised left hmem
    exact of_decide_eq_true (List.all_eq_true.mp hkeeps _ hmem)
  have hdone : ∃ a ∈ doneWorkers.shared.queue.db.attempts, a.outcome = some .successful := by
    decide +kernel
  obtain ⟨a, ha, hsuccessful⟩ := hdone
  exact ⟨a, ha, hsuccessful, successful_attempt_durable doneWorkers_run.1 hkeep ha hsuccessful⟩

end Runs
