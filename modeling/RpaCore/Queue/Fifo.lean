import RpaCore.Queue.Intake
import RpaCore.Queue.Selection

set_option relaxedAutoImplicit false
set_option autoImplicit false

/-!
# The order of claims

A consumer takes an item and completes it until there is none. It gets the items in the order of
the texts of their creation times, which is the order of the wall clock readings; the oldest item
is the one with the earliest instant. The two orders are the same for creation times of one offset.

## Main definitions

* `QueueDb.Built` — the queues that `add` and `add_once` build.
* `SqliteQueue.drain` — the consumer.
* `QueueRow.WallBefore`, `QueueRow.Earlier` — the two orders.
* `SqliteQueue.DrainsInOrder` — the consumer always gets the oldest item.

## Main results

* `wp_drain` — the consumer gets the eligible items in the order of the selection.
* `oldest_first_iff` — when that is the order of the instants.
-/

/-! ## Queues that are filled -/

/-- A queue that is built by `add` and `add_once`, of items with aware creation times, whose
payloads are read back by `json.loads` as `json.dumps` has written them. -/
inductive QueueDb.Built (q : SqliteQueue) : QueueDb → Prop
  | empty : Built q QueueDb.empty
  | add {db db' : QueueDb} {q' : SqliteQueue} {item : QueueItem} (h : Built q db)
      (hcreated : item.createdAt.IsValid ∧ item.createdAt.isAware = true)
      (hpayload : (loadPayload q.jsonLoads (q'.jsonDumps item.payload)).isOk = true)
      (hadd : db.add q' item = .ok db') : Built q db'
  | addOnce {db db' : QueueDb} {q' : SqliteQueue} {item : QueueItem}
      {activeStatuses : Option (List QueueStatus)} {inserted : Bool} (h : Built q db)
      (hcreated : item.createdAt.IsValid ∧ item.createdAt.isAware = true)
      (hpayload : (loadPayload q.jsonLoads (q'.jsonDumps item.payload)).isOk = true)
      (hadd : QueueDb.addOnce q' item activeStatuses db = .ok (inserted, db')) : Built q db'

/-- Tables from which items can be claimed one after the other, at a clock reading that makes no
lease expire. -/
structure QueueDb.Drainable (q : SqliteQueue) (now : Datetime) (db : QueueDb) : Prop where
  selectable : db.Selectable
  decodes : ∀ row ∈ db.items, q.decodes row = true
  fresh : ∀ row ∈ db.items, isStale q now row = false

/-- The rows of a queue that is built: unique ids, payloads that are decoded, aware creation
times, canonical deadlines, and no attempts. -/
structure QueueDb.WellBuilt (q : SqliteQueue) (db : QueueDb) : Prop where
  keyed : Table.Keyed QueueRow.id db.items
  decodes : ∀ row ∈ db.items, q.decodes row = true
  created : ∀ row ∈ db.items, row.createdAt.IsValid ∧ row.createdAt.isAware = true
  due : db.CanonicalDeadlines
  attempts : db.attempts = []

/-- An added item keeps the queue well built. -/
lemma QueueDb.WellBuilt.add {q q' : SqliteQueue} {db db' : QueueDb} {item : QueueItem}
    (h : db.WellBuilt q) (hcreated : item.createdAt.IsValid ∧ item.createdAt.isAware = true)
    (hpayload : (loadPayload q.jsonLoads (q'.jsonDumps item.payload)).isOk = true)
    (hadd : db.add q' item = .ok db') : db'.WellBuilt q := by
  obtain ⟨text, htext, hnew, -, rfl⟩ := QueueDb.add_row hadd
  refine ⟨h.keyed.append hnew, fun row hrow => ?_, fun row hrow => ?_, fun row hrow due hdue => ?_,
    h.attempts⟩
  · rcases List.mem_append.mp hrow with hrow | hrow
    · exact h.decodes row hrow
    · rw [List.mem_singleton.mp hrow]
      exact hpayload
  · rcases List.mem_append.mp hrow with hrow | hrow
    · exact h.created row hrow
    · rw [List.mem_singleton.mp hrow]
      exact hcreated
  · rcases List.mem_append.mp hrow with hrow | hrow
    · exact h.due row hrow due hdue
    · rw [List.mem_singleton.mp hrow] at hdue
      obtain ⟨-, rfl⟩ | ⟨d, u, -, rfl, hu, -⟩ := availableAtText_ok htext
      · cases hdue
      · cases hdue
        exact hu

/-- A queue that is built is well built. -/
lemma QueueDb.Built.wellBuilt {q : SqliteQueue} {db : QueueDb} (h : db.Built q) :
    db.WellBuilt q := by
  induction h with
  | empty => exact ⟨List.nodup_nil, by simp [QueueDb.empty], by simp [QueueDb.empty],
      by simp [QueueDb.CanonicalDeadlines, QueueDb.empty], rfl⟩
  | add _ hcreated hpayload hadd ih => exact ih.add hcreated hpayload hadd
  | addOnce _ hcreated hpayload hadd ih =>
    unfold QueueDb.addOnce at hadd
    split at hadd
    · cases hadd
      exact ih
    · obtain ⟨d, hd, heq⟩ := Except.map_eq_ok.mp hadd
      cases heq
      exact ih.add hcreated hpayload hd

/-! ## The lease reclaim -/

/-- After the lease reclaim no lease has expired.

**Proof sketch.** Induction on the stale rows: each is changed by its own round, and a row that a
round changes is not in progress any more. -/
lemma QueueDb.reclaimStale_fresh {q : SqliteQueue} {now : Datetime} {db db' : QueueDb}
    (h : db.reclaimStale q now = .ok db') : ∀ row ∈ db'.items, isStale q now row = false := by
  suffices hgen : ∀ (stales : List QueueRow) (d : QueueDb),
      (∀ row ∈ d.items, isStale q now row = true → row ∈ stales) →
      stales.foldlM (reclaimOne q now) d = .ok db' → ∀ row ∈ db'.items,
        isStale q now row = false from
    hgen _ db (fun row hrow hstale => List.mem_filter.mpr ⟨hrow, hstale⟩) h
  clear h
  intro stales
  induction stales with
  | nil =>
    intro d hd h row hrow
    cases h
    exact Bool.eq_false_iff.mpr fun hstale => absurd (hd row hrow hstale) List.not_mem_nil
  | cons stale stales ih =>
    intro d hd h
    rw [List.foldlM_cons] at h
    obtain ⟨d₁, hone, h⟩ := Except.bind_eq_ok.mp h
    refine ih d₁ (fun row hrow hstale => ?_) h
    unfold reclaimOne at hone
    dsimp only at hone
    generalize (if stale.retryCount + 1 ≤ (q.maxRetries : ℤ) then QueueStatus.pending
      else .failed) = newStatus at hone
    obtain ⟨text, -, hone⟩ := Except.bind_eq_ok.mp hone
    have hitems : ∃ f : QueueRow → QueueRow, (∀ r, (f r).claimedAt = none) ∧
        d₁.items = Table.update (fun row => row.id = stale.id && row.status = .inProgress &&
          row.claimToken = stale.claimToken) f d.items := by
      split at hone <;>
      · cases hone
        exact ⟨_, fun _ => rfl, rfl⟩
    obtain ⟨f, hf, hitems⟩ := hitems
    rw [hitems] at hrow
    obtain ⟨before, hbefore, rfl⟩ := Table.mem_update.mp hrow
    split at hstale
    · simp [isStale, hf] at hstale
    · next hguard =>
      rcases List.mem_cons.mp (hd before hbefore hstale) with rfl | hmem
      · simp only [isStale, Bool.and_eq_true, decide_eq_true_eq] at hstale
        simp [hstale.1] at hguard
      · rw [if_neg hguard]
        exact hmem

/-- Without an expired lease there is nothing to reclaim. -/
lemma QueueDb.reclaimStale_of_fresh {q : SqliteQueue} {now : Datetime} {db : QueueDb}
    (h : ∀ row ∈ db.items, isStale q now row = false) : db.reclaimStale q now = .ok db := by
  have hnone : db.items.filter (isStale q now) = [] := by
    rw [List.filter_eq_nil_iff]
    intro row hrow hstale
    rw [h row hrow] at hstale
    cases hstale
  rw [reclaimStale, hnone]
  rfl

/-- The lease reclaim keeps the payloads and creation times. -/
lemma QueueDb.reclaimStale_rows {q : SqliteQueue} {now : Datetime} {db db' : QueueDb}
    (h : db.reclaimStale q now = .ok db') : ∀ row' ∈ db'.items, ∃ row ∈ db.items,
      row'.payload = row.payload ∧ row'.createdAt = row.createdAt := by
  have hrun : (QueueOp.reclaimStale q now).run db = .ok ((), db') := by
    simp [QueueOp.run, h, Except.map]
  have hlegit : (QueueOp.reclaimStale q now).Legit := trivial
  obtain ⟨f, hf, hstep⟩ := QueueOp.run_rows (fun _ _ => by simp) hlegit hrun
  intro row' hrow'
  rw [hf] at hrow'
  obtain ⟨row, hrow, rfl⟩ := List.mem_map.mp hrow'
  exact ⟨row, hrow, (hstep row hrow).payload, (hstep row hrow).createdAt⟩

/-! ## One item -/

/-- A consumer: it claims an item and completes it, until there is none, for at most `n` items. -/
def SqliteQueue.drain (q : SqliteQueue) (workerId : String) (rounds : ℕ) :
    ℕ → QueueM (List QueueItem)
  | 0 => pure []
  | n + 1 => do
    match ← q.nextItem workerId rounds with
    | some (some item) => do
      SqliteQueue.complete item.id item.claimedBy item.claimToken
      let rest ← drain q workerId rounds n
      pure (item :: rest)
    | _ => pure []

/-- The row of a completed item. -/
def QueueRow.completed (workerId : String) (row : QueueRow) : QueueRow :=
  { row with
    status := .successful
    claimedBy := workerId
    claimedAt := none
    claimToken := ""
    availableAt := none }

section Step

variable {q : SqliteQueue} {moment : Datetime} {db : QueueDb} {row : QueueRow}
  {rest : List QueueRow}

/-- The tables after an item was claimed and completed. -/
def QueueDb.withCompleted (row : QueueRow) (workerId : String) (now : Datetime)
    (token : ClaimToken) (db : QueueDb) : QueueDb :=
  { (db.withClaim row workerId now token).closeAttempt row.id token.text .successful now with
    items := db.items.map fun r => if r = row then r.completed workerId else r }

/-- The claimed item is completed. -/
lemma QueueDb.complete_withClaim (hkeyed : Table.Keyed QueueRow.id db.items)
    (hrow : row ∈ db.items) (workerId : String) (moment : Datetime) (token : ClaimToken) :
    (db.withClaim row workerId moment token).complete row.id workerId token.text moment =
      .ok (db.withCompleted row workerId moment token) := by
  have hkeyed' : Table.Keyed QueueRow.id (db.withClaim row workerId moment token).items := by
    have hids : (db.items.map fun r => if r = row then r.claimed workerId moment token else r).map
        QueueRow.id = db.items.map QueueRow.id := by
      rw [List.map_map]
      refine List.map_congr_left fun r _ => ?_
      simp only [Function.comp]
      split <;> rfl
    unfold Table.Keyed at hkeyed ⊢
    rw [QueueDb.withClaim, hids]
    exact hkeyed
  have hheld : isHeld row.id workerId token.text (row.claimed workerId moment token) = true :=
    isHeld_iff.mpr ⟨rfl, rfl, rfl, rfl, token.nonempty⟩
  have hcount : Table.rowcount (isHeld row.id workerId token.text)
      (db.withClaim row workerId moment token).items = 1 :=
    hkeyed'.rowcount_eq_one (fun r hr => (isHeld_iff.mp hr).1)
      (List.mem_map.mpr ⟨row, hrow, if_pos rfl⟩) hheld
  have hitems : Table.update (isHeld row.id workerId token.text) (fun row =>
      { row with status := .successful, claimedAt := none, claimToken := "", availableAt := none })
      (db.withClaim row workerId moment token).items =
        db.items.map fun r => if r = row then r.completed workerId else r := by
    rw [Table.update, QueueDb.withClaim, List.map_map]
    refine List.map_congr_left fun r hr => ?_
    simp only [Function.comp]
    by_cases heq : r = row
    · subst heq
      rw [if_pos rfl, if_pos rfl, if_pos hheld]
      rfl
    · rw [if_neg heq, if_neg heq, if_neg]
      intro h
      exact heq (hkeyed.eq hr hrow (isHeld_iff.mp h).1)
  unfold complete updateHeld
  rw [if_neg (by rw [hcount]; simp), hitems]
  rfl

/-- Completing the first item leaves the others to be claimed. -/
lemma QueueDb.Drainable.next (h : db.Drainable q moment)
    (hrows : db.eligible moment = row :: rest) (workerId : String) (token : ClaimToken) :
    (db.withCompleted row workerId moment token).Drainable q moment ∧
      (db.withCompleted row workerId moment token).eligible moment = rest := by
  have hkeyed := h.selectable.keyed
  have hids : (db.withCompleted row workerId moment token).items.map QueueRow.id =
      db.items.map QueueRow.id := by
    rw [QueueDb.withCompleted, List.map_map]
    refine List.map_congr_left fun r _ => ?_
    simp only [Function.comp]
    split <;> rfl
  have hkeyed' : Table.Keyed QueueRow.id (db.withCompleted row workerId moment token).items := by
    unfold Table.Keyed at hkeyed ⊢
    rw [hids]
    exact hkeyed
  refine ⟨⟨⟨hkeyed', fun r hr hpending => ?_⟩, fun r hr => ?_, fun r hr => ?_⟩,
    eligible_tail hkeyed hkeyed' hrows (f := QueueRow.completed workerId) rfl rfl⟩
  all_goals obtain ⟨before, hbefore, rfl⟩ := List.mem_map.mp hr
  · split at hpending
    · cases hpending
    · next hne =>
      rw [if_neg hne]
      exact h.selectable.due before hbefore hpending
  · split
    · exact h.decodes before hbefore
    · exact h.decodes before hbefore
  · split
    · rfl
    · exact h.fresh before hbefore

end Step

/-! ## The consumer -/

section Drain

variable {q : SqliteQueue} {workerId : String} {moment : Datetime} {tokens : ℕ → ClaimToken}
  {s : QueueSystem} {db : QueueDb} {rows : List QueueRow} {rounds calls : ℕ}

/-- A completion that commits. -/
lemma QueueOp.alone_complete {itemId claimedBy claimToken : String} {finishedAt : Datetime}
    (h : s.db.complete itemId claimedBy claimToken finishedAt = .ok db) :
    QueueOp.alone moment tokens s (.complete itemId claimedBy claimToken finishedAt) =
      (.ok (), ⟨db, s.issued⟩) := by
  have hrun : (QueueOp.complete itemId claimedBy claimToken finishedAt).run s.db =
      .ok ((), db) := by
    simp [run, h, Except.map]
  simp only [alone, answer, hrun]

/-- The tokens of the attempts after an item was claimed and completed. -/
lemma QueueDb.tokens_withCompleted (row : QueueRow) (token : ClaimToken) :
    (db.withCompleted row workerId moment token).attempts.map QueueAttemptRow.claimToken =
      db.attempts.map QueueAttemptRow.claimToken ++ [token.text] := by
  have hclose : ((db.withClaim row workerId moment token).closeAttempt row.id token.text .successful
      moment).attempts.map QueueAttemptRow.claimToken =
        (db.withClaim row workerId moment token).attempts.map QueueAttemptRow.claimToken :=
    Table.map_update fun _ _ _ => rfl
  exact hclose.trans (by simp [QueueDb.withClaim])

/-- **The consumer gets the eligible items in the order of the selection.**

**Proof sketch.** Induction on the eligible items: the first one is claimed in the first round, as
its payload is decoded, and is completed; then the next one is the first. -/
theorem wp_drain (hdrain : db.Drainable q moment) (hinj : Function.Injective tokens)
    (hreclaim : s.db.reclaimStale q moment = .ok db) (hrows : db.eligible moment = rows)
    (hfresh : ∀ a ∈ db.attempts, ∀ k, s.issued.length ≤ k → a.claimToken ≠ (tokens k).text)
    (hcalls : rows.length < calls) (hrounds : 0 < rounds) :
    (q.drain workerId rounds calls).wp (answeredBy (QueueOp.alone moment tokens))
      (fun items _ _ => items.map (fun item => (item.createdAt, item.id)) =
        rows.map fun row => (row.createdAt, row.id)) (fun _ _ _ => False) () s := by
  obtain ⟨rounds, rfl⟩ := Nat.exists_eq_add_of_lt hrounds
  induction rows generalizing s db calls with
  | nil =>
    obtain ⟨n, rfl⟩ := Nat.exists_eq_add_of_lt hcalls
    have hnone : ∀ row rest, db.eligible moment ≠ row :: rest := by simp [hrows]
    rw [SqliteQueue.drain, Proc.wp_bind, wp_nextItem hreclaim]
    exact wp_round (s := ⟨db, s.issued⟩) hdrain.selectable.keyed hdrain.selectable.eligible
      (fun a ha => hfresh a ha _ (Nat.le_refl _)) (fun _ => rfl)
      (fun row rest _ hcons => absurd hcons (hnone row rest))
      (fun row rest _ hcons => absurd hcons (hnone row rest))
      fun row rest _ _ hcons => absurd hcons (hnone row rest)
  | cons row rest ih =>
    obtain ⟨n, rfl⟩ := Nat.exists_eq_add_of_lt hcalls
    have hrow : row ∈ db.items :=
      (QueueDb.mem_eligible.mp (hrows ▸ List.mem_cons_self)).1
    have hdecodes := hdrain.decodes row hrow
    rw [SqliteQueue.drain, Proc.wp_bind, wp_nextItem hreclaim]
    refine wp_round (s := ⟨db, s.issued⟩) hdrain.selectable.keyed hdrain.selectable.eligible
      (fun a ha => hfresh a ha _ (Nat.le_refl _)) (fun hnil => ?_)
      (fun r rs payload hcons hload => ?_) (fun r rs err hcons hload htype => ?_)
      fun r rs err errorType hcons hload htype => ?_
    · rw [hrows] at hnil
      cases hnil
    · rw [hrows] at hcons
      cases hcons
      obtain ⟨hnext, htail⟩ := hdrain.next hrows workerId (tokens s.issued.length)
      have hcommit := QueueDb.complete_withClaim hdrain.selectable.keyed hrow workerId moment
        (tokens s.issued.length)
      simp only [Proc.wp_bind, SqliteQueue.complete, SqliteQueue.now, Proc.wp_call_answeredBy,
        Proc.wp_ofExcept, QueueOp.alone_clock]
      have hanswer : ∀ issued, QueueOp.alone moment tokens
          ⟨db.withClaim row workerId moment (tokens s.issued.length), issued⟩
          (.complete ((row.claimed workerId moment (tokens s.issued.length)).toItem payload).id
            ((row.claimed workerId moment (tokens s.issued.length)).toItem payload).claimedBy
            ((row.claimed workerId moment (tokens s.issued.length)).toItem payload).claimToken
            moment) =
          (.ok (), ⟨db.withCompleted row workerId moment (tokens s.issued.length), issued⟩) :=
        fun _ => QueueOp.alone_complete hcommit
      rw [hanswer]
      refine Proc.wp_mono (ih (s := ⟨_, _⟩) hnext (QueueDb.reclaimStale_of_fresh hnext.fresh) htail
        ?_ ?_) ?_ fun _ _ _ hfalse => hfalse
      · intro a ha k hk heq
        have hmem := List.mem_map_of_mem (f := QueueAttemptRow.claimToken) ha
        rw [QueueDb.tokens_withCompleted, List.mem_append, List.mem_singleton] at hmem
        rcases hmem with hmem | hmem
        · obtain ⟨b, hb, hbeq⟩ := List.mem_map.mp hmem
          exact hfresh b hb k (Nat.le_of_succ_le hk) (hbeq.trans heq)
        · have := hinj (ClaimToken.ext (hmem.symm.trans heq))
          simp only [List.length_cons] at hk
          omega
      · simp only [List.length_cons]
        omega
      · rintro items _ _ hitems
        rw [Proc.wp_pure, List.map_cons, List.map_cons, hitems]
        rfl
    · rw [hrows] at hcons
      cases hcons
      rw [SqliteQueue.not_decodes_of_error hload] at hdecodes
      cases hdecodes
    · rw [hrows] at hcons
      cases hcons
      rw [SqliteQueue.not_decodes_of_error hload] at hdecodes
      cases hdecodes

end Drain

/-! ## The oldest item -/

/-- One creation is earlier than another: by its instant, and then by the id of the item. -/
def Earlier (a b : Datetime × String) : Prop :=
  a.1.instant < b.1.instant ∨ (a.1.instant = b.1.instant ∧ a.2 < b.2)

/-- One creation time shows an earlier reading on the wall than another: by the reading, then by
the text of the offset, and then by the id of the item. -/
def WallBefore (a b : Datetime × String) : Prop :=
  a.1.micros < b.1.micros ∨ (a.1.micros = b.1.micros ∧
    (Datetime.offsetText (a.1.offset.getD 0) < Datetime.offsetText (b.1.offset.getD 0) ∨
      (Datetime.offsetText (a.1.offset.getD 0) = Datetime.offsetText (b.1.offset.getD 0) ∧
        a.2 < b.2)))

instance (a b : Datetime × String) : Decidable (Earlier a b) := inferInstanceAs (Decidable (_ ∨ _))

/-- When and under which id a row was created. -/
def QueueRow.creation (row : QueueRow) : Datetime × String := (row.createdAt, row.id)

/-- **The consumer always gets the oldest item** of those that are eligible: with enough calls it
gets all of them, from the earliest creation to the latest. -/
def SqliteQueue.DrainsInOrder (q : SqliteQueue) (workerId : String) (moment : Datetime)
    (tokens : ℕ → ClaimToken) (s : QueueSystem) (db : QueueDb) : Prop :=
  ∃ n, ∀ rounds calls, n ≤ rounds → n ≤ calls → ∃ items,
    (((q.drain workerId rounds calls).start ()).solve (QueueOp.alone moment tokens) s).1.1 =
      .ok items ∧
    (items.map QueueItem.id).Perm ((db.eligible moment).map QueueRow.id) ∧
    items.Pairwise fun a b => Earlier (a.createdAt, a.id) (b.createdAt, b.id)

/-- With one offset the order on the wall is the order of the instants. -/
lemma WallBefore.earlier_of_offset {a b : Datetime × String} (ho : a.1.offset = b.1.offset)
    (h : WallBefore a b) : Earlier a b := by
  unfold WallBefore at h
  unfold Earlier Datetime.instant
  rw [ho] at h ⊢
  rcases h with h | ⟨heq, h | ⟨-, hid⟩⟩
  · exact Or.inl (by omega)
  · exact absurd h (String.lt_irrefl _)
  · exact Or.inr ⟨by omega, hid⟩

/-- Texts that are ordered by a reading and a rest are equal if both are. -/
lemma text_eq_iff {x y u v : String} {m n : ℤ} (hlt : x < y ↔ m < n ∨ (m = n ∧ u < v))
    (hgt : y < x ↔ n < m ∨ (n = m ∧ v < u)) : x = y ↔ m = n ∧ u = v := by
  rcases lt_trichotomy x y with hxy | hxy | hxy
  · refine iff_of_false (fun heq => String.lt_irrefl _ (heq ▸ hxy)) ?_
    rintro ⟨rfl, rfl⟩
    exact (hlt.mp hxy).elim (lt_irrefl _) fun h => String.lt_irrefl _ h.2
  · refine iff_of_true hxy ?_
    have hnlt : ¬ x < y := hxy ▸ String.lt_irrefl _
    have hngt : ¬ y < x := hxy ▸ String.lt_irrefl _
    have hmn : m = n := le_antisymm (not_lt.mp fun h => hngt (hgt.mpr (Or.inl h)))
      (not_lt.mp fun h => hnlt (hlt.mpr (Or.inl h)))
    exact ⟨hmn, le_antisymm (not_lt.mp fun h => hngt (hgt.mpr (Or.inr ⟨hmn.symm, h⟩)))
      (not_lt.mp fun h => hnlt (hlt.mpr (Or.inr ⟨hmn, h⟩)))⟩
  · refine iff_of_false (fun heq => String.lt_irrefl _ (heq ▸ hxy)) ?_
    rintro ⟨rfl, rfl⟩
    exact (hgt.mp hxy).elim (lt_irrefl _) fun h => String.lt_irrefl _ h.2

/-- The order of the selection is the order on the wall. -/
lemma QueueRow.pageKey_lt_iff {a b : QueueRow}
    (ha : a.createdAt.IsValid ∧ a.createdAt.isAware = true)
    (hb : b.createdAt.IsValid ∧ b.createdAt.isAware = true) :
    a.pageKey < b.pageKey ↔ WallBefore a.creation b.creation := by
  obtain ⟨o, ho⟩ := Option.isSome_iff_exists.mp ha.2
  obtain ⟨o', ho'⟩ := Option.isSome_iff_exists.mp hb.2
  have hlt := Datetime.isoformat_lt ha.1 hb.1 ho ho'
  have heq := text_eq_iff hlt (Datetime.isoformat_lt hb.1 ha.1 ho' ho)
  rw [pageKey, pageKey, orderKey, orderKey, Prod.Lex.toLex_lt_toLex, hlt, heq, WallBefore,
    creation, creation, ho, ho', Option.getD_some, Option.getD_some, or_assoc, and_assoc,
    ← and_or_left]

section Order

variable {q : SqliteQueue} {workerId : String} {moment : Datetime} {tokens : ℕ → ClaimToken}
  {db₀ db : QueueDb}

/-- The tables after the first lease reclaim can be drained. -/
lemma QueueDb.Built.drainable (hq : q.DelaysRetries) (hbuilt : db₀.Built q)
    (hreclaim : db₀.reclaimStale q moment = .ok db) :
    db.Drainable q moment ∧ db.attempts = [] ∧
      ∀ row ∈ db.items, row.createdAt.IsValid ∧ row.createdAt.isAware = true := by
  have hwell := hbuilt.wellBuilt
  have hselectable : db₀.Selectable := ⟨hwell.keyed, fun row hrow _ => hwell.due row hrow⟩
  obtain ⟨hdb, htokens⟩ := hselectable.reclaimStale hq hreclaim
  have hrows := QueueDb.reclaimStale_rows hreclaim
  refine ⟨⟨hdb, fun row hrow => ?_, QueueDb.reclaimStale_fresh hreclaim⟩, ?_, fun row hrow => ?_⟩
  · obtain ⟨before, hbefore, hpayload, -⟩ := hrows row hrow
    have := hwell.decodes before hbefore
    rwa [SqliteQueue.decodes, ← hpayload] at this
  · rw [hwell.attempts] at htokens
    exact List.map_eq_nil_iff.mp htokens
  · obtain ⟨before, hbefore, -, hcreated⟩ := hrows row hrow
    rw [hcreated]
    exact hwell.created before hbefore

/-- The consumer gets the oldest item each time exactly if the selection is in that order. -/
lemma drainsInOrder_iff_pairwise (hq : q.DelaysRetries) (hbuilt : db₀.Built q)
    (hinj : Function.Injective tokens) (hreclaim : db₀.reclaimStale q moment = .ok db) :
    q.DrainsInOrder workerId moment tokens ⟨db₀, []⟩ db ↔
      (db.eligible moment).Pairwise fun a b => Earlier a.creation b.creation := by
  obtain ⟨hdrain, hattempts, -⟩ := hbuilt.drainable hq hreclaim
  have hsolve : ∀ rounds calls, 0 < rounds → (db.eligible moment).length < calls → ∃ items,
      (((q.drain workerId rounds calls).start ()).solve (QueueOp.alone moment tokens)
        ⟨db₀, []⟩).1.1 = .ok items ∧ items.map (fun item => (item.createdAt, item.id)) =
          (db.eligible moment).map QueueRow.creation := by
    intro rounds calls hrounds hcalls
    have hfresh : ∀ a ∈ db.attempts, ∀ k, (⟨db₀, []⟩ : QueueSystem).issued.length ≤ k →
        a.claimToken ≠ (tokens k).text := by
      simp [hattempts]
    have hwp : (q.drain workerId rounds calls).wp (answeredBy (QueueOp.alone moment tokens))
        (fun items _ _ => items.map (fun item => (item.createdAt, item.id)) =
          (db.eligible moment).map QueueRow.creation) (fun _ _ _ => False) () ⟨db₀, []⟩ :=
      wp_drain hdrain hinj hreclaim rfl hfresh hcalls hrounds
    have hpost := Prog.wp_answeredBy.mp hwp
    generalize (((q.drain workerId rounds calls).start ()).solve (QueueOp.alone moment tokens)
      ⟨db₀, []⟩) = result at hpost ⊢
    obtain ⟨⟨_ | items, _⟩, _⟩ := result
    · exact hpost.elim
    · exact ⟨items, rfl, hpost⟩
  have hpairs : ∀ items : List QueueItem, items.map (fun item => (item.createdAt, item.id)) =
      (db.eligible moment).map QueueRow.creation →
      ((items.Pairwise fun a b => Earlier (a.createdAt, a.id) (b.createdAt, b.id)) ↔
        (db.eligible moment).Pairwise fun a b => Earlier a.creation b.creation) := by
    intro items hitems
    rw [← List.pairwise_map (f := fun item : QueueItem => (item.createdAt, item.id))
      (R := Earlier), hitems, List.pairwise_map]
  constructor
  · rintro ⟨n, hn⟩
    obtain ⟨items, hanswer, -, hsorted⟩ := hn (n + (db.eligible moment).length + 1)
      (n + (db.eligible moment).length + 1) (by omega) (by omega)
    obtain ⟨items', hanswer', hitems⟩ := hsolve (n + (db.eligible moment).length + 1)
      (n + (db.eligible moment).length + 1) (by omega) (by omega)
    obtain rfl := Except.ok.inj (hanswer.symm.trans hanswer')
    exact (hpairs items hitems).mp hsorted
  · intro hsorted
    refine ⟨(db.eligible moment).length + 1, fun rounds calls hrounds hcalls => ?_⟩
    obtain ⟨items, hanswer, hitems⟩ := hsolve rounds calls (by omega) hcalls
    refine ⟨items, hanswer, ?_, (hpairs items hitems).mpr hsorted⟩
    have hids := congrArg (List.map Prod.snd) hitems
    rw [List.map_map, List.map_map] at hids
    exact List.Perm.of_eq hids

/-- **When the consumer always gets the oldest item.** Take a queue that `add` and `add_once` have
built of items with any aware creation times, any clock reading, and a consumer that is not
interfered with. It gets the eligible items from the earliest creation to the latest, in each call
the earliest of those that are left, exactly if for every two of them the one whose creation time
shows the earlier reading on the wall (with equal readings the smaller text of the offset, then the
smaller id) is the one created earlier.

**Proof sketch.** The consumer gets the items in the order of the selection, whose keys increase.
The keys are compared as texts, which is the order on the wall. -/
theorem oldest_first_iff (hq : q.DelaysRetries) (hbuilt : db₀.Built q)
    (hinj : Function.Injective tokens) (hreclaim : db₀.reclaimStale q moment = .ok db) :
    q.DrainsInOrder workerId moment tokens ⟨db₀, []⟩ db ↔
      ∀ a ∈ db.eligible moment, ∀ b ∈ db.eligible moment,
        WallBefore a.creation b.creation → Earlier a.creation b.creation := by
  rw [drainsInOrder_iff_pairwise hq hbuilt hinj hreclaim]
  obtain ⟨hdrain, -, hcreated⟩ := hbuilt.drainable hq hreclaim
  have hkey := QueueDb.pairwise_eligible hdrain.selectable.keyed moment
  have hwall : ∀ a ∈ db.eligible moment, ∀ b ∈ db.eligible moment,
      (a.pageKey < b.pageKey ↔ WallBefore a.creation b.creation) := fun a ha b hb =>
    QueueRow.pageKey_lt_iff (hcreated a (QueueDb.mem_eligible.mp ha).1)
      (hcreated b (QueueDb.mem_eligible.mp hb).1)
  constructor
  · intro hsorted a ha b hb hbefore
    -- Of two items the one that is selected first is on both sides the smaller one.
    have hfirst : (db.eligible moment).Pairwise fun a b =>
        a.pageKey < b.pageKey → Earlier a.creation b.creation := by
      refine hsorted.imp ?_
      exact fun hearlier _ => hearlier
    exact hfirst.forall_of_forall_of_flip (fun _ _ hlt => absurd hlt (lt_irrefl _))
      (hkey.imp fun hlt hgt => absurd hgt (lt_asymm hlt)) ha hb ((hwall a ha b hb).mpr hbefore)
  · intro hagree
    exact (hkey.imp_of_mem fun ha hb hlt => hagree _ ha _ hb ((hwall _ ha _ hb).mp hlt))

end Order

/-! ## Two queues -/

/-- An item with a given id and creation time. -/
def createdItem (id : String) (createdAt : Datetime) : QueueItem :=
  { plainItem with id := id, createdAt := createdAt }

/-- The queue of two items that are added one after the other. -/
def pairDb (a b : QueueItem) : QueueDb :=
  ⟨[a, b].map fun item => { pendingRow item.id "{}" with createdAt := item.createdAt }, [], [], []⟩

/-- Any two items can be added. -/
lemma pairDb_built {a b : Datetime} (ha : a.IsValid ∧ a.isAware = true)
    (hb : b.IsValid ∧ b.isAware = true) :
    (pairDb (createdItem "a" a) (createdItem "b" b)).Built plainQueue := by
  have hfirst : QueueDb.empty.add plainQueue (createdItem "a" a) =
      .ok ⟨[{ pendingRow "a" "{}" with createdAt := a }], [], [], []⟩ := rfl
  have hsecond : QueueDb.add plainQueue (createdItem "b" b)
      ⟨[{ pendingRow "a" "{}" with createdAt := a }], [], [], []⟩ =
        .ok (pairDb (createdItem "a" a) (createdItem "b" b)) := rfl
  exact .add (.add .empty ha rfl hfirst) hb rfl hsecond

/-- Two items of one offset are claimed from the earlier to the later, in whichever order they
were added. -/
theorem oldest_first_one_offset : plainQueue.DrainsInOrder "w" ⟨0, some 0⟩ ClaimToken.ofNumber
    ⟨pairDb (createdItem "a" ⟨7200000000, some 3600000000⟩)
      (createdItem "b" ⟨3600000000, some 3600000000⟩), []⟩
    (pairDb (createdItem "a" ⟨7200000000, some 3600000000⟩)
      (createdItem "b" ⟨3600000000, some 3600000000⟩)) := by
  have hvalid : ∀ micros : ℤ, 0 ≤ micros → micros < Datetime.maxMicros →
      (⟨micros, some 3600000000⟩ : Datetime).IsValid ∧
        (⟨micros, some 3600000000⟩ : Datetime).isAware = true := by
    refine fun micros h h' => ⟨⟨h, h', ?_⟩, rfl⟩
    rintro o ⟨⟩
    decide
  refine (oldest_first_iff ⟨fun _ => none, rfl⟩ (pairDb_built (hvalid _ (by decide) (by decide))
    (hvalid _ (by decide) (by decide))) ClaimToken.ofNumber_injective rfl).mpr ?_
  have hoffset : ∀ row ∈ (pairDb (createdItem "a" ⟨7200000000, some 3600000000⟩)
      (createdItem "b" ⟨3600000000, some 3600000000⟩)).eligible ⟨0, some 0⟩,
      row.createdAt.offset = some 3600000000 := by
    decide
  intro a ha b hb hbefore
  exact hbefore.earlier_of_offset ((hoffset a ha).trans (hoffset b hb).symm)

/-- **An item that is overtaken by a later one**: it was created at 02:00 by a clock two hours
ahead of UTC, and the other one an hour later, at 01:00 UTC. -/
theorem oldest_overtaken : ¬ plainQueue.DrainsInOrder "w" ⟨0, some 0⟩ ClaimToken.ofNumber
    ⟨pairDb (createdItem "a" ⟨7200000000, some 7200000000⟩)
      (createdItem "b" ⟨3600000000, some 0⟩), []⟩
    (pairDb (createdItem "a" ⟨7200000000, some 7200000000⟩)
      (createdItem "b" ⟨3600000000, some 0⟩)) := by
  have hvalid : ∀ micros offset : ℤ, 0 ≤ micros → micros < Datetime.maxMicros →
      offset.natAbs < 86400000000 → (⟨micros, some offset⟩ : Datetime).IsValid ∧
        (⟨micros, some offset⟩ : Datetime).isAware = true := by
    refine fun micros offset h h' ho => ⟨⟨h, h', ?_⟩, rfl⟩
    rintro o ⟨⟩
    exact ho
  rw [drainsInOrder_iff_pairwise ⟨fun _ => none, rfl⟩
    (pairDb_built (hvalid _ _ (by decide) (by decide) (by decide))
      (hvalid _ _ (by decide) (by decide) (by decide))) ClaimToken.ofNumber_injective rfl]
  decide
