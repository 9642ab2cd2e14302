import RpaCore.Queue.Claims

set_option relaxedAutoImplicit false
set_option autoImplicit false

/-!
# Leases

The lease of a claim is the clock reading that its row holds: the one of the claim, or of its last
renewal. `next_item` compares it with its own first reading, both in whole seconds, in its first
write transaction. What is compared are readings, which workers take before they get the lock: a
lease can be old when it is written.

## Main definitions

* `QueueDb.Expired` — the row of a claim whose lease has expired.
* `Claim.lastReading` — the reading of the last claim or renewal of a claim in a run.

## Main results

* `QueueDb.reclaimStale_ok` — what the first write transaction of `next_item` does.
* `QueueRun.leased` — a claimed row holds the last reading of its claim.
* `leases_expire` — leases expire neither early nor never, as far as they were written in time.
* `leases_not_exact` — a lease that is written late.
-/

/-! ## The reclaim transaction -/

namespace QueueDb

/-- The row of a claim whose lease has expired: one more retry is counted. -/
structure Expired (q : SqliteQueue) (row row' : QueueRow) : Prop where
  id : row'.id = row.id
  retryCount : row'.retryCount = row.retryCount + 1
  status : row'.status = if row.retryCount + 1 ≤ q.maxRetries then .pending else .failed
  token : row'.claimToken = ""
  claimedAt : row'.claimedAt = none

/-- The attempt of a claim whose lease has expired. -/
def closeExpired (now : Datetime) (expired : List QueueRow) (a : QueueAttemptRow) :
    QueueAttemptRow :=
  if a.outcome.isNone && expired.any fun row => row.id = a.itemId && row.claimToken = a.claimToken
  then { a with outcome := some .leaseExpired, finishedAt := some now } else a

/-- One round of the reclaim loop, for a row that is still as it was selected. -/
lemma reclaimOne_mem {q : SqliteQueue} {now : Datetime} {db db' : QueueDb} {stale : QueueRow}
    (hkeyed : Table.Keyed QueueRow.id db.items) (hmem : stale ∈ db.items)
    (hprog : stale.status = .inProgress) (htoken : stale.claimToken ≠ "")
    (h : db.reclaimOne q now stale = .ok db') :
    ∃ row', Expired q stale row' ∧
      db'.items = db.items.map (fun row => if row.id = stale.id then row' else row) ∧
      db'.attempts = db.attempts.map (closeExpired now [stale]) := by
  unfold reclaimOne at h
  obtain ⟨due, -, h⟩ := Except.bind_eq_ok.mp h
  generalize hguard : (fun row : QueueRow => decide (row.id = stale.id) &&
    decide (row.status = QueueStatus.inProgress) &&
      decide (row.claimToken = stale.claimToken)) = guard at h
  have hg : ∀ r, guard r = true ↔
      r.id = stale.id ∧ r.status = .inProgress ∧ r.claimToken = stale.claimToken := by
    intro r
    rw [← hguard]
    simp [and_assoc]
  have hcount : Table.rowcount guard db.items = 1 :=
    hkeyed.rowcount_eq_one (fun r hr => ((hg r).mp hr).1) hmem ((hg stale).mpr ⟨rfl, hprog, rfl⟩)
  simp only [hcount, htoken, ne_eq, not_false_eq_true, decide_true, Bool.and_self, if_true] at h
  cases h
  let row' : QueueRow :=
    { stale with
      status := if stale.retryCount + 1 ≤ q.maxRetries then .pending else .failed
      retryCount := stale.retryCount + 1
      claimedBy := if (if stale.retryCount + 1 ≤ q.maxRetries then QueueStatus.pending
        else .failed) = .pending then "" else stale.claimedBy
      claimedAt := none
      claimToken := ""
      availableAt := due }
  refine ⟨row', ⟨rfl, rfl, rfl, rfl, rfl⟩, List.map_congr_left fun row hrow => ?_,
    List.map_congr_left fun a _ => ?_⟩
  · by_cases hid : row.id = stale.id
    · obtain rfl : row = stale := hkeyed.eq hrow hmem hid
      rw [if_pos ((hg row).mpr ⟨rfl, hprog, rfl⟩), if_pos rfl]
    · rw [if_neg fun hr => hid ((hg row).mp hr).1, if_neg hid]
  · unfold closeExpired
    refine if_congr ?_ rfl rfl
    simp only [Bool.and_eq_true, decide_eq_true_eq, List.any_cons, List.any_nil, Bool.or_false]
    constructor
    · rintro ⟨⟨hid, htoken⟩, hopen⟩
      exact ⟨hopen, hid.symm, htoken.symm⟩
    · rintro ⟨hopen, hid, htoken⟩
      exact ⟨⟨hid.symm, htoken.symm⟩, hopen⟩

/-- The reclaim loop, for rows that are still as they were selected. -/
lemma reclaimAll_ok {q : SqliteQueue} {now : Datetime} {stale : List QueueRow} {db db' : QueueDb}
    (hkeyed : Table.Keyed QueueRow.id db.items) (hnodup : (stale.map QueueRow.id).Nodup)
    (hstale : ∀ row ∈ stale, row ∈ db.items ∧ row.status = .inProgress ∧ row.claimToken ≠ "")
    (h : stale.foldlM (reclaimOne q now) db = .ok db') :
    (∃ g : QueueRow → QueueRow, db'.items = db.items.map g ∧ ∀ row ∈ db.items,
      (row ∈ stale → Expired q row (g row)) ∧ (row ∉ stale → g row = row)) ∧
      db'.attempts = db.attempts.map (closeExpired now stale) := by
  induction stale generalizing db with
  | nil =>
    cases h
    refine ⟨⟨id, by simp, fun row _ => ⟨fun hr => absurd hr List.not_mem_nil, fun _ => rfl⟩⟩, ?_⟩
    refine (List.map_id' _).symm.trans (List.map_congr_left fun a _ => ?_)
    simp [closeExpired]
  | cons first rest ih =>
    rw [List.foldlM_cons] at h
    obtain ⟨d, hone, hrest⟩ := Except.bind_eq_ok.mp h
    obtain ⟨hmem, hprog, htoken⟩ := hstale first List.mem_cons_self
    obtain ⟨row', hexpired, hitems, hattempts⟩ := reclaimOne_mem hkeyed hmem hprog htoken hone
    have hids : d.items.map QueueRow.id = db.items.map QueueRow.id := by
      rw [hitems, List.map_map]
      refine List.map_congr_left fun row _ => ?_
      dsimp only [Function.comp]
      split
      · next hid => exact hexpired.id.trans hid.symm
      · rfl
    rw [List.map_cons, List.nodup_cons] at hnodup
    have hne : ∀ row ∈ rest, row.id ≠ first.id := fun row hrow hid =>
      hnodup.1 (List.mem_map.mpr ⟨row, hrow, hid⟩)
    obtain ⟨⟨g, hg, hrows⟩, hclosed⟩ := ih (by unfold Table.Keyed; rw [hids]; exact hkeyed) hnodup.2
      (fun row hrow => by
        obtain ⟨hmem', hrest'⟩ := hstale row (List.mem_cons_of_mem _ hrow)
        refine ⟨?_, hrest'⟩
        rw [hitems]
        exact List.mem_map.mpr ⟨row, hmem', if_neg (hne row hrow)⟩) hrest
    have hother : ∀ row ∈ db.items, row.id ≠ first.id → row ∈ d.items := fun row hrow hid => by
      rw [hitems]
      exact List.mem_map.mpr ⟨row, hrow, if_neg hid⟩
    refine ⟨⟨fun row => g (if row.id = first.id then row' else row), ?_, fun row hrow => ?_⟩, ?_⟩
    · rw [hg, hitems, List.map_map]
      rfl
    · by_cases hid : row.id = first.id
      · obtain rfl : row = first := hkeyed.eq hrow hmem hid
        have hrow' : row' ∈ d.items := by
          rw [hitems]
          exact List.mem_map.mpr ⟨row, hrow, if_pos rfl⟩
        have hnot : row' ∉ rest := fun hr => hne row' hr hexpired.id
        simp only [if_true]
        rw [(hrows row' hrow').2 hnot]
        exact ⟨fun _ => hexpired, fun hno => absurd List.mem_cons_self hno⟩
      · simp only [if_neg hid]
        obtain ⟨hin, hout⟩ := hrows row (hother row hrow hid)
        have hnf : row ≠ first := fun heq => hid (congrArg QueueRow.id heq)
        exact ⟨fun hr => hin ((List.mem_cons.mp hr).resolve_left hnf),
          fun hno => hout fun hr => hno (List.mem_cons_of_mem _ hr)⟩
    · rw [hclosed, hattempts, List.map_map]
      refine List.map_congr_left fun a _ => ?_
      cases hopen : a.outcome with
      | some outcome => simp [closeExpired, hopen]
      | none =>
        by_cases hfirst : first.id = a.itemId ∧ first.claimToken = a.claimToken
        · simp [closeExpired, hopen, hfirst]
        · simp [closeExpired, hopen, hfirst]

/-- **What the first write transaction of `next_item` does**: every stale claim expires, which
counts one retry of its item and closes its attempt; nothing else changes. -/
theorem reclaimStale_ok {q : SqliteQueue} {now : Datetime} {db db' : QueueDb} (hacc : db.Accounted)
    (h : db.reclaimStale q now = .ok db') :
    (∃ g : QueueRow → QueueRow, db'.items = db.items.map g ∧ ∀ row ∈ db.items,
      (isStale q now row = true → Expired q row (g row)) ∧
      (¬ isStale q now row = true → g row = row)) ∧
      db'.attempts = db.attempts.map (closeExpired now (db.items.filter (isStale q now))) := by
  have hstale : ∀ row ∈ db.items.filter (isStale q now),
      row ∈ db.items ∧ row.status = .inProgress ∧ row.claimToken ≠ "" := by
    intro row hrow
    obtain ⟨hmem, hstale⟩ := List.mem_filter.mp hrow
    have hprog : row.status = .inProgress := by
      simp only [isStale, Bool.and_eq_true, decide_eq_true_eq] at hstale
      exact hstale.1
    exact ⟨hmem, hprog, (hacc.rows row hmem).token.mp hprog⟩
  obtain ⟨⟨g, hg, hrows⟩, hattempts⟩ :=
    reclaimAll_ok hacc.keyed (hacc.keyed.filter (isStale q now)) hstale h
  refine ⟨⟨g, hg, fun row hrow => ⟨fun hs => ?_, fun hs => ?_⟩⟩, hattempts⟩
  · exact (hrows row hrow).1 (List.mem_filter.mpr ⟨hrow, hs⟩)
  · exact (hrows row hrow).2 fun hmem => hs (List.mem_filter.mp hmem).2

end QueueDb

/-! ## The readings of a run -/

/-- The clock reading that a step writes to a claim: the item, its token and the reading. -/
def PoolLabel.reading? : QueueLabel → Option ((String × String) × Datetime)
  | .answer _ ⟨.claim selected _ now token, .ok (some _)⟩ => some ((selected.id, token.text), now)
  | .answer _ ⟨.renewLease itemId _ claimToken now, .ok ()⟩ => some ((itemId, claimToken), now)
  | _ => none

/-- The last reading that was written to a claim. -/
def leaseReading (key : String × String) (t : List QueueLabel) : Option Datetime :=
  ((t.filterMap PoolLabel.reading?).filter fun x => x.1 = key).getLast?.map Prod.snd

/-- **The reading of the last claim or renewal** of a claim. -/
def Claim.lastReading (c : Claim) (t : List QueueLabel) : Option Datetime :=
  leaseReading (c.itemId, c.token.text) t

/-- After a step that writes no reading to the claim. -/
lemma leaseReading_append_other {key : String × String} {t : List QueueLabel} {l : QueueLabel}
    (h : ∀ now, l.reading? ≠ some (key, now)) :
    leaseReading key (t ++ [l]) = leaseReading key t := by
  unfold leaseReading
  rw [List.filterMap_append, List.filter_append]
  cases hl : l.reading? with
  | none => simp [hl]
  | some x =>
    have hx : ¬ x.1 = key := fun hkey => h x.2 (by rw [hl, ← hkey])
    simp [hl, hx]

/-- After a step that writes a reading to the claim. -/
lemma leaseReading_append_self {key : String × String} {t : List QueueLabel} {l : QueueLabel}
    {now : Datetime} (h : l.reading? = some (key, now)) :
    leaseReading key (t ++ [l]) = some now := by
  unfold leaseReading
  rw [List.filterMap_append, List.filter_append]
  simp [h]

/-- A later part of a run without readings of the claim. -/
lemma leaseReading_append_none {key : String × String} {t t' : List QueueLabel}
    (h : leaseReading key t' = none) : leaseReading key (t ++ t') = leaseReading key t := by
  unfold leaseReading at h ⊢
  rw [Option.map_eq_none_iff, List.getLast?_eq_none_iff] at h
  rw [List.filterMap_append, List.filter_append, h, List.append_nil]

/-- A claimed row holds the last reading of its claim. -/
def Leased (t : List QueueLabel) (db : QueueDb) : Prop :=
  ∀ row ∈ db.items, row.status = .inProgress →
    row.claimedAt = leaseReading (row.id, row.claimToken) t

namespace QueueDb

/-- Every claimed row was there before, with the same reading. -/
def KeepsLeases (db db' : QueueDb) : Prop :=
  ∀ row' ∈ db'.items, row'.status = .inProgress → ∃ row ∈ db.items, row.status = .inProgress ∧
    row.id = row'.id ∧ row.claimToken = row'.claimToken ∧ row.claimedAt = row'.claimedAt

variable {db d db' : QueueDb}

/-- Nothing changes. -/
lemma KeepsLeases.refl (db : QueueDb) : db.KeepsLeases db :=
  fun row hrow hprog => ⟨row, hrow, hprog, rfl, rfl, rfl⟩

/-- Two changes. -/
lemma KeepsLeases.trans (h : db.KeepsLeases d) (h' : d.KeepsLeases db') : db.KeepsLeases db' := by
  intro row' hrow' hprog'
  obtain ⟨row₁, hrow₁, hprog₁, hid₁, htoken₁, hat₁⟩ := h' row' hrow' hprog'
  obtain ⟨row, hrow, hprog, hid, htoken, hat⟩ := h row₁ hrow₁ hprog₁
  exact ⟨row, hrow, hprog, hid.trans hid₁, htoken.trans htoken₁, hat.trans hat₁⟩

/-- An update that leaves a claim alone, or ends it. -/
lemma KeepsLeases.update {p : QueueRow → Bool} {f : QueueRow → QueueRow}
    (hitems : db'.items = Table.update p f db.items)
    (hf : ∀ r, p r = true → (f r).status ≠ .inProgress ∨
      (f r).status = r.status ∧ (f r).id = r.id ∧ (f r).claimToken = r.claimToken ∧
        (f r).claimedAt = r.claimedAt) : db.KeepsLeases db' := by
  intro row' hrow' hprog'
  rw [hitems] at hrow'
  obtain ⟨r, hr, rfl⟩ := Table.mem_update.mp hrow'
  split at hprog'
  · next hp =>
    obtain ⟨hstatus, hid, htoken, hat⟩ := (hf r hp).resolve_left fun hne => hne hprog'
    rw [if_pos hp]
    exact ⟨r, hr, hstatus.symm.trans hprog', hid.symm, htoken.symm, hat.symm⟩
  · next hp =>
    rw [if_neg hp]
    exact ⟨r, hr, hprog', rfl, rfl, rfl⟩

/-- A change other than a claim or a renewal keeps the readings. -/
lemma Change.keepsLeases {op : QueueOp} {v : op.Val} (h : Change op v db db')
    (hclaim : ∀ selected workerId now token, op ≠ .claim selected workerId now token)
    (hrenew : ∀ itemId claimedBy claimToken now, op ≠ .renewLease itemId claimedBy claimToken now) :
    db.KeepsLeases db' := by
  cases h with
  | same hitems =>
    intro row' hrow' hprog'
    exact ⟨row', hitems ▸ hrow', hprog', rfl, rfl, rfl⟩
  | add _ _ hrow _ hitems =>
    intro row' hrow' hprog'
    rw [hitems] at hrow'
    rcases List.mem_append.mp hrow' with hmem | hmem
    · exact ⟨row', hmem, hprog', rfl, rfl, rfl⟩
    · rw [List.mem_singleton.mp hmem, hrow.status] at hprog'
      cases hprog'
  | drop hf hitems => exact .update hitems fun r hr => Or.inl (hf r hr).status
  | claim hop =>
    cases hop
    exact absurd rfl (hclaim _ _ _ _)
  | bind _ _ _ hitems => exact .update hitems fun r _ => Or.inr ⟨rfl, rfl, rfl, rfl⟩
  | renew hop => exact absurd hop (hrenew _ _ _ _)
  | release hr => exact .update hr.items fun r hp => Or.inl (hr.released r hp).status

/-- A claimed row is the only one of its item. -/
lemma Claims.leases {selected : QueueRow} {workerId : String} {now : Datetime} {token : ClaimToken}
    {row : QueueRow} (h : db.Claims db' selected workerId now token row)
    (hkeyed : Table.Keyed QueueRow.id db.items) :
    ∀ row' ∈ db'.items, row'.status = .inProgress →
      (row'.id = selected.id ∧ row'.claimToken = token.text ∧ row'.claimedAt = some now) ∨
      (row'.id ≠ selected.id ∧ row' ∈ db.items) := by
  intro row' hrow' hprog'
  rw [h.items] at hrow'
  obtain ⟨r, hr, rfl⟩ := Table.mem_update.mp hrow'
  split
  · next hs => exact Or.inl ⟨(stillSelected_iff.mp hs).1, rfl, rfl⟩
  · next hs =>
    refine Or.inr ⟨fun hid => hs ?_, hr⟩
    rw [hkeyed.eq hr h.mem (hid.trans (stillSelected_iff.mp h.found).1.symm)]
    exact h.found

/-- The row of a renewed claim is the only one of its item. -/
lemma renewLease_leases {itemId claimedBy claimToken : String} {now : Datetime}
    (hkeyed : Table.Keyed QueueRow.id db.items)
    (h : db.renewLease itemId claimedBy claimToken now = .ok db') :
    ∀ row' ∈ db'.items, row'.status = .inProgress →
      (row'.id = itemId ∧ row'.claimToken = claimToken ∧ row'.claimedAt = some now) ∨
      (row'.id ≠ itemId ∧ row' ∈ db.items) := by
  obtain ⟨row, hmem, hheld, rfl⟩ := updateHeld_ok h
  obtain ⟨hid, -, -, -, -⟩ := isHeld_iff.mp hheld
  intro row' hrow' hprog'
  obtain ⟨r, hr, rfl⟩ := Table.mem_update.mp hrow'
  split
  · next hs =>
    obtain ⟨hid', -, -, htoken', -⟩ := isHeld_iff.mp hs
    exact Or.inl ⟨hid', htoken', rfl⟩
  · next hs =>
    refine Or.inr ⟨fun hid' => hs ?_, hr⟩
    rw [hkeyed.eq hr hmem (hid'.trans hid.symm)]
    exact hheld

end QueueDb

/-- A statement is answered: the readings of the claimed rows are the last ones. -/
lemma Leased.answer {t : List QueueLabel} {s s' : QueueSystem} (h : Leased t s.db)
    (hacc : s.db.Accounted) {p : ℕ} {op : QueueOp} {r : op.Res} (hlegit : op.Legit)
    (hexec : op.Exec s r s') : Leased (t ++ [.answer p ⟨op, r⟩]) s'.db := by
  -- a step that writes a reading, and one that does not
  have hwrite : ∀ {itemId claimToken : String} {now : Datetime},
      PoolLabel.reading? (.answer p ⟨op, r⟩) = some ((itemId, claimToken), now) →
      (∀ row' ∈ s'.db.items, row'.status = .inProgress →
        (row'.id = itemId ∧ row'.claimToken = claimToken ∧ row'.claimedAt = some now) ∨
        (row'.id ≠ itemId ∧ row' ∈ s.db.items)) → Leased (t ++ [.answer p ⟨op, r⟩]) s'.db := by
    intro itemId claimToken now hreading hrows row' hrow' hprog'
    rcases hrows row' hrow' hprog' with ⟨rfl, rfl, hat⟩ | ⟨hid, hmem⟩
    · rw [hat, leaseReading_append_self hreading]
    · rw [leaseReading_append_other fun now' heq => hid ?_]
      · exact h row' hmem hprog'
      · rw [hreading] at heq
        exact (congrArg (fun x => x.1.1) (Option.some.inj heq)).symm
  have hkeep : PoolLabel.reading? (.answer p ⟨op, r⟩) = none → s.db.KeepsLeases s'.db →
      Leased (t ++ [.answer p ⟨op, r⟩]) s'.db := by
    intro hnone hleases row' hrow' hprog'
    obtain ⟨row, hrow, hprog, hid, htoken, hat⟩ := hleases row' hrow' hprog'
    rw [leaseReading_append_other (by simp [hnone]), ← hid, ← htoken, ← hat]
    exact h row hrow hprog
  by_cases hclaim : ∃ selected workerId now token, op = .claim selected workerId now token
  · obtain ⟨selected, workerId, now, token, rfl⟩ := hclaim
    obtain ⟨-, hatom⟩ := hexec
    generalize s'.db = d at hatom hwrite hkeep ⊢
    cases hatom with
    | raise => exact hkeep rfl (.refl _)
    | kept => exact hkeep rfl (.refl _)
    | commit hrun =>
      rcases QueueDb.claim_ok hacc.keyed hrun with ⟨rfl, rfl⟩ | ⟨row, hclaims, rfl⟩
      · exact hkeep rfl (.refl _)
      · exact hwrite rfl (hclaims.leases hacc.keyed)
  · by_cases hrenew : ∃ itemId claimedBy claimToken now,
        op = .renewLease itemId claimedBy claimToken now
    · obtain ⟨itemId, claimedBy, claimToken, now, rfl⟩ := hrenew
      obtain ⟨-, hatom⟩ := hexec
      generalize s'.db = d at hatom hwrite hkeep ⊢
      cases hatom with
      | raise => exact hkeep rfl (.refl _)
      | kept => exact hkeep rfl (.refl _)
      | commit hrun =>
        exact hwrite rfl (QueueDb.renewLease_leases hacc.keyed (QueueOp.tables_of_map hrun))
    · have hnone : PoolLabel.reading? (.answer p ⟨op, r⟩) = none := by
        cases op with
        | claim => exact absurd ⟨_, _, _, _, rfl⟩ hclaim
        | renewLease => exact absurd ⟨_, _, _, _, rfl⟩ hrenew
        | _ => rfl
      refine hkeep hnone ?_
      rcases hexec.db with heq | ⟨v, hrun⟩
      · rw [heq]
        exact .refl _
      · refine (QueueOp.run_induction hlegit (P := fun d => d.Accounted ∧ s.db.KeepsLeases d)
          (fun _ hd => hd.1.keyed) ?_ hrun ⟨hacc, .refl _⟩).2
        rintro d d' ⟨hd, hkeeps⟩ hchange
        refine ⟨(hd.change hchange).1, hkeeps.trans (hchange.keepsLeases ?_ ?_)⟩
        · exact fun selected workerId now token heq => hclaim ⟨_, _, _, _, heq⟩
        · exact fun itemId claimedBy claimToken now heq => hrenew ⟨_, _, _, _, heq⟩

/-- **A claimed row holds the last reading of its claim**, in every state of a run. -/
theorem QueueRun.leased {t : List QueueLabel} {P : QueuePool} (h : QueueRun t P) :
    Leased t P.shared.db := by
  refine (Machine.Run.induct (I := fun t s => s.db.Accounted ∧ Leased t s.db) h ?_ ?_ ?_).2
  · exact ⟨QueueDb.accounted_empty, fun row hrow => absurd hrow List.not_mem_nil⟩
  · intro t₁ p prog t₂ s _ hI
    refine ⟨hI.1, fun row hrow hprog => ?_⟩
    rw [leaseReading_append_other fun now heq => by cases heq]
    exact hI.2 row hrow hprog
  · intro t₁ p o r t₂ s s' ht hexec hI
    obtain ⟨prog, evs, -, hsends⟩ := h.sends.1 t₁ p ⟨o, r⟩ t₂ ht
    exact ⟨(hI.1.exec hsends.legit hexec).1, hI.2.answer hI.1 hsends.legit hexec⟩

/-! ## Who reclaims -/

/-- A stale claim is looked for by `next_item`, with the first clock reading of the call. -/
def Reclaims (prog : Prog QueueOp QueueOp.Res (Except PyError QueueAnswer))
    (evs : List (Event QueueOp QueueOp.Res)) (op : QueueOp) : Prop :=
  ∀ q now, op = .reclaimStale q now → ∃ workerId rounds, prog = q.nextItemCall workerId rounds ∧
    evs = [⟨.clock, now⟩]

/-- The monitor of the reclaims. -/
abbrev reclaimMonitor (prog : Prog QueueOp QueueOp.Res (Except PyError QueueAnswer)) :
    Monitor QueueOp QueueOp.Res (List (Event QueueOp QueueOp.Res)) :=
  traceMonitor (Reclaims prog) fun _ _ _ => True

section Reclaims

variable {prog : Prog QueueOp QueueOp.Res (Except PyError QueueAnswer)}

/-- A statement that does not look for stale claims. -/
lemma keeps_reclaims {op : QueueOp} (h : ∀ q now, op ≠ .reclaimStale q now) :
    Proc.Keeps (reclaimMonitor prog) (fun _ _ => True) (Proc.call op : QueueM op.Res) :=
  Proc.keeps_call fun _ _ _ => ⟨fun q now heq => absurd heq (h q now), fun _ _ => trivial⟩

/-- The loop of `next_item` does not look for stale claims. -/
lemma keeps_nextItemLoop_reclaims (q : SqliteQueue) (workerId : String) (n : ℕ) :
    Proc.Keeps (reclaimMonitor prog) (fun _ _ => True) (q.nextItemLoop workerId n) := by
  induction n with
  | zero => exact Proc.keeps_pure _
  | succ n ih =>
    refine Proc.keeps_bind (keeps_reclaims (by simp)) fun now => ?_
    refine Proc.keeps_bind (keeps_reclaims (by simp)) fun answer => ?_
    refine Proc.keeps_bind (Proc.keeps_ofExcept answer) fun row => ?_
    split
    · exact Proc.keeps_pure _
    · refine Proc.keeps_bind (Proc.keeps_ofExcept _) fun _ => ?_
      split
      · split
        · exact Proc.keeps_throw _
        · refine Proc.keeps_bind (keeps_reclaims (by simp)) fun now => ?_
          refine Proc.keeps_bind (keeps_reclaims (by simp)) fun createdAt => ?_
          refine Proc.keeps_bind (keeps_reclaims (by simp)) fun answer => ?_
          exact Proc.keeps_bind (Proc.keeps_ofExcept answer) fun _ => ih
      · refine Proc.keeps_bind (keeps_reclaims (by simp)) fun now => ?_
        refine Proc.keeps_bind (keeps_reclaims (by simp)) fun token => ?_
        refine Proc.keeps_bind (keeps_reclaims (by simp)) fun answer => ?_
        refine Proc.keeps_bind (Proc.keeps_ofExcept answer) fun updated => ?_
        split
        · exact ih
        · exact Proc.keeps_pure _

/-- A program that keeps a trivial invariant meets its preconditions. -/
lemma QueueM.wp_of_keeps {α : Type} {p : QueueM α} {f : α → QueueAnswer}
    {evs : List (Event QueueOp QueueOp.Res)}
    (h : Proc.Keeps (reclaimMonitor prog) (fun _ _ => True) p) :
    (p.program f).wp (reclaimMonitor prog) (fun _ _ => True) evs :=
  QueueM.program_wp.mpr (h () evs trivial)

/-- An override does not look for stale claims. -/
lemma keeps_forceTransition_reclaims (q : SqliteQueue) (itemId : String) (requested : QueueStatus)
    (reason : String) (retry : Bool) :
    Proc.Keeps (reclaimMonitor prog) (fun _ _ => True)
      (q.forceTransition itemId requested reason retry) := by
  unfold SqliteQueue.forceTransition
  split
  · exact Proc.keeps_throw _
  · refine Proc.keeps_bind (keeps_reclaims (by simp)) fun now => ?_
    exact Proc.keeps_bind (keeps_reclaims (by simp)) fun answer => Proc.keeps_ofExcept answer

/-- **Only `next_item` looks for stale claims**, with its first clock reading. -/
theorem QueueCall.wp_reclaims (h : QueueCall prog) :
    prog.wp (reclaimMonitor prog) (fun _ _ => True) [] := by
  cases h with
  | add q item =>
    exact QueueM.wp_of_keeps
      (Proc.keeps_bind (keeps_reclaims (by simp)) fun answer => Proc.keeps_ofExcept answer)
  | nextItem q workerId rounds =>
    refine QueueM.program_wp.mpr ?_
    simp only [SqliteQueue.nextItem, SqliteQueue.now, Proc.wp_bind, Proc.wp_call]
    refine ⟨fun q' now heq => absurd heq (by simp), fun now _ => ⟨?_, fun answer _ => ?_⟩⟩
    · rintro q' now' ⟨⟩
      exact ⟨workerId, rounds, rfl, rfl⟩
    · have hkeeps : Proc.Keeps (reclaimMonitor (q.nextItemCall workerId rounds))
          (fun _ _ => True) ((do Proc.ofExcept answer; q.nextItemLoop workerId rounds) :
            QueueM (Option (Option QueueItem))) :=
        Proc.keeps_bind (Proc.keeps_ofExcept answer) fun _ =>
          keeps_nextItemLoop_reclaims q workerId rounds
      simpa only [Proc.wp_bind] using hkeeps () _ trivial
  | bindTransaction =>
    exact QueueM.wp_of_keeps
      (Proc.keeps_bind (keeps_reclaims (by simp)) fun answer => Proc.keeps_ofExcept answer)
  | renewLease =>
    refine QueueM.wp_of_keeps (Proc.keeps_bind (keeps_reclaims (by simp)) fun now => ?_)
    exact Proc.keeps_bind (keeps_reclaims (by simp)) fun answer => Proc.keeps_ofExcept answer
  | complete =>
    refine QueueM.wp_of_keeps (Proc.keeps_bind (keeps_reclaims (by simp)) fun now => ?_)
    exact Proc.keeps_bind (keeps_reclaims (by simp)) fun answer => Proc.keeps_ofExcept answer
  | fail =>
    refine QueueM.wp_of_keeps (Proc.keeps_bind (keeps_reclaims (by simp)) fun answer => ?_)
    refine Proc.keeps_bind (Proc.keeps_ofExcept answer) fun readCount => ?_
    refine Proc.keeps_bind (keeps_reclaims (by simp)) fun now => ?_
    exact Proc.keeps_bind (keeps_reclaims (by simp)) fun answer => Proc.keeps_ofExcept answer
  | forceComplete q itemId reason =>
    exact QueueM.wp_of_keeps (keeps_forceTransition_reclaims q itemId .successful reason false)
  | forceFail q itemId reason retry =>
    exact QueueM.wp_of_keeps (keeps_forceTransition_reclaims q itemId .failed reason retry)

end Reclaims

/-- Who has sent a reclaim of a run. -/
lemma QueueRun.reclaims {t₁ t₂ : List QueueLabel} {P : QueuePool} {p : ℕ} {q : SqliteQueue}
    {now : Datetime} {r : Except PyError Unit}
    (h : QueueRun (t₁ ++ .answer p ⟨.reclaimStale q now, r⟩ :: t₂) P) :
    ∃ workerId rounds, callOf p t₁ = some (q.nextItemCall workerId rounds, [⟨.clock, now⟩]) := by
  obtain ⟨hpre, -⟩ := Machine.Run.calls Reclaims (fun _ _ _ _ => True) (fun _ _ _ => True)
    (fun _ hcall => hcall.wp_reclaims) h fun _ => ⟨_, rfl⟩
  obtain ⟨prog, evs, hcur, hsends⟩ := hpre t₁ p _ t₂ rfl
  obtain ⟨workerId, rounds, rfl, rfl⟩ :=
    hsends (honest_of_forall (fun _ _ _ => trivial) _ _) q now rfl
  exact ⟨workerId, rounds, hcur⟩

/-- A call of `next_item` that has returned began with its reclaim. -/
lemma wp_nextItem_reclaimed (q : SqliteQueue) (workerId : String) (rounds : ℕ) :
    (q.nextItemCall workerId rounds).wp (traceMonitor (fun _ _ => True) fun _ _ _ => True)
      (fun a evs => ∀ item, a = .ok (.item item) → ∃ now rest,
        evs = [⟨.clock, now⟩] ++ ⟨.reclaimStale q now, .ok ()⟩ :: rest) [] := by
  refine QueueM.program_wp.mpr ?_
  simp only [SqliteQueue.nextItem, SqliteQueue.now, Proc.wp_bind, Proc.wp_call, Proc.wp_ofExcept]
  refine ⟨trivial, fun now _ => ⟨trivial, fun answer _ => ?_⟩⟩
  cases answer with
  | error err => exact fun item heq => by cases heq
  | ok =>
    refine Prog.wp_mono (Prog.wp_trace_extends
      (Proc.start (q.nextItemLoop workerId rounds) ()) _) ?_
    rintro ⟨err | item, _⟩ _ ⟨rest, rfl⟩
    · exact fun item heq => by cases heq
    · exact fun _ _ => ⟨now, rest, rfl⟩

/-! ## Expiry -/

variable {t : List QueueLabel} {P P' : QueuePool}

/-- The claim expires in a step. -/
def Claim.Expires (c : Claim) (P P' : QueuePool) : Prop :=
  c.Current P ∧ c.Ended .leaseExpired P'

/-- A claim expires in a reclaim. -/
lemma Claim.Expires.reclaim {c : Claim} (h : QueueRun t P) (hc : c.Expires P P') {l : QueueLabel}
    (hstep : queueMachine.Step QueueCall P l P') :
    ∃ p q now, l = .answer p ⟨.reclaimStale q now, .ok ()⟩ := by
  obtain ⟨hcurrent, hended⟩ := hc
  have hrun : QueueRun (t ++ [l]) P' := .snoc h hstep
  rcases hcurrent.step h hstep with hholds | ⟨p, ev, outcome, rfl, hends, hfinal⟩
  · exact absurd hholds (hended.not_holds hrun.accounted)
  · obtain ⟨hclosed, -⟩ := hfinal [] P' (.nil P')
    have houtcome : outcome = .leaseExpired := by
      obtain ⟨a, ha, hi, ht, ho⟩ := hclosed
      obtain ⟨b, hb, hi', ht', ho'⟩ := hended
      obtain rfl : a = b :=
        hrun.accounted.attemptKeyed.eq ha hb (by simp [hi, ht, hi', ht'])
      exact Option.some.inj (ho.symm.trans ho')
    subst houtcome
    unfold Claim.EndedBy at hends
    split at hends
    · cases hends.2
    · next q itemId claimedBy claimToken retry count now answer =>
      obtain ⟨-, rfl⟩ := hends
      cases hstep with
      | answer hcall hexec =>
        obtain ⟨-, -, row, -, -, hrow⟩ := QueueOp.Exec.failCommit h.accounted hexec
        rcases hrow with ⟨-, heq⟩ | ⟨-, heq⟩
        · cases heq
        · cases heq
    · next q now _ => exact ⟨p, q, now, rfl⟩
    · cases hends.2
    · exact hends.elim

/-- A lease that is stale is older than the timeout, in full precision. -/
lemma isStale_of_lt {q : SqliteQueue} {now written : Datetime}
    (h : (q.leaseTimeout : ℤ) < now.unixSeconds - written.unixSeconds) :
    written.instant + q.leaseTimeout * 1000000 < now.instant := by
  unfold Datetime.unixSeconds at h
  omega

/-- A lease that is not stale is not older than the timeout and one second. -/
lemma lt_of_not_isStale {q : SqliteQueue} {now written : Datetime}
    (h : ¬ (q.leaseTimeout : ℤ) < now.unixSeconds - written.unixSeconds) :
    now.instant < written.instant + (q.leaseTimeout + 1) * 1000000 := by
  unfold Datetime.unixSeconds at h
  omega

/-- The tables after a reclaim. -/
lemma reclaimStale_of_step {p : ℕ} {q : SqliteQueue} {now : Datetime}
    (hstep : queueMachine.Step QueueCall P (.answer p ⟨.reclaimStale q now, .ok ()⟩) P') :
    P.shared.db.reclaimStale q now = .ok P'.shared.db := by
  cases hstep with
  | answer _ hexec =>
    obtain ⟨-, hatom⟩ := hexec
    dsimp only
    generalize QueueSystem.db _ = d at hatom ⊢
    cases hatom with
    | commit hrun => exact QueueOp.tables_of_map hrun

/-- **The claims that expire in a reclaim** are those whose row is stale. -/
lemma Claim.expires_iff (h : QueueRun t P) {p : ℕ} {q : SqliteQueue} {now : Datetime}
    (hstep : queueMachine.Step QueueCall P (.answer p ⟨.reclaimStale q now, .ok ()⟩) P')
    {c : Claim} : c.Expires P P' ↔ ∃ row ∈ P.shared.db.items,
      QueueDb.isHeld c.itemId c.claimedBy c.token.text row = true ∧
        QueueDb.isStale q now row = true := by
  have hrun : QueueRun _ P' := h.snoc hstep
  obtain ⟨⟨g, hitems, hg⟩, hattempts⟩ :=
    QueueDb.reclaimStale_ok h.accounted (reclaimStale_of_step hstep)
  constructor
  · rintro ⟨⟨row, hrow, hheld⟩, hended⟩
    refine ⟨row, hrow, hheld, ?_⟩
    by_contra hstale
    have hcurrent : c.Current P' := by
      refine ⟨row, ?_, hheld⟩
      rw [hitems]
      exact List.mem_map.mpr ⟨row, hrow, (hg row hrow).2 hstale⟩
    exact hended.not_holds hrun.accounted hcurrent
  · rintro ⟨row, hrow, hheld, hstale⟩
    refine ⟨⟨row, hrow, hheld⟩, ?_⟩
    obtain ⟨a, ha, hi, ht, ho⟩ := QueueDb.Holds.open ⟨row, hrow, hheld⟩ h.accounted
    obtain ⟨hid, -, -, htoken, -⟩ := QueueDb.isHeld_iff.mp hheld
    refine ⟨{ a with outcome := some .leaseExpired, finishedAt := some now }, ?_, hi, ht, rfl⟩
    rw [hattempts]
    refine List.mem_map.mpr ⟨a, ha, if_pos ?_⟩
    rw [Bool.and_eq_true, List.any_eq_true]
    refine ⟨by simp [ho], row, List.mem_filter.mpr ⟨hrow, hstale⟩, ?_⟩
    simp [hid, htoken, hi, ht]

/-- What the reclaim does in which claims expire: each raises the retry count of its item by one
and closes its attempt, and nothing else changes. -/
structure Expiry (t : List QueueLabel) (P P' : QueuePool) (now : Datetime) : Prop where
  items : ∃ g : QueueRow → QueueRow, P'.shared.db.items = P.shared.db.items.map g ∧
    ∀ row ∈ P.shared.db.items,
      ((∃ c ∈ claims t, c.key = row.claimKey ∧ c.Expires P P') →
        (g row).id = row.id ∧ (g row).retryCount = row.retryCount + 1) ∧
      ((¬ ∃ c ∈ claims t, c.key = row.claimKey ∧ c.Expires P P') → g row = row)
  attempts : ∃ f : QueueAttemptRow → QueueAttemptRow,
    P'.shared.db.attempts = P.shared.db.attempts.map f ∧ ∀ a ∈ P.shared.db.attempts,
      ((∃ c ∈ claims t, c.key = (a.itemId, a.claimedBy, a.claimToken) ∧ c.Expires P P') →
        f a = { a with outcome := some .leaseExpired, finishedAt := some now }) ∧
      ((¬ ∃ c ∈ claims t, c.key = (a.itemId, a.claimedBy, a.claimToken) ∧ c.Expires P P') →
        f a = a)

/-- A stale row is the row of a claim that expires. -/
lemma expires_of_isStale (h : QueueRun t P) {p : ℕ} {q : SqliteQueue} {now : Datetime}
    (hstep : queueMachine.Step QueueCall P (.answer p ⟨.reclaimStale q now, .ok ()⟩) P')
    {row : QueueRow} (hrow : row ∈ P.shared.db.items)
    (hstale : QueueDb.isStale q now row = true) :
    ∃ c ∈ claims t, c.key = row.claimKey ∧ c.Expires P P' := by
  have hprog : row.status = .inProgress := by
    simp only [QueueDb.isStale, Bool.and_eq_true, decide_eq_true_eq] at hstale
    exact hstale.1
  have htoken := (h.accounted.rows row hrow).token.mp hprog
  obtain ⟨c, hc, hkey⟩ := h.minted.rows row hrow htoken
  refine ⟨c, hc, hkey.symm, (Claim.expires_iff h hstep).mpr ⟨row, hrow, ?_, hstale⟩⟩
  exact QueueDb.isHeld_iff.mpr ⟨congrArg Prod.fst hkey, hprog, congrArg (fun k => k.2.1) hkey,
    congrArg (fun k => k.2.2) hkey, c.token.nonempty⟩

/-- The row of a claim that expires is stale. -/
lemma Claim.Expires.isStale (h : QueueRun t P) {p : ℕ} {q : SqliteQueue} {now : Datetime}
    (hstep : queueMachine.Step QueueCall P (.answer p ⟨.reclaimStale q now, .ok ()⟩) P')
    {c : Claim} (hc : c.Expires P P') {row : QueueRow} (hrow : row ∈ P.shared.db.items)
    (hid : row.id = c.itemId) : QueueDb.isStale q now row = true := by
  obtain ⟨row', hrow', hheld, hstale⟩ := (Claim.expires_iff h hstep).mp hc
  obtain rfl : row = row' := h.accounted.keyed.eq hrow hrow'
    (hid.trans (QueueDb.isHeld_iff.mp hheld).1.symm)
  exact hstale

/-- **What a reclaim does**, in terms of the claims that expire in it. -/
theorem expiry (h : QueueRun t P) {p : ℕ} {q : SqliteQueue} {now : Datetime}
    (hstep : queueMachine.Step QueueCall P (.answer p ⟨.reclaimStale q now, .ok ()⟩) P') :
    Expiry t P P' now := by
  obtain ⟨⟨g, hitems, hg⟩, hattempts⟩ :=
    QueueDb.reclaimStale_ok h.accounted (reclaimStale_of_step hstep)
  refine ⟨⟨g, hitems, fun row hrow => ⟨?_, fun hno => ?_⟩⟩,
    ⟨_, hattempts, fun a ha => ⟨?_, fun hno => ?_⟩⟩⟩
  · rintro ⟨c, -, hkey, hexpires⟩
    have hexpired := (hg row hrow).1
      (hexpires.isStale h hstep hrow (congrArg Prod.fst hkey).symm)
    exact ⟨hexpired.id, hexpired.retryCount⟩
  · exact (hg row hrow).2 fun hstale => hno (expires_of_isStale h hstep hrow hstale)
  · rintro ⟨c, -, hkey, hexpires⟩
    obtain ⟨row, hrow, hheld, hstale⟩ := (Claim.expires_iff h hstep).mp hexpires
    obtain ⟨b, hb, hi, ht, ho⟩ := QueueDb.Holds.open ⟨row, hrow, hheld⟩ h.accounted
    have hitem : c.itemId = a.itemId := congrArg Prod.fst hkey
    have htoken : c.token.text = a.claimToken := congrArg (fun k => k.2.2) hkey
    obtain rfl : a = b := h.accounted.attemptKeyed.eq ha hb (by simp [hi, ht, hitem, htoken])
    obtain ⟨hid, -, -, hrowToken, -⟩ := QueueDb.isHeld_iff.mp hheld
    refine if_pos ?_
    rw [Bool.and_eq_true, List.any_eq_true]
    refine ⟨by simp [ho], row, List.mem_filter.mpr ⟨hrow, hstale⟩, ?_⟩
    simp [hid, hrowToken, hitem, htoken]
  · refine if_neg fun hclosed => hno ?_
    rw [Bool.and_eq_true, List.any_eq_true] at hclosed
    obtain ⟨-, row, hmem, hmatch⟩ := hclosed
    obtain ⟨hrow, hstale⟩ := List.mem_filter.mp hmem
    obtain ⟨c, hc, hkey, hexpires⟩ := expires_of_isStale h hstep hrow hstale
    have hakey : (a.itemId, a.claimedBy, a.claimToken) ∈ P.shared.db.claimKeys :=
      List.mem_map_of_mem ha
    rw [h.minted.keys] at hakey
    obtain ⟨c', hc', hkey'⟩ := List.mem_map.mp hakey
    have htokens : row.claimToken = a.claimToken := by
      simp only [Bool.and_eq_true, decide_eq_true_eq] at hmatch
      exact hmatch.2
    have htext : c'.token.text = c.token.text := by
      have hca : c'.token.text = a.claimToken := congrArg (fun k => k.2.2) hkey'
      have hcr : c.token.text = row.claimToken := congrArg (fun k => k.2.2) hkey
      rw [hca, hcr, htokens]
    obtain rfl : c' = c := List.inj_on_of_nodup_map h.minted.claimNodup hc' hc
      (ClaimToken.ext htext)
    exact ⟨c', hc', hkey', hexpires⟩

/-- The row of the current claim holds its last reading. -/
lemma QueueRun.claimedAt (h : QueueRun t P) {c : Claim} {row : QueueRow}
    (hrow : row ∈ P.shared.db.items)
    (hheld : QueueDb.isHeld c.itemId c.claimedBy c.token.text row = true) :
    row.claimedAt = c.lastReading t := by
  obtain ⟨hid, hprog, -, htoken, -⟩ := QueueDb.isHeld_iff.mp hheld
  rw [h.leased row hrow hprog, hid, htoken]
  rfl

/-- A claim of a run has a reading. -/
lemma lastReading_ne_none {t : List QueueLabel} {c : Claim} (hc : c ∈ claims t) :
    c.lastReading t ≠ none := by
  obtain ⟨l, hl, hclaim⟩ := List.mem_filterMap.mp hc
  have hreading : ∃ now, l.reading? = some ((c.itemId, c.token.text), now) := by
    unfold PoolLabel.claim? at hclaim
    split at hclaim
    · cases hclaim
      exact ⟨_, rfl⟩
    · cases hclaim
  obtain ⟨now, hnow⟩ := hreading
  have hmem : ((c.itemId, c.token.text), now) ∈
      (t.filterMap PoolLabel.reading?).filter fun x => x.1 = (c.itemId, c.token.text) :=
    List.mem_filter.mpr ⟨List.mem_filterMap.mpr ⟨l, hl, hnow⟩, by simp⟩
  intro hnone
  rw [Claim.lastReading, leaseReading, Option.map_eq_none_iff, List.getLast?_eq_none_iff] at hnone
  rw [hnone] at hmem
  exact absurd hmem List.not_mem_nil

/-- A claim that is current was current at every earlier state in which it was a claim. -/
lemma Claim.Current.earlier {t' : List QueueLabel} (h : QueueRun t P) {c : Claim}
    (hc : c ∈ claims t) (hrest : queueMachine.Run QueueCall P t' P') (hcurrent : c.Current P') :
    c.Current P := by
  rcases Claim.current_or_ended h hc with ⟨hcur, -⟩ | ⟨-, outcome, hended, -⟩
  · exact hcur
  · obtain ⟨hacc, hkeep⟩ := h.keepsClosed hrest
    exact absurd hcurrent ((hended.mono hkeep).not_holds hacc)

/-- **Leases expire neither early nor never.** In every run of any number of workers:

* a claim expires only in the reclaim of a call of `next_item`, whose first clock reading is more
  than the lease timeout of that call after the reading of the last claim or renewal of the claim;
  the reclaim raises the retry count of every claim that expires in it by one, closes its attempt,
  and changes nothing else; and the claim has then ended for good, so that it expires once;
* when a call of `next_item` returns, the last claim or renewal of a claim that is still current
  is less than the lease timeout and one second older than the first clock reading of the call,
  if it was committed before the reclaim of the call.

**Proof sketch.** A claimed row holds the last reading of its claim, and the reclaim compares it
with the reading of the call in whole seconds. A claim that outlives the call was current when
the call reclaimed, and its row was not stale. -/
theorem leases_expire (h : QueueRun t P) :
    (∀ c ∈ claims t, ∀ l P', queueMachine.Step QueueCall P l P' → c.Expires P P' →
      (∃ p q workerId rounds now written, l = .answer p ⟨.reclaimStale q now, .ok ()⟩ ∧
        callOf p t = some (q.nextItemCall workerId rounds, [⟨.clock, now⟩]) ∧
        c.lastReading t = some written ∧
        written.instant + q.leaseTimeout * 1000000 < now.instant ∧ Expiry t P P' now) ∧
      ∀ t' P'', queueMachine.Run QueueCall P' t' P'' →
        c.Ended .leaseExpired P'' ∧ ¬ c.Current P'') ∧
    ∀ p item q workerId rounds evs, P.procs p = .pure (.ok (.item item)) →
      callOf p t = some (q.nextItemCall workerId rounds, evs) →
      ∃ now t₁ t₂, evs.head? = some ⟨.clock, now⟩ ∧
        t = t₁ ++ .answer p ⟨.reclaimStale q now, .ok ()⟩ :: t₂ ∧
        (∀ prog, PoolLabel.start p prog ∉ t₂) ∧
        ∀ c ∈ claims t, c.Current P → c.lastReading t₂ = none →
          ∀ written, c.lastReading t = some written →
            now.instant < written.instant + (q.leaseTimeout + 1) * 1000000 := by
  refine ⟨fun c hc l P' hstep hexpires => ⟨?_, fun t' P'' hrest => ?_⟩, ?_⟩
  · obtain ⟨p, q, now, rfl⟩ := hexpires.reclaim h hstep
    obtain ⟨workerId, rounds, hcur⟩ := QueueRun.reclaims (h.snoc hstep)
    obtain ⟨row, hrow, hheld, hstale⟩ := (Claim.expires_iff h hstep).mp hexpires
    simp only [QueueDb.isStale, Bool.and_eq_true, Option.any_eq_true, decide_eq_true_eq] at hstale
    obtain ⟨-, written, hwritten, hlt⟩ := hstale
    refine ⟨p, q, workerId, rounds, now, written, rfl, hcur, ?_, isStale_of_lt hlt,
      expiry h hstep⟩
    rw [← h.claimedAt hrow hheld, hwritten]
  · obtain ⟨hacc, hkeep⟩ := QueueRun.keepsClosed (h.snoc hstep) hrest
    exact ⟨hexpires.2.mono hkeep, (hexpires.2.mono hkeep).not_holds hacc⟩
  · intro p item q workerId rounds evs hp hcur
    obtain ⟨now, rest, rfl⟩ := Machine.Run.returned_of_wp (wp_nextItem_reclaimed q workerId rounds)
      h (fun _ => ⟨_, rfl⟩) hcur hp item rfl
    obtain ⟨t₁, t₂, rfl, -, hno⟩ := callOf_split hcur
    refine ⟨now, t₁, t₂, rfl, rfl, hno, fun c hc hcurrent hlate written hwritten => ?_⟩
    obtain ⟨Q, Q', hbefore, hstep, hafter⟩ := Machine.Run.middle h
    change QueueRun t₁ Q at hbefore
    have hc₁ : c ∈ claims t₁ := by
      have hclaims : claims (t₁ ++ .answer p ⟨.reclaimStale q now, .ok ()⟩ :: t₂) =
          claims t₁ ++ claims t₂ := List.filterMap_append
      rw [hclaims] at hc
      exact (List.mem_append.mp hc).resolve_right fun hmem => lastReading_ne_none hmem hlate
    have hrest : queueMachine.Run QueueCall Q
        ([.answer p ⟨.reclaimStale q now, .ok ()⟩] ++ t₂) P :=
      ((Machine.Run.nil Q).snoc hstep).append hafter
    obtain ⟨row, hrow, hheld⟩ := hcurrent.earlier hbefore hc₁ hrest
    have hreading : row.claimedAt = some written := by
      rw [hbefore.claimedAt hrow hheld, ← hwritten, Claim.lastReading, Claim.lastReading,
        List.append_cons, leaseReading_append_none hlate,
        leaseReading_append_other (by simp [PoolLabel.reading?])]
    refine lt_of_not_isStale fun hlt => ?_
    have hstale : QueueDb.isStale q now row = true := by
      simp [QueueDb.isStale, (QueueDb.isHeld_iff.mp hheld).2.1, hreading, hlt]
    have hexpires := (Claim.expires_iff hbefore hstep).mpr ⟨row, hrow, hheld, hstale⟩
    obtain ⟨hacc, hkeep⟩ := QueueRun.keepsClosed (hbefore.snoc hstep) hafter
    exact (hexpires.2.mono hkeep).not_holds hacc hcurrent

/-! ## Leases that are written late -/

/-- The clock reading of a step. -/
def PoolLabel.clock? : QueueLabel → Option Datetime
  | .answer _ ⟨.clock, now⟩ => some now
  | _ => none

/-- The clock readings of a run never decrease. -/
def MonotoneClock (t : List QueueLabel) : Prop :=
  (t.filterMap PoolLabel.clock?).Pairwise fun now later => now.instant ≤ later.instant

/-- The pool in which two workers have begun to look for the item that was added. -/
def twoWorkers : QueuePool :=
  ⟨addedPool.shared, Function.update (Function.update addedPool.procs 1
    (plainQueue.nextItemCall "w" 1)) 2 (plainQueue.nextItemCall "v" 1)⟩

/-- The steps that lead there. -/
def twoWorkersLabels : List QueueLabel :=
  [.start 0 ((plainQueue.add plainItem).program fun _ => .done),
    .answer 0 ⟨.add plainQueue plainItem, .ok ()⟩, .start 1 (plainQueue.nextItemCall "w" 1),
    .start 2 (plainQueue.nextItemCall "v" 1)]

/-- They are a run, and so is what a schedule makes of them. -/
lemma twoWorkers_run (schedule : List (ℕ × Datetime)) :
    QueueRun (twoWorkersLabels ++ twoWorkers.followLabels QueueOp.answer schedule)
      (twoWorkers.follow QueueOp.answer schedule) ∧
      (twoWorkers.follow QueueOp.answer schedule).shared.ShortTokens := by
  have hnone : idlePool.shared.ShortTokens := by
    simp [QueueSystem.ShortTokens, QueueSystem.init, idlePool]
  obtain ⟨hadd, hshort⟩ := Machine.Run.solve (QueueOp.exec_answer ⟨0, some 0⟩)
    (Machine.Run.nil idlePool : QueueRun [] idlePool) hnone (p := 0) rfl
    (QueueCall.add plainQueue plainItem ⟨rfl, rfl, rfl, rfl⟩)
  have hfirst := hadd.snoc (.start (p := 1) rfl (QueueCall.nextItem plainQueue "w" 1))
  have hsecond : QueueRun twoWorkersLabels twoWorkers :=
    hfirst.snoc (.start (p := 2) rfl (QueueCall.nextItem plainQueue "v" 1))
  exact hsecond.follow QueueOp.exec_answer schedule hshort

/-- The claim of the first worker. -/
def lateClaim : Claim := ⟨1, "i", "w", .ofNumber 0⟩

/-- A schedule in which the first worker is about to claim, with readings at second 0, and the
second worker has read the clock at second 31. -/
def beforeClaim : List (ℕ × Datetime) :=
  [(1, ⟨0, some 0⟩), (1, ⟨0, some 0⟩), (1, ⟨0, some 0⟩), (1, ⟨0, some 0⟩), (1, ⟨0, some 0⟩),
    (1, ⟨0, some 0⟩), (2, ⟨31000000, some 0⟩)]

/-- The schedule in which the second worker reclaims before the first one claims. -/
def claimAfterReclaim : List (ℕ × Datetime) :=
  beforeClaim ++ [(2, ⟨31000000, some 0⟩), (1, ⟨31000000, some 0⟩), (2, ⟨31000000, some 0⟩),
    (2, ⟨31000000, some 0⟩)]

/-- The schedule in which the first worker claims just before the second one reclaims. -/
def claimBeforeReclaim : List (ℕ × Datetime) :=
  beforeClaim ++ [(1, ⟨31000000, some 0⟩)]

/-- In the second schedule the claim expires in the next step of the second worker. -/
lemma lateClaim_expires :
    lateClaim ∈ claims (twoWorkersLabels ++
      twoWorkers.followLabels QueueOp.answer claimBeforeReclaim) ∧
    queueMachine.Step QueueCall (twoWorkers.follow QueueOp.answer claimBeforeReclaim)
      (.answer 2 ⟨.reclaimStale plainQueue ⟨31000000, some 0⟩, .ok ()⟩)
      (twoWorkers.follow QueueOp.answer (claimBeforeReclaim ++ [(2, ⟨31000000, some 0⟩)])) ∧
    lateClaim.Expires (twoWorkers.follow QueueOp.answer claimBeforeReclaim)
      (twoWorkers.follow QueueOp.answer (claimBeforeReclaim ++ [(2, ⟨31000000, some 0⟩)])) := by
  obtain ⟨-, hshort⟩ := twoWorkers_run claimBeforeReclaim
  have hclaims : claims (twoWorkersLabels ++
      twoWorkers.followLabels QueueOp.answer claimBeforeReclaim) = [lateClaim] := rfl
  refine ⟨hclaims ▸ List.mem_singleton_self lateClaim, ?_, ?_⟩
  · exact .answer (p := 2) rfl (QueueOp.exec_answer ⟨31000000, some 0⟩ _
      (.reclaimStale plainQueue ⟨31000000, some 0⟩) hshort).1
  · unfold Claim.Expires Claim.Current Claim.Ended QueueDb.Holds QueueDb.ClosedAs
    decide +kernel

/-- **A lease that is written late** is not found by a call that reclaims before, and expires at
once in a call that reclaims after, although that call read the clock before the claim was
committed. With one lease timeout and a clock that never goes back:

* a call of `next_item` returns although the reading of a current claim is the timeout and one
  second older than the first reading of the call;
* a claim expires in a call of `next_item` whose first reading was taken before the claim was
  committed. -/
theorem leases_not_exact :
    (∃ t P p item workerId rounds evs now c written, QueueRun t P ∧ MonotoneClock t ∧
      P.procs p = .pure (.ok (.item item)) ∧
      callOf p t = some (plainQueue.nextItemCall workerId rounds, evs) ∧
      evs.head? = some ⟨.clock, now⟩ ∧ c ∈ claims t ∧ c.Current P ∧
      c.lastReading t = some written ∧
      written.instant + (plainQueue.leaseTimeout + 1) * 1000000 ≤ now.instant) ∧
    ∃ t₁ t₂ P P' p workerId rounds now c, QueueRun (t₁ ++ t₂) P ∧ MonotoneClock (t₁ ++ t₂) ∧
      callOf p t₁ = some (plainQueue.nextItemCall workerId rounds, [⟨.clock, now⟩]) ∧
      c ∉ claims t₁ ∧ c ∈ claims (t₁ ++ t₂) ∧
      queueMachine.Step QueueCall P (.answer p ⟨.reclaimStale plainQueue now, .ok ()⟩) P' ∧
      c.Expires P P' := by
  let late : Datetime := ⟨31000000, some 0⟩
  refine ⟨⟨_, _, 2, none, "v", 1, [⟨.clock, late⟩, ⟨.reclaimStale plainQueue late, .ok ()⟩,
    ⟨.clock, late⟩, ⟨.selectNext late, .ok none⟩], late, lateClaim, ⟨0, some 0⟩,
    (twoWorkers_run claimAfterReclaim).1, ?_, rfl, rfl, rfl, ?_, ?_, ?_, ?_⟩, ?_⟩
  · unfold MonotoneClock
    decide +kernel
  · have hclaims : claims (twoWorkersLabels ++
        twoWorkers.followLabels QueueOp.answer claimAfterReclaim) = [lateClaim] := rfl
    exact hclaims ▸ List.mem_singleton_self lateClaim
  · unfold Claim.Current QueueDb.Holds
    decide +kernel
  · decide +kernel
  · decide
  obtain ⟨hclaim, hstep, hexpires⟩ := lateClaim_expires
  refine ⟨twoWorkersLabels ++ twoWorkers.followLabels QueueOp.answer beforeClaim,
    (twoWorkers.follow QueueOp.answer beforeClaim).followLabels QueueOp.answer [(1, late)],
    twoWorkers.follow QueueOp.answer claimBeforeReclaim,
    twoWorkers.follow QueueOp.answer (claimBeforeReclaim ++ [(2, late)]), 2, "v", 1, late,
    lateClaim, (twoWorkers_run claimBeforeReclaim).1, ?_, rfl, ?_, hclaim, hstep, hexpires⟩
  · unfold MonotoneClock
    decide +kernel
  · have hclaims : claims (twoWorkersLabels ++
        twoWorkers.followLabels QueueOp.answer beforeClaim) = [] := rfl
    exact hclaims ▸ List.not_mem_nil

/-- The run in which the second worker reclaims, and the one in which it returns. -/
theorem leases_expire_late : Expiry
    (twoWorkersLabels ++ twoWorkers.followLabels QueueOp.answer claimBeforeReclaim)
    (twoWorkers.follow QueueOp.answer claimBeforeReclaim)
    (twoWorkers.follow QueueOp.answer (claimBeforeReclaim ++ [(2, ⟨31000000, some 0⟩)]))
    ⟨31000000, some 0⟩ ∧
    ∃ now t₁ t₂, twoWorkersLabels ++ twoWorkers.followLabels QueueOp.answer claimAfterReclaim =
      t₁ ++ .answer 2 ⟨.reclaimStale plainQueue now, .ok ()⟩ :: t₂ ∧
        ∀ prog, PoolLabel.start 2 prog ∉ t₂ := by
  refine ⟨?_, ?_⟩
  · obtain ⟨hclaim, hstep, hexpires⟩ := lateClaim_expires
    obtain ⟨⟨p, q, workerId, rounds, now, written, hl, -, -, -, hexpiry⟩, -⟩ :=
      (leases_expire (twoWorkers_run claimBeforeReclaim).1).1 lateClaim hclaim _ _ hstep hexpires
    cases hl
    exact hexpiry
  · obtain ⟨now, t₁, t₂, -, hsplit, hno, -⟩ := (leases_expire
      (twoWorkers_run claimAfterReclaim).1).2 2 none plainQueue "v" 1 _ rfl rfl
    exact ⟨now, t₁, t₂, hsplit, hno⟩
