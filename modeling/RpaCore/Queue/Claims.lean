import RpaCore.Queue.Attempts

set_option relaxedAutoImplicit false
set_option autoImplicit false

/-!
# One claim, one disposition

A claim is an item, a worker and a token. It begins when `next_item` commits, and it ends at most
once: by `complete`, by `fail`, by an expired lease or by an administrative override. In between
the guarded statements let its holder in, and nobody else.

## Main definitions

* `QueueDb.Holds` — the claim is the current one of its item.
* `claims` — the claims that were committed in a run.
* `Minted` — the invariant that ties them to the tokens and the attempts.

## Main results

* `QueueDb.Holds.run` — a statement keeps a claim, or ends it with the outcome of its attempt.
* `one_claim_one_disposition` — tokens are held by one call, and claims have one end.
-/

namespace QueueDb

/-! ## The current claim -/

/-- The item is in progress under the claim. -/
def Holds (db : QueueDb) (itemId claimedBy claimToken : String) : Prop :=
  ∃ row ∈ db.items, isHeld itemId claimedBy claimToken row = true

/-- The attempt of the claim is closed with an outcome. -/
def ClosedAs (db : QueueDb) (itemId claimToken : String) (outcome : QueueAttemptOutcome) : Prop :=
  ∃ a ∈ db.attempts, a.itemId = itemId ∧ a.claimToken = claimToken ∧ a.outcome = some outcome

variable {db db' : QueueDb} {itemId claimedBy claimToken : String}

/-- An attempt stays closed. -/
lemma ClosedAs.mono {outcome : QueueAttemptOutcome} (h : db.ClosedAs itemId claimToken outcome)
    (hkeep : db.KeepsClosed db') : db'.ClosedAs itemId claimToken outcome := by
  obtain ⟨a, ha, hi, ht, ho⟩ := h
  exact ⟨a, hkeep a ha (by simp [ho]), hi, ht, ho⟩

/-- The attempt of the current claim is open. -/
lemma Holds.open (h : db.Holds itemId claimedBy claimToken) (hacc : db.Accounted) :
    ∃ a ∈ db.attempts, a.itemId = itemId ∧ a.claimToken = claimToken ∧ a.outcome = none := by
  obtain ⟨row, hrow, hheld⟩ := h
  obtain ⟨hid, hprog, -, htoken, -⟩ := isHeld_iff.mp hheld
  have htokens := (hacc.rows row hrow).attempts
  rw [if_pos hprog] at htokens
  have hmem : row.claimToken ∈ db.openTokens row.id := by simp [htokens]
  obtain ⟨a, ha, hopen⟩ := List.mem_filterMap.mp hmem
  unfold openToken at hopen
  split at hopen
  · next hc => exact ⟨a, ha, hc.1.trans hid, (Option.some.inj hopen).trans htoken, hc.2⟩
  · cases hopen

/-- A claim whose attempt is closed is not the current one. -/
lemma ClosedAs.not_holds {outcome : QueueAttemptOutcome}
    (h : db.ClosedAs itemId claimToken outcome) (hacc : db.Accounted) :
    ¬ db.Holds itemId claimedBy claimToken := by
  intro hholds
  obtain ⟨a, ha, hi, ht, ho⟩ := h
  obtain ⟨b, hb, hi', ht', ho'⟩ := hholds.open hacc
  obtain rfl : a = b := hacc.attemptKeyed.eq ha hb (by simp [hi, ht, hi', ht'])
  rw [ho] at ho'
  cases ho'

/-- A claim ends when the row of its item is released. -/
lemma Releases.closedAs {p : QueueRow → Bool} {f : QueueRow → QueueRow} {row : QueueRow}
    {outcome : QueueAttemptOutcome} {now : Datetime} (hr : db.Releases db' p f row outcome now)
    (hacc : db.Accounted) (hheld : isHeld itemId claimedBy claimToken row = true) :
    db'.ClosedAs itemId claimToken outcome := by
  obtain ⟨a, ha, hi, ht, ho⟩ := Holds.open ⟨row, hr.mem, hheld⟩ hacc
  obtain ⟨hid, -, -, htoken, hne⟩ := isHeld_iff.mp hheld
  have hatt := hr.attempts
  rw [htoken, if_neg hne, hid] at hatt
  refine ⟨{ a with outcome := some outcome, finishedAt := some now }, ?_, hi, ht, rfl⟩
  rw [hatt]
  exact Table.mem_update_of (f := fun a : QueueAttemptRow =>
    { a with outcome := some outcome, finishedAt := some now }) ha (by simp [hi, ht, ho])

/-- A change keeps the current claim, or ends it with the outcome of its attempt. -/
lemma Holds.change {op : QueueOp} {v : op.Val} (h : db.Holds itemId claimedBy claimToken)
    (hacc : db.Accounted) (hchange : Change op v db db') :
    db'.Holds itemId claimedBy claimToken ∨ ∃ row outcome,
      isHeld itemId claimedBy claimToken row = true ∧ op.Ends row outcome v ∧
        db'.ClosedAs itemId claimToken outcome := by
  obtain ⟨r, hr, hheld⟩ := h
  obtain ⟨hid, hprog, -, -, -⟩ := isHeld_iff.mp hheld
  -- an update that leaves the row out, or keeps it held
  have hupdate : ∀ {p : QueueRow → Bool} {f : QueueRow → QueueRow},
      db'.items = Table.update p f db.items →
      (p r = true → isHeld itemId claimedBy claimToken (f r) = true) →
      db'.Holds itemId claimedBy claimToken := by
    intro p f hitems hf
    by_cases hp : p r = true
    · exact ⟨f r, hitems ▸ Table.mem_update_of hr hp, hf hp⟩
    · exact ⟨r, hitems ▸ Table.mem_update_of_not hr hp, hheld⟩
  have hselected : ∀ {selected : QueueRow} {now : Datetime},
      ¬ stillSelected selected now r = true := by
    intro selected now hs
    rw [(stillSelected_iff.mp hs).2.1] at hprog
    cases hprog
  cases hchange with
  | same hitems => exact Or.inl ⟨r, hitems ▸ hr, hheld⟩
  | add _ _ _ _ hitems => exact Or.inl ⟨r, hitems ▸ List.mem_append_left _ hr, hheld⟩
  | drop _ hitems => exact Or.inl (hupdate hitems fun hs => absurd hs hselected)
  | claim _ hclaims => exact Or.inl (hupdate hclaims.items fun hs => absurd hs hselected)
  | bind _ _ _ hitems => exact Or.inl (hupdate hitems fun _ => hheld)
  | renew _ _ _ hitems => exact Or.inl (hupdate hitems fun _ => hheld)
  | @release p f row outcome now hrel hop =>
    by_cases hp : p r = true
    · obtain rfl : r = row := hacc.keyed.eq hr hrel.mem (hrel.only r hp)
      exact Or.inr ⟨r, outcome, hheld, hop, hrel.closedAs hacc hheld⟩
    · exact Or.inl (hupdate hrel.items fun h => absurd h hp)

/-- **A statement keeps the current claim, or ends it** with the outcome of its attempt.

**Proof sketch.** Along the chain of changes: once the claim has ended, its attempt stays
closed. -/
theorem Holds.run {op : QueueOp} {v : op.Val} (h : db.Holds itemId claimedBy claimToken)
    (hacc : db.Accounted) (hlegit : op.Legit) (hrun : op.run db = .ok (v, db')) :
    db'.Holds itemId claimedBy claimToken ∨ ∃ row outcome,
      isHeld itemId claimedBy claimToken row = true ∧ op.Ends row outcome v ∧
        db'.ClosedAs itemId claimToken outcome := by
  refine (QueueOp.run_induction hlegit (P := fun d => d.Accounted ∧
    (d.Holds itemId claimedBy claimToken ∨ ∃ row outcome,
      isHeld itemId claimedBy claimToken row = true ∧ op.Ends row outcome v ∧
        d.ClosedAs itemId claimToken outcome)) (fun _ hd => hd.1.keyed) ?_ hrun
      ⟨hacc, Or.inl h⟩).2
  rintro d d' ⟨hd, hclaim⟩ hchange
  obtain ⟨hd', hkeep⟩ := hd.change hchange
  refine ⟨hd', ?_⟩
  rcases hclaim with hholds | ⟨row, outcome, hheld, hends, hclosed⟩
  · exact hholds.change hd hchange
  · exact Or.inr ⟨row, outcome, hheld, hends, hclosed.mono hkeep⟩

end QueueDb

/-! ## The guards -/

/-- The claim a guarded statement is sent under: the item, the worker and the token. -/
def QueueOp.presents : QueueOp → Option (String × String × String)
  | .bindTransaction itemId _ claimedBy claimToken => some (itemId, claimedBy, claimToken)
  | .renewLease itemId claimedBy claimToken _ => some (itemId, claimedBy, claimToken)
  | .complete itemId claimedBy claimToken _ => some (itemId, claimedBy, claimToken)
  | .failRead itemId claimedBy claimToken => some (itemId, claimedBy, claimToken)
  | .failCommit _ itemId claimedBy claimToken _ _ _ => some (itemId, claimedBy, claimToken)
  | _ => none

/-- The deadline that `fail` computes before its guarded update could not be computed. -/
def QueueOp.DeadlineFails (op : QueueOp) (err : PyError) : Prop :=
  ∃ q itemId claimedBy claimToken retry readCount now newStatus,
    op = .failCommit q itemId claimedBy claimToken retry readCount now ∧
      q.deadline newStatus now (readCount + 1) = .error err

/-- **A statement under a claim that is not current does not commit**: it raises
`QueueLeaseLostError`, unless `fail` does not get as far as its guard. -/
lemma QueueOp.run_of_not_holds {op : QueueOp} {itemId claimedBy claimToken : String}
    (hop : op.presents = some (itemId, claimedBy, claimToken)) {db : QueueDb}
    (h : ¬ db.Holds itemId claimedBy claimToken) :
    ∃ err, op.run db = .error err ∧ (err = leaseLost itemId claimedBy ∨ op.DeadlineFails err) := by
  have hnone : ∀ row ∈ db.items, ¬ QueueDb.isHeld itemId claimedBy claimToken row = true :=
    fun row hrow hheld => h ⟨row, hrow, hheld⟩
  have hupdate := fun f => QueueDb.updateHeld_error (f := f) hnone
  cases op with
  | bindTransaction =>
    cases hop
    refine ⟨_, ?_, Or.inl rfl⟩
    simp only [run, QueueDb.bindTransaction, hupdate]
    rfl
  | renewLease =>
    cases hop
    refine ⟨_, ?_, Or.inl rfl⟩
    simp only [run, QueueDb.renewLease, hupdate]
    rfl
  | complete =>
    cases hop
    refine ⟨_, ?_, Or.inl rfl⟩
    simp only [run, QueueDb.complete, hupdate]
    rfl
  | failRead =>
    cases hop
    refine ⟨_, ?_, Or.inl rfl⟩
    have hfind : db.items.find? (QueueDb.isHeld itemId claimedBy claimToken) = none :=
      List.find?_eq_none.mpr hnone
    simp only [run, QueueDb.failRead, hfind]
    rfl
  | failCommit q _ _ _ retry readCount now =>
    cases hop
    rcases QueueDb.failCommit_error q retry readCount now hnone with
      ⟨newStatus, err, hdeadline, hrun⟩ | hrun
    · exact ⟨err, hrun, Or.inr ⟨_, _, _, _, _, _, _, newStatus, rfl, hdeadline⟩⟩
    · exact ⟨_, hrun, Or.inl rfl⟩
  | _ => cases hop

/-- An answer under a claim that is not current raises and leaves everything as it is. -/
lemma QueueOp.Exec.of_not_holds {s s' : QueueSystem} {op : QueueOp} {r : op.Res}
    (h : op.Exec s r s') {itemId claimedBy claimToken : String}
    (hop : op.presents = some (itemId, claimedBy, claimToken))
    (hlost : ¬ s.db.Holds itemId claimedBy claimToken) :
    s' = s ∧ ∃ err, op.raised r = some err ∧
      (err = leaseLost itemId claimedBy ∨ err.IsOperational ∨ op.DeadlineFails err) := by
  obtain ⟨err, hrun, herr⟩ := QueueOp.run_of_not_holds hop hlost
  have hwrites : ∀ {r : Except PyError op.Val}, op.Writes s r s' → s' = s ∧
      ∃ err, r.raised = some err ∧
        (err = leaseLost itemId claimedBy ∨ err.IsOperational ∨ op.DeadlineFails err) := by
    obtain ⟨db', issued'⟩ := s'
    rintro r ⟨hissued, hatom⟩
    obtain rfl : issued' = s.issued := hissued
    cases hatom with
    | commit hcommit =>
      rw [hrun] at hcommit
      cases hcommit
    | raise hraise =>
      rw [hrun] at hraise
      cases hraise
      exact ⟨rfl, err, rfl, herr.imp_right Or.inr⟩
    | kept hkept => exact ⟨rfl, _, rfl, Or.inr (Or.inl hkept)⟩
  cases op with
  | bindTransaction => exact hwrites h
  | renewLease => exact hwrites h
  | complete => exact hwrites h
  | failRead => exact hwrites h
  | failCommit => exact hwrites h
  | _ => cases hop

/-! ## Claims of a run -/

/-- A claim that was committed: the process that claimed, the item, the worker and the token. -/
structure Claim where
  process : ℕ
  itemId : String
  claimedBy : String
  token : ClaimToken

/-- The claim a step commits. -/
def PoolLabel.claim? : QueueLabel → Option Claim
  | .answer p ⟨.claim selected workerId _ token, .ok (some _)⟩ =>
    some ⟨p, selected.id, workerId, token⟩
  | _ => none

/-- The token a step creates, with its process. -/
def PoolLabel.token? : QueueLabel → Option (ℕ × ClaimToken)
  | .answer p ⟨.newToken, token⟩ => some (p, token)
  | _ => none

/-- The claims that were committed in a run. -/
def claims (t : List QueueLabel) : List Claim := t.filterMap PoolLabel.claim?

/-- The tokens that were created in a run. -/
def tokens (t : List QueueLabel) : List (ℕ × ClaimToken) := t.filterMap PoolLabel.token?

/-- A claim as an attempt records it. -/
def Claim.key (c : Claim) : String × String × String := (c.itemId, c.claimedBy, c.token.text)

/-- The claim in the row of an item. -/
def QueueRow.claimKey (row : QueueRow) : String × String × String :=
  (row.id, row.claimedBy, row.claimToken)

/-- The claims of the attempts. -/
def QueueDb.claimKeys (db : QueueDb) : List (String × String × String) :=
  db.attempts.map fun a => (a.itemId, a.claimedBy, a.claimToken)

/-- Every claim in a row of an item was there before. -/
def QueueDb.KeepsKeys (db db' : QueueDb) : Prop :=
  ∀ row ∈ db'.items, row.claimToken ≠ "" → ∃ row₀ ∈ db.items, row₀.claimKey = row.claimKey

/-- A change that is not a claim adds no claim. -/
lemma QueueDb.Change.claimKeys {op : QueueOp} {v : op.Val} {db db' : QueueDb}
    (h : Change op v db db')
    (hne : ∀ selected workerId now token, op ≠ .claim selected workerId now token) :
    db'.claimKeys = db.claimKeys ∧ db.KeepsKeys db' := by
  have hkeys : db'.attempts = db.attempts → db'.claimKeys = db.claimKeys := fun ha => by
    rw [QueueDb.claimKeys, ha]
    rfl
  have hupdate : ∀ {p : QueueRow → Bool} {f : QueueRow → QueueRow},
      db'.items = Table.update p f db.items →
      (∀ r, p r = true → (f r).claimToken = "" ∨ (f r).claimKey = r.claimKey) →
      db.KeepsKeys db' := by
    intro p f hitems hf row hrow htoken
    rw [hitems] at hrow
    obtain ⟨r, hr, rfl⟩ := Table.mem_update.mp hrow
    refine ⟨r, hr, ?_⟩
    split at htoken
    · next hp =>
      rw [if_pos hp]
      exact ((hf r hp).resolve_left htoken).symm
    · next hp => rw [if_neg hp]
  cases h with
  | same hitems hatt => exact ⟨hkeys hatt, fun row hrow _ => ⟨row, hitems ▸ hrow, rfl⟩⟩
  | add _ _ hrow _ hitems hatt =>
    refine ⟨hkeys hatt, fun row hmem htoken => ?_⟩
    rw [hitems] at hmem
    rcases List.mem_append.mp hmem with hmem | hmem
    · exact ⟨row, hmem, rfl⟩
    · rw [List.mem_singleton.mp hmem] at htoken
      exact absurd hrow.token htoken
  | drop hf hitems hatt =>
    exact ⟨hkeys hatt, hupdate hitems fun r hr => Or.inl (hf r hr).token⟩
  | claim hop =>
    cases hop
    exact absurd rfl (hne _ _ _ _)
  | bind _ _ _ hitems hatt => exact ⟨hkeys hatt, hupdate hitems fun _ _ => Or.inr rfl⟩
  | renew _ _ _ hitems hatt => exact ⟨hkeys hatt, hupdate hitems fun _ _ => Or.inr rfl⟩
  | release hr =>
    refine ⟨?_, hupdate hr.items fun r hp => Or.inl (hr.released r hp).token⟩
    rw [QueueDb.claimKeys, hr.attempts]
    split
    · rfl
    · exact Table.map_update fun _ _ _ => rfl

/-- A committed claim adds its claim. -/
lemma QueueDb.Claims.claimKeys {db db' : QueueDb} {selected : QueueRow} {workerId : String}
    {now : Datetime} {token : ClaimToken} {row : QueueRow}
    (h : db.Claims db' selected workerId now token row) :
    db'.claimKeys = db.claimKeys ++ [(selected.id, workerId, token.text)] ∧
    ∀ r ∈ db'.items, r.claimKey = (selected.id, workerId, token.text) ∨
      ∃ r₀ ∈ db.items, r₀.claimKey = r.claimKey := by
  refine ⟨by simp [QueueDb.claimKeys, h.attempts], fun r hr => ?_⟩
  rw [h.items] at hr
  obtain ⟨r₀, hr₀, rfl⟩ := Table.mem_update.mp hr
  split
  · next hs =>
    left
    simp [QueueRow.claimKey, (stillSelected_iff.mp hs).1]
  · exact Or.inr ⟨r₀, hr₀, rfl⟩

/-- The claims in the tables after an answer: one more if it committed a claim, otherwise the
same. -/
lemma QueueOp.Exec.claimKeys {s s' : QueueSystem} {op : QueueOp} {r : op.Res} (hlegit : op.Legit)
    (hacc : s.db.Accounted) (h : op.Exec s r s') (p : ℕ) :
    (∃ c, PoolLabel.claim? (.answer p ⟨op, r⟩) = some c ∧ c.process = p ∧
      (∃ selected now, op = .claim selected c.claimedBy now c.token) ∧
      s'.db.claimKeys = s.db.claimKeys ++ [c.key] ∧
      ∀ row ∈ s'.db.items, row.claimKey = c.key ∨
        ∃ row₀ ∈ s.db.items, row₀.claimKey = row.claimKey) ∨
    (PoolLabel.claim? (.answer p ⟨op, r⟩) = none ∧ s'.db.claimKeys = s.db.claimKeys ∧
      s.db.KeepsKeys s'.db) := by
  have hsame : s'.db = s.db → s'.db.claimKeys = s.db.claimKeys ∧ s.db.KeepsKeys s'.db := by
    intro hdb
    rw [hdb]
    exact ⟨rfl, fun row hrow _ => ⟨row, hrow, rfl⟩⟩
  by_cases hclaim : ∃ selected workerId now token, op = .claim selected workerId now token
  · obtain ⟨selected, workerId, now, token, rfl⟩ := hclaim
    obtain ⟨-, hatom⟩ := h
    generalize s'.db = d at hatom hsame ⊢
    cases hatom with
    | raise => exact Or.inr ⟨rfl, hsame rfl⟩
    | kept => exact Or.inr ⟨rfl, hsame rfl⟩
    | @commit v db' hrun =>
      rcases QueueDb.claim_ok hacc.keyed hrun with ⟨rfl, heq⟩ | ⟨row, hclaims, rfl⟩
      · exact Or.inr ⟨rfl, hsame heq⟩
      · obtain ⟨hkeys, hrows⟩ := hclaims.claimKeys
        exact Or.inl ⟨_, rfl, rfl, ⟨selected, now, rfl⟩, hkeys, hrows⟩
  · have hne : ∀ selected workerId now token, op ≠ .claim selected workerId now token :=
      fun selected workerId now token heq => hclaim ⟨_, _, _, _, heq⟩
    refine Or.inr ⟨?_, ?_⟩
    · cases op with
      | claim selected workerId now token => exact absurd rfl (hne _ _ _ _)
      | _ => rfl
    · rcases h.db with hdb | ⟨v, hrun⟩
      · exact hsame hdb
      · refine (QueueOp.run_induction hlegit (P := fun d => d.Accounted ∧
          d.claimKeys = s.db.claimKeys ∧ s.db.KeepsKeys d) (fun _ hd => hd.1.keyed) ?_ hrun
          ⟨hacc, rfl, fun row hrow _ => ⟨row, hrow, rfl⟩⟩).2
        rintro d d' ⟨hd, hkeys, hrows⟩ hchange
        obtain ⟨hkeys', hrows'⟩ := hchange.claimKeys hne
        refine ⟨(hd.change hchange).1, hkeys'.trans hkeys, fun row hrow htoken => ?_⟩
        obtain ⟨row₁, hrow₁, heq₁⟩ := hrows' row hrow htoken
        have htoken₁ : row₁.claimToken ≠ "" := by
          simpa [show row₁.claimToken = row.claimToken from
            congrArg (fun k => k.2.2) heq₁] using htoken
        obtain ⟨row₀, hrow₀, heq₀⟩ := hrows row₁ hrow₁ htoken₁
        exact ⟨row₀, hrow₀, heq₀.trans heq₁⟩

/-! ## Tokens of a run -/

/-- **The tokens of a run**: every claim has a token its process created, no two claims share one,
and the claims in the tables are claims of the run. -/
structure Minted (t : List QueueLabel) (s : QueueSystem) : Prop where
  issued : ∀ token, token ∈ s.issued ↔ token ∈ (tokens t).map Prod.snd
  nodup : ((tokens t).map Prod.snd).Nodup
  claimNodup : ((claims t).map Claim.token).Nodup
  minted : ∀ c ∈ claims t, (c.process, c.token) ∈ tokens t
  used : ∀ c ∈ claims t, ∀ prog evs, callOf c.process t = some (prog, evs) →
    evs.getLast? ≠ some ⟨.newToken, c.token⟩
  last : ∀ p prog evs token, callOf p t = some (prog, evs) →
    evs.getLast? = some ⟨.newToken, token⟩ → (p, token) ∈ tokens t
  keys : s.db.claimKeys = (claims t).map Claim.key
  rows : ∀ row ∈ s.db.items, row.claimToken ≠ "" → ∃ c ∈ claims t, row.claimKey = c.key

/-- Two steps that created a token are one. -/
lemma Minted.process_eq {t : List QueueLabel} {s : QueueSystem} (h : Minted t s) {p q : ℕ}
    {token : ClaimToken} (hp : (p, token) ∈ tokens t) (hq : (q, token) ∈ tokens t) : p = q :=
  congrArg Prod.fst (List.inj_on_of_nodup_map h.nodup hp hq rfl)

/-- A call begins. -/
lemma Minted.start {t : List QueueLabel} {s : QueueSystem} (h : Minted t s) (p : ℕ)
    (prog : Prog QueueOp QueueOp.Res (Except PyError QueueAnswer)) :
    Minted (t ++ [.start p prog]) s := by
  have hclaims : claims (t ++ [.start p prog]) = claims t := by
    simp [claims, PoolLabel.claim?]
  have htokens : tokens (t ++ [.start p prog]) = tokens t := by
    simp [tokens, PoolLabel.token?]
  have hcall : ∀ q prog' evs token, callOf q (t ++ [.start p prog]) = some (prog', evs) →
      evs.getLast? = some ⟨.newToken, token⟩ → callOf q t = some (prog', evs) := by
    intro q prog' evs token hcur hlast
    rw [callOf_append, PoolLabel.follow] at hcur
    split at hcur
    · cases hcur
      cases hlast
    · exact hcur
  refine ⟨?_, ?_, ?_, ?_, ?_, ?_, ?_, ?_⟩ <;> simp only [hclaims, htokens]
  · exact h.issued
  · exact h.nodup
  · exact h.claimNodup
  · exact h.minted
  · exact fun c hc prog' evs hcur hlast => h.used c hc prog' evs (hcall _ _ _ _ hcur hlast) hlast
  · exact fun q prog' evs token hcur hlast =>
      h.last q prog' evs token (hcall _ _ _ _ hcur hlast) hlast
  · exact h.keys
  · exact h.rows

/-- The last event of a call after a step: the answer of the step, or what it was before. -/
lemma last_callOf_answer {t : List QueueLabel} {p q : ℕ}
    {prog prog' : Prog QueueOp QueueOp.Res (Except PyError QueueAnswer)}
    {evs evs' : List (Event QueueOp QueueOp.Res)} {ev ev' : Event QueueOp QueueOp.Res}
    (hcur : callOf p t = some (prog, evs)) (hcall : callOf q (t ++ [.answer p ev]) =
      some (prog', evs')) (hget : evs'.getLast? = some ev') :
    (q = p ∧ ev = ev') ∨ (q ≠ p ∧ callOf q t = some (prog', evs')) := by
  rw [callOf_append, PoolLabel.follow] at hcall
  split at hcall
  · next hq =>
    subst hq
    rw [hcur] at hcall
    cases hcall
    rw [List.getLast?_concat] at hget
    exact Or.inl ⟨rfl, Option.some.inj hget⟩
  · next hq => exact Or.inr ⟨fun h => hq h.symm, hcall⟩

/-- The tokens after a step: the one it created was never created before. -/
lemma Minted.tokens_answer {t : List QueueLabel} {s s' : QueueSystem} (h : Minted t s) (p : ℕ)
    {op : QueueOp} {r : op.Res} (hexec : op.Exec s r s') :
    (∀ token, token ∈ s'.issued ↔
      token ∈ (tokens (t ++ [.answer p ⟨op, r⟩])).map Prod.snd) ∧
    ((tokens (t ++ [.answer p ⟨op, r⟩])).map Prod.snd).Nodup ∧
    (∀ x ∈ tokens t, x ∈ tokens (t ++ [.answer p ⟨op, r⟩])) ∧
    ∀ token, (⟨op, r⟩ : Event QueueOp QueueOp.Res) = ⟨.newToken, token⟩ →
      (p, token) ∈ tokens (t ++ [.answer p ⟨op, r⟩]) ∧ token ∉ (tokens t).map Prod.snd := by
  by_cases hop : op = .newToken
  · subst hop
    obtain ⟨hfresh, rfl⟩ := hexec
    have heq : tokens (t ++ [.answer p ⟨.newToken, r⟩]) = tokens t ++ [(p, r)] := by
      simp [tokens, PoolLabel.token?]
    have hnew : r ∉ (tokens t).map Prod.snd := fun hmem => hfresh ((h.issued r).mpr hmem)
    rw [heq]
    refine ⟨fun token => ?_, ?_, fun x hx => List.mem_append_left _ hx, ?_⟩
    · simp [h.issued, or_comm]
    · rw [List.map_append, List.map_singleton]
      exact List.nodup_append.mpr ⟨h.nodup, List.nodup_singleton _, by
        rintro a ha b hb rfl
        rw [List.mem_singleton.mp hb] at ha
        exact hnew ha⟩
    · rintro token ⟨⟩
      exact ⟨List.mem_append_right _ (List.mem_singleton_self _), hnew⟩
  · have heq : tokens (t ++ [.answer p ⟨op, r⟩]) = tokens t := by
      cases op with
      | newToken => exact absurd rfl hop
      | _ => simp [tokens, PoolLabel.token?]
    rw [heq, hexec.issued hop]
    exact ⟨h.issued, h.nodup, fun x hx => hx, fun token hev => absurd (congrArg Event.op hev) hop⟩

/-- A new claim has a token no claim had: an older claim with that token would be by the same
process, and the last event of its call would not be that token. -/
lemma Minted.unused {t : List QueueLabel} {s : QueueSystem} (h : Minted t s) {p : ℕ}
    {prog : Prog QueueOp QueueOp.Res (Except PyError QueueAnswer)}
    {evs : List (Event QueueOp QueueOp.Res)} (hcur : callOf p t = some (prog, evs))
    {token : ClaimToken} (hget : evs.getLast? = some ⟨.newToken, token⟩) :
    token ∉ (claims t).map Claim.token := by
  intro hmem
  obtain ⟨c, hc, rfl⟩ := List.mem_map.mp hmem
  have hprocess : c.process = p :=
    h.process_eq (h.minted c hc) (h.last p prog evs c.token hcur hget)
  exact h.used c hc prog evs (by rw [hprocess]; exact hcur) hget

/-- A statement is answered.

**Proof sketch.** The answer creates a token, commits a claim, or does neither. -/
lemma Minted.answer {t : List QueueLabel} {s s' : QueueSystem} (h : Minted t s)
    (hacc : s.db.Accounted) {p : ℕ} {prog : Prog QueueOp QueueOp.Res (Except PyError QueueAnswer)}
    {evs : List (Event QueueOp QueueOp.Res)} (hcur : callOf p t = some (prog, evs)) {op : QueueOp}
    (hsends : QueueCall.Sends prog evs op) {r : op.Res} (hexec : op.Exec s r s') :
    Minted (t ++ [.answer p ⟨op, r⟩]) s' := by
  obtain ⟨hissued, hnodup, hgrow, hnew⟩ := h.tokens_answer p hexec
  have hlast : ∀ q prog' evs' token, callOf q (t ++ [.answer p ⟨op, r⟩]) = some (prog', evs') →
      evs'.getLast? = some ⟨.newToken, token⟩ → (q, token) ∈ tokens (t ++ [.answer p ⟨op, r⟩]) := by
    intro q prog' evs' token hcall hget
    rcases last_callOf_answer hcur hcall hget with ⟨rfl, hev⟩ | ⟨-, hcall'⟩
    · exact (hnew token hev).1
    · exact hgrow _ (h.last q prog' evs' token hcall' hget)
  have hused : ∀ c ∈ claims t, ∀ prog' evs',
      callOf c.process (t ++ [.answer p ⟨op, r⟩]) = some (prog', evs') →
      evs'.getLast? ≠ some ⟨.newToken, c.token⟩ := by
    intro c hc prog' evs' hcall hget
    rcases last_callOf_answer hcur hcall hget with ⟨-, hev⟩ | ⟨-, hcall'⟩
    · exact (hnew c.token hev).2 (List.mem_map.mpr ⟨_, h.minted c hc, rfl⟩)
    · exact h.used c hc prog' evs' hcall' hget
  have hrow : ∀ {row row₀ : QueueRow}, row₀ ∈ s.db.items → row₀.claimKey = row.claimKey →
      row.claimToken ≠ "" → ∃ c ∈ claims t, row.claimKey = c.key := by
    intro row row₀ hrow₀ heq htoken
    have heq' : row₀.claimToken = row.claimToken := congrArg (fun k => k.2.2) heq
    obtain ⟨c, hc, hkey⟩ := h.rows row₀ hrow₀ (by rw [heq']; exact htoken)
    exact ⟨c, hc, heq ▸ hkey⟩
  rcases hexec.claimKeys hsends.legit hacc p with
    ⟨c, hc, rfl, ⟨selected, now, hop⟩, hkeys, hrows⟩ | ⟨hnone, hkeys, hrows⟩
  · -- a claim
    have hclaims : claims (t ++ [.answer c.process ⟨op, r⟩]) = claims t ++ [c] := by
      simp [claims, hc]
    obtain ⟨-, hget⟩ := hsends.claim selected _ now c.token hop
    refine ⟨hissued, hnodup, ?_, ?_, ?_, hlast, ?_, ?_⟩ <;> simp only [hclaims]
    · rw [List.map_append, List.map_singleton]
      exact List.nodup_append.mpr ⟨h.claimNodup, List.nodup_singleton _, by
        rintro a ha b hb rfl
        rw [List.mem_singleton.mp hb] at ha
        exact h.unused hcur hget ha⟩
    · intro c' hc'
      rcases List.mem_append.mp hc' with hc' | hc'
      · exact hgrow _ (h.minted c' hc')
      · rw [List.mem_singleton.mp hc']
        exact hgrow _ (h.last _ prog evs c.token hcur hget)
    · intro c' hc' prog' evs' hcall hget'
      rcases List.mem_append.mp hc' with hc' | hc'
      · exact hused c' hc' prog' evs' hcall hget'
      · rw [List.mem_singleton.mp hc'] at hcall hget'
        rcases last_callOf_answer hcur hcall hget' with ⟨-, hev⟩ | ⟨hne, -⟩
        · cases hop.symm.trans (congrArg Event.op hev)
        · exact hne rfl
    · rw [hkeys, h.keys, List.map_append, List.map_singleton]
    · intro row hmem htoken
      rcases hrows row hmem with hkey | ⟨row₀, hrow₀, heq⟩
      · exact ⟨c, List.mem_append_right _ (List.mem_singleton_self _), hkey⟩
      · obtain ⟨c', hc', hkey⟩ := hrow hrow₀ heq htoken
        exact ⟨c', List.mem_append_left _ hc', hkey⟩
  · -- no claim
    have hclaims : claims (t ++ [.answer p ⟨op, r⟩]) = claims t := by
      simp [claims, hnone]
    refine ⟨hissued, hnodup, ?_, ?_, ?_, hlast, ?_, ?_⟩ <;> simp only [hclaims]
    · exact h.claimNodup
    · exact fun c hc => hgrow _ (h.minted c hc)
    · exact hused
    · rw [hkeys, h.keys]
    · intro row hmem htoken
      obtain ⟨row₀, hrow₀, heq⟩ := hrows row hmem htoken
      exact hrow hrow₀ heq htoken

/-- The tokens of every run. -/
theorem QueueRun.minted {t : List QueueLabel} {P : QueuePool} (h : QueueRun t P) :
    Minted t P.shared := by
  refine (Machine.Run.induct (I := fun t s => s.db.Accounted ∧ Minted t s) h ?_ ?_ ?_).2
  · refine ⟨QueueDb.accounted_empty, ?_⟩
    constructor <;> simp [tokens, claims, callOf, QueueSystem.init, QueueDb.claimKeys,
      QueueDb.empty]
  · exact fun _ p prog _ _ _ hI => ⟨hI.1, hI.2.start p prog⟩
  · intro t₁ p o r t₂ s s' ht hexec hI
    obtain ⟨prog, evs, hcur, hsends⟩ := h.sends.1 t₁ p ⟨o, r⟩ t₂ ht
    exact ⟨(hI.1.exec hsends.legit hexec).1, hI.2.answer hI.1 hcur hsends hexec⟩

/-! ## Dispositions -/

/-- The answered statement ends the claim, with this outcome of its attempt: `complete` or `fail`
under the claim, an expired lease, or an override of the item. -/
def Claim.EndedBy (c : Claim) (outcome : QueueAttemptOutcome) : Event QueueOp QueueOp.Res → Prop
  | ⟨.complete itemId claimedBy claimToken _, .ok _⟩ =>
    (itemId, claimedBy, claimToken) = c.key ∧ outcome = .successful
  | ⟨.failCommit _ itemId claimedBy claimToken _ _ _, .ok answer⟩ =>
    (itemId, claimedBy, claimToken) = c.key ∧ outcome = answer
  | ⟨.reclaimStale _ _, .ok _⟩ => outcome = .leaseExpired
  | ⟨.forceTransition _ itemId _ _ _ _, .ok _⟩ => itemId = c.itemId ∧ outcome = .adminOverride
  | _ => False

/-- The claim is the current one of its item. -/
def Claim.Current (c : Claim) (P : QueuePool) : Prop :=
  P.shared.db.Holds c.itemId c.claimedBy c.token.text

/-- The attempt of the claim is closed with this outcome. -/
def Claim.Ended (c : Claim) (outcome : QueueAttemptOutcome) (P : QueuePool) : Prop :=
  P.shared.db.ClosedAs c.itemId c.token.text outcome

/-- An answer keeps the current claim, or is one of its four ends. -/
lemma QueueOp.Exec.holds {s s' : QueueSystem} {op : QueueOp} {r : op.Res} (h : op.Exec s r s')
    (hlegit : op.Legit) (hacc : s.db.Accounted) {c : Claim}
    (hc : s.db.Holds c.itemId c.claimedBy c.token.text) :
    s'.db.Holds c.itemId c.claimedBy c.token.text ∨
      ∃ outcome, c.EndedBy outcome ⟨op, r⟩ ∧ s'.db.ClosedAs c.itemId c.token.text outcome := by
  have hwrites : ∀ {r : Except PyError op.Val}, op.Writes s r s' →
      s'.db.Holds c.itemId c.claimedBy c.token.text ∨ ∃ v row outcome, r = .ok v ∧
        QueueDb.isHeld c.itemId c.claimedBy c.token.text row = true ∧ op.Ends row outcome v ∧
          s'.db.ClosedAs c.itemId c.token.text outcome := by
    rintro r ⟨-, hatom⟩
    generalize s'.db = d at hatom ⊢
    cases hatom with
    | @commit v d hrun =>
      rcases hc.run hacc hlegit hrun with hholds | ⟨row, outcome, hheld, hends, hclosed⟩
      · exact Or.inl hholds
      · exact Or.inr ⟨v, row, outcome, rfl, hheld, hends, hclosed⟩
    | raise => exact Or.inl hc
    | kept => exact Or.inl hc
  have hkey : ∀ {row : QueueRow} {itemId claimedBy claimToken : String},
      QueueDb.isHeld c.itemId c.claimedBy c.token.text row = true →
      QueueDb.isHeld itemId claimedBy claimToken row = true →
      (itemId, claimedBy, claimToken) = c.key := by
    intro row itemId claimedBy claimToken hheld hheld'
    obtain ⟨hi, -, hw, ht, -⟩ := QueueDb.isHeld_iff.mp hheld
    obtain ⟨hi', -, hw', ht', -⟩ := QueueDb.isHeld_iff.mp hheld'
    rw [Claim.key, ← hi, ← hw, ← ht, hi', hw', ht']
  cases op with
  | clock =>
    cases h
    exact Or.inl hc
  | newToken =>
    obtain ⟨-, rfl⟩ := h
    exact Or.inl hc
  | complete =>
    rcases hwrites h with hholds | ⟨v, row, outcome, rfl, hheld, ⟨hheld', rfl⟩, hclosed⟩
    · exact Or.inl hholds
    · exact Or.inr ⟨_, ⟨hkey hheld hheld', rfl⟩, hclosed⟩
  | failCommit =>
    rcases hwrites h with hholds | ⟨v, row, outcome, rfl, hheld, ⟨hheld', rfl⟩, hclosed⟩
    · exact Or.inl hholds
    · exact Or.inr ⟨_, ⟨hkey hheld hheld', rfl⟩, hclosed⟩
  | reclaimStale =>
    rcases hwrites h with hholds | ⟨v, row, outcome, rfl, hheld, ⟨-, rfl⟩, hclosed⟩
    · exact Or.inl hholds
    · exact Or.inr ⟨_, rfl, hclosed⟩
  | forceTransition =>
    rcases hwrites h with hholds | ⟨v, row, outcome, rfl, hheld, ⟨hid, rfl⟩, hclosed⟩
    · exact Or.inl hholds
    · exact Or.inr ⟨_, ⟨hid.symm.trans (QueueDb.isHeld_iff.mp hheld).1, rfl⟩, hclosed⟩
  | _ =>
    rcases hwrites h with hholds | ⟨v, row, outcome, -, -, hends, -⟩
    · exact Or.inl hholds
    · exact hends.elim

/-- `fail` closes the attempt with the outcome it returns, and the item is pending iff that is a
scheduled retry. -/
lemma QueueOp.Exec.failCommit {s s' : QueueSystem} {q : SqliteQueue}
    {itemId claimedBy claimToken : String} {retry : Bool} {readCount : ℤ} {now : Datetime}
    {outcome : QueueAttemptOutcome} (hacc : s.db.Accounted)
    (h : QueueOp.Exec s (.failCommit q itemId claimedBy claimToken retry readCount now)
      (.ok outcome) s') :
    s.db.Holds itemId claimedBy claimToken ∧ s'.db.ClosedAs itemId claimToken outcome ∧
      ∃ row ∈ s'.db.items, row.id = itemId ∧ (row.status = .pending ∧ outcome = .retryScheduled ∨
        row.status = .failed ∧ outcome = .failed) := by
  obtain ⟨-, hatom⟩ := h
  generalize s'.db = d at hatom ⊢
  cases hatom with
  | commit hrun =>
    obtain ⟨f, row, hheld, hstatus, -, hr⟩ := QueueDb.failCommit_ok hrun
    refine ⟨⟨row, hr.mem, hheld⟩, hr.closedAs hacc hheld, f row, ?_, ?_, hstatus row⟩
    · rw [hr.items]
      exact Table.mem_update_of hr.mem hheld
    · rw [(hr.released row hheld).id, (QueueDb.isHeld_iff.mp hheld).1]

/-- `complete` closes the attempt as successful. -/
lemma QueueOp.Exec.complete {s s' : QueueSystem} {itemId claimedBy claimToken : String}
    {finishedAt : Datetime} (hacc : s.db.Accounted)
    (h : QueueOp.Exec s (.complete itemId claimedBy claimToken finishedAt) (.ok ()) s') :
    s.db.Holds itemId claimedBy claimToken ∧ s'.db.ClosedAs itemId claimToken .successful := by
  obtain ⟨-, hatom⟩ := h
  generalize s'.db = d at hatom ⊢
  cases hatom with
  | commit hrun =>
    obtain ⟨f, row, hheld, -, hr⟩ := QueueDb.complete_ok (QueueOp.tables_of_map hrun)
    exact ⟨⟨row, hr.mem, hheld⟩, hr.closedAs hacc hheld⟩

section Dispositions

variable {t : List QueueLabel} {P P' : QueuePool}

/-- A claim of a run is the current one, or has ended, with one outcome. -/
lemma Claim.current_or_ended (h : QueueRun t P) {c : Claim} (hc : c ∈ claims t) :
    (c.Current P ∧ ∀ outcome, ¬ c.Ended outcome P) ∨
      (¬ c.Current P ∧ ∃! outcome, c.Ended outcome P) := by
  have hacc := h.accounted
  have hminted := h.minted
  have hkey : c.key ∈ P.shared.db.claimKeys := by
    rw [hminted.keys]
    exact List.mem_map_of_mem hc
  obtain ⟨a, ha, heq⟩ := List.mem_map.mp hkey
  have hitem : a.itemId = c.itemId := congrArg Prod.fst heq
  have htoken : a.claimToken = c.token.text := congrArg (fun k => k.2.2) heq
  cases hout : a.outcome with
  | some outcome =>
    have hended : c.Ended outcome P := ⟨a, ha, hitem, htoken, hout⟩
    refine Or.inr ⟨hended.not_holds hacc, outcome, hended, ?_⟩
    rintro outcome' ⟨b, hb, hitem', htoken', hout'⟩
    obtain rfl : a = b := hacc.attemptKeyed.eq ha hb (by simp [hitem, htoken, hitem', htoken'])
    exact Option.some.inj (hout'.symm.trans hout)
  | none =>
    left
    obtain ⟨row, hrow, hid⟩ := List.mem_map.mp (hacc.known a ha)
    have hopen : a.claimToken ∈ P.shared.db.openTokens row.id := by
      refine List.mem_filterMap.mpr ⟨a, ha, ?_⟩
      rw [QueueDb.openToken, if_pos ⟨hid.symm, hout⟩]
    rw [(hacc.rows row hrow).attempts] at hopen
    split at hopen
    · next hprog =>
      have hrowToken : row.claimToken = c.token.text := by
        rw [← htoken]
        exact (List.mem_singleton.mp hopen).symm
      obtain ⟨c', hc', hkey'⟩ := hminted.rows row hrow (by rw [hrowToken]; exact c.token.nonempty)
      have htext : c'.token.text = c.token.text := by
        rw [← hrowToken]
        exact (congrArg (fun k => k.2.2) hkey').symm
      obtain rfl : c' = c := List.inj_on_of_nodup_map hminted.claimNodup hc' hc
        (ClaimToken.ext htext)
      have hby : row.claimedBy = c'.claimedBy := congrArg (fun k => k.2.1) hkey'
      have hcurrent : c'.Current P := ⟨row, hrow, QueueDb.isHeld_iff.mpr
        ⟨hid.trans hitem, hprog, hby, hrowToken, c'.token.nonempty⟩⟩
      exact ⟨hcurrent, fun outcome hended => hended.not_holds hacc hcurrent⟩
    · exact absurd hopen List.not_mem_nil

/-- A step keeps a claim, or ends it for good. -/
lemma Claim.Current.step (h : QueueRun t P) {c : Claim} (hc : c.Current P) {l : QueueLabel}
    (hstep : queueMachine.Step QueueCall P l P') :
    c.Current P' ∨ ∃ p ev outcome, l = .answer p ev ∧ c.EndedBy outcome ev ∧
      ∀ t' P'', queueMachine.Run QueueCall P' t' P'' →
        c.Ended outcome P'' ∧ ¬ c.Current P'' := by
  have hrun : QueueRun (t ++ [l]) P' := .snoc h hstep
  cases hstep with
  | start => exact Or.inl hc
  | @answer p op k r s' hcall hexec =>
    obtain ⟨prog, evs, -, hsends⟩ := hrun.sends.1 t p ⟨op, r⟩ [] rfl
    rcases hexec.holds hsends.legit h.accounted hc with hholds | ⟨outcome, hends, hclosed⟩
    · exact Or.inl hholds
    · refine Or.inr ⟨p, _, outcome, rfl, hends, fun t' P'' hrun' => ?_⟩
      obtain ⟨hacc', hkeep⟩ := hrun.keepsClosed hrun'
      exact ⟨hclosed.mono hkeep, (hclosed.mono hkeep).not_holds hacc'⟩

/-- A call that is answered with an error raises it. -/
lemma QueueRun.raises (h : QueueRun t P) {p : ℕ} {ev : Event QueueOp QueueOp.Res}
    (hstep : queueMachine.Step QueueCall P (.answer p ev) P') {err : PyError}
    (herr : ev.op.raised ev.res = some err) : P'.procs p = .pure (.error err) := by
  have hrun : QueueRun (t ++ [.answer p ev]) P' := .snoc h hstep
  obtain ⟨prog, evs, hcur, -⟩ := hrun.sends.1 t p ev [] rfl
  have hcur' : callOf p (t ++ [.answer p ev]) = some (prog, evs ++ [ev]) := by
    simp [callOf_append, PoolLabel.follow, hcur]
  have hleft := hrun.sends.2.1 p prog _ hcur'
  have hmem : ev ∈ evs ++ [ev] := List.mem_append_right _ (List.mem_singleton_self _)
  cases hprocs : P'.procs p with
  | pure a =>
    rw [hprocs] at hleft
    rw [hleft.raised ev hmem err herr]
  | call o k =>
    rw [hprocs] at hleft
    have hnone := hleft.1.undisturbed ev hmem
    rw [herr] at hnone
    cases hnone

/-- The state before a step of a run and the state after it. -/
lemma QueueRun.middle {t₁ t₂ : List QueueLabel} {p : ℕ} {ev : Event QueueOp QueueOp.Res}
    (h : QueueRun (t₁ ++ .answer p ev :: t₂) P) : ∃ Q Q', QueueRun t₁ Q ∧
      QueueRun (t₁ ++ [.answer p ev]) Q' ∧ ev.op.Exec Q.shared ev.res Q'.shared ∧
      queueMachine.Run QueueCall Q' t₂ P := by
  obtain ⟨Q, Q', hbefore, hstep, hafter⟩ := Machine.Run.middle h
  refine ⟨Q, Q', hbefore, hbefore.snoc hstep, ?_, hafter⟩
  cases hstep with
  | answer _ hexec => exact hexec

/-- What a call has returned, with the events of the call. -/
lemma QueueRun.returned (h : QueueRun t P) {p : ℕ} {a : Except PyError QueueAnswer}
    (hp : P.procs p = .pure a) (ha : a ≠ .ok .done) : ∃ prog evs, callOf p t = some (prog, evs) ∧
      QueueCall.Returns prog a evs := by
  cases hcur : callOf p t with
  | none =>
    have hfirst := h.sends.2.2 p hcur
    rw [hp] at hfirst
    cases hfirst
    exact absurd rfl ha
  | some c =>
    have hleft := h.sends.2.1 p c.1 c.2 hcur
    rw [hp] at hleft
    exact ⟨c.1, c.2, rfl, hleft⟩

/-- The row that a claim returns is under that claim. -/
lemma QueueRun.claim_committed {t₁ t₂ : List QueueLabel} {p : ℕ} {selected row : QueueRow}
    {workerId : String} {now : Datetime} {token : ClaimToken}
    (h : QueueRun (t₁ ++ .answer p ⟨.claim selected workerId now token, .ok (some row)⟩ :: t₂) P) :
    row.id = selected.id ∧ row.claimedBy = workerId ∧ row.claimToken = token.text := by
  obtain ⟨Q, Q', hbefore, -, ⟨-, hatom⟩, -⟩ := h.middle
  generalize Q'.shared.db = d at hatom
  cases hatom with
  | commit hrun =>
    rcases QueueDb.claim_ok hbefore.accounted.keyed hrun with ⟨heq, -⟩ | ⟨row₀, hclaims, heq⟩
    · cases heq
    · cases heq
      exact ⟨(QueueDb.stillSelected_iff.mp hclaims.found).1, rfl, rfl⟩

/-- What a call of `next_item` returns is the item of a claim of its process. -/
lemma QueueRun.returned_item (h : QueueRun t P) {p : ℕ} {item : QueueItem}
    (hp : P.procs p = .pure (.ok (.item (some item)))) : ∃ c ∈ claims t, c.process = p ∧
      (item.id, item.claimedBy, item.claimToken) = c.key := by
  obtain ⟨prog, evs, hcur, hreturns⟩ := h.returned hp (by simp)
  obtain ⟨selected, workerId, now, token, row, payload, hget, rfl⟩ := hreturns.item item rfl
  obtain ⟨t₁, t₂, rfl⟩ := callOf_mem hcur (List.mem_of_getLast? hget)
  obtain ⟨hid, hby, htoken⟩ := h.claim_committed
  refine ⟨⟨p, selected.id, workerId, token⟩, ?_, rfl, ?_⟩
  · simp [claims, PoolLabel.claim?]
  · simp [QueueRow.toItem, Claim.key, hid, hby, htoken]

/-- What a call of `fail` returns is the outcome of the attempt it closed. -/
lemma QueueRun.returned_outcome (h : QueueRun t P) {p : ℕ} {outcome : QueueAttemptOutcome}
    (hp : P.procs p = .pure (.ok (.outcome outcome))) :
    ∃ prog evs q itemId claimedBy claimToken retry count now, callOf p t = some (prog, evs) ∧
      evs.getLast? =
        some ⟨.failCommit q itemId claimedBy claimToken retry count now, .ok outcome⟩ ∧
      P.shared.db.ClosedAs itemId claimToken outcome := by
  obtain ⟨prog, evs, hcur, hreturns⟩ := h.returned hp (by simp)
  obtain ⟨q, itemId, claimedBy, claimToken, retry, count, now, hget⟩ := hreturns.outcome outcome rfl
  obtain ⟨t₁, t₂, rfl⟩ := callOf_mem hcur (List.mem_of_getLast? hget)
  obtain ⟨Q, Q', hbefore, hmiddle, hexec, hafter⟩ := h.middle
  obtain ⟨-, hclosed, -⟩ := QueueOp.Exec.failCommit hbefore.accounted hexec
  exact ⟨prog, evs, q, itemId, claimedBy, claimToken, retry, count, now, hcur, hget,
    hclosed.mono (hmiddle.keepsClosed hafter).2⟩

end Dispositions

/-- **One claim, one disposition.** In every run of any number of workers:

* no two claims have one token; a claim is made by a call of `next_item` with the token that call
  has created just before; and the item that `next_item` returns, like every item that carries a
  token, is under one of these claims;
* a claim is current or has ended with one outcome, and what ends it is `complete` or `fail` under
  it, an expired lease, or an override of its item; it is never current again;
* a call whose next statement is sent under a claim that is not current raises
  `QueueLeaseLostError` and changes nothing (unless a lock keeps it out, or `fail` raises when it
  computes the deadline, before its guard);
* `fail` returns the outcome of the attempt it closed: a scheduled retry iff the item became
  pending.

**Proof sketch.** The tokens are the invariant `Minted`. A claim has an attempt, which is open
exactly as long as the claim is current, by attempt accounting; a closed attempt stays closed. -/
theorem one_claim_one_disposition {t : List QueueLabel} {P : QueuePool} (h : QueueRun t P) :
    (((claims t).map Claim.token).Nodup ∧
      (∀ t₁ l t₂ c, t = t₁ ++ l :: t₂ → l.claim? = some c →
        ∃ (q : SqliteQueue) (rounds : ℕ) (evs : List (Event QueueOp QueueOp.Res)),
          callOf c.process t₁ = some (q.nextItemCall c.claimedBy rounds, evs) ∧
            evs.getLast? = some ⟨.newToken, c.token⟩) ∧
      (∀ p item, P.procs p = .pure (.ok (.item (some item))) → ∃ c ∈ claims t, c.process = p ∧
        (item.id, item.claimedBy, item.claimToken) = c.key) ∧
      ∀ row ∈ P.shared.db.items, row.claimToken ≠ "" → ∃ c ∈ claims t, row.claimKey = c.key) ∧
    (∀ c ∈ claims t,
      ((c.Current P ∧ ∀ outcome, ¬ c.Ended outcome P) ∨
        (¬ c.Current P ∧ ∃! outcome, c.Ended outcome P)) ∧
      (c.Current P → ∀ l P', queueMachine.Step QueueCall P l P' → c.Current P' ∨
        ∃ p ev outcome, l = .answer p ev ∧ c.EndedBy outcome ev ∧
          ∀ t' P'', queueMachine.Run QueueCall P' t' P'' →
            c.Ended outcome P'' ∧ ¬ c.Current P'')) ∧
    (∀ p ev P' itemId claimedBy claimToken, queueMachine.Step QueueCall P (.answer p ev) P' →
      ev.op.presents = some (itemId, claimedBy, claimToken) →
      ¬ P.shared.db.Holds itemId claimedBy claimToken →
      P'.shared = P.shared ∧ ∃ err, P'.procs p = .pure (.error err) ∧
        (err = leaseLost itemId claimedBy ∨ err.IsOperational ∨ ev.op.DeadlineFails err)) ∧
    (∀ p P' q itemId claimedBy claimToken retry count now outcome,
      queueMachine.Step QueueCall P
        (.answer p ⟨.failCommit q itemId claimedBy claimToken retry count now, .ok outcome⟩) P' →
      P'.shared.db.ClosedAs itemId claimToken outcome ∧ ∃ row ∈ P'.shared.db.items,
        row.id = itemId ∧ (row.status = .pending ∧ outcome = .retryScheduled ∨
          row.status = .failed ∧ outcome = .failed)) ∧
    ∀ p outcome, P.procs p = .pure (.ok (.outcome outcome)) →
      ∃ prog evs q itemId claimedBy claimToken retry count now, callOf p t = some (prog, evs) ∧
        evs.getLast? =
          some ⟨.failCommit q itemId claimedBy claimToken retry count now, .ok outcome⟩ ∧
        P.shared.db.ClosedAs itemId claimToken outcome := by
  refine ⟨⟨h.minted.claimNodup, ?_, fun p item => h.returned_item, h.minted.rows⟩,
    fun c hc => ⟨Claim.current_or_ended h hc, fun hcurrent l P' => hcurrent.step h⟩, ?_, ?_,
    fun p outcome => h.returned_outcome⟩
  · rintro t₁ l t₂ c rfl hclaim
    cases l with
    | start => cases hclaim
    | answer p ev =>
      obtain ⟨prog, evs, hcur, hsends⟩ := h.sends.1 t₁ p ev t₂ rfl
      obtain ⟨Q, Q', hbefore, -, hexec, -⟩ := h.middle
      rcases hexec.claimKeys hsends.legit hbefore.accounted p with
        ⟨c', hc', rfl, ⟨selected, now, hop⟩, -⟩ | ⟨hnone, -⟩
      · obtain rfl : c' = c := Option.some.inj (hc'.symm.trans hclaim)
        obtain ⟨⟨q, rounds, rfl⟩, hget⟩ := hsends.claim selected _ now c'.token hop
        exact ⟨q, rounds, evs, hcur, hget⟩
      · cases hnone.symm.trans hclaim
  · intro p ev P' itemId claimedBy claimToken hstep hop hlost
    cases hstep' : hstep with
    | answer hcall hexec =>
      obtain ⟨rfl, err, hraised, herr⟩ := QueueOp.Exec.of_not_holds hexec hop hlost
      exact ⟨rfl, err, h.raises hstep hraised, herr⟩
  · intro p P' q itemId claimedBy claimToken retry count now outcome hstep
    cases hstep with
    | answer hcall hexec => exact (QueueOp.Exec.failCommit h.accounted hexec).2

/-- Process 1 has been given the item it claimed, and the claim is the current one. -/
theorem one_claim_one_disposition_claimed : ∃ t c, QueueRun t claimedPool ∧ c ∈ claims t ∧
    c.process = 1 ∧ c.itemId = "i" ∧
      ((c.Current claimedPool ∧ ∀ outcome, ¬ c.Ended outcome claimedPool) ∨
        (¬ c.Current claimedPool ∧ ∃! outcome, c.Ended outcome claimedPool)) := by
  obtain ⟨t, ht⟩ := claimedPool_run.1
  obtain ⟨⟨-, -, hitem, -⟩, hends, -⟩ := one_claim_one_disposition ht
  obtain ⟨c, hc, hprocess, hkey⟩ := hitem 1 _ rfl
  exact ⟨t, c, ht, hc, hprocess, (congrArg Prod.fst hkey).symm, (hends c hc).1⟩
