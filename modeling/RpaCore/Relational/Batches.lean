import RpaCore.Relational.Keyset

set_option relaxedAutoImplicit false
set_option autoImplicit false

/-!
# A table that is updated batch by batch

A loop reads the next rows behind a key, in the order of the keys, and updates the table before it
reads on from behind the last of them; it ends when there are no more rows. The updates keep the
keys, so each row is in one batch, whatever the size of the batches is.

## Main definitions

* `Keyset.batch` — the rows of one round.
* `Keyset.sweep` — the loop.

## Main results

* `Keyset.sweep_ends` — the loop ends, if its rounds keep the keys.
* `Keyset.sweep_ok` — what the loop makes of the rows, if it goes through.
* `Keyset.exists_sweep` — the loop goes through, if its rounds do.
* `Keyset.foldl_assign` — updates by key, one after the other, are one update.
-/

namespace Keyset

variable {ρ κ E : Type} [LinearOrder κ]

/-- At most `size` rows behind a key. -/
def batch (key : ρ → κ) (size : ℕ) (after : Option κ) (t : List ρ) : List ρ :=
  (select key after t).take size

/-- The loop over the batches, for at most `n` rounds: `round` updates the table for the rows of a
batch. A loop that was cut off has no result. -/
def sweep (key : ρ → κ) (size : ℕ) (round : List ρ → List ρ → Except E (List ρ)) :
    ℕ → Option κ → List ρ → Option (Except E (List ρ))
  | 0, _, _ => none
  | n + 1, after, t =>
    let rows := batch key size after t
    if rows.isEmpty then some (.ok t)
    else
      match round rows t with
      | .error err => some (.error err)
      | .ok t' => sweep key size round n (rows.getLast?.map key) t'

variable {key : ρ → κ} {size : ℕ} {after : Option κ} {t t' : List ρ} {r : ρ}

/-! ## One batch -/

/-- The rows of a batch are rows of the table with different keys. -/
lemma nodup_batch (hk : Table.Keyed key t) (size : ℕ) (after : Option κ) :
    (∀ r ∈ batch key size after t, r ∈ t) ∧ ((batch key size after t).map key).Nodup := by
  refine ⟨fun r hr => (mem_select.mp (List.mem_of_mem_take hr)).1, ?_⟩
  refine List.Nodup.sublist ((List.take_sublist _ _).map _) ?_
  exact List.pairwise_map.mpr ((pairwise_select after hk).imp fun hlt => hlt.ne)

/-- The selected rows, split behind the last one of a batch. -/
lemma select_eq_batch (h : (batch key size after t).getLast? = some r) :
    ∃ front, select key after t = front ++ r :: (select key after t).drop size ∧
      batch key size after t = front ++ [r] := by
  obtain ⟨front, hfront⟩ := List.getLast?_eq_some_iff.mp h
  refine ⟨front, ?_, hfront⟩
  conv_lhs => rw [← List.take_append_drop size (select key after t)]
  rw [← List.singleton_append, ← List.append_assoc, ← hfront]
  rfl

/-- **A batch reaches up to its last key.** -/
lemma mem_batch (hk : Table.Keyed key t) (h : (batch key size after t).getLast? = some r) :
    (∀ row ∈ t, key row ∈ (batch key size after t).map key ↔
      (∀ k ∈ after, k < key row) ∧ key row ≤ key r) ∧ ∀ k ∈ after, k < key r := by
  obtain ⟨front, hselect, hbatch⟩ := select_eq_batch h
  have hsorted := pairwise_select after hk
  rw [hselect] at hsorted
  obtain ⟨-, htail, hcross⟩ := List.pairwise_append.mp hsorted
  have hr : r ∈ select key after t := by
    rw [hselect]
    exact List.mem_append_right _ List.mem_cons_self
  refine ⟨fun row hrow => ⟨fun hmem => ?_, fun ⟨hafter, hle⟩ => ?_⟩, (mem_select.mp hr).2⟩
  · obtain ⟨row', hrow', hkey⟩ := List.mem_map.mp hmem
    have hselected := mem_select.mp (List.mem_of_mem_take hrow')
    obtain rfl : row' = row := hk.eq hselected.1 hrow hkey
    refine ⟨hselected.2, ?_⟩
    rw [hbatch] at hrow'
    rcases List.mem_append.mp hrow' with hfront | hlast
    · exact (hcross row' hfront r List.mem_cons_self).le
    · rw [List.mem_singleton.mp hlast]
  · have hmem : row ∈ select key after t := mem_select.mpr ⟨hrow, hafter⟩
    refine List.mem_map_of_mem ?_
    rw [hselect, List.append_cons, ← hbatch] at hmem
    rcases List.mem_append.mp hmem with hmem | hmem
    · exact hmem
    · exact absurd ((List.pairwise_cons.mp htail).1 row hmem) (not_lt.mpr hle)

/-- Behind the last row of a batch there are fewer rows. -/
lemma length_select_batch (hk : Table.Keyed key t)
    (h : (batch key size after t).getLast? = some r) :
    (select key (some (key r)) t).length < (select key after t).length := by
  obtain ⟨front, hselect, -⟩ := select_eq_batch h
  have hlength := congrArg List.length hselect
  rw [select_behind hk hselect]
  simp only [List.length_append, List.length_cons, List.length_drop] at hlength ⊢
  omega

/-- The number of rows behind a key depends on the keys. -/
lemma length_select_congr (h : t'.map key = t.map key) (after : Option κ) :
    (select key after t').length = (select key after t).length := by
  have hcount : ∀ l : List ρ, (select key after l).length =
      (l.map key).countP fun k' => after.all fun k => k < k' := by
    intro l
    rw [select, List.length_insertionSort, ← List.countP_eq_length_filter, List.countP_map]
    rfl
  rw [hcount, hcount, h]

/-- An empty batch is the end of the table. -/
lemma select_eq_nil (hsize : 0 < size) (h : (batch key size after t).isEmpty = true) :
    ∀ row ∈ t, ¬ ∀ k ∈ after, k < key row := by
  rw [List.isEmpty_iff, batch, List.take_eq_nil_iff] at h
  have hnil := h.resolve_left hsize.ne'
  intro row hrow hafter
  have hmem : row ∈ select key after t := mem_select.mpr ⟨hrow, hafter⟩
  rw [hnil] at hmem
  exact List.not_mem_nil hmem

/-! ## Updates by key -/

/-- The table with the rows of a batch updated. -/
def updated (key : ρ → κ) (g : ρ → ρ) (rows t : List ρ) : List ρ :=
  t.map fun r => if key r ∈ rows.map key then g r else r

/-- The keys of an updated table. -/
lemma keys_updated {g : ρ → ρ} (hg : ∀ r, key (g r) = key r) (rows t : List ρ) :
    (updated key g rows t).map key = t.map key := by
  rw [updated, List.map_map]
  refine List.map_congr_left fun r _ => ?_
  simp only [Function.comp_apply]
  split
  · exact hg r
  · rfl

section Assign

variable {β : Type} {assign : β → ρ → ρ}

/-- Updates by key keep the keys. -/
lemma keys_foldl_assign (hassign : ∀ b r, key (assign b r) = key r) (updates : List (β × κ))
    (t : List ρ) : (updates.foldl (fun t update =>
      Table.update (fun r => key r = update.2) (assign update.1) t) t).map key = t.map key := by
  induction updates generalizing t with
  | nil => rfl
  | cons update updates ih =>
    rw [List.foldl_cons, ih]
    exact Table.map_update fun r _ _ => hassign update.1 r

/-- Updates of different rows, each with the value for the row of its key. -/
lemma foldl_assign_map (hassign : ∀ b r, key (assign b r) = key r) (value : ρ → β)
    (hk : Table.Keyed key t) {pending : List ρ} (hpending : ∀ r ∈ pending, r ∈ t)
    (hnodup : (pending.map key).Nodup) :
    (pending.map fun r => (value r, key r)).foldl (fun t update =>
      Table.update (fun r => key r = update.2) (assign update.1) t) t =
        updated key (fun r => assign (value r) r) pending t := by
  unfold updated
  induction pending generalizing t with
  | nil => simp
  | cons p pending ih =>
    obtain ⟨hnotin, hrest⟩ := List.nodup_cons.mp hnodup
    rw [List.forall_mem_cons] at hpending
    rw [List.map_cons, List.foldl_cons, ih]
    · rw [Table.update, List.map_map]
      refine List.map_congr_left fun r hr => ?_
      by_cases heq : key r = key p
      · obtain rfl : r = p := hk.eq hr hpending.1 heq
        have hassigned : key (assign (value r) r) ∉ pending.map key := by
          rw [hassign]
          exact hnotin
        simp only [Function.comp_apply, decide_true, if_true, if_neg hassigned, List.map_cons,
          List.mem_cons, true_or]
      · simp [heq]
    · exact hk.update fun r _ _ => hassign _ r
    · intro r hr
      refine Table.mem_update_of_not (hpending.2 r hr) ?_
      simp only [decide_eq_true_eq]
      exact fun heq => hnotin (heq ▸ List.mem_map_of_mem hr)
    · exact hrest

/-- **Updates of the rows of a batch** that still wait for a value are one update. -/
lemma foldl_assign (hassign : ∀ b r, key (assign b r) = key r) (value : ρ → β)
    (waits : ρ → Bool) (hk : Table.Keyed key t) {rows : List ρ} (hrows : ∀ r ∈ rows, r ∈ t)
    (hnodup : (rows.map key).Nodup) :
    ((rows.filter waits).map fun r => (value r, key r)).foldl (fun t update =>
      Table.update (fun r => key r = update.2) (assign update.1) t) t =
        updated key (fun r => if waits r then assign (value r) r else r) rows t := by
  rw [foldl_assign_map hassign value hk (fun r hr => hrows r (List.mem_of_mem_filter hr))
    (hnodup.sublist (List.filter_sublist.map _))]
  refine List.map_congr_left fun r hr => ?_
  have hmem : key r ∈ (rows.filter waits).map key ↔ key r ∈ rows.map key ∧ waits r = true := by
    constructor
    · intro h
      obtain ⟨r', hr', hkey⟩ := List.mem_map.mp h
      obtain ⟨hr', hwaits⟩ := List.mem_filter.mp hr'
      obtain rfl : r' = r := hk.eq (hrows r' hr') hr hkey
      exact ⟨List.mem_map_of_mem hr', hwaits⟩
    · rintro ⟨h, hwaits⟩
      obtain ⟨r', hr', hkey⟩ := List.mem_map.mp h
      obtain rfl : r' = r := hk.eq (hrows r' hr') hr hkey
      exact List.mem_map_of_mem (List.mem_filter.mpr ⟨hr', hwaits⟩)
  by_cases hin : key r ∈ rows.map key <;> by_cases hwaits : waits r = true <;>
    simp [hmem, hin, hwaits]

end Assign

/-! ## The loop -/

section Sweep

variable {round : List ρ → List ρ → Except E (List ρ)} {n : ℕ}

/-- A round that is not the last: its batch has a last row. -/
lemma exists_last (h : ¬ (batch key size after t).isEmpty = true) :
    ∃ r, (batch key size after t).getLast? = some r := by
  refine Option.isSome_iff_exists.mp (List.getLast?_isSome.mpr fun hnil => h ?_)
  rw [hnil]
  rfl

/-- **The loop ends**, after one round more than there are rows, if its rounds keep the keys.

**Proof sketch.** Each batch leaves fewer rows behind its last key. -/
theorem sweep_ends (hround : ∀ rows t t', round rows t = .ok t' → t'.map key = t.map key)
    (hk : Table.Keyed key t) (hn : (select key after t).length < n) :
    ∃ result, sweep key size round n after t = some result := by
  induction n generalizing after t with
  | zero => exact absurd hn (Nat.not_lt_zero _)
  | succ n ih =>
    rw [sweep]
    by_cases hempty : (batch key size after t).isEmpty = true
    · exact ⟨.ok t, if_pos hempty⟩
    · obtain ⟨r, hlast⟩ := exists_last hempty
      rw [if_neg hempty, hlast]
      cases hstep : round (batch key size after t) t with
      | error err => exact ⟨.error err, rfl⟩
      | ok t' =>
        have hkeys := hround _ _ _ hstep
        refine ih (by unfold Table.Keyed; rw [hkeys]; exact hk) ?_
        have hless := length_select_batch hk hlast
        rw [Option.map_some, length_select_congr hkeys]
        omega

variable {g : ρ → ρ}

/-- **A loop that goes through has updated every row behind the key it started from.**

**Proof sketch.** A batch is what lies behind the last key up to its own last key, and the
remaining rounds update what lies behind that. -/
theorem sweep_ok (hg : ∀ r, key (g r) = key r) (hsize : 0 < size)
    (hround : ∀ rows t t', Table.Keyed key t → (∀ r ∈ rows, r ∈ t) → (rows.map key).Nodup →
      round rows t = .ok t' → t' = updated key g rows t)
    (hk : Table.Keyed key t) (h : sweep key size round n after t = some (.ok t')) :
    t' = t.map fun r => if ∀ k ∈ after, k < key r then g r else r := by
  induction n generalizing after t with
  | zero => cases h
  | succ n ih =>
    rw [sweep] at h
    by_cases hempty : (batch key size after t).isEmpty = true
    · rw [if_pos hempty] at h
      cases h
      refine (List.map_id' _).symm.trans (List.map_congr_left fun r hr => ?_)
      rw [if_neg (select_eq_nil hsize hempty r hr)]
    · obtain ⟨last, hlast⟩ := exists_last hempty
      rw [if_neg hempty, hlast] at h
      obtain ⟨hmem, hnodup⟩ := nodup_batch hk size after
      cases hstep : round (batch key size after t) t with
      | error err =>
        rw [hstep] at h
        cases h
      | ok t₁ =>
        rw [hstep] at h
        obtain rfl := hround _ _ _ hk hmem hnodup hstep
        obtain ⟨hbatch, hlastAfter⟩ := mem_batch hk hlast
        have hk' : Table.Keyed key (updated key g (batch key size after t) t) := by
          unfold Table.Keyed
          rw [keys_updated hg]
          exact hk
        rw [ih hk' h, updated, List.map_map]
        refine List.map_congr_left fun r hr => ?_
        simp only [Function.comp_apply, Option.map_some, Option.mem_some_iff, forall_eq']
        by_cases hin : key r ∈ (batch key size after t).map key
        · obtain ⟨hafter, hle⟩ := (hbatch r hr).mp hin
          rw [if_pos hin, hg, if_neg (not_lt.mpr hle), if_pos hafter]
        · rw [if_neg hin]
          refine if_congr ⟨fun hlt k hk' => (hlastAfter k hk').trans hlt, fun hafter => ?_⟩ rfl rfl
          exact not_le.mp fun hle => hin ((hbatch r hr).mpr ⟨hafter, hle⟩)

/-- **The loop goes through**, if its rounds do, for tables with rows of one kind. -/
theorem exists_sweep {good : ρ → Prop} (hgood : ∀ r, good r → good (g r))
    (hg : ∀ r, key (g r) = key r)
    (hround : ∀ rows t, Table.Keyed key t → (∀ r ∈ rows, r ∈ t) → (rows.map key).Nodup →
      (∀ r ∈ t, good r) → round rows t = .ok (updated key g rows t))
    (hk : Table.Keyed key t) (ht : ∀ r ∈ t, good r) (hn : (select key after t).length < n) :
    ∃ t', sweep key size round n after t = some (.ok t') := by
  induction n generalizing after t with
  | zero => exact absurd hn (Nat.not_lt_zero _)
  | succ n ih =>
    rw [sweep]
    by_cases hempty : (batch key size after t).isEmpty = true
    · exact ⟨t, if_pos hempty⟩
    · obtain ⟨last, hlast⟩ := exists_last hempty
      obtain ⟨hmem, hnodup⟩ := nodup_batch hk size after
      have hkeys := keys_updated hg (batch key size after t) t
      rw [if_neg hempty, hlast, hround _ _ hk hmem hnodup ht]
      refine ih (by unfold Table.Keyed; rw [hkeys]; exact hk) (fun r hr => ?_) ?_
      · obtain ⟨r₀, hr₀, rfl⟩ := List.mem_map.mp hr
        split
        · exact hgood r₀ (ht r₀ hr₀)
        · exact ht r₀ hr₀
      · have hless := length_select_batch hk hlast
        rw [Option.map_some, length_select_congr hkeys]
        omega

end Sweep

end Keyset
