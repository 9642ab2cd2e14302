import Mathlib.Data.List.Nodup
import Mathlib.Tactic.Common

set_option relaxedAutoImplicit false
set_option autoImplicit false

/-!
# Tables as lists of rows

A table is the list of its rows in the order they were inserted. An update changes in place the
rows that satisfy a condition and reports how many there were; a table is keyed when no two rows
agree on a key, which is what a primary key or a uniqueness constraint enforces.

## Main definitions

* `Table.update`, `Table.rowcount` — `UPDATE … SET f WHERE p` and its row count.
* `Table.Keyed` — a uniqueness constraint.
* `Table.insertUnique`, `Table.insertAll` — `INSERT`; `Table.insertOrIgnore` — `INSERT OR IGNORE`.
* `Atomically` — what a write transaction may answer and leave behind.

## Main results

* `Table.mem_update`, `Table.Keyed.update` — the rows and keys after an update.
* `Table.insertAll_ok`, `Table.foldl_insertOrIgnore` — the rows after a series of insertions.
-/

namespace Table

variable {ρ κ : Type}

/-- `UPDATE t SET f WHERE p`. -/
def update (p : ρ → Bool) (f : ρ → ρ) (t : List ρ) : List ρ := t.map fun r => if p r then f r else r

/-- The number of rows an update with condition `p` changes. -/
def rowcount (p : ρ → Bool) (t : List ρ) : ℕ := t.countP p

/-- No two rows agree on the key. -/
def Keyed (key : ρ → κ) (t : List ρ) : Prop := (t.map key).Nodup

variable {p : ρ → Bool} {f : ρ → ρ} {t : List ρ} {key : ρ → κ}

/-- The rows after an update. -/
lemma mem_update {r : ρ} : r ∈ update p f t ↔ ∃ r₀ ∈ t, (if p r₀ then f r₀ else r₀) = r := by
  simp [update]

/-- A row that the condition leaves out stays. -/
lemma mem_update_of_not {r : ρ} (h : r ∈ t) (hp : ¬ p r = true) : r ∈ update p f t :=
  mem_update.mpr ⟨r, h, if_neg hp⟩

/-- A row that satisfies the condition is changed. -/
lemma mem_update_of {r : ρ} (h : r ∈ t) (hp : p r = true) : f r ∈ update p f t :=
  mem_update.mpr ⟨r, h, if_pos hp⟩

/-- An update that finds no row changes nothing. -/
lemma update_eq_self (h : ∀ r ∈ t, ¬ p r = true) : update p f t = t := by
  have : update p f t = t.map id := List.map_congr_left fun r hr => by simp [h r hr]
  simpa using this

/-- An update that reports a row found one. -/
lemma exists_of_rowcount_pos (h : 0 < rowcount p t) : ∃ r ∈ t, p r = true :=
  List.countP_pos_iff.mp h

/-- An update that keeps a column keeps the list of its values. -/
lemma map_update {β : Type} {g : ρ → β} (hf : ∀ r ∈ t, p r = true → g (f r) = g r) :
    (update p f t).map g = t.map g := by
  simp only [update, List.map_map]
  refine List.map_congr_left fun r hr => ?_
  simp only [Function.comp_apply]
  split
  · next h => exact hf r hr h
  · rfl

/-- An update that keeps the key keeps the constraint. -/
lemma Keyed.update (hk : Keyed key t) (hf : ∀ r ∈ t, p r = true → key (f r) = key r) :
    Keyed key (update p f t) := by
  unfold Keyed
  rw [map_update hf]
  exact hk

/-- Rows that agree on the key are one row. -/
lemma Keyed.eq (hk : Keyed key t) {r r' : ρ} (h : r ∈ t) (h' : r' ∈ t) (he : key r = key r') :
    r = r' :=
  List.inj_on_of_nodup_map hk h h' he

/-- A condition on the key finds at most one row. -/
lemma Keyed.rowcount_le_one (hk : Keyed key t) {k : κ} (hp : ∀ r, p r = true → key r = k) :
    rowcount p t ≤ 1 := by
  induction t with
  | nil => simp [rowcount]
  | cons a t ih =>
    obtain ⟨hnotin, hk'⟩ := List.nodup_cons.mp hk
    rw [rowcount, List.countP_cons]
    by_cases ha : p a = true
    · have hzero : List.countP p t = 0 := by
        rw [List.countP_eq_zero]
        intro r hr hpr
        exact hnotin (List.mem_map.mpr ⟨r, hr, (hp r hpr).trans (hp a ha).symm⟩)
      simp [hzero, ha]
    · have hrest : List.countP p t ≤ 1 := ih hk'
      simpa [ha] using hrest

/-- A condition on the key finds one row if it finds any. -/
lemma Keyed.rowcount_eq_one (hk : Keyed key t) {k : κ} (hp : ∀ r, p r = true → key r = k) {r : ρ}
    (h : r ∈ t) (hr : p r = true) : rowcount p t = 1 :=
  Nat.le_antisymm (hk.rowcount_le_one hp) (List.countP_pos_iff.mpr ⟨r, h, hr⟩)

/-- The part of a table with one key is one row. -/
lemma Keyed.filter_key [DecidableEq κ] (hk : Keyed key t) {r : ρ} (h : r ∈ t) :
    t.filter (fun r' => key r' = key r) = [r] := by
  induction t with
  | nil => cases h
  | cons a t ih =>
    obtain ⟨hnotin, hk'⟩ := List.nodup_cons.mp hk
    rcases List.mem_cons.mp h with rfl | h
    · have hnil : t.filter (fun r' => key r' = key r) = [] := by
        rw [List.filter_eq_nil_iff]
        intro r' hr' heq
        exact hnotin (List.mem_map.mpr ⟨r', hr', by simpa using heq⟩)
      rw [List.filter_cons_of_pos (by simp), hnil]
    · have hne : key a ≠ key r := fun heq => hnotin (heq ▸ List.mem_map_of_mem h)
      rw [List.filter_cons_of_neg (by simpa using hne), ih hk' h]

/-- A row is found by its key. -/
lemma Keyed.find?_key [DecidableEq κ] (hk : Keyed key t) {k : κ} {r : ρ} :
    t.find? (fun r' => key r' = k) = some r ↔ r ∈ t ∧ key r = k := by
  constructor
  · intro h
    exact ⟨List.mem_of_find?_eq_some h, by simpa using List.find?_some h⟩
  · rintro ⟨hmem, rfl⟩
    rw [← List.head?_filter, hk.filter_key hmem]
    rfl

/-- A new row with a new key. -/
lemma Keyed.append (hk : Keyed key t) {r : ρ} (h : key r ∉ t.map key) : Keyed key (t ++ [r]) := by
  unfold Keyed
  rw [List.map_append, List.map_singleton, List.nodup_append]
  refine ⟨hk, List.nodup_singleton _, ?_⟩
  intro a ha b hb hab
  rw [List.mem_singleton.mp hb] at hab
  exact h (hab ▸ ha)

/-! ## Insertions -/

section Insert

variable [DecidableEq κ] {E : Type} {e : E} {rs : List ρ}

/-- `INSERT INTO t VALUES (r)`, which raises `e` for a key that is taken. -/
def insertUnique (key : ρ → κ) (e : E) (t : List ρ) (r : ρ) : Except E (List ρ) :=
  if key r ∈ t.map key then .error e else .ok (t ++ [r])

/-- One `INSERT` after the other. -/
def insertAll (key : ρ → κ) (e : E) (t rs : List ρ) : Except E (List ρ) :=
  rs.foldlM (insertUnique key e) t

/-- `INSERT OR IGNORE INTO t VALUES (r)`. -/
def insertOrIgnore (key : ρ → κ) (t : List ρ) (r : ρ) : List ρ :=
  if key r ∈ t.map key then t else t ++ [r]

/-- A series of insertions that succeeds appends its rows, and their keys were free. -/
lemma insertAll_ok {t' : List ρ} (h : insertAll key e t rs = .ok t') :
    t' = t ++ rs ∧ (Keyed key t → Keyed key (t ++ rs)) ∧ ∀ r ∈ rs, key r ∉ t.map key := by
  induction rs generalizing t with
  | nil =>
    cases h
    exact ⟨by simp, by simp, by simp⟩
  | cons r rs ih =>
    rw [insertAll, List.foldlM_cons] at h
    by_cases hmem : key r ∈ t.map key
    · rw [insertUnique, if_pos hmem] at h
      cases h
    · rw [insertUnique, if_neg hmem] at h
      obtain ⟨heq, hkeyed, hfree⟩ := ih h
      refine ⟨by simpa using heq, fun hk => by simpa using hkeyed (hk.append hmem), ?_⟩
      intro r' hr'
      rcases List.mem_cons.mp hr' with rfl | hr'
      · exact hmem
      · have := hfree r' hr'
        simp only [List.map_append, List.mem_append, not_or] at this
        exact this.1

/-- Insertions that ignore taken keys append the rows with new keys. -/
lemma foldl_insertOrIgnore (hk : Keyed key rs) :
    rs.foldl (insertOrIgnore key) t = t ++ rs.filter fun r => key r ∉ t.map key := by
  induction rs generalizing t with
  | nil => simp
  | cons r rs ih =>
    obtain ⟨hnotin, hrest⟩ := List.nodup_cons.mp hk
    rw [List.foldl_cons, ih hrest]
    by_cases hmem : key r ∈ t.map key
    · rw [insertOrIgnore, if_pos hmem, List.filter_cons_of_neg (by simpa using hmem)]
    · rw [insertOrIgnore, if_neg hmem, List.filter_cons_of_pos (by simpa using hmem),
        List.append_assoc, List.singleton_append]
      congr 2
      refine List.filter_congr fun r' hr' => ?_
      have hne : key r' ≠ key r := fun heq => hnotin (heq ▸ List.mem_map_of_mem hr')
      simp [hne]

/-- Insertions that ignore taken keys complete a table to a keyed one that it begins. -/
lemma foldl_insertOrIgnore_prefix (hk : Keyed key (t ++ rs)) :
    (t ++ rs).foldl (insertOrIgnore key) t = t ++ rs := by
  have hsplit := hk
  unfold Keyed at hsplit
  rw [List.map_append, List.nodup_append] at hsplit
  rw [foldl_insertOrIgnore hk, List.filter_append]
  have hold : t.filter (fun r => key r ∉ t.map key) = [] := by
    rw [List.filter_eq_nil_iff]
    intro r hr
    simpa using ⟨r, hr, rfl⟩
  have hnew : rs.filter (fun r => key r ∉ t.map key) = rs := by
    rw [List.filter_eq_self]
    intro r hr
    rw [decide_eq_true_eq]
    exact fun hmem => hsplit.2.2 _ hmem _ (List.mem_map_of_mem hr) rfl
  rw [hold, hnew, List.nil_append]

/-- A row is there after an insertion that ignores a taken key iff it was there or is the new
one. -/
lemma mem_insertOrIgnore {r r' : ρ} :
    r' ∈ insertOrIgnore key t r ↔ r' ∈ t ∨ (key r ∉ t.map key ∧ r' = r) := by
  unfold insertOrIgnore
  split
  · next h => simp [h]
  · next h => simp [h]

/-- A series of insertions that ignore taken keys keeps every row. -/
lemma mem_foldl_insertOrIgnore {r : ρ} (h : r ∈ t) : r ∈ rs.foldl (insertOrIgnore key) t := by
  induction rs generalizing t with
  | nil => exact h
  | cons r' rs ih => exact ih (mem_insertOrIgnore.mpr (Or.inl h))

/-- A series of insertions that ignore taken keys adds the offered rows only. -/
lemma of_mem_foldl_insertOrIgnore {r : ρ} (h : r ∈ rs.foldl (insertOrIgnore key) t) :
    r ∈ t ∨ r ∈ rs := by
  induction rs generalizing t with
  | nil => exact .inl h
  | cons r' rs ih =>
    rcases ih h with hmem | hmem
    · exact (mem_insertOrIgnore.mp hmem).imp_right fun ⟨_, heq⟩ => heq ▸ List.mem_cons_self
    · exact .inr (List.mem_cons_of_mem _ hmem)

/-- An insertion that ignores a taken key keeps the constraint. -/
lemma Keyed.insertOrIgnore (hk : Keyed key t) (r : ρ) :
    Keyed key (Table.insertOrIgnore key t r) := by
  unfold Table.insertOrIgnore
  split
  · exact hk
  · next h => exact hk.append h

/-- A series of insertions that ignore taken keys keeps the constraint. -/
lemma Keyed.foldl_insertOrIgnore (hk : Keyed key t) (rs : List ρ) :
    Keyed key (rs.foldl (Table.insertOrIgnore key) t) := by
  induction rs generalizing t with
  | nil => exact hk
  | cons r rs ih => exact ih (hk.insertOrIgnore r)

end Insert

/-! ## Parts of a table -/

/-- A condition that finds no two keys leaves a keyed part. -/
lemma Keyed.filter (hk : Keyed key t) (q : ρ → Bool) : Keyed key (t.filter q) :=
  hk.sublist (List.filter_sublist.map key)

/-- An update of rows outside a part leaves the part alone. -/
lemma filter_update {q : ρ → Bool} (hq : ∀ r ∈ t, p r = true → q r = false ∧ q (f r) = false) :
    (update p f t).filter q = t.filter q := by
  induction t with
  | nil => rfl
  | cons r t ih =>
    have ih := ih fun r' hr' => hq r' (List.mem_cons_of_mem r hr')
    simp only [update, List.map_cons] at ih ⊢
    by_cases hp : p r = true
    · obtain ⟨h1, h2⟩ := hq r List.mem_cons_self hp
      simp [hp, h1, h2, ih]
    · simp [hp, ih, List.filter_cons]

end Table

/-! ## Write transactions -/

/-- A write transaction on a database `d`: it commits what `run` computes, or raises the error of
`run` or an error that kept it out (`locked`), and then leaves the database as it was. -/
inductive Atomically {D E α : Type} (locked : E → Prop) (run : D → Except E (α × D)) (d : D) :
    Except E α → D → Prop
  | commit {a : α} {d' : D} (h : run d = .ok (a, d')) : Atomically locked run d (.ok a) d'
  | raise {e : E} (h : run d = .error e) : Atomically locked run d (.error e) d
  | kept {e : E} (h : locked e) : Atomically locked run d (.error e) d

/-- What a write transaction leaves is the database as it was, or what it committed. -/
lemma Atomically.cases {D E α : Type} {locked : E → Prop} {run : D → Except E (α × D)} {d d' : D}
    {r : Except E α} (h : Atomically locked run d r d') :
    d' = d ∨ ∃ a, r = .ok a ∧ run d = .ok (a, d') := by
  cases h with
  | commit h => exact Or.inr ⟨_, rfl, h⟩
  | raise => exact Or.inl rfl
  | kept => exact Or.inl rfl

/-- A write transaction that is answered with a value has committed. -/
lemma Atomically.ok {D E α : Type} {locked : E → Prop} {run : D → Except E (α × D)} {d d' : D}
    {a : α} (h : Atomically locked run d (.ok a) d') : run d = .ok (a, d') := by
  cases h with
  | commit h => exact h

/-! ## Fallible computations -/

/-- A sequence that raises nothing consists of parts that raise nothing. -/
lemma Except.bind_eq_ok {E α β : Type} {x : Except E α} {f : α → Except E β} {b : β} :
    (x >>= f) = .ok b ↔ ∃ a, x = .ok a ∧ f a = .ok b := by
  cases x with
  | error e => simp [bind, Except.bind]
  | ok a => simp [bind, Except.bind]

/-- A sequence of parts that raise nothing raises nothing. -/
lemma Except.exists_bind_ok {E α β : Type} {x : Except E α} {f : α → Except E β} {a : α}
    (hx : x = .ok a) (hf : ∃ b, f a = .ok b) : ∃ b, (x >>= f) = .ok b :=
  hf.imp fun _ hb => Except.bind_eq_ok.mpr ⟨a, hx, hb⟩

/-- A mapped result that raises nothing comes from one that raises nothing. -/
lemma Except.map_eq_ok {E α β : Type} {x : Except E α} {f : α → β} {b : β} :
    x.map f = .ok b ↔ ∃ a, x = .ok a ∧ f a = b := by
  cases x with
  | error e => simp [Except.map]
  | ok a => simp [Except.map]

/-- An optional argument that is converted without an error. -/
lemma optionMapM_ok {E α β : Type} {f : α → Except E β} {o : Option α} {o' : Option β}
    (h : o.mapM f = .ok o') :
    (o = none ∧ o' = none) ∨ ∃ a b, o = some a ∧ f a = .ok b ∧ o' = some b := by
  cases o with
  | none =>
    cases h
    exact Or.inl ⟨rfl, rfl⟩
  | some a =>
    rw [Option.mapM_some] at h
    cases hf : f a with
    | error e =>
      rw [hf] at h
      cases h
    | ok b =>
      rw [hf] at h
      cases h
      exact Or.inr ⟨a, b, rfl, hf, rfl⟩

/-- A loop over a list whose rounds raise nothing collects their results. -/
lemma mapM_eq_ok {E α β : Type} {f : α → Except E β} {g : α → β} {l : List α}
    (h : ∀ a ∈ l, f a = .ok (g a)) : l.mapM f = .ok (l.map g) := by
  induction l with
  | nil => rfl
  | cons a l ih =>
    rw [List.mapM_cons, h a List.mem_cons_self, ih fun a' ha' => h a' (List.mem_cons_of_mem a ha')]
    rfl

/-- What a loop collects, if the results of its rounds are known. -/
lemma eq_map_of_mapM_ok {E α β : Type} {f : α → Except E β} {g : α → β} {l : List α} {l' : List β}
    (hf : ∀ a b, f a = .ok b → b = g a) (h : l.mapM f = .ok l') : l' = l.map g := by
  induction l generalizing l' with
  | nil =>
    cases h
    rfl
  | cons a l ih =>
    rw [List.mapM_cons] at h
    obtain ⟨b, hb, h⟩ := Except.bind_eq_ok.mp h
    obtain ⟨rest, hrest, h⟩ := Except.bind_eq_ok.mp h
    cases h
    rw [hf a b hb, ih hrest, List.map_cons]

/-- A value that a loop returned is the value of one of the elements. -/
lemma exists_of_mapM_ok {E α β : Type} {f : α → Except E β} {l : List α} {l' : List β} {b : β}
    (h : l.mapM f = .ok l') (hb : b ∈ l') : ∃ a ∈ l, f a = .ok b := by
  induction l generalizing l' with
  | nil =>
    cases h
    exact absurd hb List.not_mem_nil
  | cons a l ih =>
    rw [List.mapM_cons] at h
    obtain ⟨b', hb', h⟩ := Except.bind_eq_ok.mp h
    obtain ⟨rest, hrest, h⟩ := Except.bind_eq_ok.mp h
    cases h
    rcases List.mem_cons.mp hb with rfl | hb
    · exact ⟨a, List.mem_cons_self, hb'⟩
    · obtain ⟨a, ha, hab⟩ := ih hrest hb
      exact ⟨a, List.mem_cons_of_mem _ ha, hab⟩

/-- The value of an element is among the values that a loop returned. -/
lemma mem_of_mapM_ok {E α β : Type} {f : α → Except E β} {l : List α} {l' : List β} {a : α}
    (h : l.mapM f = .ok l') (ha : a ∈ l) : ∃ b, f a = .ok b ∧ b ∈ l' := by
  induction l generalizing l' with
  | nil => exact absurd ha List.not_mem_nil
  | cons a' l ih =>
    rw [List.mapM_cons] at h
    obtain ⟨b, hb, h⟩ := Except.bind_eq_ok.mp h
    obtain ⟨rest, hrest, h⟩ := Except.bind_eq_ok.mp h
    cases h
    rcases List.mem_cons.mp ha with rfl | ha
    · exact ⟨b, hb, List.mem_cons_self⟩
    · obtain ⟨b, hb, hmem⟩ := ih hrest ha
      exact ⟨b, hb, List.mem_cons_of_mem _ hmem⟩

/-- The results of a loop, one for each element. -/
lemma forall₂_of_mapM_ok {E α β : Type} {f : α → Except E β} {l : List α} {l' : List β}
    (h : l.mapM f = .ok l') : List.Forall₂ (fun a b => f a = .ok b) l l' := by
  induction l generalizing l' with
  | nil =>
    cases h
    exact .nil
  | cons a l ih =>
    rw [List.mapM_cons] at h
    obtain ⟨b, hb, h⟩ := Except.bind_eq_ok.mp h
    obtain ⟨rest, hrest, h⟩ := Except.bind_eq_ok.mp h
    cases h
    exact .cons hb (ih hrest)

/-- What holds of every result of a loop, said of its elements. -/
lemma forall_of_mapM_ok {E α β : Type} {f : α → Except E β} {p : β → Prop} {q : α → Prop}
    {l : List α} {l' : List β} (h : l.mapM f = .ok l') (hpq : ∀ a b, f a = .ok b → (p b ↔ q a)) :
    (∀ b ∈ l', p b) ↔ ∀ a ∈ l, q a := by
  constructor
  · intro hp a ha
    obtain ⟨b, hb, hmem⟩ := mem_of_mapM_ok h ha
    exact (hpq a b hb).mp (hp b hmem)
  · intro hq b hb
    obtain ⟨a, ha, hab⟩ := exists_of_mapM_ok h hb
    exact (hpq a b hab).mpr (hq a ha)

/-- A map whose every call goes through goes through. -/
lemma exists_mapM_ok {E α β : Type} {f : α → Except E β} {l : List α}
    (h : ∀ a ∈ l, ∃ b, f a = .ok b) : ∃ l', l.mapM f = .ok l' := by
  induction l with
  | nil => exact ⟨[], rfl⟩
  | cons a l ih =>
    obtain ⟨b, hb⟩ := h a List.mem_cons_self
    obtain ⟨l', hl'⟩ := ih fun a' ha' => h a' (List.mem_cons_of_mem a ha')
    refine ⟨b :: l', ?_⟩
    rw [List.mapM_cons, hb, hl']
    rfl

/-- A search looks at the head first. -/
lemma findSome?_cons_or {α β : Type} (f : α → Option β) (a : α) (l : List α) :
    (a :: l).findSome? f = (f a).or (l.findSome? f) := by
  rw [List.findSome?_cons]
  cases f a <;> rfl

/-- What a computation raises. -/
def Except.error? {E α : Type} : Except E α → Option E
  | .ok _ => none
  | .error err => some err

/-- A computation that raises nothing returns. -/
lemma Except.error?_eq_none {E α : Type} {x : Except E α} :
    x.error? = none ↔ ∃ a, x = .ok a := by
  cases x <;> simp [Except.error?]

/-- Using up a result raises what forming it raises. -/
lemma Except.error?_bind_pure {E α β : Type} (x : Except E α) (f : α → β) :
    (x >>= fun a => pure (f a)).error? = x.error? := by
  cases x <;> rfl

/-- A loop raises what the first of its rounds raises that raises something. -/
lemma Except.error?_mapM {E α β : Type} (f : α → Except E β) (l : List α) :
    (l.mapM f).error? = l.findSome? fun a => (f a).error? := by
  induction l with
  | nil => rfl
  | cons a l ih =>
    rw [List.mapM_cons, findSome?_cons_or]
    cases f a with
    | error err => rfl
    | ok b => exact (Except.error?_bind_pure _ _).trans (ih.trans Option.none_or.symm)

/-- Searches that agree on every element agree. -/
lemma findSome?_congr {α β : Type} {f g : α → Option β} {l : List α} (h : ∀ a ∈ l, f a = g a) :
    l.findSome? f = l.findSome? g := by
  induction l with
  | nil => rfl
  | cons a l ih =>
    rw [List.forall_mem_cons] at h
    rw [findSome?_cons_or, findSome?_cons_or, h.1, ih h.2]

/-- Two loops whose rounds agree up to `c` agree up to `c`. -/
lemma mapM_map_eq {E α β γ : Type} {f g : α → Except E β} {h : α → α} {c : β → γ} {l : List α}
    (hfg : ∀ a ∈ l, (f (h a)).map c = (g a).map c) :
    ((l.map h).mapM f).map (List.map c) = (l.mapM g).map (List.map c) := by
  induction l with
  | nil => rfl
  | cons a l ih =>
    have ha := hfg a List.mem_cons_self
    have hl := ih fun a' ha' => hfg a' (List.mem_cons_of_mem a ha')
    rw [List.map_cons, List.mapM_cons, List.mapM_cons]
    generalize f (h a) = x at ha ⊢
    generalize g a = y at ha ⊢
    generalize (l.map h).mapM f = xs at hl ⊢
    generalize l.mapM g = ys at hl ⊢
    cases x <;> cases y <;> simp only [Except.map, Except.error.injEq, Except.ok.injEq,
      reduceCtorEq] at ha
    · exact congrArg Except.error ha
    · cases xs <;> cases ys <;> simp only [Except.map, Except.error.injEq, Except.ok.injEq,
        reduceCtorEq] at hl
      · exact congrArg Except.error hl
      · next b b' bs bs' =>
        refine congrArg Except.ok (?_ : List.map c (b :: bs) = List.map c (b' :: bs'))
        rw [List.map_cons, List.map_cons, ha, hl]

/-- A loop over selected rows that raises nothing keeps what each of its rounds keeps. -/
lemma foldlM_ok_induction {D E α : Type} {P : D → Prop} {f : D → α → Except E D} {l : List α}
    (hstep : ∀ d a d', a ∈ l → P d → f d a = .ok d' → P d') {d d' : D}
    (h : l.foldlM f d = .ok d') (hP : P d) : P d' := by
  induction l generalizing d with
  | nil =>
    cases h
    exact hP
  | cons a l ih =>
    rw [List.foldlM_cons] at h
    cases hf : f d a with
    | error e =>
      rw [hf] at h
      cases h
    | ok d₁ =>
      rw [hf] at h
      exact ih (fun d b d' hb => hstep d b d' (List.mem_cons_of_mem _ hb)) h
        (hstep d a d₁ List.mem_cons_self hP hf)
