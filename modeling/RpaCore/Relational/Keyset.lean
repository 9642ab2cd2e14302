import Mathlib.Data.List.Sort
import RpaCore.Relational.Table

set_option relaxedAutoImplicit false
set_option autoImplicit false

/-!
# Keyset pages

A page is the beginning of the rows behind a key, in the order of the keys, together with the mark
whether rows are left; the next page is read from behind the last row of the page before. The pages
of rows that do not change tile them. If the rows change between two reads, the rows that are read
still have increasing keys, and a key that is there in every read is reached.

## Main definitions

* `Keyset.select` — the rows behind a key, in order.
* `Keyset.page`, `Keyset.pages` — one page, and the pages of a traversal.
* `Keyset.Traversal` — reads by a function that answers with a page and a cursor.

## Main results

* `Keyset.select_eq_page` — a page and what is behind it are what was selected.
* `Keyset.pagesOf_split` — the pages of rows that do not change.
* `Keyset.pages_pairwise`, `Keyset.mem_pages`, `Keyset.pages_distinct` — rows that change.
* `Keyset.Traversal.shows` — reads that show keyset pages.
* `Keyset.exists_traversal` — reads that go through.
-/

namespace Keyset

variable {ρ κ : Type} [LinearOrder κ]

/-- The rows with a key behind `after`, in the order of the keys. -/
def select (key : ρ → κ) (after : Option κ) (t : List ρ) : List ρ :=
  (t.filter fun r => after.all fun k => k < key r).insertionSort fun a b => key a ≤ key b

/-- The records of a page, and whether there are more. -/
structure Page (ρ : Type) where
  records : List ρ
  hasMore : Bool

/-- At most `limit` rows, found by asking for one more. -/
def page (key : ρ → κ) (after : Option κ) (limit : ℕ) (t : List ρ) : Page ρ where
  records := ((select key after t).take (limit + 1)).take limit
  hasMore := limit < ((select key after t).take (limit + 1)).length

/-- The key of the last record. -/
def Page.last (key : ρ → κ) (pg : Page ρ) : Option κ := pg.records.getLast?.map key

/-- The pages that are read one after the other, each from the rows that its read finds. -/
def pages (key : ρ → κ) : Option κ → List (ℕ × List ρ) → List (Page ρ)
  | _, [] => []
  | after, (limit, t) :: reads =>
    let pg := page key after limit t
    pg :: if pg.hasMore then pages key (pg.last key) reads else []

/-- The traversal came to a page without a next one. -/
def Complete (pgs : List (Page ρ)) : Prop := pgs.getLast?.any fun pg => !pg.hasMore

variable {key : ρ → κ} {after : Option κ} {limit : ℕ} {t : List ρ} {r : ρ}

/-! ## Selected rows -/

/-- The rows that are selected. -/
lemma mem_select : r ∈ select key after t ↔ r ∈ t ∧ ∀ k ∈ after, k < key r := by
  simp [select, Option.all_eq_true, Option.mem_def]

/-- Sorting by relations that agree on a list. -/
lemma insertionSort_congr {α : Type} {r s : α → α → Prop} [DecidableRel r] [DecidableRel s]
    {l : List α} (h : ∀ a ∈ l, ∀ b ∈ l, r a b ↔ s a b) :
    l.insertionSort r = l.insertionSort s := by
  simpa using List.map_insertionSort r s id l h

/-- The selected rows, found by conditions that say the same of the keys. -/
lemma sorted_eq_select {q : ρ → Bool} {before : ρ → ρ → Prop} [DecidableRel before]
    (hbefore : ∀ a b, before a b ↔ key a ≤ key b)
    (hq : ∀ r, q r = after.all fun k => decide (k < key r)) (t : List ρ) :
    (t.filter q).insertionSort before = select key after t := by
  rw [select, insertionSort_congr fun a _ b _ => hbefore a b, List.filter_congr fun r _ => hq r]

/-- The selected rows have increasing keys. -/
lemma pairwise_select (after : Option κ) (hk : Table.Keyed key t) :
    (select key after t).Pairwise fun a b => key a < key b := by
  have hle : (select key after t).Pairwise fun a b => key a ≤ key b :=
    List.pairwise_insertionSort (fun a b : ρ => key a ≤ key b) _
  have hne : (select key after t).Pairwise fun a b => key a ≠ key b := by
    refine List.pairwise_map.mp ?_
    refine ((List.perm_insertionSort _ _).map key).nodup_iff.mpr ?_
    exact hk.filter _
  exact (hle.and hne).imp fun h => lt_of_le_of_ne h.1 h.2

/-- Lists with increasing keys and the same elements are equal. -/
lemma eq_of_pairwise {l l' : List ρ} (h : l.Pairwise fun a b => key a < key b)
    (h' : l'.Pairwise fun a b => key a < key b) (hmem : ∀ r, r ∈ l ↔ r ∈ l') : l = l' := by
  have hnodup : ∀ {l : List ρ}, l.Pairwise (fun a b => key a < key b) → l.Nodup := by
    intro l h
    refine h.imp ?_
    rintro a b hlt rfl
    exact lt_irrefl _ hlt
  have hperm : l.Perm l' := (List.perm_ext_iff_of_nodup (hnodup h) (hnodup h')).mpr hmem
  exact hperm.eq_of_pairwise (fun a b _ _ hab hba => absurd hab (lt_asymm hba)) h h'

/-- What is selected behind a row is what follows it. -/
lemma select_behind (hk : Table.Keyed key t) {front rest : List ρ}
    (h : select key after t = front ++ r :: rest) : select key (some (key r)) t = rest := by
  have hsorted := pairwise_select after hk
  rw [h] at hsorted
  obtain ⟨-, htail, hcross⟩ := List.pairwise_append.mp hsorted
  obtain ⟨hafter, hrest⟩ := List.pairwise_cons.mp htail
  have hmem : ∀ a, a ∈ select key after t ↔ a ∈ front ++ r :: rest := fun a => by rw [h]
  have hr := mem_select.mp ((hmem r).mpr (by simp))
  refine eq_of_pairwise (pairwise_select _ hk) hrest fun a => ?_
  rw [mem_select]
  constructor
  · rintro ⟨ha, hlt⟩
    have hlt := hlt (key r) rfl
    have hsel := mem_select.mpr ⟨ha, fun k hk' => lt_trans (hr.2 k hk') hlt⟩
    rcases List.mem_append.mp ((hmem a).mp hsel) with hfront | htail
    · exact absurd hlt (lt_asymm (hcross a hfront r List.mem_cons_self))
    · rcases List.mem_cons.mp htail with rfl | hrest
      · exact absurd hlt (lt_irrefl _)
      · exact hrest
  · intro ha
    have hsel := mem_select.mp ((hmem a).mpr (by simp [ha]))
    exact ⟨hsel.1, fun k hk' => Option.some.inj hk' ▸ hafter a ha⟩

/-! ## One page -/

/-- The records of a page are the first rows. -/
lemma page_records : (page key after limit t).records = (select key after t).take limit := by
  simp [page, List.take_take]

/-- A page has more exactly if not all rows are on it. -/
lemma page_hasMore :
    (page key after limit t).hasMore = true ↔ limit < (select key after t).length := by
  simp [page]

/-- The records of a page are selected. -/
lemma mem_page (h : r ∈ (page key after limit t).records) : r ∈ t ∧ ∀ k ∈ after, k < key r := by
  rw [page_records] at h
  exact mem_select.mp (List.mem_of_mem_take h)

/-- A page that has more has a last record. -/
lemma last_of_hasMore (hlimit : 0 < limit) (h : (page key after limit t).hasMore = true) :
    ∃ r front, (page key after limit t).records = front ++ [r] ∧
      (page key after limit t).last key = some (key r) := by
  rw [page_hasMore] at h
  have hne : (page key after limit t).records ≠ [] := by
    rw [page_records]
    intro hnil
    have := congrArg List.length hnil
    rw [List.length_take, List.length_nil] at this
    omega
  refine ⟨_, _, (List.dropLast_append_getLast hne).symm, ?_⟩
  rw [Page.last, List.getLast?_eq_getLast_of_ne_nil hne]
  rfl

/-- **A page and what is behind its last record are what was selected**, and nothing is behind a
page that has no more. -/
theorem select_eq_page (after : Option κ) (hk : Table.Keyed key t) (hlimit : 0 < limit) :
    select key after t = (page key after limit t).records ++
      if (page key after limit t).hasMore then
        select key ((page key after limit t).last key) t else [] := by
  split
  · next h =>
    obtain ⟨r, front, hrecords, hlast⟩ := last_of_hasMore hlimit h
    rw [hlast]
    have hsplit := List.take_append_drop limit (select key after t)
    rw [← page_records, hrecords, List.append_assoc, List.singleton_append] at hsplit
    rw [select_behind hk hsplit.symm, hrecords, List.append_assoc, List.singleton_append, hsplit]
  · next h =>
    rw [page_hasMore, not_lt] at h
    rw [page_records, List.take_of_length_le h, List.append_nil]

/-! ## Rows that change -/

variable {reads : List (ℕ × List ρ)}

/-- Every record of a traversal is behind its start and was found by one of its reads. -/
lemma of_mem_pages (hlimit : ∀ read ∈ reads, 0 < read.1)
    (h : r ∈ (pages key after reads).flatMap Page.records) :
    (∃ read ∈ reads, r ∈ read.2) ∧ ∀ k ∈ after, k < key r := by
  induction reads generalizing after with
  | nil => cases h
  | cons read reads ih =>
    obtain ⟨limit, t⟩ := read
    rw [pages, List.flatMap_cons] at h
    rcases List.mem_append.mp h with h | h
    · exact ⟨⟨_, List.mem_cons_self, (mem_page h).1⟩, (mem_page h).2⟩
    · split at h
      · next hmore =>
        obtain ⟨r', front, hrecords, hlast⟩ := last_of_hasMore (hlimit _ List.mem_cons_self) hmore
        have hmem : r' ∈ (page key after limit t).records := by simp [hrecords]
        obtain ⟨⟨read, hread, hr⟩, hlt⟩ :=
          ih (fun read hread => hlimit read (List.mem_cons_of_mem _ hread)) h
        exact ⟨⟨read, List.mem_cons_of_mem _ hread, hr⟩,
          fun k hk => lt_trans ((mem_page hmem).2 k hk) (hlt (key r') hlast)⟩
      · cases h

/-- **The records of a traversal have increasing keys**, however the rows change between the
reads. -/
theorem pages_pairwise (after : Option κ) (hlimit : ∀ read ∈ reads, 0 < read.1)
    (hk : ∀ read ∈ reads, Table.Keyed key read.2) :
    ((pages key after reads).flatMap Page.records).Pairwise fun a b => key a < key b := by
  induction reads generalizing after with
  | nil => exact List.Pairwise.nil
  | cons read reads ih =>
    obtain ⟨limit, t⟩ := read
    have hk₀ : Table.Keyed key t := hk _ List.mem_cons_self
    have hlimit' : ∀ read ∈ reads, 0 < read.1 :=
      fun read hread => hlimit read (List.mem_cons_of_mem _ hread)
    have hpage : (page key after limit t).records.Pairwise fun a b => key a < key b := by
      rw [page_records]
      exact (pairwise_select _ hk₀).sublist (List.take_sublist _ _)
    rw [pages, List.flatMap_cons]
    split
    · next hmore =>
      refine List.pairwise_append.mpr
        ⟨hpage, ih _ hlimit' fun read hread => hk read (List.mem_cons_of_mem _ hread), ?_⟩
      intro a ha b hb
      obtain ⟨r, front, hrecords, hlast⟩ := last_of_hasMore (hlimit _ List.mem_cons_self) hmore
      have hlt : key r < key b := (of_mem_pages hlimit' hb).2 (key r) hlast
      rw [hrecords] at ha hpage
      rcases List.mem_append.mp ha with ha | ha
      · have := (List.pairwise_append.mp hpage).2.2 a ha r (by simp)
        exact lt_trans this hlt
      · rw [List.mem_singleton.mp ha]
        exact hlt
    · simpa using hpage

/-- **No record is read twice** if the key of a record never moves towards the end.

**Proof sketch.** A record that is read a second time would have a greater key there. -/
theorem pages_distinct {ι : Type} (ident : ρ → ι) (hlimit : ∀ read ∈ reads, 0 < read.1)
    (hk : ∀ read ∈ reads, Table.Keyed key read.2)
    (hident : ∀ read ∈ reads, Table.Keyed ident read.2)
    (hmono : reads.Pairwise fun a b => ∀ r ∈ a.2, ∀ r' ∈ b.2, ident r = ident r' →
      key r' ≤ key r) :
    (((pages key after reads).flatMap Page.records).map ident).Nodup := by
  induction reads generalizing after with
  | nil => exact List.nodup_nil
  | cons read reads ih =>
    obtain ⟨limit, t⟩ := read
    obtain ⟨hfirst, hmono'⟩ := List.pairwise_cons.mp hmono
    have hlimit' : ∀ read ∈ reads, 0 < read.1 :=
      fun read hread => hlimit read (List.mem_cons_of_mem _ hread)
    have hpage : ((page key after limit t).records.map ident).Nodup := by
      have hsel : ((select key after t).map ident).Nodup :=
        ((List.perm_insertionSort _ _).map ident).nodup_iff.mpr
          ((hident _ List.mem_cons_self).filter _)
      rw [page_records]
      exact hsel.sublist ((List.take_sublist _ _).map ident)
    have hsorted := pages_pairwise after hlimit hk
    rw [pages, List.flatMap_cons] at hsorted ⊢
    split
    · next hmore =>
      rw [if_pos hmore] at hsorted
      rw [List.map_append, List.nodup_append]
      refine ⟨hpage, ih hlimit' (fun read hread => hk read (List.mem_cons_of_mem _ hread))
        (fun read hread => hident read (List.mem_cons_of_mem _ hread)) hmono', ?_⟩
      intro i hi j hj hij
      obtain ⟨a, ha, rfl⟩ := List.mem_map.mp hi
      obtain ⟨b, hb, rfl⟩ := List.mem_map.mp hj
      obtain ⟨⟨read, hread, hbread⟩, -⟩ := of_mem_pages hlimit' hb
      have hle := hfirst read hread a (mem_page ha).1 b hbread hij
      exact not_lt_of_ge hle ((List.pairwise_append.mp hsorted).2.2 a ha b hb)
    · simpa using hpage

/-- The rest of a traversal that ends comes to an end. -/
lemma Complete.tail {pg : Page ρ} {pgs : List (Page ρ)} (h : Complete (pg :: pgs))
    (hmore : pg.hasMore = true) : Complete pgs := by
  unfold Complete at h ⊢
  rw [List.getLast?_cons] at h
  cases hlast : pgs.getLast? with
  | none =>
    rw [hlast] at h
    simp [hmore] at h
  | some last =>
    rw [hlast] at h
    simpa using h

/-- **A key that is there in every read is reached** by a traversal that ends. -/
theorem mem_pages {k : κ} (hlimit : ∀ read ∈ reads, 0 < read.1)
    (hk : ∀ read ∈ reads, Table.Keyed key read.2)
    (hsel : ∀ read ∈ reads, ∃ r ∈ read.2, key r = k) (hafter : ∀ k' ∈ after, k' < k)
    (hdone : Complete (pages key after reads)) :
    ∃ r ∈ (pages key after reads).flatMap Page.records, key r = k := by
  induction reads generalizing after with
  | nil => cases hdone
  | cons read reads ih =>
    obtain ⟨limit, t⟩ := read
    obtain ⟨r, hr, rfl⟩ := hsel _ List.mem_cons_self
    have hmem : r ∈ select key after t := mem_select.mpr ⟨hr, hafter⟩
    rw [select_eq_page _ (hk _ List.mem_cons_self) (hlimit _ List.mem_cons_self)] at hmem
    rw [pages] at hdone ⊢
    rw [List.flatMap_cons]
    rcases List.mem_append.mp hmem with hmem | hmem
    · exact ⟨r, List.mem_append_left _ hmem, rfl⟩
    · split at hmem
      · next hmore =>
        rw [if_pos hmore] at hdone ⊢
        obtain ⟨r', hr', hkey⟩ := ih
          (fun read hread => hlimit read (List.mem_cons_of_mem _ hread))
          (fun read hread => hk read (List.mem_cons_of_mem _ hread))
          (fun read hread => hsel read (List.mem_cons_of_mem _ hread))
          (mem_select.mp hmem).2 (hdone.tail hmore)
        exact ⟨r', List.mem_append_right _ hr', hkey⟩
      · cases hmem

/-! ## Rows that do not change -/

/-- The pages of one list of rows, read with a list of limits. -/
def pagesOf (key : ρ → κ) (after : Option κ) (t : List ρ) (limits : List ℕ) : List (Page ρ) :=
  pages key after (limits.map fun limit => (limit, t))

variable {limits : List ℕ}

/-- **The pages of rows that do not change tile them**: up to any page they are the first ones,
and rows are left exactly if that page has more.

**Proof sketch.** A page and what is behind its last record are what was selected; the next page is
read from there. -/
theorem pagesOf_split (hk : Table.Keyed key t) (hlimit : ∀ n ∈ limits, 0 < n)
    {front back : List (Page ρ)} {pg : Page ρ}
    (h : pagesOf key after t limits = front ++ pg :: back) :
    ∃ rest, select key after t = (front ++ [pg]).flatMap Page.records ++ rest ∧
      (pg.hasMore = true ↔ rest ≠ []) := by
  induction limits generalizing after front with
  | nil => simp [pagesOf, pages] at h
  | cons limit limits ih =>
    have hpos : 0 < limit := hlimit _ List.mem_cons_self
    have htile := select_eq_page after hk hpos
    unfold pagesOf at h ih
    rw [List.map_cons, pages] at h
    cases front with
    | nil =>
      obtain ⟨rfl, -⟩ := List.cons.inj h
      refine ⟨_, by simpa using htile, ?_⟩
      split
      · next hmore =>
        refine iff_of_true hmore fun hnil => ?_
        rw [if_pos hmore, hnil, List.append_nil] at htile
        rw [page_hasMore, htile, page_records, List.length_take] at hmore
        omega
      · next hmore => exact iff_of_false hmore fun hne => hne rfl
    | cons pg₀ front =>
      obtain ⟨rfl, hback⟩ := List.cons.inj h
      split at hback
      · next hmore =>
        rw [if_pos hmore] at htile
        obtain ⟨rest, hrest, hiff⟩ := ih (fun n hn => hlimit n (List.mem_cons_of_mem _ hn)) hback
        refine ⟨rest, ?_, hiff⟩
        rw [htile, hrest]
        simp
      · cases front <;> cases hback

/-- The pages of a traversal that ends are the selected rows. -/
theorem pagesOf_complete (hk : Table.Keyed key t) (hlimit : ∀ n ∈ limits, 0 < n)
    (h : Complete (pagesOf key after t limits)) :
    (pagesOf key after t limits).flatMap Page.records = select key after t := by
  have hne : pagesOf key after t limits ≠ [] := by
    intro hnil
    rw [hnil] at h
    cases h
  have hsplit := (List.dropLast_append_getLast hne).symm
  obtain ⟨rest, hrest, hiff⟩ := pagesOf_split hk hlimit hsplit
  unfold Complete at h
  rw [List.getLast?_eq_getLast_of_ne_nil hne] at h
  have hnil : rest = [] := by
    by_contra hcon
    have hmore := hiff.mpr hcon
    simp [hmore] at h
  rw [← hsplit, hnil, List.append_nil] at hrest
  exact hrest.symm

/-- A traversal with enough reads ends. -/
theorem complete_pagesOf (hk : Table.Keyed key t) (hlimit : ∀ n ∈ limits, 0 < n)
    (h : (select key after t).length < limits.length) : Complete (pagesOf key after t limits) := by
  induction limits generalizing after with
  | nil => simp at h
  | cons limit limits ih =>
    have hpos : 0 < limit := hlimit _ List.mem_cons_self
    have htile := congrArg List.length (select_eq_page after hk hpos)
    unfold pagesOf at ih ⊢
    rw [List.map_cons, pages]
    by_cases hmore : (page key after limit t).hasMore = true
    · obtain ⟨r, front, hrecords, -⟩ := last_of_hasMore hpos hmore
      simp only [hmore, if_true] at htile ⊢
      rw [List.length_append, hrecords, List.length_append] at htile
      simp only [List.length_cons, List.length_nil] at htile h
      have hrest : Complete (pages key ((page key after limit t).last key)
          (limits.map fun limit => (limit, t))) :=
        ih (fun n hn => hlimit n (List.mem_cons_of_mem _ hn)) (by omega)
      unfold Complete at hrest ⊢
      rw [List.getLast?_cons]
      cases hlast : (pages key ((page key after limit t).last key)
          (limits.map fun limit => (limit, t))).getLast? with
      | none =>
        rw [hlast] at hrest
        cases hrest
      | some pg =>
        rw [hlast] at hrest
        simpa using hrest
    · simp only [Bool.not_eq_true] at hmore
      simp [hmore, Complete]

/-! ## Reads that answer with a cursor -/

section Traversal

variable {σ χ π ε : Type}

/-- Reads that follow the cursor of the page before until a page has no more; the traversal may
also stop before. -/
inductive Traversal (read : Option χ → σ → Except ε π) (hasMore : π → Bool)
    (next : π → Option χ) : Option χ → List σ → List π → Prop
  | stop (cursor : Option χ) : Traversal read hasMore next cursor [] []
  | last {cursor : Option χ} {s : σ} {pg : π} (answer : read cursor s = .ok pg)
      (hmore : hasMore pg = false) : Traversal read hasMore next cursor [s] [pg]
  | next {cursor : Option χ} {s : σ} {pg : π} {ss : List σ} {pgs : List π}
      (answer : read cursor s = .ok pg) (hmore : hasMore pg = true)
      (rest : Traversal read hasMore next (next pg) ss pgs) :
      Traversal read hasMore next cursor (s :: ss) (pg :: pgs)

/-- The last page that was read has no more. -/
def Ended (hasMore : π → Bool) (pgs : List π) : Prop := pgs.getLast?.any fun pg => !hasMore pg

variable {read : Option χ → σ → Except ε π} {hasMore : π → Bool} {next : π → Option χ}
  {place : χ → κ} {limit : σ → ℕ} {rows : σ → List ρ} {image : Page ρ → π → Prop}
  {cursor : Option χ} {ss : List σ} {pgs : List π}

/-- **Reads that show keyset pages read the pages of a traversal**: each answer shows the page
behind the place of its cursor, and its own cursor is at the last record. -/
theorem Traversal.shows (image : Page ρ → π → Prop)
    (h : Traversal read hasMore next cursor ss pgs)
    (hread : ∀ s ∈ ss, ∀ cursor pg, read cursor s = .ok pg →
      0 < limit s ∧ image (page key (cursor.map place) (limit s) (rows s)) pg)
    (hmore : ∀ {p pg}, image p pg → hasMore pg = p.hasMore)
    (hnext : ∀ {p pg}, image p pg → p.hasMore = true → (next pg).map place = p.last key) :
    List.Forall₂ image (pages key (cursor.map place) (ss.map fun s => (limit s, rows s))) pgs ∧
      ∀ read ∈ ss.map fun s => (limit s, rows s), 0 < read.1 := by
  induction h with
  | stop cursor => exact ⟨.nil, by simp⟩
  | @last cursor s pg answer hdone =>
    obtain ⟨hpos, himage⟩ := hread s List.mem_cons_self cursor pg answer
    rw [hmore himage] at hdone
    refine ⟨?_, by simpa using hpos⟩
    rw [List.map_singleton, pages, hdone]
    exact .cons himage .nil
  | @next cursor s pg ss pgs answer hfull rest ih =>
    obtain ⟨hpos, himage⟩ := hread s List.mem_cons_self cursor pg answer
    obtain ⟨hpages, hlimits⟩ := ih fun s hs => hread s (List.mem_cons_of_mem _ hs)
    rw [hmore himage] at hfull
    rw [hnext himage hfull] at hpages
    refine ⟨?_, ?_⟩
    · rw [List.map_cons, pages, hfull]
      exact .cons himage hpages
    · intro read hread
      rcases List.mem_cons.mp hread with rfl | hread
      · exact hpos
      · exact hlimits read hread

/-- Reads that show each keyset page in one way only. -/
theorem Traversal.eq_map (view : Page ρ → π) (h : Traversal read hasMore next cursor ss pgs)
    (hread : ∀ s ∈ ss, ∀ cursor pg, read cursor s = .ok pg →
      0 < limit s ∧ pg = view (page key (cursor.map place) (limit s) (rows s)))
    (hmore : ∀ p, hasMore (view p) = p.hasMore)
    (hnext : ∀ p : Page ρ, p.hasMore = true → (next (view p)).map place = p.last key) :
    pgs = (Keyset.pages key (cursor.map place) (ss.map fun s => (limit s, rows s))).map view ∧
      ∀ read ∈ ss.map fun s => (limit s, rows s), 0 < read.1 := by
  obtain ⟨hpages, hlimits⟩ := h.shows (fun p pg => pg = view p) hread
    (fun himage => himage ▸ hmore _) fun himage hmore => himage ▸ hnext _ hmore
  refine ⟨?_, hlimits⟩
  generalize Keyset.pages key (cursor.map place) (ss.map fun s => (limit s, rows s)) = kpgs
    at hpages
  clear h
  induction hpages with
  | nil => rfl
  | cons himage _ ih => rw [List.map_cons, himage, ih]

/-- **Reads that go through from every cursor they give are a traversal**, which ends or uses all
reads. -/
theorem exists_traversal (valid : Option χ → Prop) (hvalid : valid cursor)
    (hread : ∀ s ∈ ss, ∀ cursor, valid cursor → ∃ pg, read cursor s = .ok pg ∧ valid (next pg)) :
    ∃ n pgs, Traversal read hasMore next cursor (ss.take n) pgs ∧
      (Ended hasMore pgs ∨ n = ss.length) := by
  induction ss generalizing cursor with
  | nil => exact ⟨0, [], .stop cursor, .inr rfl⟩
  | cons s ss ih =>
    obtain ⟨pg, answer, hnext⟩ := hread s List.mem_cons_self cursor hvalid
    cases hmore : hasMore pg with
    | false =>
      refine ⟨1, [pg], .last answer hmore, .inl ?_⟩
      simp [Ended, hmore]
    | true =>
      obtain ⟨n, pgs, hrest, hend⟩ := ih hnext fun s hs => hread s (List.mem_cons_of_mem _ hs)
      refine ⟨n + 1, pg :: pgs, .next answer hmore hrest, hend.imp (fun hended => ?_) fun hn => ?_⟩
      · unfold Ended at hended ⊢
        cases pgs with
        | nil => cases hended
        | cons pg' pgs => rwa [List.getLast?_cons_cons]
      · rw [hn, List.length_cons]

/-- Pages end a traversal as the pages they show. -/
lemma ended_iff {kpgs : List (Page ρ)} (h : List.Forall₂ image kpgs pgs)
    (hmore : ∀ {p pg}, image p pg → hasMore pg = p.hasMore) :
    Ended hasMore pgs ↔ Complete kpgs := by
  induction h with
  | nil => exact Iff.rfl
  | @cons p pg kpgs pgs himage hrest ih =>
    unfold Ended Complete at ih ⊢
    cases hrest with
    | nil => simp [hmore himage]
    | cons _ _ => simpa using ih

end Traversal

end Keyset
